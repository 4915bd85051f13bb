import Enkaku.Expr.Lexing

/-!
# The parser against its grammar

`Derives` is the reference grammar of the expression language: which tokens derive which tree, on
each level of precedence, with how much nesting.  The parser is shown to return exactly what the
grammar derives, within the limits on nodes and on nesting.

* `Sound`: what a parser returns is derived from the tokens it took.
* `Complete`: what is derived from the tokens at hand is returned, if the token after them could not
  have continued it (`Level.continuing`).

Each parsing function is shown sound and complete for its level, from the parsers it calls; the
levels of nesting are then gone through by induction.
-/

set_option autoImplicit false

namespace Enkaku

open ParseState Throwing

/-! ## The grammar -/

/-- The levels of precedence, loosest first. -/
inductive Level where
  | expr | or | and | equality | comparison | additive | multiplicative | unary | access | primary
  deriving DecidableEq, Repr

/-- A level of binary operators: its operators, and the level of their operands. -/
def Level.binary? : Level → Option (List BinOp × Level)
  | or => some ([.or], and)
  | and => some ([.and], equality)
  | equality => some ([.eq, .ne], comparison)
  | comparison => some ([.lt, .le, .gt, .ge], additive)
  | additive => some ([.add, .sub], multiplicative)
  | multiplicative => some ([.mul, .div, .mod], unary)
  | _ => none

/-- The texts of the tokens a complete phrase of a level goes on at. -/
def Level.continuing : Level → List String
  | primary => []
  | access | unary => [".", "["]
  | multiplicative => ["*", "/", "%", ".", "["]
  | additive => ["+", "-", "*", "/", "%", ".", "["]
  | comparison => ["<", "<=", ">", ">=", "+", "-", "*", "/", "%", ".", "["]
  | equality => ["==", "!=", "<", "<=", ">", ">=", "+", "-", "*", "/", "%", ".", "["]
  | and => ["&&", "==", "!=", "<", "<=", ">", ">=", "+", "-", "*", "/", "%", ".", "["]
  | or => ["||", "&&", "==", "!=", "<", "<=", ">", ">=", "+", "-", "*", "/", "%", ".", "["]
  | expr => ["?", "||", "&&", "==", "!=", "<", "<=", ">", ">=", "+", "-", "*", "/", "%", ".", "["]

variable {number : Type}

/-- The tokens of the arguments after the first, each with the comma before it. -/
def laterArgs (args : List (List Tok × Expr number)) : List Tok :=
  args.flatMap fun p ↦ .punct "," :: p.1

/-- `Derives toNumber level n tokens e`: on this level the tokens derive the tree, with
parentheses, indices, arguments, branches and prefix operators nested at most `n` deep. -/
inductive Derives (toNumber : String → number) : Level → Nat → List Tok → Expr number → Prop
  | ternary {n : Nat} {c a b : List Tok} {ec ea eb : Expr number}
      (hc : Derives toNumber .or (n + 1) c ec) (ha : Derives toNumber .expr n a ea)
      (hb : Derives toNumber .expr n b eb) :
      Derives toNumber .expr (n + 1) (c ++ .punct "?" :: (a ++ .punct ":" :: b)) (.cond ec ea eb)
  | plain {n : Nat} {ts : List Tok} {e : Expr number} (h : Derives toNumber .or n ts e) :
      Derives toNumber .expr n ts e
  | join {level next : Level} {ops : List BinOp} {op : BinOp} {n : Nat} {l r : List Tok}
      {el er : Expr number} (hlevel : level.binary? = some (ops, next)) (hop : op ∈ ops)
      (hl : Derives toNumber level n l el) (hr : Derives toNumber next n r er) :
      Derives toNumber level n (l ++ .punct op.text :: r) (.bin op el er)
  | operand {level next : Level} {ops : List BinOp} {n : Nat} {ts : List Tok} {e : Expr number}
      (hlevel : level.binary? = some (ops, next)) (h : Derives toNumber next n ts e) :
      Derives toNumber level n ts e
  | signed {op : UnaryOp} {n : Nat} {ts : List Tok} {e : Expr number}
      (h : Derives toNumber .unary n ts e) :
      Derives toNumber .unary (n + 1) (.punct op.text :: ts) (.unary op e)
  | unsigned {n : Nat} {ts : List Tok} {e : Expr number} (h : Derives toNumber .access n ts e) :
      Derives toNumber .unary n ts e
  | member {n : Nat} {ts : List Tok} {e : Expr number} {key : String}
      (h : Derives toNumber .access n ts e) :
      Derives toNumber .access n (ts ++ [.punct ".", .ident key]) (.member e key)
  | index {n : Nat} {ts is : List Tok} {e i : Expr number}
      (h : Derives toNumber .access (n + 1) ts e) (hi : Derives toNumber .expr n is i)
      (hkey : i.isStringLiteral = false) :
      Derives toNumber .access (n + 1) (ts ++ .punct "[" :: (is ++ [.punct "]"])) (.index e i)
  | primary {n : Nat} {ts : List Tok} {e : Expr number} (h : Derives toNumber .primary n ts e) :
      Derives toNumber .access n ts e
  | num {n : Nat} {text : String} :
      Derives toNumber .primary n [.num text] (.lit (.num (toNumber text)))
  | str {n : Nat} {value : String} : Derives toNumber .primary n [.str value] (.lit (.str value))
  | root {n : Nat} {name : RootName} : Derives toNumber .primary n [.root name] (.root name)
  | keyword {n : Nat} {name : String} {v : Literal number} (h : keywordLiteral? name = some v) :
      Derives toNumber .primary n [.ident name] (.lit v)
  | callNone {n : Nat} {name : String} (hname : name ∈ functionNames) :
      Derives toNumber .primary n [.ident name, .punct "(", .punct ")"] (.call name [])
  | call {n : Nat} {name : String} {arg : List Tok × Expr number}
      {args : List (List Tok × Expr number)} (hname : name ∈ functionNames)
      (harg : Derives toNumber .expr n arg.1 arg.2)
      (hargs : ∀ p ∈ args, Derives toNumber .expr n p.1 p.2) :
      Derives toNumber .primary (n + 1)
        (.ident name :: .punct "(" :: (arg.1 ++ (laterArgs args ++ [.punct ")"])))
        (.call name (arg.2 :: args.map (·.2)))
  | paren {n : Nat} {ts : List Tok} {e : Expr number} (h : Derives toNumber .expr n ts e) :
      Derives toNumber .primary (n + 1) (.punct "(" :: (ts ++ [.punct ")"])) e

/-! ## One step of the parser -/

/-- The token a parser sees next. -/
def firstTok (rest : List Token) : Tok := (rest.headD ⟨.eof, 0⟩).tok

namespace ParseState

variable {s : ParseState} {t : Token} {rest : List Token} {n : Nat}

/-- The state after tokens have been taken, down to `rest`, and `n` nodes made. -/
def after (s : ParseState) (rest : List Token) (n : Nat) : ParseState :=
  { s with rest := rest, nodeCount := s.nodeCount + n }

@[simp] theorem after_rest : (s.after rest n).rest = rest := rfl

@[simp] theorem after_nodeCount : (s.after rest n).nodeCount = s.nodeCount + n := rfl

@[simp] theorem after_stop : (s.after rest n).stop = s.stop := rfl

@[simp] theorem after_after (rest' : List Token) (m : Nat) :
    (s.after rest n).after rest' m = s.after rest' (n + m) := by
  simp [after, Nat.add_assoc]

theorem peek_of_rest (h : s.rest = t :: rest) : s.peek = t := by
  rw [peek, h]
  rfl

theorem rest_of_peek {tok : Tok} (h : s.peek.tok = tok) (hne : tok ≠ .eof) :
    s.rest = s.peek :: s.rest.tail := by
  rw [peek] at h ⊢
  cases hrest : s.rest with
  | nil =>
    rw [hrest] at h
    exact absurd h.symm hne
  | cons t rest => rfl

theorem peek_tok (s : ParseState) : s.peek.tok = firstTok s.rest := by
  rw [peek, firstTok]
  cases s.rest <;> rfl

end ParseState

section Steps

variable {s s' : ParseState} {t : Token} {rest : List Token} {text name : String} {offset : Nat}

theorem peek_run (s : ParseState) : peek s = .ok (s.peek, s) := rfl

theorem tokensLeft_run (s : ParseState) : tokensLeft s = .ok (s.rest.length, s) := rfl

theorem advance_run (h : s.rest = t :: rest) : advance s = .ok ((), s.after rest 0) := by
  rw [advance, h]
  rfl

theorem matchPunct_run (h : s.rest = t :: rest) (ht : t.tok = .punct text) :
    matchPunct text s = .ok (some t, s.after rest 0) := by
  rw [matchPunct, bind_of_ok (peek_run s), peek_of_rest h, if_pos ht, bind_of_ok (advance_run h)]
  rfl

theorem matchPunct_miss (h : firstTok s.rest ≠ .punct text) : matchPunct text s = .ok (none, s) := by
  rw [matchPunct, bind_of_ok (peek_run s), if_neg (by rwa [peek_tok])]
  rfl

theorem expectPunct_run (h : s.rest = t :: rest) (ht : t.tok = .punct text) :
    expectPunct text s = .ok ((), s.after rest 0) := by
  rw [expectPunct, bind_of_ok (matchPunct_run h ht)]
  rfl

theorem expectIdent_run (h : s.rest = t :: rest) (ht : t.tok = .ident name) :
    expectIdent s = .ok ((name, t.offset), s.after rest 0) := by
  rw [expectIdent, bind_of_ok (peek_run s), peek_of_rest h, ht]
  dsimp only
  rw [bind_of_ok (advance_run h)]
  rfl

theorem countNode_run (h : s.nodeCount + 1 ≤ exprLimits.maxAstNodes) :
    countNode offset s = .ok ((), s.after s.rest 1) := by
  rw [countNode, if_neg (Nat.not_lt.mpr h)]
  rfl

theorem matchPunct_ok {r : Option Token} (h : matchPunct text s = .ok (r, s')) :
    (∃ t, r = some t ∧ t.tok = .punct text ∧ s.rest = t :: s'.rest ∧ s' = s.after s'.rest 0) ∨
      (r = none ∧ s' = s) := by
  rw [matchPunct, bind_of_ok (peek_run s)] at h
  cases hrest : s.rest with
  | nil =>
    have hpeek : s.peek.tok = .eof := by
      rw [ParseState.peek, hrest]
      rfl
    rw [if_neg (by rw [hpeek]; exact nofun)] at h
    obtain ⟨rfl, rfl⟩ := pure_ok_iff.mp h
    exact .inr ⟨rfl, rfl⟩
  | cons t rest =>
    rw [peek_of_rest hrest] at h
    split_ifs at h with ht
    · rw [bind_of_ok (advance_run hrest)] at h
      obtain ⟨rfl, rfl⟩ := pure_ok_iff.mp h
      exact .inl ⟨t, rfl, ht, rfl, rfl⟩
    · obtain ⟨rfl, rfl⟩ := pure_ok_iff.mp h
      exact .inr ⟨rfl, rfl⟩

theorem expectPunct_ok {u : Unit} (h : expectPunct text s = .ok (u, s')) :
    ∃ t : Token, t.tok = .punct text ∧ s.rest = t :: s'.rest ∧ s' = s.after s'.rest 0 := by
  obtain ⟨r, s₁, hr, hf⟩ := ok_of_bind h
  rcases matchPunct_ok hr with ⟨t, rfl, ht, hrest, hs⟩ | ⟨rfl, rfl⟩
  · obtain ⟨-, rfl⟩ := pure_ok_iff.mp hf
    exact ⟨t, ht, hrest, hs⟩
  · exact nomatch (show (Except.error _ : Except ExprParseError (Unit × ParseState)) = .ok _ from hf)

theorem expectIdent_ok {r : String × Nat} (h : expectIdent s = .ok (r, s')) :
    ∃ t : Token, t.tok = .ident r.1 ∧ s.rest = t :: s'.rest ∧ s' = s.after s'.rest 0 := by
  rw [expectIdent, bind_of_ok (peek_run s)] at h
  cases hrest : s.rest with
  | nil =>
    have hpeek : s.peek.tok = .eof := by
      rw [ParseState.peek, hrest]
      rfl
    rw [hpeek] at h
    exact nomatch h
  | cons t rest =>
    rw [peek_of_rest hrest] at h
    cases ht : t.tok with
    | ident name =>
      rw [ht] at h
      dsimp only at h
      rw [bind_of_ok (advance_run hrest)] at h
      obtain ⟨rfl, rfl⟩ := pure_ok_iff.mp h
      exact ⟨t, ht, rfl, rfl⟩
    | _ =>
      rw [ht] at h
      exact nomatch h

theorem countNode_ok {u : Unit} (h : countNode offset s = .ok (u, s')) :
    s' = s.after s.rest 1 ∧ s.nodeCount + 1 ≤ exprLimits.maxAstNodes := by
  rw [countNode] at h
  split_ifs at h with hmax
  cases h
  exact ⟨rfl, Nat.le_of_not_lt hmax⟩

end Steps

/-! ## Soundness and completeness of a parser -/

/-- Which tokens derive which tree. -/
abbrev Derivation (number : Type) := List Tok → Expr number → Prop

/-- What the parser returns is derived from the tokens it took, and every node is counted. -/
def Sound (p : Parsing (Expr number)) (d : Derivation number) : Prop :=
  ∀ s e s', p s = .ok (e, s') → ∃ ts, s.rest = ts ++ s'.rest ∧ d (ts.map (·.tok)) e ∧
    s' = s.after s'.rest e.size ∧ s'.nodeCount ≤ exprLimits.maxAstNodes

/-- Tokens that derive a tree, before a token that does not continue them, are parsed to it, if its
nodes can be counted. -/
def Complete (p : Parsing (Expr number)) (d : Derivation number) (continuing : List String) : Prop :=
  ∀ s ts rest e, s.rest = ts ++ rest → d (ts.map (·.tok)) e →
    (∀ text ∈ continuing, firstTok rest ≠ .punct text) →
    s.nodeCount + e.size ≤ exprLimits.maxAstNodes → p s = .ok (e, s.after rest e.size)

/-! ## Binary operators -/

theorem BinOp.text_inj {op op' : BinOp} (h : op.text = op'.text) : op = op' := by
  cases op <;> cases op' <;> first | rfl | exact nomatch h

/-- The operator a chain goes on with. -/
theorem find_op {ops : List BinOp} {op : BinOp} (hop : op ∈ ops) :
    (ops.find? fun op' ↦ Tok.punct op.text = .punct op'.text) = some op := by
  induction ops with
  | nil => exact nomatch hop
  | cons o ops ih =>
    rw [List.find?_cons]
    by_cases ho : op = o
    · simp [ho]
    · have hne : ¬ op.text = o.text := fun he ↦ ho (BinOp.text_inj he)
      simpa [hne] using ih (List.mem_of_ne_of_mem ho hop)

/-- An operand does not go on at an operator of its level, and the level does. -/
theorem Level.continuing_of_binary {level next : Level} {ops : List BinOp}
    (h : level.binary? = some (ops, next)) : next.continuing ⊆ level.continuing ∧
      ∀ op ∈ ops, BinOp.text op ∉ next.continuing ∧ op.text ∈ level.continuing := by
  cases level with
  | or | and | equality | comparison | additive | multiplicative =>
    cases h
    decide
  | _ => exact nomatch h

section Chain

variable {toNumber : String → number} {level next : Level} {ops : List BinOp} {n : Nat}
  {p : Parsing (Expr number)}

section

variable (hlevel : level.binary? = some (ops, next))
include hlevel

/-- What a chain's loop adds to the phrase it starts with. -/
theorem chainLoop_sound
    (hp : Sound p (Derives toNumber next n)) {offset fuel : Nat} {l e : Expr number}
    {s s' : ParseState} {before : List Tok} (hl : Derives toNumber level n before l)
    (hcount : s.nodeCount ≤ exprLimits.maxAstNodes)
    (h : chainLoop p ops offset fuel l s = .ok (e, s')) :
    ∃ ts k, s.rest = ts ++ s'.rest ∧ Derives toNumber level n (before ++ ts.map (·.tok)) e ∧
      s' = s.after s'.rest k ∧ l.size + k = e.size ∧ s'.nodeCount ≤ exprLimits.maxAstNodes := by
  induction fuel generalizing l s before with
  | zero =>
    obtain ⟨rfl, rfl⟩ := pure_ok_iff.mp h
    exact ⟨[], 0, rfl, by simpa using hl, rfl, rfl, hcount⟩
  | succ fuel ih =>
    rw [chainLoop, bind_of_ok (peek_run s)] at h
    cases hfind : ops.find? fun op ↦ s.peek.tok = .punct op.text with
    | none =>
      rw [hfind] at h
      obtain ⟨rfl, rfl⟩ := pure_ok_iff.mp h
      exact ⟨[], 0, rfl, by simpa using hl, rfl, rfl, hcount⟩
    | some op =>
      rw [hfind] at h
      have htok : s.peek.tok = .punct op.text := by simpa using List.find?_some hfind
      have hrest := rest_of_peek htok nofun
      dsimp only at h
      rw [bind_of_ok (advance_run hrest)] at h
      obtain ⟨r, s₁, hr, hcounted⟩ := ok_of_bind h
      obtain ⟨u, s₂, hu, hloop⟩ := ok_of_bind hcounted
      obtain ⟨ts, hts, hd, hs₁, -⟩ := hp _ _ _ hr
      obtain ⟨rfl, hmax⟩ := countNode_ok hu
      have hop : op ∈ ops := List.mem_of_find?_eq_some hfind
      obtain ⟨ts', k, hts', hd', hs', hk, hcount'⟩ :=
        ih (.join hlevel hop hl hd) (by simpa using hmax) hloop
      refine ⟨s.peek :: ts ++ ts', r.size + 1 + k, ?_, ?_, ?_, ?_, hcount'⟩
      · rw [hrest, show s.rest.tail = ts ++ s₁.rest from hts, show s₁.rest = ts' ++ s'.rest from hts']
        simp
      · simpa [htok] using hd'
      · rw [hs', hs₁]
        simp
      · rw [Expr.size] at hk
        omega

theorem parseBinaryChain_sound (hp : Sound p (Derives toNumber next n)) :
    Sound (parseBinaryChain p ops) (Derives toNumber level n) := by
  intro s e s' h
  rw [parseBinaryChain, bind_of_ok (peek_run s)] at h
  obtain ⟨l, s₁, hl, hloop⟩ := ok_of_bind h
  rw [bind_of_ok (tokensLeft_run s₁)] at hloop
  obtain ⟨ts, hts, hd, hs₁, hmax⟩ := hp _ _ _ hl
  obtain ⟨ts', k, hts', hd', hs', hk, hmax'⟩ :=
    chainLoop_sound hlevel hp (.operand hlevel hd) hmax hloop
  refine ⟨ts ++ ts', ?_, by simpa using hd', ?_, hmax'⟩
  · rw [hts, hts', List.append_assoc]
  · rw [hs', hs₁, after_after, hk]
    rfl

/-- On the way through a chain, the loop stands at the end of each phrase it has joined. -/
theorem chainLoop_reached {cont : List String}
    (hp : Complete p (Derives toNumber next n) cont) (hnot : ∀ op ∈ ops, BinOp.text op ∉ cont)
    {toks : List Tok} {e : Expr number} (hd : Derives toNumber level n toks e)
    {s : ParseState} {ts rest : List Token} (htoks : toks = ts.map (·.tok))
    (hrest : s.rest = ts ++ rest) (hstop : ∀ text ∈ cont, firstTok rest ≠ .punct text)
    (hcount : s.nodeCount + e.size ≤ exprLimits.maxAstNodes) :
    ∃ fuel, rest.length ≤ fuel ∧ parseBinaryChain p ops s =
      chainLoop p ops s.peek.offset fuel e (s.after rest e.size) := by
  induction hd generalizing s ts rest with
  | @join level' next' ops' op n l r el er hlevel' hop hl hr ihl ihr =>
    cases hlevel'.symm.trans hlevel
    obtain ⟨lt, ort, rfl, rfl, hort⟩ := List.map_eq_append_iff.mp htoks.symm
    obtain ⟨t, rt, rfl, ht, rfl⟩ := List.map_eq_cons_iff.mp hort
    rw [Expr.size] at hcount
    have hnext : ∀ text ∈ cont, firstTok (t :: rt ++ rest) ≠ .punct text := by
      intro text htext he
      have htext' : op.text = text := Tok.punct.inj (ht.symm.trans he)
      exact hnot op hop (htext' ▸ htext)
    obtain ⟨fuel, hfuel, hrun⟩ := ihl hlevel hp rfl
      (show s.rest = lt ++ (t :: rt ++ rest) by simpa using hrest) hnext (by omega)
    obtain ⟨fuel, rfl⟩ : ∃ k, fuel = k + 1 :=
      Nat.exists_eq_succ_of_ne_zero (by simp at hfuel; omega)
    refine ⟨fuel, by simp at hfuel; omega, ?_⟩
    have hpeek : (s.after (t :: rt ++ rest) el.size).peek = t := rfl
    have htake : advance (s.after (t :: rt ++ rest) el.size) =
        .ok ((), s.after (rt ++ rest) el.size) := rfl
    have hright := hp (s.after (rt ++ rest) el.size) rt rest er rfl hr hstop (by simp; omega)
    rw [hrun, chainLoop, bind_of_ok (peek_run _), hpeek, ht, find_op hop]
    dsimp only
    rw [bind_of_ok htake, bind_of_ok hright,
      bind_of_ok (countNode_run (by simp; omega))]
    simp [Expr.size]
  | @operand level' next' ops' n toks e hlevel' h ih =>
    cases hlevel'.symm.trans hlevel
    subst htoks
    refine ⟨rest.length, le_rfl, ?_⟩
    rw [parseBinaryChain, bind_of_ok (peek_run s),
      bind_of_ok (hp s ts rest e hrest h hstop hcount), bind_of_ok (tokensLeft_run _)]
    rfl
  | _ => exact nomatch hlevel

end

/-- A loop that has no operator before it is done. -/
theorem chainLoop_done {offset fuel : Nat} {e : Expr number} {s : ParseState}
    (hstop : ∀ op ∈ ops, firstTok s.rest ≠ .punct op.text) :
    chainLoop p ops offset fuel e s = .ok (e, s) := by
  cases fuel with
  | zero => rfl
  | succ fuel =>
    have hnone : (ops.find? fun op ↦ s.peek.tok = .punct op.text) = none := by
      rw [List.find?_eq_none]
      intro op hop
      rw [peek_tok]
      simpa using hstop op hop
    rw [chainLoop, bind_of_ok (peek_run s), hnone]
    rfl

theorem parseBinaryChain_complete (hlevel : level.binary? = some (ops, next))
    (hp : Complete p (Derives toNumber next n) next.continuing) :
    Complete (parseBinaryChain p ops) (Derives toNumber level n) level.continuing := by
  have hsub := Level.continuing_of_binary hlevel
  intro s ts rest e hrest hd hstop hcount
  obtain ⟨fuel, -, hrun⟩ := chainLoop_reached hlevel hp (fun op hop ↦ (hsub.2 op hop).1) hd rfl hrest
    (fun text htext ↦ hstop text (hsub.1 htext)) hcount
  rw [hrun]
  exact chainLoop_done fun op hop ↦ hstop op.text (hsub.2 op hop).2

end Chain

/-! ## Arguments and calls -/

/-- An expression one level down; there is none below the last. -/
def Inner (toNumber : String → number) : Nat → Derivation number
  | 0 => fun _ _ ↦ False
  | n + 1 => Derives toNumber .expr n

/-- No expression starts with the token that would end a list of arguments. -/
theorem Derives.head {toNumber : String → number} {level : Level} {n : Nat} {ts : List Tok}
    {e : Expr number} (h : Derives toNumber level n ts e) :
    ∃ tok rest, ts = tok :: rest ∧ tok ≠ .punct ")" := by
  induction h with
  | ternary _ _ _ ih | join _ _ _ _ ih | member _ ih | index _ _ _ ih =>
    obtain ⟨tok, rest, rfl, htok⟩ := ih
    exact ⟨tok, _, rfl, htok⟩
  | plain _ ih | operand _ _ ih | unsigned _ ih | primary _ ih => exact ih
  | @signed op =>
    refine ⟨_, _, rfl, fun he ↦ ?_⟩
    cases op <;> exact absurd (Tok.punct.inj he) (by decide)
  | paren => exact ⟨_, _, rfl, fun he ↦ absurd (Tok.punct.inj he) (by decide)⟩
  | _ => exact ⟨_, _, rfl, nofun⟩

section Primary

variable {toNumber : String → number} {n : Nat} {inner : Parsing (Expr number)}

/-- The token that closes a phrase is no continuation of an expression. -/
theorem stop_of_closing {text : String} (hclose : text ∉ Level.expr.continuing)
    {rest : List Token} (h : firstTok rest = .punct text) :
    ∀ text' ∈ Level.expr.continuing, firstTok rest ≠ .punct text' := by
  intro text' htext' he
  obtain rfl := Tok.punct.inj (h.symm.trans he)
  exact hclose htext'

/-- An argument ends before the next comma, and before the closing parenthesis. -/
theorem stop_of_laterArgs {ps : List (List Tok × Expr number)} {ts rest : List Token}
    (hts : ts.map (·.tok) = laterArgs ps) (hclose : firstTok rest = .punct ")") :
    ∀ text ∈ Level.expr.continuing, firstTok (ts ++ rest) ≠ .punct text := by
  cases ps with
  | nil =>
    obtain rfl := List.map_eq_nil_iff.mp hts
    exact stop_of_closing (by decide) hclose
  | cons p ps =>
    obtain ⟨t, ts, rfl, ht, -⟩ := List.map_eq_cons_iff.mp
      (show ts.map (·.tok) = .punct "," :: (p.1 ++ laterArgs ps) from hts)
    exact stop_of_closing (show "," ∉ Level.expr.continuing by decide) ht

theorem parseArgs_sound (hinner : Sound inner (Inner toNumber n)) {fuel : Nat}
    {args args' : List (Expr number)} {s s' : ParseState}
    (hcount : s.nodeCount ≤ exprLimits.maxAstNodes)
    (h : parseArgs inner fuel args s = .ok (args', s')) :
    ∃ ts ps, s.rest = ts ++ s'.rest ∧ ts.map (·.tok) = laterArgs ps ∧
      args' = args ++ ps.map (·.2) ∧ (∀ p ∈ ps, Inner toNumber n p.1 p.2) ∧
      s' = s.after s'.rest (Expr.sizes (ps.map (·.2))) ∧
      s'.nodeCount ≤ exprLimits.maxAstNodes := by
  induction fuel generalizing args s with
  | zero =>
    obtain ⟨rfl, rfl⟩ := pure_ok_iff.mp h
    exact ⟨[], [], rfl, rfl, by simp, by simp, rfl, hcount⟩
  | succ fuel ih =>
    obtain ⟨m, s₁, hm, hmatch⟩ := ok_of_bind h
    rcases matchPunct_ok hm with ⟨t, rfl, ht, hrest, hs₁⟩ | ⟨rfl, rfl⟩
    · obtain ⟨a, s₂, ha, hloop⟩ := ok_of_bind hmatch
      obtain ⟨ts, hts, hd, hs₂, hmax⟩ := hinner _ _ _ ha
      obtain ⟨ts', ps, hts', htoks, rfl, hps, hs', hmax'⟩ := ih hmax hloop
      refine ⟨t :: ts ++ ts', (ts.map (·.tok), a) :: ps, ?_, ?_, by simp, ?_, ?_, hmax'⟩
      · rw [hrest, hts, hts']
        simp
      · simp [ht, htoks, laterArgs]
      · exact List.forall_mem_cons.mpr ⟨hd, hps⟩
      · rw [hs', hs₂, hs₁]
        simp [Expr.sizes]
    · obtain ⟨rfl, rfl⟩ := pure_ok_iff.mp hmatch
      exact ⟨[], [], rfl, rfl, by simp, by simp, rfl, hcount⟩

theorem parseArgs_complete (hinner : Complete inner (Inner toNumber n) Level.expr.continuing)
    {ps : List (List Tok × Expr number)} (hps : ∀ p ∈ ps, Inner toNumber n p.1 p.2) {fuel : Nat}
    {args : List (Expr number)} {s : ParseState} {ts rest : List Token}
    (hrest : s.rest = ts ++ rest) (hts : ts.map (·.tok) = laterArgs ps)
    (hclose : firstTok rest = .punct ")") (hfuel : ts.length ≤ fuel)
    (hcount : s.nodeCount + Expr.sizes (ps.map (·.2)) ≤ exprLimits.maxAstNodes) :
    parseArgs inner fuel args s =
      .ok (args ++ ps.map (·.2), s.after rest (Expr.sizes (ps.map (·.2)))) := by
  induction ps generalizing fuel args s ts with
  | nil =>
    obtain rfl := List.map_eq_nil_iff.mp hts
    have hself : s.after rest 0 = s := by rw [after, ← List.nil_append rest, ← hrest]; rfl
    cases fuel with
    | zero => simp [parseArgs, Expr.sizes, hself]; rfl
    | succ fuel =>
      have hmiss : firstTok s.rest ≠ .punct "," := by
        rw [hrest, List.nil_append, hclose]
        exact fun he ↦ absurd (Tok.punct.inj he) (by decide)
      rw [parseArgs, bind_of_ok (matchPunct_miss hmiss)]
      simp [Expr.sizes, hself]
      rfl
  | cons p ps ih =>
    have hts' : ts.map (·.tok) = .punct "," :: (p.1 ++ laterArgs ps) := hts
    obtain ⟨t, ts, rfl, ht, htail⟩ := List.map_eq_cons_iff.mp hts'
    obtain ⟨pt, rt, rfl, hpt, hrt⟩ := List.map_eq_append_iff.mp htail
    obtain ⟨fuel, rfl⟩ : ∃ k, fuel = k + 1 :=
      Nat.exists_eq_succ_of_ne_zero (by simp at hfuel; omega)
    rw [List.map_cons, Expr.sizes] at hcount
    have hstop := stop_of_laterArgs hrt hclose
    have harg := hinner (s.after (pt ++ (rt ++ rest)) 0) pt (rt ++ rest) p.2 rfl
      (hpt ▸ hps p (.head _)) hstop (by simp; omega)
    rw [parseArgs, bind_of_ok (matchPunct_run (by simpa using hrest) ht)]
    dsimp only
    rw [bind_of_ok harg, ih (fun q hq ↦ hps q (.tail _ hq)) rfl hrt
      (by simp at hfuel ⊢; omega) (by simp; omega)]
    simp [Expr.sizes]

theorem parseArgList_sound (hinner : Sound inner (Inner toNumber n)) {args : List (Expr number)}
    {s s' : ParseState} (h : parseArgList inner s = .ok (args, s')) :
    (args = [] ∧ s' = s) ∨ ∃ ts arg ps, s.rest = ts ++ s'.rest ∧
      ts.map (·.tok) = arg.1 ++ laterArgs ps ∧ args = arg.2 :: ps.map (·.2) ∧
      (∀ p ∈ arg :: ps, Inner toNumber n p.1 p.2) ∧
      s' = s.after s'.rest (Expr.sizes args) ∧ s'.nodeCount ≤ exprLimits.maxAstNodes := by
  rw [parseArgList, bind_of_ok (peek_run s)] at h
  split_ifs at h with hclose
  · obtain ⟨rfl, rfl⟩ := pure_ok_iff.mp h
    exact .inl ⟨rfl, rfl⟩
  · obtain ⟨a, s₁, ha, hargs⟩ := ok_of_bind h
    rw [bind_of_ok (tokensLeft_run s₁)] at hargs
    obtain ⟨ts, hts, hd, hs₁, hmax⟩ := hinner _ _ _ ha
    obtain ⟨ts', ps, hts', htoks, rfl, hps, hs', hmax'⟩ := parseArgs_sound hinner hmax hargs
    refine .inr ⟨ts ++ ts', (ts.map (·.tok), a), ps, ?_, by simp [htoks], by simp, ?_, ?_, hmax'⟩
    · rw [hts, hts', List.append_assoc]
    · exact List.forall_mem_cons.mpr ⟨hd, hps⟩
    · rw [hs', hs₁]
      simp [Expr.sizes]

theorem parseCall_sound (hinner : Sound inner (Inner toNumber n)) {name : String} {offset : Nat}
    {s s' : ParseState} {t₀ t₁ : Token} {rest : List Token} {e : Expr number}
    (hrest : s.rest = t₀ :: t₁ :: rest) (h₀ : t₀.tok = .ident name) (h₁ : t₁.tok = .punct "(")
    (h : parseCall inner name offset s = .ok (e, s')) :
    ∃ ts, s.rest = ts ++ s'.rest ∧ Derives toNumber .primary n (ts.map (·.tok)) e ∧
      s' = s.after s'.rest e.size ∧ s'.nodeCount ≤ exprLimits.maxAstNodes := by
  rw [parseCall] at h
  split_ifs at h with hname
  · have hname' : name ∈ functionNames := by simpa using hname
    have htake : advance (s.after (t₁ :: rest) 0) = .ok ((), s.after rest 0) := rfl
    rw [bind_of_ok (advance_run hrest), bind_of_ok htake] at h
    obtain ⟨args, s₁, hargs, hclose⟩ := ok_of_bind h
    obtain ⟨u, s₂, hu, hnode⟩ := ok_of_bind hclose
    obtain ⟨u', s₃, hu', hret⟩ := ok_of_bind hnode
    obtain ⟨t, ht, hrest₁, hs₂⟩ := expectPunct_ok hu
    obtain ⟨hs₃, hmax⟩ := countNode_ok hu'
    obtain ⟨rfl, rfl⟩ := pure_ok_iff.mp hret
    have hmax' : s₃.nodeCount ≤ exprLimits.maxAstNodes := by
      rw [hs₃]
      exact hmax
    have hs₃rest : s₃.rest = s₂.rest := by rw [hs₃]; rfl
    rcases parseArgList_sound hinner hargs with ⟨rfl, rfl⟩ |
      ⟨ts, arg, ps, hts, htoks, rfl, hps, hs₁, -⟩
    · refine ⟨[t₀, t₁, t], ?_, ?_, ?_, hmax'⟩
      · rw [hrest, hs₃rest, show rest = t :: s₂.rest from hrest₁]
        rfl
      · simpa [h₀, h₁, ht] using .callNone hname'
      · rw [hs₃rest, hs₃, hs₂]
        simp [Expr.size, Expr.sizes]
    · refine ⟨t₀ :: t₁ :: (ts ++ [t]), ?_, ?_, ?_, hmax'⟩
      · rw [hrest, hs₃rest, show rest = ts ++ s₁.rest from hts, hrest₁]
        simp
      · cases n with
        | zero => exact (hps arg (.head _)).elim
        | succ n =>
          have hd : Derives toNumber .primary (n + 1) _ _ := .call hname'
            (hps arg (.head _)) fun p hp ↦ hps p (.tail _ hp)
          simpa [h₀, h₁, ht, htoks] using hd
      · rw [hs₃rest, hs₃, hs₂, hs₁]
        simp [Expr.size]
  · cases h

theorem parseCall_complete {args : List (Expr number)} {name : String} {offset : Nat}
    {s : ParseState} {t₀ t₁ t : Token} {ts rest : List Token} (hname : name ∈ functionNames)
    (hrest : s.rest = t₀ :: t₁ :: (ts ++ t :: rest)) (ht : t.tok = .punct ")")
    (hargs : parseArgList inner (s.after (ts ++ t :: rest) 0) =
      .ok (args, s.after (t :: rest) (Expr.sizes args)))
    (hcount : s.nodeCount + (Expr.sizes args + 1) ≤ exprLimits.maxAstNodes) :
    parseCall inner name offset s = .ok (.call name args, s.after rest (Expr.sizes args + 1)) := by
  have htake : advance (s.after (t₁ :: (ts ++ t :: rest)) 0) =
      .ok ((), s.after (ts ++ t :: rest) 0) := rfl
  have hclose : expectPunct ")" (s.after (t :: rest) (Expr.sizes args)) =
      .ok ((), s.after rest (Expr.sizes args)) := by
    rw [expectPunct_run rfl ht]
    simp
  have hnode : countNode offset (s.after rest (Expr.sizes args)) =
      .ok ((), s.after rest (Expr.sizes args + 1)) := by
    rw [countNode_run (by simp; omega)]
    simp
  rw [parseCall, if_pos (by simpa using hname), bind_of_ok (advance_run hrest),
    bind_of_ok htake, bind_of_ok hargs, bind_of_ok hclose,
    bind_of_ok hnode]
  rfl

theorem parseArgList_none {s : ParseState} (h : firstTok s.rest = .punct ")") :
    parseArgList inner s = .ok ([], s) := by
  rw [parseArgList, bind_of_ok (peek_run s), peek_tok, h, if_pos rfl]
  rfl

theorem parseArgList_complete (hinner : Complete inner (Inner toNumber n) Level.expr.continuing)
    {arg : List Tok × Expr number} {ps : List (List Tok × Expr number)}
    (hps : ∀ p ∈ arg :: ps, Inner toNumber n p.1 p.2) {s : ParseState} {ts rest : List Token}
    (hrest : s.rest = ts ++ rest) (hts : ts.map (·.tok) = arg.1 ++ laterArgs ps)
    (hclose : firstTok rest = .punct ")")
    (hcount : s.nodeCount + Expr.sizes (arg.2 :: ps.map (·.2)) ≤ exprLimits.maxAstNodes) :
    parseArgList inner s = .ok (arg.2 :: ps.map (·.2),
      s.after rest (Expr.sizes (arg.2 :: ps.map (·.2)))) := by
  obtain ⟨at_, rt, rfl, hat, hrt⟩ := List.map_eq_append_iff.mp hts
  have harg : Inner toNumber n (at_.map (·.tok)) arg.2 := hat ▸ hps arg (.head _)
  have hnot : s.peek.tok ≠ .punct ")" := by
    cases n with
    | zero => exact harg.elim
    | succ n =>
      obtain ⟨tok, toks, htoks, hne⟩ := Derives.head (show Derives toNumber .expr n _ _ from harg)
      obtain ⟨t, at_, rfl, ht, -⟩ := List.map_eq_cons_iff.mp htoks
      rw [peek_tok, hrest]
      exact fun he ↦ hne (ht.symm.trans he)
  have hstop := stop_of_laterArgs hrt hclose
  rw [Expr.sizes] at hcount
  rw [parseArgList, bind_of_ok (peek_run s), if_neg hnot,
    bind_of_ok (hinner s at_ (rt ++ rest) arg.2 (by simpa using hrest) harg hstop (by omega)),
    bind_of_ok (tokensLeft_run _),
    parseArgs_complete hinner (fun p hp ↦ hps p (.tail _ hp)) rfl hrt hclose
      (by simp) (by simp; omega)]
  simp [Expr.sizes]

/-! ## Primaries -/

theorem leaf_run {e : Expr number} {offset : Nat} {s : ParseState} {t : Token} {rest : List Token}
    (hrest : s.rest = t :: rest) (hcount : s.nodeCount + 1 ≤ exprLimits.maxAstNodes) :
    leaf e offset s = .ok (e, s.after rest 1) := by
  have hnode : countNode offset (s.after rest 0) = .ok ((), s.after rest 1) := by
    rw [countNode_run (by simpa using hcount)]
    simp
  rw [leaf, bind_of_ok (advance_run hrest), bind_of_ok hnode]
  rfl

theorem leaf_sound {e e' : Expr number} {offset : Nat} {s s' : ParseState}
    (hrest : s.rest = s.peek :: s.rest.tail) (hsize : e.size = 1)
    (hd : Derives toNumber .primary n [s.peek.tok] e)
    (h : leaf e offset s = .ok (e', s')) :
    ∃ ts, s.rest = ts ++ s'.rest ∧ Derives toNumber .primary n (ts.map (·.tok)) e' ∧
      s' = s.after s'.rest e'.size ∧ s'.nodeCount ≤ exprLimits.maxAstNodes := by
  rw [leaf, bind_of_ok (advance_run hrest)] at h
  obtain ⟨u, s₁, hu, hret⟩ := ok_of_bind h
  obtain ⟨rfl, hmax⟩ := countNode_ok hu
  obtain ⟨rfl, rfl⟩ := pure_ok_iff.mp hret
  exact ⟨[s.peek], hrest, hd, by simp [hsize], hmax⟩

theorem parsePrimary_sound (hinner : Sound inner (Inner toNumber n)) :
    Sound (parsePrimary toNumber inner) (Derives toNumber .primary n) := by
  intro s e s' h
  rw [parsePrimary, bind_of_ok (peek_run s)] at h
  cases htok : s.peek.tok with
  | num text =>
    rw [htok] at h
    exact leaf_sound (rest_of_peek htok nofun) rfl (htok ▸ .num) h
  | str value =>
    rw [htok] at h
    exact leaf_sound (rest_of_peek htok nofun) rfl (htok ▸ .str) h
  | root name =>
    rw [htok] at h
    exact leaf_sound (rest_of_peek htok nofun) rfl (htok ▸ .root) h
  | ident name =>
    have hrest := rest_of_peek htok nofun
    rw [htok] at h
    dsimp only at h
    cases hkey : (keywordLiteral? name : Option (Literal number)) with
    | some v =>
      rw [hkey] at h
      exact leaf_sound hrest rfl (htok ▸ .keyword hkey) h
    | none =>
      rw [hkey] at h
      have hnext : peekNext s = .ok (s.rest.tail.head?, s) := rfl
      dsimp only at h
      rw [bind_of_ok hnext] at h
      split_ifs at h with hopen
      · obtain ⟨t, ht, hpunct⟩ := (Option.any_eq_true _ _).mp hopen
        obtain ⟨rest, htail⟩ : ∃ rest, s.rest.tail = t :: rest :=
          List.head?_eq_some_iff.mp ht
        exact parseCall_sound hinner (by rw [hrest, htail]) htok (by simpa using hpunct) h
      · exact nomatch h
  | punct text =>
    have hrest := rest_of_peek htok nofun
    rw [htok] at h
    dsimp only at h
    split_ifs at h with hopen
    · subst hopen
      rw [bind_of_ok (advance_run hrest)] at h
      obtain ⟨e₁, s₁, he, hclose⟩ := ok_of_bind h
      obtain ⟨u, s₂, hu, hret⟩ := ok_of_bind hclose
      obtain ⟨t, ht, hrest₁, hs₂⟩ := expectPunct_ok hu
      obtain ⟨ts, hts, hd, hs₁, hmax⟩ := hinner _ _ _ he
      obtain ⟨rfl, rfl⟩ := pure_ok_iff.mp hret
      refine ⟨s.peek :: (ts ++ [t]), ?_, ?_, ?_, ?_⟩
      · rw [hrest, show s.rest.tail = ts ++ s₁.rest from hts, hrest₁]
        simp
      · cases n with
        | zero => exact hd.elim
        | succ n =>
          have hparen : Derives toNumber .primary (n + 1) _ _ := .paren hd
          simpa [htok, ht] using hparen
      · rw [hs₂, hs₁]
        simp
      · rw [hs₂]
        simpa using hmax
    · exact nomatch h
  | eof =>
    rw [htok] at h
    exact nomatch h

theorem keywordLiteral?_of_function {name : String} (h : name ∈ functionNames) :
    (keywordLiteral? name : Option (Literal number)) = none := by
  rw [functionNames] at h
  fin_cases h <;> rfl

theorem parsePrimary_complete (hinner : Complete inner (Inner toNumber n) Level.expr.continuing) :
    Complete (parsePrimary toNumber inner) (Derives toNumber .primary n) Level.primary.continuing := by
  intro s ts rest e hrest hd _ hcount
  generalize htoks : ts.map (·.tok) = toks at hd
  rw [parsePrimary, bind_of_ok (peek_run s)]
  cases hd with
  | num | str | root =>
    obtain ⟨t, rfl, ht⟩ := List.map_eq_singleton_iff.mp htoks
    rw [peek_of_rest hrest, ht]
    exact leaf_run hrest hcount
  | keyword hkey =>
    obtain ⟨t, rfl, ht⟩ := List.map_eq_singleton_iff.mp htoks
    rw [peek_of_rest hrest, ht]
    dsimp only
    rw [hkey]
    exact leaf_run hrest hcount
  | @callNone _ name hname =>
    obtain ⟨t₀, ts₀, rfl, h₀, htail⟩ := List.map_eq_cons_iff.mp htoks
    obtain ⟨t₁, ts₁, rfl, h₁, htail⟩ := List.map_eq_cons_iff.mp htail
    obtain ⟨t, rfl, ht⟩ := List.map_eq_singleton_iff.mp htail
    have hnext : peekNext s = .ok (some t₁, s) := by
      rw [peekNext, hrest]
      rfl
    rw [peek_of_rest hrest, h₀]
    dsimp only
    rw [keywordLiteral?_of_function hname]
    dsimp only
    rw [bind_of_ok hnext, if_pos (by simp [h₁])]
    have hargs : parseArgList inner (s.after ([] ++ t :: rest) 0) =
        .ok ([], s.after (t :: rest) (Expr.sizes ([] : List (Expr number)))) := parseArgList_none ht
    exact parseCall_complete hname
      (show s.rest = t₀ :: t₁ :: ([] ++ t :: rest) from hrest) ht hargs hcount
  | @call n name arg args hname harg hargs =>
    obtain ⟨t₀, ts₀, rfl, h₀, htail⟩ := List.map_eq_cons_iff.mp htoks
    obtain ⟨t₁, ts₁, rfl, h₁, htail⟩ := List.map_eq_cons_iff.mp htail
    obtain ⟨ts, ct, rfl, hts, hct⟩ := List.map_eq_append_iff.mp
      (show ts₁.map (·.tok) = (arg.1 ++ laterArgs args) ++ [.punct ")"] by simpa using htail)
    obtain ⟨t, rfl, ht⟩ := List.map_eq_singleton_iff.mp hct
    have hnext : peekNext s = .ok (some t₁, s) := by
      rw [peekNext, hrest]
      rfl
    have hps : ∀ p ∈ arg :: args, Inner toNumber (n + 1) p.1 p.2 := by
      exact List.forall_mem_cons.mpr ⟨harg, hargs⟩
    rw [Expr.size] at hcount
    have hlist : parseArgList inner (s.after (ts ++ t :: rest) 0) = .ok _ :=
      parseArgList_complete hinner hps rfl hts ht (by simp; omega)
    rw [after_after, Nat.zero_add] at hlist
    rw [peek_of_rest hrest, h₀]
    dsimp only
    rw [keywordLiteral?_of_function hname]
    dsimp only
    rw [bind_of_ok hnext, if_pos (by simp [h₁])]
    exact parseCall_complete hname (by simpa using hrest) ht hlist hcount
  | @paren n toks e h =>
    obtain ⟨t₀, ts₀, rfl, h₀, htail⟩ := List.map_eq_cons_iff.mp htoks
    obtain ⟨ts, ct, rfl, rfl, hct⟩ := List.map_eq_append_iff.mp htail
    obtain ⟨t, rfl, ht⟩ := List.map_eq_singleton_iff.mp hct
    have hin := hinner (s.after (ts ++ t :: rest) 0) ts (t :: rest) e rfl h
      (stop_of_closing (by decide) ht) hcount
    have hclose : expectPunct ")" (s.after (t :: rest) e.size) = .ok ((), s.after rest e.size) := by
      rw [expectPunct_run rfl ht]
      simp
    rw [after_after, Nat.zero_add] at hin
    rw [peek_of_rest hrest, h₀]
    dsimp only
    rw [if_pos rfl, bind_of_ok (advance_run (by simpa using hrest)),
      bind_of_ok hin, bind_of_ok hclose]
    rfl
  | join hlevel | operand hlevel => exact nomatch hlevel

/-! ## Members and indices -/

/-- What the loop adds to the phrase it starts with. -/
theorem accessLoop_sound (hinner : Sound inner (Inner toNumber n)) {fuel : Nat}
    {e e' : Expr number} {s s' : ParseState} {before : List Tok}
    (he : Derives toNumber .access n before e) (hcount : s.nodeCount ≤ exprLimits.maxAstNodes)
    (h : accessLoop inner fuel e s = .ok (e', s')) :
    ∃ ts k, s.rest = ts ++ s'.rest ∧ Derives toNumber .access n (before ++ ts.map (·.tok)) e' ∧
      s' = s.after s'.rest k ∧ e.size + k = e'.size ∧ s'.nodeCount ≤ exprLimits.maxAstNodes := by
  induction fuel generalizing e s before with
  | zero =>
    obtain ⟨rfl, rfl⟩ := pure_ok_iff.mp h
    exact ⟨[], 0, rfl, by simpa using he, rfl, rfl, hcount⟩
  | succ fuel ih =>
    obtain ⟨m, s₁, hm, hmatch⟩ := ok_of_bind h
    rcases matchPunct_ok hm with ⟨t, rfl, ht, hrest, hs₁⟩ | ⟨rfl, rfl⟩
    · obtain ⟨r, s₂, hr, hmember⟩ := ok_of_bind hmatch
      obtain ⟨u, s₃, hu, hloop⟩ := ok_of_bind hmember
      obtain ⟨t', ht', hrest', hs₂⟩ := expectIdent_ok hr
      obtain ⟨rfl, hmax⟩ := countNode_ok hu
      obtain ⟨ts, k, hts, hd, hs', hk, hmax'⟩ := ih (.member he) (by simpa using hmax) hloop
      refine ⟨t :: t' :: ts, 1 + k, ?_, by simpa [ht, ht'] using hd, ?_, ?_, hmax'⟩
      · rw [hrest, hrest', show s₂.rest = ts ++ s'.rest from hts]
        simp
      · rw [hs', hs₂, hs₁]
        simp
      · rw [Expr.size] at hk
        omega
    · obtain ⟨m', s₁', hm', hopen⟩ := ok_of_bind hmatch
      rcases matchPunct_ok hm' with ⟨t, rfl, ht, hrest, hs₁⟩ | ⟨rfl, rfl⟩
      · obtain ⟨i, s₂, hi, hindex⟩ := ok_of_bind hopen
        split_ifs at hindex with hstring
        · exact nomatch hindex
        · obtain ⟨u, s₃, hu, hclose⟩ := ok_of_bind hindex
          obtain ⟨u', s₄, hu', hloop⟩ := ok_of_bind hclose
          obtain ⟨is, his, hdi, hs₂, -⟩ := hinner _ _ _ hi
          obtain ⟨t', ht', hrest', hs₃⟩ := expectPunct_ok hu
          obtain ⟨rfl, hmax⟩ := countNode_ok hu'
          cases n with
          | zero => exact hdi.elim
          | succ n =>
            obtain ⟨ts, k, hts, hd, hs', hk, hmax'⟩ :=
              ih (.index he hdi (by simpa using hstring)) (by simpa using hmax) hloop
            refine ⟨t :: (is ++ t' :: ts), i.size + 1 + k, ?_, ?_, ?_, ?_, hmax'⟩
            · rw [hrest, his, hrest', show s₃.rest = ts ++ s'.rest from hts]
              simp
            · simpa [ht, ht'] using hd
            · rw [hs', hs₃, hs₂, hs₁]
              simp
            · rw [Expr.size] at hk
              omega
      · obtain ⟨rfl, rfl⟩ := pure_ok_iff.mp hopen
        exact ⟨[], 0, rfl, by simpa using he, rfl, rfl, hcount⟩

theorem parsePostfix_sound (hinner : Sound inner (Inner toNumber n)) :
    Sound (parsePostfix toNumber inner) (Derives toNumber .access n) := by
  intro s e s' h
  obtain ⟨e₁, s₁, he, hloop⟩ := ok_of_bind h
  rw [bind_of_ok (tokensLeft_run s₁)] at hloop
  obtain ⟨ts, hts, hd, hs₁, hmax⟩ := parsePrimary_sound hinner _ _ _ he
  obtain ⟨ts', k, hts', hd', hs', hk, hmax'⟩ := accessLoop_sound hinner (.primary hd) hmax hloop
  refine ⟨ts ++ ts', ?_, by simpa using hd', ?_, hmax'⟩
  · rw [hts, hts', List.append_assoc]
  · rw [hs', hs₁, after_after, hk]
    rfl

/-- On the way through a phrase, the loop stands after each member and index. -/
theorem accessLoop_reached (hinner : Complete inner (Inner toNumber n) Level.expr.continuing)
    {toks : List Tok} {e : Expr number} (hd : Derives toNumber .access n toks e)
    {s : ParseState} {ts rest : List Token} (htoks : toks = ts.map (·.tok))
    (hrest : s.rest = ts ++ rest) (hcount : s.nodeCount + e.size ≤ exprLimits.maxAstNodes) :
    ∃ fuel, rest.length ≤ fuel ∧
      parsePostfix toNumber inner s = accessLoop inner fuel e (s.after rest e.size) := by
  generalize hlevel : Level.access = level at hd
  induction hd generalizing s ts rest with
  | primary h =>
    subst htoks
    refine ⟨rest.length, le_rfl, ?_⟩
    rw [parsePostfix, bind_of_ok (parsePrimary_complete hinner s ts rest _ hrest h
      (by simp [Level.continuing]) hcount), bind_of_ok (tokensLeft_run _)]
    rfl
  | @member n toks e key h ih =>
    obtain ⟨et, mt, rfl, rfl, hmt⟩ := List.map_eq_append_iff.mp htoks.symm
    obtain ⟨t, it, rfl, ht, hit⟩ := List.map_eq_cons_iff.mp hmt
    obtain ⟨t', rfl, ht'⟩ := List.map_eq_singleton_iff.mp hit
    rw [Expr.size] at hcount
    obtain ⟨fuel, hfuel, hrun⟩ := ih hinner rfl
      (show s.rest = et ++ (t :: t' :: rest) by simpa using hrest) (by omega) rfl
    obtain ⟨fuel, rfl⟩ : ∃ k, fuel = k + 1 :=
      Nat.exists_eq_succ_of_ne_zero (by simp at hfuel; omega)
    refine ⟨fuel, by simp at hfuel; omega, ?_⟩
    have hdot : matchPunct "." (s.after (t :: t' :: rest) e.size) =
        .ok (some t, s.after (t' :: rest) e.size) := matchPunct_run rfl ht
    have hkey : expectIdent (s.after (t' :: rest) e.size) =
        .ok ((key, t'.offset), s.after rest e.size) := expectIdent_run rfl ht'
    rw [hrun, accessLoop, bind_of_ok hdot]
    dsimp only
    rw [bind_of_ok hkey, bind_of_ok (countNode_run (by simp; omega))]
    simp [Expr.size]
  | @index n toks is e i h hi hkey ih =>
    obtain ⟨et, mt, rfl, rfl, hmt⟩ := List.map_eq_append_iff.mp htoks.symm
    obtain ⟨t, it, rfl, ht, hit⟩ := List.map_eq_cons_iff.mp hmt
    obtain ⟨it, ct, rfl, rfl, hct⟩ := List.map_eq_append_iff.mp hit
    obtain ⟨t', rfl, ht'⟩ := List.map_eq_singleton_iff.mp hct
    rw [Expr.size] at hcount
    obtain ⟨fuel, hfuel, hrun⟩ := ih hinner rfl
      (show s.rest = et ++ (t :: (it ++ t' :: rest)) by simpa using hrest) (by omega) rfl
    obtain ⟨fuel, rfl⟩ : ∃ k, fuel = k + 1 :=
      Nat.exists_eq_succ_of_ne_zero (by simp at hfuel; omega)
    refine ⟨fuel, by simp at hfuel; omega, ?_⟩
    have hdot : matchPunct "." (s.after (t :: (it ++ t' :: rest)) e.size) =
        .ok (none, s.after (t :: (it ++ t' :: rest)) e.size) := by
      refine matchPunct_miss fun he ↦ ?_
      exact absurd (Tok.punct.inj (ht.symm.trans he)) (by decide)
    have hopen : matchPunct "[" (s.after (t :: (it ++ t' :: rest)) e.size) =
        .ok (some t, s.after (it ++ t' :: rest) e.size) := matchPunct_run rfl ht
    have hidx := hinner (s.after (it ++ t' :: rest) e.size) it (t' :: rest) i rfl hi
      (stop_of_closing (by decide) ht') (by simp; omega)
    have hclose : expectPunct "]" (s.after (t' :: rest) (e.size + i.size)) =
        .ok ((), s.after rest (e.size + i.size)) := by
      rw [expectPunct_run rfl ht']
      simp
    rw [after_after] at hidx
    rw [hrun, accessLoop, bind_of_ok hdot]
    dsimp only
    rw [bind_of_ok hopen]
    dsimp only
    rw [bind_of_ok hidx, if_neg (by simp [hkey]), bind_of_ok hclose,
      bind_of_ok (countNode_run (by simp; omega))]
    simp [Expr.size, Nat.add_assoc]
  | join hlevel' | operand hlevel' => subst hlevel; exact nomatch hlevel'
  | _ => exact nomatch hlevel

/-- A loop that has neither a point nor a bracket before it is done. -/
theorem accessLoop_done {fuel : Nat} {e : Expr number} {s : ParseState}
    (hdot : firstTok s.rest ≠ .punct ".") (hopen : firstTok s.rest ≠ .punct "[") :
    accessLoop inner fuel e s = .ok (e, s) := by
  cases fuel with
  | zero => rfl
  | succ fuel =>
    rw [accessLoop, bind_of_ok (matchPunct_miss hdot)]
    dsimp only
    rw [bind_of_ok (matchPunct_miss hopen)]
    rfl

theorem parsePostfix_complete (hinner : Complete inner (Inner toNumber n) Level.expr.continuing) :
    Complete (parsePostfix toNumber inner) (Derives toNumber .access n) Level.access.continuing := by
  intro s ts rest e hrest hd hstop hcount
  obtain ⟨fuel, -, hrun⟩ := accessLoop_reached hinner hd rfl hrest hcount
  rw [hrun]
  exact accessLoop_done (hstop "." (by decide)) (hstop "[" (by decide))

/-! ## Prefix operators -/

theorem unaryOp?_eq_some {tok : Tok} {op : UnaryOp} : unaryOp? tok = some op ↔ tok = .punct op.text := by
  constructor
  · intro h
    unfold unaryOp? at h
    split at h <;> cases h <;> rfl
  · rintro rfl
    cases op <;> rfl

/-- A unary one level down; there is none below the last. -/
def Below (toNumber : String → number) : Nat → Derivation number
  | 0 => fun _ _ ↦ False
  | n + 1 => Derives toNumber .unary n

/-- No primary starts with a prefix operator. -/
theorem Derives.not_signed {level : Level} {ts : List Tok} {e : Expr number}
    (h : Derives toNumber level n ts e) (hlevel : level = .access ∨ level = .primary) :
    ∃ tok rest, ts = tok :: rest ∧ unaryOp? tok = none := by
  induction h with
  | member _ ih | index _ _ _ ih =>
    obtain ⟨tok, rest, rfl, htok⟩ := ih (.inl rfl)
    exact ⟨tok, _, rfl, htok⟩
  | primary _ ih => exact ih (.inr rfl)
  | ternary | plain | signed | unsigned => exact nomatch hlevel
  | join hbin | operand hbin =>
    rcases hlevel with rfl | rfl <;> exact nomatch hbin
  | _ => exact ⟨_, _, rfl, rfl⟩

variable {below : Option (Parsing (Expr number))}

theorem parseUnary_sound (hinner : Sound inner (Inner toNumber n))
    (hbelow : ∀ p ∈ below, Sound p (Below toNumber n)) :
    Sound (parseUnary toNumber inner below) (Derives toNumber .unary n) := by
  intro s e s' h
  rw [parseUnary, bind_of_ok (peek_run s)] at h
  cases hop : unaryOp? s.peek.tok with
  | none =>
    rw [hop] at h
    obtain ⟨ts, hts, hd, hs', hmax⟩ := parsePostfix_sound hinner _ _ _ h
    exact ⟨ts, hts, .unsigned hd, hs', hmax⟩
  | some op =>
    have htok := unaryOp?_eq_some.mp hop
    have hrest := rest_of_peek htok nofun
    rw [hop] at h
    dsimp only at h
    rw [bind_of_ok (advance_run hrest)] at h
    cases below with
    | none => exact nomatch h
    | some p =>
      obtain ⟨on, s₁, hon, hnode⟩ := ok_of_bind h
      obtain ⟨u, s₂, hu, hret⟩ := ok_of_bind hnode
      obtain ⟨ts, hts, hd, hs₁, -⟩ := hbelow p rfl _ _ _ hon
      obtain ⟨rfl, hmax⟩ := countNode_ok hu
      obtain ⟨rfl, rfl⟩ := pure_ok_iff.mp hret
      refine ⟨s.peek :: ts, ?_, ?_, ?_, hmax⟩
      · rw [hrest, show s.rest.tail = ts ++ s₁.rest from hts]
        rfl
      · cases n with
        | zero => exact hd.elim
        | succ n =>
          rw [List.map_cons, htok]
          exact .signed hd
      · rw [hs₁]
        simp [Expr.size]

theorem parseUnary_complete (hinner : Complete inner (Inner toNumber n) Level.expr.continuing)
    (hbelow : ∀ m, n = m + 1 →
      ∃ p, below = some p ∧ Complete p (Derives toNumber .unary m) Level.unary.continuing) :
    Complete (parseUnary toNumber inner below) (Derives toNumber .unary n)
      Level.unary.continuing := by
  intro s ts rest e hrest hd hstop hcount
  generalize htoks : ts.map (·.tok) = toks at hd
  rw [parseUnary, bind_of_ok (peek_run s)]
  cases hd with
  | @signed op m toks e h =>
    obtain ⟨t, ts, rfl, ht, rfl⟩ := List.map_eq_cons_iff.mp htoks
    obtain ⟨p, rfl, hp⟩ := hbelow m rfl
    rw [Expr.size] at hcount
    have hon := hp (s.after (ts ++ rest) 0) ts rest e rfl h hstop (by simp; omega)
    rw [peek_of_rest hrest, unaryOp?_eq_some.mpr ht]
    dsimp only
    rw [bind_of_ok (advance_run (by simpa using hrest)), bind_of_ok hon,
      bind_of_ok (countNode_run (by simp; omega))]
    simp [Expr.size]
    rfl
  | unsigned h =>
    obtain ⟨tok, toks, rfl, hnone⟩ := h.not_signed (.inl rfl)
    obtain ⟨t, ts, rfl, ht, htail⟩ := List.map_eq_cons_iff.mp htoks
    subst ht htail
    rw [peek_of_rest hrest, hnone]
    exact parsePostfix_complete hinner s _ rest e hrest h hstop hcount
  | join hlevel | operand hlevel => exact nomatch hlevel

end Primary

/-! ## The levels of an expression -/

section Levels

variable {toNumber : String → number} {n : Nat} {inner unary : Parsing (Expr number)}

theorem parseOr_sound (hunary : Sound unary (Derives toNumber .unary n)) :
    Sound (parseOr unary) (Derives toNumber .or n) := by
  have hmultiplicative : Sound (parseMultiplicative unary) (Derives toNumber .multiplicative n) :=
    parseBinaryChain_sound rfl hunary
  have hadditive : Sound (parseAdditive unary) (Derives toNumber .additive n) :=
    parseBinaryChain_sound rfl hmultiplicative
  have hcomparison : Sound (parseComparison unary) (Derives toNumber .comparison n) :=
    parseBinaryChain_sound rfl hadditive
  have hequality : Sound (parseEquality unary) (Derives toNumber .equality n) :=
    parseBinaryChain_sound rfl hcomparison
  have hand : Sound (parseAnd unary) (Derives toNumber .and n) :=
    parseBinaryChain_sound rfl hequality
  exact parseBinaryChain_sound rfl hand

theorem parseOr_complete (hunary : Complete unary (Derives toNumber .unary n) Level.unary.continuing) :
    Complete (parseOr unary) (Derives toNumber .or n) Level.or.continuing := by
  have hmultiplicative : Complete (parseMultiplicative unary) (Derives toNumber .multiplicative n)
      Level.multiplicative.continuing := parseBinaryChain_complete rfl hunary
  have hadditive : Complete (parseAdditive unary) (Derives toNumber .additive n)
      Level.additive.continuing := parseBinaryChain_complete rfl hmultiplicative
  have hcomparison : Complete (parseComparison unary) (Derives toNumber .comparison n)
      Level.comparison.continuing := parseBinaryChain_complete rfl hadditive
  have hequality : Complete (parseEquality unary) (Derives toNumber .equality n)
      Level.equality.continuing := parseBinaryChain_complete rfl hcomparison
  have hand : Complete (parseAnd unary) (Derives toNumber .and n) Level.and.continuing :=
    parseBinaryChain_complete rfl hequality
  exact parseBinaryChain_complete rfl hand

theorem parseTernary_sound (hinner : Sound inner (Inner toNumber n))
    (hunary : Sound unary (Derives toNumber .unary n)) :
    Sound (parseTernary inner unary) (Derives toNumber .expr n) := by
  intro s e s' h
  rw [parseTernary, bind_of_ok (peek_run s)] at h
  obtain ⟨c, s₁, hc, hmatch⟩ := ok_of_bind h
  obtain ⟨m, s₂, hm, hbranches⟩ := ok_of_bind hmatch
  obtain ⟨cs, hcs, hdc, hs₁, hmax⟩ := parseOr_sound hunary _ _ _ hc
  rcases matchPunct_ok hm with ⟨t, rfl, ht, hrest, hs₂⟩ | ⟨rfl, rfl⟩
  · obtain ⟨a, s₃, ha, hcolon⟩ := ok_of_bind hbranches
    obtain ⟨u, s₄, hu, helse⟩ := ok_of_bind hcolon
    obtain ⟨b, s₅, hb, hnode⟩ := ok_of_bind helse
    obtain ⟨u', s₆, hu', hret⟩ := ok_of_bind hnode
    obtain ⟨as, has, hda, hs₃, -⟩ := hinner _ _ _ ha
    obtain ⟨t', ht', hrest', hs₄⟩ := expectPunct_ok hu
    obtain ⟨bs, hbs, hdb, hs₅, -⟩ := hinner _ _ _ hb
    obtain ⟨rfl, hmax'⟩ := countNode_ok hu'
    obtain ⟨rfl, rfl⟩ := pure_ok_iff.mp hret
    refine ⟨cs ++ t :: (as ++ t' :: bs), ?_, ?_, ?_, hmax'⟩
    · rw [hcs, hrest, has, hrest', hbs]
      simp
    · cases n with
      | zero => exact hda.elim
      | succ n =>
        have hcond : Derives toNumber .expr (n + 1) _ _ := .ternary hdc hda hdb
        simpa [ht, ht'] using hcond
    · rw [hs₅, hs₄, hs₃, hs₂, hs₁]
      simp [Expr.size, Nat.add_assoc]
  · obtain ⟨rfl, rfl⟩ := pure_ok_iff.mp hbranches
    exact ⟨cs, hcs, .plain hdc, hs₁, hmax⟩

theorem parseTernary_complete (hinner : Complete inner (Inner toNumber n) Level.expr.continuing)
    (hunary : Complete unary (Derives toNumber .unary n) Level.unary.continuing) :
    Complete (parseTernary inner unary) (Derives toNumber .expr n) Level.expr.continuing := by
  intro s ts rest e hrest hd hstop hcount
  generalize htoks : ts.map (·.tok) = toks at hd
  rw [parseTernary, bind_of_ok (peek_run s)]
  cases hd with
  | @ternary _ c a b ec ea eb hc ha hb =>
    obtain ⟨ct, qt, rfl, rfl, hqt⟩ := List.map_eq_append_iff.mp htoks
    obtain ⟨t, qt, rfl, ht, hqt⟩ := List.map_eq_cons_iff.mp hqt
    obtain ⟨at_, kt, rfl, rfl, hkt⟩ := List.map_eq_append_iff.mp hqt
    obtain ⟨t', bt, rfl, ht', rfl⟩ := List.map_eq_cons_iff.mp hkt
    rw [Expr.size] at hcount
    have hcond := parseOr_complete hunary s ct (t :: (at_ ++ t' :: (bt ++ rest))) ec
      (by simpa using hrest) hc (fun text htext he ↦ by
        obtain rfl := Tok.punct.inj (ht.symm.trans he)
        exact nomatch htext) (by omega)
    have hq : matchPunct "?" (s.after (t :: (at_ ++ t' :: (bt ++ rest))) ec.size) =
        .ok (some t, s.after (at_ ++ t' :: (bt ++ rest)) ec.size) := matchPunct_run rfl ht
    have hthen := hinner (s.after (at_ ++ t' :: (bt ++ rest)) ec.size) at_ (t' :: (bt ++ rest)) ea
      rfl ha (stop_of_closing (by decide) ht') (by simp; omega)
    have hcolon : expectPunct ":" (s.after (t' :: (bt ++ rest)) (ec.size + ea.size)) =
        .ok ((), s.after (bt ++ rest) (ec.size + ea.size)) := by
      rw [expectPunct_run rfl ht']
      simp
    have helse := hinner (s.after (bt ++ rest) (ec.size + ea.size)) bt rest eb rfl hb hstop
      (by simp; omega)
    rw [after_after] at hthen helse
    rw [bind_of_ok hcond, bind_of_ok hq]
    dsimp only
    rw [bind_of_ok hthen, bind_of_ok hcolon, bind_of_ok helse,
      bind_of_ok (countNode_run (by simp; omega))]
    simp [Expr.size]
    rfl
  | plain h =>
    subst htoks
    have hor := parseOr_complete hunary s ts rest e hrest h
      (fun text htext ↦ hstop text (.tail _ htext)) hcount
    have hq : matchPunct "?" (s.after rest e.size) = .ok (none, s.after rest e.size) :=
      matchPunct_miss (hstop "?" (by decide))
    rw [bind_of_ok hor, bind_of_ok hq]
    rfl
  | join hlevel | operand hlevel => exact nomatch hlevel

/-- With `n` levels allowed, an expression takes the first of them; a unary is above them all. -/
theorem parsers_sound (n : Nat) : Sound (parsers toNumber n).expr (Inner toNumber n) ∧
    Sound (parsers toNumber n).unary (Derives toNumber .unary n) := by
  induction n with
  | zero =>
    have hexpr : Sound (parsers toNumber 0).expr (Inner toNumber 0) := fun s e s' h ↦ nomatch h
    have hbelow : ∀ p ∈ (none : Option (Parsing (Expr number))), Sound p (Below toNumber 0) :=
      fun p hp ↦ nomatch hp
    exact ⟨hexpr, parseUnary_sound hexpr hbelow⟩
  | succ n ih =>
    have hexpr : Sound (parsers toNumber (n + 1)).expr (Inner toNumber (n + 1)) :=
      parseTernary_sound ih.1 ih.2
    have hbelow : ∀ p ∈ some (parsers toNumber n).unary, Sound p (Below toNumber (n + 1)) := by
      rintro p ⟨⟩
      exact ih.2
    exact ⟨hexpr, parseUnary_sound hexpr hbelow⟩

theorem parsers_complete (n : Nat) :
    Complete (parsers toNumber n).expr (Inner toNumber n) Level.expr.continuing ∧
      Complete (parsers toNumber n).unary (Derives toNumber .unary n) Level.unary.continuing := by
  induction n with
  | zero =>
    have hexpr : Complete (parsers toNumber 0).expr (Inner toNumber 0) Level.expr.continuing :=
      fun s ts rest e _ hd ↦ hd.elim
    have hbelow : ∀ m, 0 = m + 1 → ∃ p, (none : Option (Parsing (Expr number))) = some p ∧
        Complete p (Derives toNumber .unary m) Level.unary.continuing := fun m hm ↦ nomatch hm
    exact ⟨hexpr, parseUnary_complete hexpr hbelow⟩
  | succ n ih =>
    have hexpr : Complete (parsers toNumber (n + 1)).expr (Inner toNumber (n + 1))
        Level.expr.continuing := parseTernary_complete ih.1 ih.2
    refine ⟨hexpr, parseUnary_complete hexpr fun m hm ↦ ⟨_, rfl, ?_⟩⟩
    obtain rfl := Nat.succ.inj hm
    exact ih.2

/-- **A program is parsed exactly.**  From its first token to its end, the parser returns the tree
the tokens derive, within the limits. -/
theorem parseProgram_ok_iff {s : ParseState} {e : Expr number}
    (hcount : s.nodeCount = 0) (heof : ∀ t ∈ s.rest, t.tok ≠ .eof) :
    (∃ s', parseProgram toNumber s = .ok (e, s')) ↔
      Derives toNumber .expr exprLimits.maxDepth (s.rest.map (·.tok)) e ∧
        e.size ≤ exprLimits.maxAstNodes := by
  constructor
  · rintro ⟨s', h⟩
    obtain ⟨e₁, s₁, he, hend⟩ := ok_of_bind h
    rw [bind_of_ok (peek_run s₁)] at hend
    split_ifs at hend with htok
    · obtain ⟨rfl, rfl⟩ := pure_ok_iff.mp hend
      obtain ⟨ts, hts, hd, hs₁, hmax⟩ := (parsers_sound (exprLimits.maxDepth + 1)).1 _ _ _ he
      have hrest : s₁.rest = [] := by
        cases hrest : s₁.rest with
        | nil => rfl
        | cons t rest =>
          rw [peek_of_rest hrest] at htok
          exact absurd htok (heof t (by rw [hts, hrest]; simp))
      rw [hs₁, after_nodeCount, hcount, Nat.zero_add] at hmax
      rw [hts, hrest, List.append_nil]
      exact ⟨hd, hmax⟩
    · exact nomatch hend
  · rintro ⟨hd, hmax⟩
    have hrun := (parsers_complete (exprLimits.maxDepth + 1)).1 s s.rest [] e (by simp) hd
      (fun text _ ↦ nofun) (by omega)
    have hend : (s.after [] e.size).peek.tok = .eof := rfl
    refine ⟨s.after [] e.size, ?_⟩
    rw [parseProgram, bind_of_ok hrun, bind_of_ok (peek_run _), if_pos hend]
    rfl

end Levels

/-! ## The parser -/

/-- The tree of a text: the text is not too long, it is cut into tokens, and the tokens derive the
tree, which is neither too large nor nested too deeply. -/
def TreeOf (toNumber : String → number) (source : String) (e : Expr number) : Prop :=
  source.utf8ByteSize ≤ exprLimits.maxSourceBytes ∧ e.size ≤ exprLimits.maxAstNodes ∧
    ∃ toks, Lexes source.toList toks ∧ Derives toNumber .expr exprLimits.maxDepth toks e

theorem parse_ok_iff (toNumber : String → number) (source : String) (e : Expr number) :
    parse toNumber source = .ok e ↔ TreeOf toNumber source e := by
  have hbound : parse toNumber source = .ok e ↔ source.utf8ByteSize ≤ exprLimits.maxSourceBytes ∧
      ∃ tokens s', tokenize source = .ok tokens ∧
        parseProgram toNumber ⟨tokens, unitsOf source.toList, 0⟩ = .ok (e, s') := by
    by_cases hlong : exprLimits.maxSourceBytes < source.utf8ByteSize
    · have hthrow : parse toNumber source = .error _ := if_pos hlong
      rw [hthrow]
      exact ⟨fun h ↦ (nomatch h), fun h ↦ absurd h.1 (Nat.not_le.mpr hlong)⟩
    · have hrun : parse toNumber source = (tokenize source >>= fun tokens ↦
          parseProgram toNumber ⟨tokens, unitsOf source.toList, 0⟩ >>= fun r ↦ pure r.1) :=
        if_neg hlong
      rw [hrun]
      cases tokenize source with
      | error error => exact ⟨fun h ↦ (nomatch h), fun ⟨_, _, _, h, _⟩ ↦ (nomatch h)⟩
      | ok tokens =>
        show (parseProgram toNumber ⟨tokens, unitsOf source.toList, 0⟩ >>= fun r ↦ pure r.1) = _ ↔ _
        cases hprogram : parseProgram toNumber ⟨tokens, unitsOf source.toList, 0⟩ with
        | error error =>
          refine ⟨fun h ↦ (nomatch h), ?_⟩
          rintro ⟨-, _, s', ⟨⟩, h⟩
          exact nomatch hprogram.symm.trans h
        | ok r =>
          obtain ⟨e', s'⟩ := r
          constructor
          · intro h
            cases h
            exact ⟨Nat.le_of_not_lt hlong, tokens, s', rfl, hprogram⟩
          · rintro ⟨-, _, s'', ⟨⟩, h⟩
            obtain ⟨rfl, -⟩ := Prod.mk.inj (Except.ok.inj (hprogram.symm.trans h))
            rfl
  rw [hbound, TreeOf]
  refine and_congr_right fun _ ↦ ?_
  constructor
  · rintro ⟨tokens, s', htokens, hprogram⟩
    obtain ⟨hd, hmax⟩ := (parseProgram_ok_iff rfl (tokenize_ne_eof htokens)).mp ⟨s', hprogram⟩
    exact ⟨hmax, _, tokenize_ok_iff.mp ⟨tokens, htokens, rfl⟩, hd⟩
  · rintro ⟨hmax, toks, hlex, hd⟩
    obtain ⟨tokens, htokens, rfl⟩ := tokenize_ok_iff.mpr hlex
    obtain ⟨s', hprogram⟩ := (parseProgram_ok_iff (s := ⟨tokens, unitsOf source.toList, 0⟩) rfl
      (tokenize_ne_eof htokens)).mpr ⟨hd, hmax⟩
    exact ⟨tokens, s', htokens, hprogram⟩

/-- **The parser is exact.**  It returns the tree of the text, and throws an `ExprParseError` when
the text has none. -/
theorem parse_exact (toNumber : String → number) (source : String) :
    (∀ e, parse toNumber source = .ok e ↔ TreeOf toNumber source e) ∧
      ((∃ error, parse toNumber source = .error error) ↔ ¬ ∃ e, TreeOf toNumber source e) := by
  refine ⟨parse_ok_iff toNumber source, ?_⟩
  constructor
  · rintro ⟨error, herror⟩ ⟨e, he⟩
    have hok := (parse_ok_iff toNumber source e).mpr he
    exact nomatch herror.symm.trans hok
  · intro hnone
    cases hparse : parse toNumber source with
    | error error => exact ⟨error, rfl⟩
    | ok e => exact absurd ⟨e, (parse_ok_iff toNumber source e).mp hparse⟩ hnone

end Enkaku
