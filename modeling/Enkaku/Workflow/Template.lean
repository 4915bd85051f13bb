import Enkaku.Expr.Compose
import Enkaku.Expr.Grammar
import Enkaku.Expr.JsonLaw

/-!
# What a template compiles to

A template is literal runs with markers between them.  `compileTemplate` makes an expression of it,
the runs as string literals and the contents of a marker inside a call of `toText`, joined by `+`.

The expression goes through the splitter, the writer of JSON strings, the tokenizer, the parser and
the evaluator.  `compileTemplate_denotes` says what comes out: the runs and the texts of the markers,
one behind the other.
-/

set_option autoImplicit false

namespace Enkaku.Template

open List

open Evaluator

open Evaluator (Numbers ExprFn EvalState evalNode evaluate codeUnitsOf byteLength)
open Js (Text)

variable {number : Type}

/-! ## Templates -/

/-- A marker, with the tree of what it holds, and the run behind it. -/
structure Segment (number : Type) where
  content : List Char
  tree : Expr number
  run : List Char

/-- The text of a template. -/
def textOf (first : List Char) (segments : List (Segment number)) : List Char :=
  first ++ segments.flatMap fun s ↦
    '\x7b' :: '\x7b' :: (s.content ++ '\x7d' :: '\x7d' :: s.run)

/-- The runs of a template. -/
def runsOf (first : List Char) (segments : List (Segment number)) : List (List Char) :=
  first :: segments.map (·.run)

/-- No run opens a marker, no marker is closed inside, and every marker holds an expression. -/
structure IsTemplate (toNumber : String → number) (first : List Char)
    (segments : List (Segment number)) : Prop where
  literal : ∀ run ∈ runsOf first segments, ¬['\x7b', '\x7b'] <:+: run
  closed : ∀ s ∈ segments, ¬['\x7d', '\x7d'] <:+: s.content
  valid : ∀ s ∈ segments, parse toNumber (String.ofList s.content) = .ok s.tree

/-- What JSON writes of the runs the tokenizer reads, and no run moves the marker behind it. -/
structure Readable (first : List Char) (segments : List (Segment number)) : Prop where
  escapes : ∀ run ∈ runsOf first segments, ∀ c ∈ run, c.toNat < 32 → c = '\t' ∨ c = '\n' ∨ c = '\r'
  apart : ∀ run ∈ (runsOf first segments).dropLast, run.getLast? ≠ some '\x7b'

/-- A part of the expression. -/
inductive Piece (number : Type) where
  | run (text : List Char)
  | marker (content : List Char) (tree : Expr number)

/-- What `compileTemplate` writes for it. -/
def Piece.source : Piece number → List Char
  | .run text => quote text
  | .marker content _ => "toText(".toList ++ jsTrim content ++ [')']

def Piece.tree : Piece number → Expr number
  | .run text => .lit (.str (String.ofList text))
  | .marker _ tree => .call "toText" [tree]

/-- A run that is empty is left out. -/
def runPieces (run : List Char) : List (Piece number) := if run.isEmpty then [] else [.run run]

def markedPieces (first : List Char) (segments : List (Segment number)) : List (Piece number) :=
  runPieces first ++ segments.flatMap fun s ↦ .marker s.content s.tree :: runPieces s.run

/-- The parts of the expression; the empty text is one. -/
def pieces (first : List Char) (segments : List (Segment number)) : List (Piece number) :=
  if (markedPieces first segments).isEmpty then [.run []] else markedPieces first segments

/-- Parts joined by `+`, from the left. -/
def treeOf : List (Piece number) → Expr number
  | [] => .lit (.str "")
  | p :: ps => ps.foldl (fun e p ↦ .bin .add e p.tree) p.tree

/-- The compiled source is within the limits of the parser: its bytes, its nodes, and what each
marker holds one level deeper. -/
structure WithinLimits (toNumber : String → number) (first : List Char)
    (segments : List (Segment number)) : Prop where
  bytes : (String.ofList (compileTemplate (textOf first segments))).utf8ByteSize ≤
    exprLimits.maxSourceBytes
  nodes : (treeOf (pieces first segments)).size ≤ exprLimits.maxAstNodes
  depth : ∀ s ∈ segments, ∃ toks, Lexes s.content toks ∧
    Derives toNumber .expr (exprLimits.maxDepth - 1) toks s.tree

/-! ## The splitter -/

section Splitter

variable {c : Char} {cs rest : List Char}

theorem splitPair_append (hapart : ¬[c, c] <:+: cs) (hlast : cs.getLast? ≠ some c) :
    splitPair c (cs ++ c :: c :: rest) = some (cs, rest) := by
  induction cs with
  | nil => simp [splitPair]
  | cons a cs ih =>
    have htail : splitPair c (cs ++ c :: c :: rest) = some (cs, rest) := by
      refine ih (fun h ↦ hapart (h.trans (suffix_cons a cs).isInfix)) fun h ↦ hlast ?_
      cases cs with
      | nil => simp at h
      | cons b cs => simpa using h
    cases cs with
    | nil =>
      have hne : a ≠ c := by simpa using hlast
      simp only [nil_append] at htail
      simp [splitPair, hne]
    | cons b cs =>
      have hne : ¬(a = c ∧ b = c) := by
        rintro ⟨rfl, rfl⟩
        exact hapart ⟨[], cs, rfl⟩
      rw [cons_append] at htail
      rw [cons_append, cons_append, splitPair, if_neg hne, htail]
      rfl

theorem splitPair_eq_none (hapart : ¬[c, c] <:+: cs) : splitPair c cs = none := by
  induction cs with
  | nil => rfl
  | cons a cs ih =>
    have htail := ih fun h ↦ hapart (h.trans (suffix_cons a cs).isInfix)
    cases cs with
    | nil => rfl
    | cons b cs =>
      have hne : ¬(a = c ∧ b = c) := by
        rintro ⟨rfl, rfl⟩
        exact hapart ⟨[], cs, rfl⟩
      rw [splitPair, if_neg hne, htail]
      rfl

end Splitter

section Compiled

variable {toNumber : String → number} {first : List Char} {segments : List (Segment number)}

variable {s : Segment number}

theorem content_getLast?_ne (h : parse toNumber (String.ofList s.content) = .ok s.tree) :
    s.content.getLast? ≠ some '\x7d' := by
  obtain ⟨-, -, toks, hlex, -⟩ := (parse_ok_iff _ _ _).mp h
  rw [String.toList_ofList] at hlex
  exact hlex.getLast?_ne

theorem length_segments_le (first : List Char) (segments : List (Segment number)) :
    segments.length ≤ (textOf first segments).length := by
  rw [textOf, length_append]
  induction segments with
  | nil => simp
  | cons s segments ih =>
    rw [flatMap_cons, length_append, length_cons, length_cons, length_cons]
    omega

theorem templateMarker?_eq_none {run : List Char} (h : ¬['\x7b', '\x7b'] <:+: run) :
    templateMarker? run = none := by
  rw [templateMarker?, splitPair_eq_none h]
  rfl

theorem textOf_cons (s : Segment number) :
    textOf first (s :: segments) =
      first ++ '\x7b' :: '\x7b' :: (s.content ++ '\x7d' :: '\x7d' :: textOf s.run segments) := by
  simp [textOf]

theorem dropLast_runsOf_cons (s : Segment number) :
    (runsOf first (s :: segments)).dropLast = first :: (runsOf s.run segments).dropLast := by
  rw [runsOf, map_cons, dropLast_cons_of_ne_nil (cons_ne_nil _ _), runsOf]

theorem IsTemplate.tail (h : IsTemplate toNumber first (s :: segments)) :
    IsTemplate toNumber s.run segments :=
  ⟨fun run hrun ↦ h.literal run (.tail _ hrun), fun t ht ↦ h.closed t (.tail _ ht),
    fun t ht ↦ h.valid t (.tail _ ht)⟩

theorem Readable.tail (h : Readable first (s :: segments)) : Readable s.run segments := by
  refine ⟨fun run hrun ↦ h.escapes run (.tail _ hrun), fun run hrun ↦ h.apart run ?_⟩
  rw [dropLast_runsOf_cons]
  exact .tail _ hrun

/-- The first marker of a template is the one that is meant. -/
theorem templateMarker?_textOf_cons (htemplate : IsTemplate toNumber first (s :: segments))
    (hreadable : Readable first (s :: segments)) :
    templateMarker? (textOf first (s :: segments)) =
      some (first, s.content, textOf s.run segments) := by
  have hlast : first.getLast? ≠ some '\x7b' := by
    refine hreadable.apart first ?_
    rw [dropLast_runsOf_cons]
    exact .head _
  rw [templateMarker?, textOf_cons, splitPair_append (htemplate.literal first (.head _)) hlast]
  simp only [Option.bind_eq_bind, Option.bind_some]
  rw [splitPair_append (htemplate.closed s (.head _))
    (content_getLast?_ne (htemplate.valid s (.head _)))]
  rfl

theorem map_source_runPieces (run : List Char) :
    (runPieces run : List (Piece number)).map Piece.source =
      if run.isEmpty then [] else [quote run] := by
  unfold runPieces
  split_ifs
  · rfl
  · rfl

/-- The splitter finds the runs and the markers of a template. -/
theorem templateParts_textOf (htemplate : IsTemplate toNumber first segments)
    (hreadable : Readable first segments) {fuel : Nat} (hfuel : segments.length < fuel) :
    templateParts fuel (textOf first segments) = (markedPieces first segments).map Piece.source := by
  induction segments generalizing first fuel with
  | nil =>
    obtain ⟨fuel, rfl⟩ := Nat.exists_eq_add_one.mpr hfuel
    have hnone := templateMarker?_eq_none (htemplate.literal first (.head _))
    have htext : textOf first ([] : List (Segment number)) = first := by simp [textOf]
    rw [htext, templateParts, hnone, markedPieces, flatMap_nil, append_nil, map_source_runPieces]
  | cons s segments ih =>
    obtain ⟨fuel, rfl⟩ := Nat.exists_eq_add_one.mpr (Nat.zero_lt_of_lt hfuel)
    have hrest := ih htemplate.tail hreadable.tail (Nat.lt_of_succ_lt_succ hfuel)
    have hparts : markedPieces first (s :: segments) =
        runPieces first ++ .marker s.content s.tree :: markedPieces s.run segments := by
      rw [markedPieces, markedPieces, flatMap_cons, cons_append]
    rw [templateParts, templateMarker?_textOf_cons htemplate hreadable, hparts, map_append,
      map_cons, ← hrest, map_source_runPieces]
    rfl

theorem intercalate_cons (separator part : List Char) (parts : List (List Char)) :
    separator.intercalate (part :: parts) = part ++ parts.flatMap fun p ↦ separator ++ p := by
  induction parts generalizing part with
  | nil => simp [List.intercalate]
  | cons q parts ih =>
    rw [intercalate_cons_cons, ih, flatMap_cons, append_assoc, append_assoc]

/-- **A template compiles to its parts, joined by `+`.** -/
theorem compileTemplate_textOf (htemplate : IsTemplate toNumber first segments)
    (hreadable : Readable first segments) :
    compileTemplate (textOf first segments) =
      " + ".toList.intercalate ((pieces first segments).map Piece.source) := by
  have hparts := templateParts_textOf htemplate hreadable
    (Nat.lt_succ_of_le (length_segments_le first segments))
  rw [compileTemplate, hparts, pieces]
  by_cases hempty : markedPieces first segments = []
  · have hfirst : first = [] := by
      rw [markedPieces, append_eq_nil_iff] at hempty
      cases first with
      | nil => rfl
      | cons c first => simp [runPieces] at hempty
    have hsegments : segments = [] := by
      rw [markedPieces, append_eq_nil_iff] at hempty
      cases segments with
      | nil => rfl
      | cons s segments => simp at hempty
    subst hfirst hsegments
    rfl
  · have hne : (markedPieces first segments).isEmpty = false := by simpa using hempty
    simp only [isEmpty_map, hne, Bool.false_eq_true, if_false]

end Compiled

/-! ## The parser -/

section Parsed

variable {toNumber : String → number} {n : Nat}

variable {run : List Char}

/-- JSON writes these characters as the tokenizer reads them. -/
theorem quoted_flatMap (h : ∀ c ∈ run, c.toNat < 32 → c = '\t' ∨ c = '\n' ∨ c = '\r') :
    Quoted '"' (run.flatMap quoteChar) run := by
  induction run with
  | nil => exact .nil
  | cons c run ih =>
    have hrest := ih fun d hd ↦ h d (.tail _ hd)
    have hc := h c (.head _)
    rw [flatMap_cons, quoteChar]
    split_ifs with h₁ h₂ h₃ h₄ h₅ h₆ h₇ h₈
    · exact .escaped (by rw [h₁]; rfl) hrest
    · exact .escaped (by rw [h₂]; rfl) hrest
    · subst h₃
      rcases hc (by decide) with h | h | h <;> cases h
    · exact .escaped (by rw [h₄]; rfl) hrest
    · exact .escaped (by rw [h₅]; rfl) hrest
    · subst h₆
      rcases hc (by decide) with h | h | h <;> cases h
    · exact .escaped (by rw [h₇]; rfl) hrest
    · rcases hc h₈ with h | h | h
      · exact absurd h h₄
      · exact absurd h h₅
      · exact absurd h h₇
    · exact .plain h₁ h₂ hrest

theorem lexes_quote (h : ∀ c ∈ run, c.toNat < 32 → c = '\t' ∨ c = '\n' ∨ c = '\r') :
    Lexes (quote run) [.str (String.ofList run)] := by
  have hread : Reads (quote run) (.str (String.ofList run)) [] := .str (.inl rfl) (quoted_flatMap h)
  have hlex := Lexes.token hread .nil
  rwa [append_nil] at hlex

theorem reads_paren (rest : List Char) : Reads ['('] (.punct "(") rest := by
  refine .single (by decide) fun c rest' heq ↦ ?_
  intro hmem
  have hhead : ∀ text ∈ punct2, text.toList.head? ≠ some '(' := by decide
  exact hhead _ hmem (by simp)

theorem lexes_call {content : List Char} {toks : List Tok} (h : Lexes content toks) :
    Lexes ("toText(".toList ++ jsTrim content ++ [')'])
      (.ident "toText" :: .punct "(" :: (toks ++ [.punct ")"])) := by
  have hclosing : Lexes [')'] [.punct ")"] := by
    have hread : Reads [')'] (.punct ")") [] := .single (by decide) fun c rest heq ↦ by simp at heq
    exact Lexes.token hread .nil
  have hinside := h.jsTrim.append hclosing fun c rest heq ↦ .inl (List.cons.inj heq).1.symm
  have hname : Reads ['t', 'o', 'T', 'e', 'x', 't']
      (.ident (String.ofList ['t', 'o', 'T', 'e', 'x', 't'])) (['('] ++ (jsTrim content ++ [')'])) := by
    refine .ident (by decide) (by simp [isIdentPart, isIdentStart]) fun c rest heq ↦ ?_
    obtain ⟨rfl, -⟩ := List.cons.inj heq
    decide
  have htext : "toText(".toList ++ jsTrim content ++ [')'] =
      ['t', 'o', 'T', 'e', 'x', 't'] ++ (['('] ++ (jsTrim content ++ [')'])) := by
    rw [show "toText(".toList = ['t', 'o', 'T', 'e', 'x', 't', '('] from rfl]
    simp
  rw [htext]
  exact Lexes.token hname (Lexes.token (reads_paren _) hinside)

variable {p : Piece number}

/-- The tokens of a part derive its tree, as an operand of `+`. -/
theorem derives_piece
    (hrun : ∀ run, p = .run run → ∀ c ∈ run, c.toNat < 32 → c = '\t' ∨ c = '\n' ∨ c = '\r')
    (hmarker : ∀ content tree, p = .marker content tree → ∃ toks, Lexes content toks ∧
      Derives toNumber .expr n toks tree) :
    ∃ toks, Lexes p.source toks ∧ Derives toNumber .multiplicative (n + 1) toks p.tree := by
  cases p with
  | run run =>
    exact ⟨_, lexes_quote (hrun run rfl), .operand rfl (.unsigned (.primary .str))⟩
  | marker content tree =>
    obtain ⟨toks, hlex, hderives⟩ := hmarker content tree rfl
    refine ⟨_, lexes_call hlex, .operand rfl (.unsigned (.primary ?_))⟩
    have hname : "toText" ∈ functionNames := by decide
    have hcall := @Derives.call number toNumber n "toText" (toks, tree) [] hname hderives
      fun p hp ↦ nomatch hp
    simpa [laterArgs, Piece.tree] using hcall

/-- Parts behind a text, each joined to what stands before it. -/
theorem derives_foldl {ps : List (Piece number)} {cs : List Char} {toks : List Tok} {e : Expr number}
    (h : Lexes cs toks) (he : Derives toNumber .additive n toks e)
    (hps : ∀ p ∈ ps, ∃ toks, Lexes p.source toks ∧ Derives toNumber .multiplicative n toks p.tree) :
    ∃ toks, Lexes (cs ++ ps.flatMap fun p ↦ " + ".toList ++ p.source) toks ∧
      Derives toNumber .additive n toks (ps.foldl (fun e p ↦ .bin .add e p.tree) e) := by
  induction ps generalizing cs toks e with
  | nil => exact ⟨toks, by simpa using h, he⟩
  | cons p ps ih =>
    obtain ⟨toks', hlex, hderives⟩ := hps p (.head _)
    have hplus : Lexes (" + ".toList ++ p.source) (.punct "+" :: toks') := by
      have hread : Reads ['+'] (.punct "+") (' ' :: p.source) := by
        refine .single (by decide) fun c rest heq ↦ ?_
        obtain ⟨rfl, -⟩ := List.cons.inj heq
        decide
      have hspace : isSpace ' ' = true := by decide
      have htail := Lexes.token hread (.space hspace hlex)
      rw [show " + ".toList = [' ', '+', ' '] from rfl]
      exact .space hspace htail
    have hstops : Stops (" + ".toList ++ p.source) := by
      rw [show " + ".toList = [' ', '+', ' '] from rfl]
      intro c rest heq
      exact .inr (List.cons.inj heq).1.symm
    have hadd : BinOp.add ∈ [BinOp.add, .sub] := by simp
    have hjoin : Derives toNumber .additive n (toks ++ .punct "+" :: toks') (.bin .add e p.tree) :=
      Derives.join rfl hadd he hderives
    obtain ⟨all, hall, hderives'⟩ := ih (h.append hplus hstops) hjoin
      fun q hq ↦ hps q (.tail _ hq)
    exact ⟨all, by simpa using hall, hderives'⟩

variable {first : List Char} {segments : List (Segment number)}

theorem mem_runPieces (h : p ∈ runPieces run) : p = .run run := by
  unfold runPieces at h
  split_ifs at h
  · simp at h
  · exact mem_singleton.mp h

/-- Where a part of the expression comes from. -/
theorem mem_pieces (h : p ∈ pieces first segments) :
    p = .run [] ∨ (∃ run ∈ runsOf first segments, p = .run run) ∨
      ∃ s ∈ segments, p = .marker s.content s.tree := by
  unfold pieces at h
  split_ifs at h
  · exact .inl (mem_singleton.mp h)
  · refine .inr ?_
    rcases mem_append.mp h with h | h
    · exact .inl ⟨first, mem_cons_self, mem_runPieces h⟩
    · obtain ⟨s, hs, h⟩ := mem_flatMap.mp h
      rcases mem_cons.mp h with h | h
      · exact .inr ⟨s, hs, h⟩
      · exact .inl ⟨s.run, .tail _ (mem_map_of_mem hs), mem_runPieces h⟩

theorem pieces_ne_nil (first : List Char) (segments : List (Segment number)) :
    pieces first segments ≠ [] := by
  unfold pieces
  split_ifs with h
  · simp
  · simpa using h

/-- **A template compiles to an expression**, whose tree joins the runs and the markers. -/
theorem parse_compileTemplate (htemplate : IsTemplate toNumber first segments)
    (hreadable : Readable first segments) (hlimits : WithinLimits toNumber first segments) :
    parse toNumber (String.ofList (compileTemplate (textOf first segments))) =
      .ok (treeOf (pieces first segments)) := by
  refine (parse_ok_iff _ _ _).mpr ⟨hlimits.bytes, hlimits.nodes, ?_⟩
  rw [String.toList_ofList, compileTemplate_textOf htemplate hreadable]
  have hpieces : ∀ p ∈ pieces first segments, ∃ toks, Lexes p.source toks ∧
      Derives toNumber .multiplicative exprLimits.maxDepth toks p.tree := by
    intro p hp
    refine derives_piece (n := exprLimits.maxDepth - 1) ?_ ?_
    · rintro run rfl
      rcases mem_pieces hp with h | ⟨run', hrun, h⟩ | ⟨s, -, h⟩
      · obtain rfl := Piece.run.inj h
        simp
      · obtain rfl := Piece.run.inj h
        exact hreadable.escapes run hrun
      · cases h
    · rintro content tree rfl
      rcases mem_pieces hp with h | ⟨run, -, h⟩ | ⟨s, hs, h⟩
      · cases h
      · cases h
      · obtain ⟨rfl, rfl⟩ := Piece.marker.inj h
        exact hlimits.depth s hs
  obtain ⟨p, ps, hps⟩ := exists_cons_of_ne_nil (pieces_ne_nil first segments)
  rw [hps] at hpieces ⊢
  obtain ⟨toks, hlex, hderives⟩ := hpieces p (.head _)
  obtain ⟨all, hall, hderives⟩ := derives_foldl hlex (.operand rfl hderives)
    fun q hq ↦ hpieces q (.tail _ hq)
  refine ⟨all, ?_, .plain (.operand rfl (.operand rfl (.operand rfl (.operand rfl hderives))))⟩
  rw [map_cons, intercalate_cons, flatMap_map]
  exact hall

end Parsed

/-! ## The evaluator -/

section Evaluated

variable (nm : Numbers number) (others : String → Option (ExprFn number))
  (scope : Evaluator.ExprScope number)

/-- Parts are evaluated one after the other, each to a text, with one step budget and one counter of
draws between them. -/
inductive Runs : List (Piece number) → EvalState → List Text → EvalState → Prop
  | nil (s : EvalState) : Runs [] s [] s
  | cons {p : Piece number} {ps : List (Piece number)} {s s₁ s' : EvalState} {t : Text}
      {ts : List Text} (h : evalNode nm others scope p.tree s = .ok (.str t, s₁))
      (hrest : Runs ps s₁ ts s') : Runs (p :: ps) s (t :: ts) s'

/-- The texts of the parts: of a run its characters, of a marker the value it is given. -/
def textsOf : List (Piece number) → List Text → List Text
  | [], _ => []
  | .run run :: ps, values => codeUnitsOf (String.ofList run) :: textsOf ps values
  | .marker _ _ :: ps, values => values.headD [] :: textsOf ps values.tail

/-- The runs, and the values between them. -/
def concatenation (first : List Char) (segments : List (Segment number)) (values : List Text) : Text :=
  codeUnitsOf (String.ofList first) ++
    (segments.zip values).flatMap fun p ↦ p.2 ++ codeUnitsOf (String.ofList p.1.run)

/-- Every text the parts are joined to is short enough. -/
def Bounded (ts : List Text) : Prop :=
  ∀ k, 2 ≤ k → k ≤ ts.length → byteLength (ts.take k).flatten ≤ exprLimits.maxStringBytes

variable {nm others scope}

variable {ps : List (Piece number)} {ts : List Text}

theorem Runs.split {qs : List (Piece number)} {s s' : EvalState}
    (h : Runs nm others scope (ps ++ qs) s ts s') :
    ∃ ts₁ s₁ ts₂, ts = ts₁ ++ ts₂ ∧ Runs nm others scope ps s ts₁ s₁ ∧
      Runs nm others scope qs s₁ ts₂ s' := by
  induction ps generalizing s ts with
  | nil => exact ⟨[], s, ts, rfl, .nil s, h⟩
  | cons p ps ih =>
    cases h with
    | cons hp hrest =>
      obtain ⟨ts₁, s₁, ts₂, rfl, h₁, h₂⟩ := ih hrest
      exact ⟨_ :: ts₁, s₁, ts₂, rfl, .cons hp h₁, h₂⟩

theorem Runs.length {s s' : EvalState} (h : Runs nm others scope ps s ts s') :
    ts.length = ps.length := by
  induction h with
  | nil => rfl
  | cons _ _ ih => rw [length_cons, length_cons, ih]

theorem evalNode_add {l r : Expr number} {a b : Text} {fuel draws : Nat} {s₁ s₂ : EvalState}
    (hl : evalNode nm others scope l ⟨fuel, draws⟩ = .ok (.str a, s₁))
    (hr : evalNode nm others scope r s₁ = .ok (.str b, s₂))
    (hbound : byteLength (a ++ b) ≤ exprLimits.maxStringBytes) :
    evalNode nm others scope (.bin .add l r) ⟨fuel + 1, draws⟩ = .ok (.str (a ++ b), s₂) := by
  rw [evalNode, Throwing.bind_of_ok (spend_run fuel draws)]
  · rw [Throwing.bind_of_ok hl, Throwing.bind_of_ok hr]
    show boundString (a ++ b) s₂ = _
    rw [boundString, if_neg (Nat.not_lt.mpr hbound)]
    rfl
  · simp
  · simp

/-- A chain of joins takes a step for each, and evaluates to the texts one behind the other. -/
theorem evalNode_treeOf {p : Piece number} {fuel draws : Nat} {s' : EvalState}
    (h : Runs nm others scope (p :: ps) ⟨fuel, draws⟩ ts s') (hbound : Bounded ts) :
    evalNode nm others scope (treeOf (p :: ps)) ⟨fuel + ps.length, draws⟩ =
      .ok (.str ts.flatten, s') := by
  induction ps using List.reverseRecOn generalizing ts s' with
  | nil =>
    cases h with
    | cons hp hrest =>
      cases hrest
      simpa [treeOf] using hp
  | append_singleton ps q ih =>
    rw [← cons_append] at h
    obtain ⟨ts₁, s₁, ts₂, rfl, h₁, h₂⟩ := h.split
    obtain ⟨t, rfl, hq⟩ : ∃ t, ts₂ = [t] ∧ evalNode nm others scope q.tree s₁ = .ok (.str t, s') := by
      cases h₂ with
      | cons hq hrest =>
        cases hrest
        exact ⟨_, rfl, hq⟩
    have hfront : Bounded ts₁ := by
      intro k hk hle
      have hlong := hbound k hk (by rw [length_append]; omega)
      rwa [take_append_of_le_length hle] at hlong
    have hleft := ih h₁ hfront
    have hall : byteLength (ts₁.flatten ++ t) ≤ exprLimits.maxStringBytes := by
      have hlong := hbound (ts₁ ++ [t]).length (by simp [h₁.length]) (le_rfl)
      rwa [take_length, flatten_append, flatten_singleton] at hlong
    have hjoin := evalNode_add hleft hq hall
    rw [flatten_append, flatten_singleton, length_append, length_singleton, ← Nat.add_assoc]
    rw [treeOf, foldl_append]
    exact hjoin

theorem textsOf_runPieces (run : List Char) (ps : List (Piece number)) (values : List Text) :
    (textsOf (runPieces run ++ ps) values).flatten =
      codeUnitsOf (String.ofList run) ++ (textsOf ps values).flatten := by
  cases run with
  | nil => rfl
  | cons c run =>
    rw [runPieces, isEmpty_cons, if_neg (by simp), singleton_append, textsOf,
      flatten_cons]

/-- The texts of the parts are the runs, and the values between them. -/
theorem flatten_textsOf {first : List Char} {segments : List (Segment number)} {values : List Text}
    (hlength : values.length = segments.length) :
    (textsOf (pieces first segments) values).flatten = concatenation first segments values := by
  have hmarked : ∀ first, (textsOf (markedPieces first segments) values).flatten =
      concatenation first segments values := by
    intro first
    rw [markedPieces, textsOf_runPieces, concatenation]
    refine congrArg _ ?_
    induction segments generalizing values with
    | nil => rfl
    | cons s segments ih =>
      obtain ⟨v, values, rfl⟩ := exists_cons_of_length_eq_add_one hlength
      rw [flatMap_cons, cons_append, textsOf, flatten_cons, headD_cons,
        tail_cons, textsOf_runPieces, zip_cons_cons, flatMap_cons,
        ih (Nat.succ.inj hlength), append_assoc]
  rw [pieces]
  split_ifs with hempty
  · rw [← hmarked first, isEmpty_iff.mp hempty]
    rfl
  · exact hmarked first

theorem length_le_size_foldl (ps : List (Piece number)) (e : Expr number) :
    ps.length ≤ (ps.foldl (fun e p ↦ Expr.bin .add e p.tree) e).size := by
  induction ps using List.reverseRecOn with
  | nil => exact Nat.zero_le _
  | append_singleton ps p ih =>
    rw [foldl_append, length_append, length_singleton]
    show ps.length + 1 ≤ (Expr.bin .add _ p.tree).size
    rw [Expr.size]
    omega

end Evaluated

/-- **Templates compile to what they say.**  The source a template compiles to parses, and in every
scope where its parts evaluate one after the other — within one budget of steps, of which each run and
each join takes one, and each text they are joined to short enough — it evaluates to the runs and the
texts of the markers in order. -/
theorem compileTemplate_denotes {toNumber : String → number} {first : List Char}
    {segments : List (Segment number)} (htemplate : IsTemplate toNumber first segments)
    (hreadable : Readable first segments) (hlimits : WithinLimits toNumber first segments) :
    ∃ tree, parse toNumber (String.ofList (compileTemplate (textOf first segments))) = .ok tree ∧
      ∀ (nm : Numbers number) (others : String → Option (ExprFn number))
        (scope : Evaluator.ExprScope number) (values : List Text) (s' : EvalState),
        values.length = segments.length →
        Runs nm others scope (pieces first segments)
          ⟨exprLimits.maxSteps - ((pieces first segments).length - 1), scope.draws⟩
          (textsOf (pieces first segments) values) s' →
        Bounded (textsOf (pieces first segments) values) →
        evaluate nm others scope tree = .ok (.str (concatenation first segments values)) := by
  refine ⟨_, parse_compileTemplate htemplate hreadable hlimits, ?_⟩
  intro nm others scope values s' hlength hruns hbound
  rw [← flatten_textsOf hlength]
  have hnodes := hlimits.nodes
  obtain ⟨p, ps, hps⟩ := exists_cons_of_ne_nil (pieces_ne_nil first segments)
  rw [hps] at hruns hbound hnodes ⊢
  have hsteps : exprLimits.maxSteps - ((p :: ps).length - 1) + ps.length = exprLimits.maxSteps := by
    have hsize : ps.length ≤ exprLimits.maxAstNodes := (length_le_size_foldl ps p.tree).trans hnodes
    have hlimit : exprLimits.maxAstNodes ≤ exprLimits.maxSteps := by decide
    rw [length_cons]
    omega
  have heval := evalNode_treeOf hruns hbound
  rw [hsteps] at heval
  rw [evaluate, heval]
  rfl

/-! ## Markers that read the input -/

/-- `{{ $input }}`, and a run behind it. -/
def inputSegment (run : List Char) : Segment (Fin 10) :=
  ⟨[' ', '$', 'i', 'n', 'p', 'u', 't', ' '], .root .input, run⟩

/-- No text here has a number in it. -/
def noNumber (_ : String) : Fin 10 := Fin.last 9

theorem lexes_input : Lexes [' ', '$', 'i', 'n', 'p', 'u', 't', ' '] [.root .input] := by
  have hspace : isSpace ' ' = true := by decide
  have hread : Reads ['$', 'i', 'n', 'p', 'u', 't'] (.root .input) [' '] := by
    have hend : Ends isIdentPart [' '] := by
      intro c rest heq
      obtain ⟨rfl, -⟩ := List.cons.inj heq
      decide
    have hroot : Reads RootName.input.text.toList (.root .input) [' '] := .root hend
    exact hroot
  exact .space hspace (Lexes.token hread (.space hspace .nil))

theorem derives_input (n : Nat) : Derives noNumber .expr n [.root .input] (.root .input) := by
  refine .plain (.operand rfl (.operand rfl (.operand rfl (.operand rfl (.operand rfl ?_)))))
  exact .operand rfl (.unsigned (.primary .root))

theorem isTemplate_input (first : List Char) (runs : List (List Char))
    (h : ∀ run ∈ first :: runs, ¬['\x7b', '\x7b'] <:+: run) :
    IsTemplate noNumber first (runs.map inputSegment) where
  literal := by
    have hruns : runsOf first (runs.map inputSegment) = first :: runs := by
      simp [runsOf, inputSegment, Function.comp_def]
    rwa [hruns]
  closed := by
    intro s hs
    obtain ⟨run, -, rfl⟩ := mem_map.mp hs
    show ¬['\x7d', '\x7d'] <:+: [' ', '$', 'i', 'n', 'p', 'u', 't', ' ']
    decide
  valid := by
    intro s hs
    obtain ⟨run, -, rfl⟩ := mem_map.mp hs
    refine (parse_ok_iff _ _ _).mpr ⟨?_, ?_, [.root .input], ?_, derives_input _⟩
    · show (String.ofList [' ', '$', 'i', 'n', 'p', 'u', 't', ' ']).utf8ByteSize ≤ _
      decide +kernel
    · show (Expr.root .input : Expr (Fin 10)).size ≤ _
      decide
    · rw [String.toList_ofList]
      exact lexes_input

/-- A run takes one step. -/
theorem evalNode_run {nm : Numbers number} {others : String → Option (ExprFn number)}
    {scope : Evaluator.ExprScope number} (run : List Char) (fuel draws : Nat) :
    evalNode nm others scope (Piece.run run).tree ⟨fuel + 1, draws⟩ =
      .ok (.str (codeUnitsOf (String.ofList run)), ⟨fuel, draws⟩) := by
  rw [Piece.tree, evalNode, Throwing.bind_of_ok (spend_run fuel draws)]
  rfl

/-- A call on the input takes three steps. -/
theorem evalNode_input (a : Text) (fuel draws : Nat) :
    evalNode Evaluator.Digit.numbers (fun _ ↦ none) (Evaluator.Digit.scope (.str a))
        (.call "toText" [.root .input]) ⟨fuel + 3, draws⟩ = .ok (.str a, ⟨fuel, draws⟩) := by
  rw [evalNode_call (evalNode_root .input (fuel + 1) draws), applyFunction_toText]
  rfl

/-- `run-{{ $input }}!`. -/
theorem compileTemplate_denotes_run : ∃ tree,
    parse noNumber (String.ofList (compileTemplate
      (textOf ['r', 'u', 'n', '-'] [inputSegment ['!']]))) = .ok tree ∧
    evaluate Evaluator.Digit.numbers (fun _ ↦ none) (Evaluator.Digit.scope (.str (Js.text "7"))) tree =
      .ok (.str (Js.text "run-7!")) := by
  have htemplate : IsTemplate noNumber ['r', 'u', 'n', '-'] [inputSegment ['!']] :=
    isTemplate_input _ [['!']] (by decide)
  have hreadable : Readable ['r', 'u', 'n', '-'] [inputSegment ['!']] :=
    ⟨by simp [runsOf, inputSegment], by simp [runsOf, inputSegment]⟩
  have hlimits : WithinLimits noNumber ['r', 'u', 'n', '-'] [inputSegment ['!']] := by
    refine ⟨by decide +kernel, by decide, fun s hs ↦ ?_⟩
    obtain rfl := mem_singleton.mp hs
    exact ⟨_, lexes_input, derives_input _⟩
  obtain ⟨tree, hparse, heval⟩ := compileTemplate_denotes htemplate hreadable hlimits
  refine ⟨tree, hparse, ?_⟩
  have hruns : Runs Evaluator.Digit.numbers (fun _ ↦ none) (Evaluator.Digit.scope (.str (Js.text "7")))
      (pieces ['r', 'u', 'n', '-'] [inputSegment ['!']]) ⟨9993 + 1 + 3 + 1, 0⟩
      [Js.text "run-", Js.text "7", Js.text "!"] ⟨9993, 0⟩ :=
    .cons (evalNode_run _ _ _) (.cons (evalNode_input _ _ _) (.cons (evalNode_run _ _ _) (.nil _)))
  refine heval _ _ _ [Js.text "7"] _ rfl hruns fun k hk hle ↦ ?_
  have hle : k ≤ 3 := hle
  interval_cases k <;> decide

theorem withinLimits_input (first : List Char) (runs : List (List Char))
    (hbytes : (String.ofList (compileTemplate (textOf first (runs.map inputSegment)))).utf8ByteSize ≤
      exprLimits.maxSourceBytes)
    (hnodes : (treeOf (pieces first (runs.map inputSegment))).size ≤ exprLimits.maxAstNodes) :
    WithinLimits noNumber first (runs.map inputSegment) := by
  refine ⟨hbytes, hnodes, fun s hs ↦ ?_⟩
  obtain ⟨run, -, rfl⟩ := mem_map.mp hs
  exact ⟨_, lexes_input, derives_input _⟩

theorem byteLength_replicate (n : Nat) : byteLength (List.replicate n 97) = n := by
  induction n with
  | zero => rfl
  | succ n ih =>
    cases n with
    | zero => rfl
    | succ n =>
      rw [replicate_succ, replicate_succ, byteLength, ← replicate_succ, ih]
      · rw [if_neg (by decide), if_pos (by decide)]
        omega

/-- What does not parse has no tree. -/
theorem parse_ne_ok {source : String} (h : (parse noNumber source).isOk = false) (tree : Expr (Fin 10)) :
    parse noNumber source ≠ .ok tree := by
  intro heq
  rw [heq] at h
  cases h

/-- Two texts that are short enough, and together are not. -/
theorem evaluate_input_input {a : Text} (ha : exprLimits.maxStringBytes < byteLength (a ++ a)) :
    evaluate Evaluator.Digit.numbers (fun _ ↦ none) (Evaluator.Digit.scope (.str a))
        (treeOf (pieces [] [inputSegment [], inputSegment []])) =
      .error (.expr ⟨.limit, "string result exceeds the size limit"⟩) := by
  have hjoin : evalNode Evaluator.Digit.numbers (fun _ ↦ none) (Evaluator.Digit.scope (.str a))
      (.bin .add (.call "toText" [.root .input]) (.call "toText" [.root .input])) ⟨9999 + 1, 0⟩ =
      .error (.expr ⟨.limit, "string result exceeds the size limit"⟩) := by
    rw [evalNode, Throwing.bind_of_ok (spend_run 9999 0)]
    · rw [Throwing.bind_of_ok (evalNode_input a 9996 0), Throwing.bind_of_ok (evalNode_input a 9993 0)]
      show boundString (a ++ a) _ = _
      rw [boundString, if_pos ha]
      rfl
    · simp
    · simp
  show (evalNode _ _ _ (.bin .add (.call "toText" [.root .input]) (.call "toText" [.root .input]))
    ⟨9999 + 1, 0⟩).map _ = _
  rw [hjoin]
  rfl

/-- A control character the tokenizer has no escape for, a brace before a marker, and texts that are
too long together. -/
theorem compileTemplate_differs :
    (IsTemplate noNumber ['\x08'] [inputSegment []] ∧ WithinLimits noNumber ['\x08'] [inputSegment []] ∧
      ∀ tree, parse noNumber (String.ofList (compileTemplate (textOf ['\x08'] [inputSegment []]))) ≠
        .ok tree) ∧
    (IsTemplate noNumber ['\x7b'] [inputSegment []] ∧ WithinLimits noNumber ['\x7b'] [inputSegment []] ∧
      ∀ tree, parse noNumber (String.ofList (compileTemplate (textOf ['\x7b'] [inputSegment []]))) ≠
        .ok tree) ∧
    (IsTemplate noNumber [] [inputSegment [], inputSegment []] ∧
      WithinLimits noNumber [] [inputSegment [], inputSegment []] ∧
      ∃ tree a, parse noNumber (String.ofList (compileTemplate
          (textOf [] [inputSegment [], inputSegment []]))) = .ok tree ∧
        evaluate Evaluator.Digit.numbers (fun _ ↦ none) (Evaluator.Digit.scope (.str a))
          (.call "toText" [.root .input]) = .ok (.str a) ∧
        evaluate Evaluator.Digit.numbers (fun _ ↦ none) (Evaluator.Digit.scope (.str a)) tree =
          .error (.expr ⟨.limit, "string result exceeds the size limit"⟩)) := by
  have htwo : IsTemplate noNumber [] [inputSegment [], inputSegment []] :=
    isTemplate_input _ [[], []] (by decide)
  have htwoLimits : WithinLimits noNumber [] [inputSegment [], inputSegment []] :=
    withinLimits_input _ [[], []] (by decide +kernel) (by decide)
  refine ⟨⟨isTemplate_input _ [[]] (by decide),
      withinLimits_input _ [[]] (by decide +kernel) (by decide),
      parse_ne_ok (by decide +kernel)⟩,
    ⟨isTemplate_input _ [[]] (by decide),
      withinLimits_input _ [[]] (by decide +kernel) (by decide),
      parse_ne_ok (by decide +kernel)⟩, htwo, htwoLimits, _, List.replicate 40000 97,
    parse_compileTemplate htwo ⟨by simp [runsOf, inputSegment], by simp [runsOf, inputSegment]⟩
      htwoLimits, ?_, ?_⟩
  · show (evalNode _ _ _ (.call "toText" [.root .input]) ⟨9997 + 3, 0⟩).map _ = _
    rw [evalNode_input]
    rfl
  · refine evaluate_input_input ?_
    rw [replicate_append_replicate, byteLength_replicate]
    decide

end Enkaku.Template
