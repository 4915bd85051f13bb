import Enkaku.Expr.Parse

/-!
# The tokeniser against its lexemes

`Lexes` cuts a text into lexemes, with spaces between them.  A lexeme takes all the characters it
can: `Reads` says where each kind of token ends.  The tokeniser returns exactly the tokens of the
lexemes.
-/

set_option autoImplicit false

namespace Enkaku

open List

/-! ## Lexemes -/

/-- The text is over, or does not go on with such a character. -/
def Ends (p : Char → Bool) (cs : List Char) : Prop := ∀ c rest, cs = c :: rest → p c = false

/-- What stands between the quotes of a string literal, and the characters it stands for. -/
inductive Quoted (quote : Char) : List Char → List Char → Prop
  | nil : Quoted quote [] []
  | plain {c : Char} {body value : List Char} (hquote : c ≠ quote) (hescape : c ≠ '\\')
      (h : Quoted quote body value) : Quoted quote (c :: body) (c :: value)
  | escaped {c e : Char} {body value : List Char} (hescape : escape? c = some e)
      (h : Quoted quote body value) : Quoted quote ('\\' :: c :: body) (e :: value)

/-- `Reads lexeme tok rest`: before the rest of the text, the lexeme is read as the token. -/
inductive Reads : List Char → Tok → List Char → Prop
  | whole {d : Char} {ds rest : List Char} (hd : isDigit d) (hds : ∀ c ∈ ds, isDigit c)
      (hend : Ends isDigit rest)
      (hpoint : ∀ d' rest', rest = '.' :: d' :: rest' → isDigit d' = false) :
      Reads (d :: ds) (.num (String.ofList (d :: ds))) rest
  | fraction {d d' : Char} {ds ds' rest : List Char} (hd : isDigit d) (hds : ∀ c ∈ ds, isDigit c)
      (hd' : isDigit d') (hds' : ∀ c ∈ ds', isDigit c) (hend : Ends isDigit rest) :
      Reads (d :: (ds ++ '.' :: d' :: ds')) (.num (String.ofList (d :: (ds ++ '.' :: d' :: ds'))))
        rest
  | str {quote : Char} {body value rest : List Char} (hquote : quote = '"' ∨ quote = '\'')
      (h : Quoted quote body value) :
      Reads (quote :: (body ++ [quote])) (.str (String.ofList value)) rest
  | root {name : RootName} {rest : List Char} (hend : Ends isIdentPart rest) :
      Reads name.text.toList (.root name) rest
  | ident {c : Char} {cs rest : List Char} (hc : isIdentStart c) (hcs : ∀ c ∈ cs, isIdentPart c)
      (hend : Ends isIdentPart rest) : Reads (c :: cs) (.ident (String.ofList (c :: cs))) rest
  | pair {text : String} {rest : List Char} (h : text ∈ punct2) :
      Reads text.toList (.punct text) rest
  | single {c : Char} {rest : List Char} (h : c ∈ punct1)
      (hpair : ∀ c' rest', rest = c' :: rest' → String.ofList [c, c'] ∉ punct2) :
      Reads [c] (.punct (String.ofList [c])) rest

/-- The tokens a text is cut into. -/
inductive Lexes : List Char → List Tok → Prop
  | nil : Lexes [] []
  | space {c : Char} {cs : List Char} {toks : List Tok} (hc : isSpace c) (h : Lexes cs toks) :
      Lexes (c :: cs) toks
  | token {lexeme rest : List Char} {tok : Tok} {toks : List Tok} (hread : Reads lexeme tok rest)
      (h : Lexes rest toks) : Lexes (lexeme ++ rest) (tok :: toks)

/-! ## Runs of characters -/

variable {rest : List Char}

/-- A run is taken whole when every character of it is of the kind and the next one is not. -/
theorem span_of_run {p : Char → Bool} {run : List Char} (hrun : ∀ c ∈ run, p c)
    (hend : Ends p rest) : (run ++ rest).takeWhile p = run ∧ (run ++ rest).dropWhile p = rest := by
  induction run with
  | nil =>
    cases rest with
    | nil => exact ⟨rfl, rfl⟩
    | cons c cs => simp [hend c cs rfl]
  | cons c run ih =>
    have hc : p c = true := hrun c (.head _)
    have hspan := ih fun c' hc' ↦ hrun c' (.tail _ hc')
    simp [hc, hspan.1, hspan.2]

theorem takeWhile_run (p : Char → Bool) (cs : List Char) : ∀ c ∈ cs.takeWhile p, p c :=
  fun _ hc ↦ mem_takeWhile_imp hc

theorem dropWhile_ends (p : Char → Bool) (cs : List Char) : Ends p (cs.dropWhile p) := by
  intro c rest h
  induction cs with
  | nil => exact nomatch h
  | cons c' cs ih =>
    rw [dropWhile_cons] at h
    split_ifs at h with hp
    · exact ih h
    · cases h
      simpa using hp

/-! ## String literals -/

variable {cs : List Char}

theorem scanString_ok {quote : Char} {start j : Nat} {out out' : List Char}
    (h : scanString quote start j out cs = .ok (out', rest)) :
    ∃ body value, cs = body ++ quote :: rest ∧ Quoted quote body value ∧ out' = out ++ value := by
  induction j, out, cs using scanString.induct quote with
  | case1 => exact nomatch h
  | case2 j out | case5 j out esc rest' =>
    rw [scanString, if_pos rfl] at h
    cases h
    exact ⟨[], [], rfl, .nil, by simp⟩
  | case3 j out hquote =>
    rw [scanString, if_neg hquote, if_pos rfl] at h
    exact nomatch h
  | case4 j out c hquote hescape =>
    rw [scanString, if_neg hquote, if_neg hescape] at h
    exact nomatch h
  | case6 j out esc rest' e hesc hquote ih =>
    rw [scanString, if_neg hquote, if_pos rfl, hesc] at h
    obtain ⟨body, value, rfl, hbody, rfl⟩ := ih h
    exact ⟨'\\' :: esc :: body, e :: value, rfl, .escaped hesc hbody, by simp⟩
  | case7 j out esc rest' hesc hquote =>
    rw [scanString, if_neg hquote, if_pos rfl, hesc] at h
    exact nomatch h
  | case8 j out c esc rest' hquote hescape ih =>
    rw [scanString, if_neg hquote, if_neg hescape] at h
    obtain ⟨body, value, hcs, hbody, rfl⟩ := ih h
    exact ⟨c :: body, c :: value, by rw [hcs]; rfl, .plain hquote hescape hbody, by simp⟩

theorem scanString_run {quote : Char} {start : Nat} {body value : List Char}
    (hquote : '\\' ≠ quote) (h : Quoted quote body value) (j : Nat) (out : List Char) :
    scanString quote start j out (body ++ quote :: rest) = .ok (out ++ value, rest) := by
  induction h generalizing j out with
  | nil =>
    cases rest with
    | nil => simp [scanString]
    | cons c rest => simp [scanString]
  | @plain c body value hc hescape h ih =>
    obtain ⟨x, xs, hx⟩ : ∃ x xs, body ++ quote :: rest = x :: xs :=
      exists_cons_of_ne_nil (by simp)
    rw [cons_append, hx, scanString, if_neg hc, if_neg hescape, ← hx, ih]
    simp
  | @escaped c e body value hesc h ih =>
    rw [cons_append, cons_append, scanString, if_neg hquote, if_pos rfl, hesc]
    dsimp only
    rw [ih]
    simp

/-! ## Numbers -/

theorem scanNumber_reads {d : Char} (hd : isDigit d) (cs : List Char) :
    ∃ run, cs = run ++ (scanNumber cs).2 ∧ (scanNumber cs).1 = run ∧
      Reads (d :: run) (.num (String.ofList (d :: run))) (scanNumber cs).2 := by
  have happ := takeWhile_append_dropWhile (p := isDigit) (l := cs)
  have hrun := takeWhile_run isDigit cs
  have hend := dropWhile_ends isDigit cs
  unfold scanNumber
  split
  · next d' rest hrest =>
    rw [hrest] at happ hend
    split_ifs with hd'
    · refine ⟨cs.takeWhile isDigit ++ '.' :: d' :: rest.takeWhile isDigit, ?_, rfl, ?_⟩
      · simpa [takeWhile_append_dropWhile] using happ.symm
      · exact .fraction hd hrun hd' (takeWhile_run isDigit rest) (dropWhile_ends isDigit rest)
    · refine ⟨cs.takeWhile isDigit, happ.symm, rfl, .whole hd hrun hend ?_⟩
      intro d'' rest'' h
      obtain ⟨-, h⟩ := List.cons.inj h
      obtain ⟨rfl, -⟩ := List.cons.inj h
      simpa using hd'
  · next hpoint =>
    refine ⟨cs.takeWhile isDigit, happ.symm, rfl, .whole hd hrun hend ?_⟩
    intro d' rest' h
    exact absurd h (hpoint d' rest')

theorem scanNumber_whole {ds : List Char} (hds : ∀ c ∈ ds, isDigit c) (hend : Ends isDigit rest)
    (hpoint : ∀ d' rest', rest = '.' :: d' :: rest' → isDigit d' = false) :
    scanNumber (ds ++ rest) = (ds, rest) := by
  obtain ⟨htake, hdrop⟩ := span_of_run hds hend
  unfold scanNumber
  rw [htake, hdrop]
  split
  · next d' rest' => rw [if_neg (by simp [hpoint d' rest' rfl])]
  · rfl

theorem scanNumber_fraction {ds ds' : List Char} {d' : Char} (hds : ∀ c ∈ ds, isDigit c)
    (hd' : isDigit d') (hds' : ∀ c ∈ ds', isDigit c) (hend : Ends isDigit rest) :
    scanNumber (ds ++ '.' :: d' :: (ds' ++ rest)) = (ds ++ '.' :: d' :: ds', rest) := by
  have hpoint : Ends isDigit ('.' :: d' :: (ds' ++ rest)) := by
    intro c cs h
    obtain ⟨rfl, -⟩ := List.cons.inj h
    rfl
  obtain ⟨htake, hdrop⟩ := span_of_run hds hpoint
  obtain ⟨htake', hdrop'⟩ := span_of_run hds' hend
  unfold scanNumber
  rw [htake, hdrop]
  simp [hd', htake', hdrop']

/-! ## One token -/

variable {offset : Nat} {tok : Tok} {c : Char}

/-- What is read is a lexeme, and the rest of the text is left. -/
theorem scanToken_ok (h : scanToken offset c cs = .ok (tok, rest)) :
    ∃ lexeme, c :: cs = lexeme ++ rest ∧ Reads lexeme tok rest := by
  unfold scanToken at h
  split_ifs at h with hdigit hquote hroot hident hpair hsingle
  · cases h
    obtain ⟨run, hrun, hfst, hread⟩ := scanNumber_reads hdigit cs
    exact ⟨c :: run, by rw [cons_append, ← hrun], by rwa [hfst]⟩
  · split at h
    · exact nomatch h
    · next out rest' hscan =>
      cases h
      obtain ⟨body, value, rfl, hbody, rfl⟩ := scanString_ok hscan
      exact ⟨c :: (body ++ [c]), by simp, .str hquote hbody⟩
  · dsimp only at h
    split at h
    · exact nomatch h
    · next r hfind =>
      cases h
      have htext : r.text = String.ofList (c :: cs.takeWhile isIdentPart) := by
        simpa using find?_some hfind
      refine ⟨r.text.toList, ?_, .root (dropWhile_ends isIdentPart cs)⟩
      rw [htext, String.toList_ofList, cons_append, takeWhile_append_dropWhile]
  · cases h
    refine ⟨c :: cs.takeWhile isIdentPart, ?_,
      .ident hident (takeWhile_run isIdentPart cs) (dropWhile_ends isIdentPart cs)⟩
    rw [cons_append, takeWhile_append_dropWhile]
  · cases h
    refine ⟨(String.ofList (c :: cs.take 1)).toList, ?_, .pair (by simpa using hpair)⟩
    rw [String.toList_ofList, cons_append, take_append_drop]
  · cases h
    refine ⟨[c], rfl, .single (by simpa using hsingle) ?_⟩
    rintro c' rest' rfl
    simpa using hpair

theorem identStart_not_digit (h : isIdentStart c) : isDigit c = false := by
  simp only [isIdentStart, isDigit, Bool.or_eq_true, Bool.and_eq_true, decide_eq_true_eq, beq_iff_eq,
    Bool.and_eq_false_imp, decide_eq_false_iff_not, Char.le_def, UInt32.le_iff_toNat_le] at h ⊢
  rcases h with (⟨h, -⟩ | ⟨h, -⟩) | rfl
  · intro _ h'
    exact absurd (Nat.le_trans h h') (by decide)
  · intro _ h'
    exact absurd (Nat.le_trans h h') (by decide)
  · decide

/-- No other kind of token starts with a punctuation character. -/
theorem punct1_kind (h : c ∈ punct1) : isDigit c = false ∧ ¬ (c = '"' ∨ c = '\'') ∧
    c ≠ '$' ∧ isIdentStart c = false ∧ String.ofList [c] ∉ punct2 := by
  have hall : ∀ c ∈ punct1, isDigit c = false ∧ ¬ (c = '"' ∨ c = '\'') ∧ c ≠ '$' ∧
      isIdentStart c = false ∧ String.ofList [c] ∉ punct2 := all_iff_forall_prop.mp (by decide)
  exact hall c h

/-- A lexeme is read back as its token. -/
theorem scanToken_of_reads {lexeme : List Char} (h : Reads lexeme tok rest)
    (hcs : c :: cs = lexeme ++ rest) : scanToken offset c cs = .ok (tok, rest) := by
  unfold scanToken
  cases h with
  | whole hd hds hend hpoint =>
    rw [cons_append] at hcs
    obtain ⟨rfl, rfl⟩ := List.cons.inj hcs
    rw [if_pos hd, scanNumber_whole hds hend hpoint]
  | fraction hd hds hd' hds' hend =>
    rw [cons_append, append_assoc] at hcs
    obtain ⟨rfl, rfl⟩ := List.cons.inj hcs
    rw [if_pos hd, cons_append, cons_append, scanNumber_fraction hds hd' hds' hend]
  | @str quote body value _ hquote h =>
    rw [cons_append, append_assoc] at hcs
    obtain ⟨rfl, rfl⟩ := List.cons.inj hcs
    have hdigit : isDigit c = false := by rcases hquote with rfl | rfl <;> rfl
    have hescape : '\\' ≠ c := by rcases hquote with rfl | rfl <;> decide
    rw [if_neg (by simp [hdigit]), if_pos hquote, singleton_append, scanString_run hescape h]
    simp
  | @root name _ hend =>
    obtain ⟨text, htext, hparts⟩ : ∃ text, name.text.toList = '$' :: text ∧ text.all isIdentPart := by
      cases name <;> exact ⟨_, rfl, by decide⟩
    rw [htext, cons_append] at hcs
    obtain ⟨rfl, rfl⟩ := List.cons.inj hcs
    obtain ⟨htake, hdrop⟩ := span_of_run (by simpa using hparts) hend
    have hname : String.ofList ('$' :: text) = name.text := by
      rw [← htext, String.ofList_toList]
    have hfind : (RootName.all.find? fun r ↦ r.text = name.text) = some name := by
      cases name <;> rfl
    rw [if_neg (by decide), if_neg (by decide), if_pos rfl]
    dsimp only
    rw [htake, hdrop, hname, hfind]
  | ident hc hparts hend =>
    rw [cons_append] at hcs
    obtain ⟨rfl, rfl⟩ := List.cons.inj hcs
    obtain ⟨htake, hdrop⟩ := span_of_run hparts hend
    have hquote : ¬ (c = '"' ∨ c = '\'') := by
      rintro (rfl | rfl) <;> exact nomatch hc
    have hroot : c ≠ '$' := by
      rintro rfl
      exact nomatch hc
    rw [if_neg (by simp [identStart_not_digit hc]), if_neg hquote, if_neg hroot, if_pos hc, htake,
      hdrop]
  | pair h =>
    rw [punct2] at h
    fin_cases h <;> (obtain ⟨rfl, rfl⟩ := List.cons.inj hcs; rfl)
  | @single c' _ h hpair =>
    rw [singleton_append] at hcs
    obtain ⟨rfl, rfl⟩ := List.cons.inj hcs
    obtain ⟨hdigit, hquote, hroot, hident, halone⟩ := punct1_kind h
    have hnot : String.ofList (c :: cs.take 1) ∉ punct2 := by
      cases cs with
      | nil => exact halone
      | cons c' rest => exact hpair c' rest rfl
    rw [if_neg (by simp [hdigit]), if_neg hquote, if_neg hroot, if_neg (by simp [hident]),
      if_neg (by simpa using hnot), if_pos (by simpa using h)]

/-! ## The text -/

theorem isSpace_eq_false (h : ∀ space ∈ [' ', '\t', '\n', '\r'], c ≠ space) : isSpace c = false := by
  simpa [isSpace, and_assoc] using h

/-- A lexeme starts where the spaces end. -/
theorem Reads.starts {lexeme : List Char} (h : Reads lexeme tok rest) :
    ∃ c cs, lexeme = c :: cs ∧ isSpace c = false := by
  cases h with
  | whole hd | fraction hd =>
    refine ⟨_, _, rfl, isSpace_eq_false ?_⟩
    rintro space hspace rfl
    fin_cases hspace <;> exact nomatch hd
  | str hquote => rcases hquote with rfl | rfl <;> exact ⟨_, _, rfl, rfl⟩
  | @root name => cases name <;> exact ⟨_, _, rfl, rfl⟩
  | ident hc =>
    refine ⟨_, _, rfl, isSpace_eq_false ?_⟩
    rintro space hspace rfl
    fin_cases hspace <;> exact nomatch hc
  | pair h =>
    rw [punct2] at h
    fin_cases h <;> exact ⟨_, _, rfl, rfl⟩
  | @single c _ h =>
    have hall : ∀ c ∈ punct1, isSpace c = false := all_iff_forall_prop.mp (by decide)
    exact ⟨c, [], rfl, hall c h⟩

theorem Reads.ne_eof {lexeme : List Char} (h : Reads lexeme tok rest) : tok ≠ .eof := by
  cases h <;> exact nofun

theorem scanTokens_ok {fuel : Nat} {tokens : List Token} (hfuel : cs.length ≤ fuel)
    (h : scanTokens fuel offset cs = .ok tokens) :
    Lexes cs (tokens.map (·.tok)) ∧ ∀ t ∈ tokens, t.tok ≠ .eof := by
  induction fuel generalizing offset cs tokens with
  | zero =>
    obtain rfl := length_eq_zero_iff.mp (Nat.le_zero.mp hfuel)
    cases h
    exact ⟨.nil, nofun⟩
  | succ fuel ih =>
    cases cs with
    | nil =>
      cases h
      exact ⟨.nil, nofun⟩
    | cons c cs =>
      rw [scanTokens] at h
      split_ifs at h with hspace
      · obtain ⟨hlex, heof⟩ := ih (by simpa using hfuel) h
        exact ⟨.space hspace hlex, heof⟩
      · split at h
        · exact nomatch h
        · next tok rest hread =>
          split at h
          · exact nomatch h
          · next tokens' hrest =>
            cases h
            obtain ⟨lexeme, hcs, hreads⟩ := scanToken_ok hread
            obtain ⟨c', lexeme', rfl, -⟩ := hreads.starts
            have hlength := congrArg List.length hcs
            simp only [length_cons, length_append] at hlength hfuel
            obtain ⟨hlex, heof⟩ := ih (by omega) hrest
            rw [hcs]
            refine ⟨.token hreads hlex, ?_⟩
            exact forall_mem_cons.mpr ⟨hreads.ne_eof, heof⟩

theorem scanTokens_of_lexes {toks : List Tok} (h : Lexes cs toks) {fuel : Nat}
    (hfuel : cs.length ≤ fuel) (offset : Nat) :
    ∃ tokens, scanTokens fuel offset cs = .ok tokens ∧ tokens.map (·.tok) = toks := by
  induction h generalizing fuel offset with
  | nil => cases fuel <;> exact ⟨[], rfl, rfl⟩
  | @space c cs toks hc h ih =>
    obtain ⟨fuel, rfl⟩ : ∃ k, fuel = k + 1 :=
      Nat.exists_eq_succ_of_ne_zero (by simp at hfuel; omega)
    rw [scanTokens, if_pos hc]
    exact ih (by simpa using hfuel) (offset + 1)
  | @token lexeme rest tok toks hread h ih =>
    obtain ⟨c, cs, rfl, hspace⟩ := hread.starts
    obtain ⟨fuel, rfl⟩ : ∃ k, fuel = k + 1 :=
      Nat.exists_eq_succ_of_ne_zero (by simp at hfuel; omega)
    have hfuel' : rest.length ≤ fuel := by
      simp only [length_append, length_cons] at hfuel
      omega
    obtain ⟨tokens, hrest, rfl⟩ := ih hfuel' (offset + unitsOf (c :: cs ++ rest) - unitsOf rest)
    refine ⟨⟨tok, offset⟩ :: tokens, ?_, rfl⟩
    rw [cons_append, scanTokens, if_neg (by simp [hspace]),
      scanToken_of_reads hread (cons_append ..).symm]
    dsimp only
    rw [← cons_append, hrest]

/-- **A text is cut into its lexemes.**  The tokens are those of the only way to cut the text, and
where there is none the tokeniser throws. -/
theorem tokenize_ok_iff {source : String} {toks : List Tok} :
    (∃ tokens, tokenize source = .ok tokens ∧ tokens.map (·.tok) = toks) ↔
      Lexes source.toList toks := by
  constructor
  · rintro ⟨tokens, h, rfl⟩
    exact (scanTokens_ok (le_rfl) h).1
  · intro h
    exact scanTokens_of_lexes h (le_rfl) 0

/-- The tokens end with the text. -/
theorem tokenize_ne_eof {source : String} {tokens : List Token} (h : tokenize source = .ok tokens) :
    ∀ t ∈ tokens, t.tok ≠ .eof :=
  (scanTokens_ok (le_rfl) h).2

end Enkaku
