import Enkaku.Expr.Lexing
import Enkaku.Workflow.SetCodec

/-!
# Texts put together

What the tokenizer makes of a text that is put together from others.  A lexeme looks at most at the
two characters behind it, and none goes on at a space or a closing parenthesis: a text that starts
with one of them can stand behind any other (`Lexes.append`).  And a lexeme neither starts nor ends
with a space of JavaScript, so that a text can be trimmed (`Lexes.jsTrim`).
-/

set_option autoImplicit false

namespace Enkaku

open List

/-- A text that a lexeme before it does not go on with. -/
def Stops (cs : List Char) : Prop := ∀ c rest, cs = c :: rest → c = ')' ∨ c = ' '

theorem Ends.append {p : Char → Bool} {rest cs : List Char} (h : Ends p rest) (hcs : Stops cs)
    (hparen : p ')' = false) (hspace : p ' ' = false) : Ends p (rest ++ cs) := by
  intro c rest' heq
  cases rest with
  | nil =>
    rcases hcs c rest' heq with rfl | rfl
    · exact hparen
    · exact hspace
  | cons d rest =>
    obtain ⟨rfl, -⟩ := List.cons.inj heq
    exact h d rest rfl

variable {cs rest : List Char}

theorem Ends.of_append {p : Char → Bool} (h : Ends p (rest ++ cs)) : Ends p rest := by
  rintro c rest' rfl
  exact h c (rest' ++ cs) rfl

variable {tok : Tok}

theorem Reads.append {lexeme : List Char} (h : Reads lexeme tok rest) (hcs : Stops cs) :
    Reads lexeme tok (rest ++ cs) := by
  cases h with
  | whole hd hds hend hpoint =>
    refine .whole hd hds (hend.append hcs rfl rfl) fun d' rest' heq ↦ ?_
    rcases rest with _ | ⟨c, _ | ⟨d, rest⟩⟩
    · rcases hcs _ _ heq with h | h <;> cases h
    · rcases hcs _ _ (List.cons.inj heq).2 with rfl | rfl <;> rfl
    · obtain ⟨rfl, -⟩ := List.cons.inj (List.cons.inj heq).2
      exact hpoint d rest (by rw [(List.cons.inj heq).1])
  | fraction hd hds hd' hds' hend => exact .fraction hd hds hd' hds' (hend.append hcs rfl rfl)
  | str hquote h => exact .str hquote h
  | root hend => exact .root (hend.append hcs rfl rfl)
  | ident hc hparts hend => exact .ident hc hparts (hend.append hcs rfl rfl)
  | pair h => exact .pair h
  | @single c _ h hpair =>
    refine .single h fun c' rest' heq ↦ ?_
    cases rest with
    | nil =>
      have hall : ∀ c ∈ punct1, String.ofList [c, ')'] ∉ punct2 ∧ String.ofList [c, ' '] ∉ punct2 :=
        all_iff_forall_prop.mp (by decide)
      rcases hcs c' rest' heq with rfl | rfl
      · exact (hall c h).1
      · exact (hall c h).2
    | cons d rest =>
      obtain ⟨rfl, -⟩ := List.cons.inj heq
      exact hpair d rest rfl

theorem Reads.of_append {lexeme : List Char} (h : Reads lexeme tok (rest ++ cs)) :
    Reads lexeme tok rest := by
  cases h with
  | whole hd hds hend hpoint =>
    refine .whole hd hds hend.of_append ?_
    rintro d' rest' rfl
    exact hpoint d' (rest' ++ cs) rfl
  | fraction hd hds hd' hds' hend => exact .fraction hd hds hd' hds' hend.of_append
  | str hquote h => exact .str hquote h
  | root hend => exact .root hend.of_append
  | ident hc hparts hend => exact .ident hc hparts hend.of_append
  | pair h => exact .pair h
  | single h hpair =>
    refine .single h ?_
    rintro c' rest' rfl
    exact hpair c' (rest' ++ cs) rfl

variable {toks : List Tok}

/-- **Texts one behind the other** are cut into the tokens of both, where the second does not go on
with a lexeme of the first. -/
theorem Lexes.append {cs' : List Char} {toks' : List Tok} (h : Lexes cs toks)
    (h' : Lexes cs' toks') (hstops : Stops cs') : Lexes (cs ++ cs') (toks ++ toks') := by
  induction h with
  | nil => exact h'
  | space hc _ ih => exact .space hc ih
  | token hread _ ih =>
    rw [append_assoc]
    exact .token (hread.append hstops) ih

/-! ## Spaces around a text -/

/-- A character a lexeme can start and end with is no space, and no closing brace. -/
def isEdge (c : Char) : Bool := !isJsSpace c && c ≠ '\x7d'

theorem isEdge_of_identPart {c : Char} (h : isIdentPart c) : isEdge c := by
  rw [isEdge, Bool.and_eq_true, Bool.not_eq_true', decide_eq_true_eq]
  refine ⟨?_, ?_⟩
  · by_contra hspace
    rw [Bool.not_eq_false, isJsSpace, Bool.or_eq_true] at hspace
    rcases hspace with hmem | hrange
    · have hall : ∀ c ∈ ['\t', '\n', '\x0b', '\x0c', '\r', ' ', '\u00a0', '\u1680', '\u2028',
          '\u2029', '\u202f', '\u205f', '\u3000', '\ufeff'], isIdentPart c = false := by
        simp [isIdentPart, isIdentStart, isDigit]
      simp [hall c (by simpa using hmem)] at h
    · simp only [Bool.and_eq_true, decide_eq_true_eq, Char.le_def, UInt32.le_iff_toNat_le] at hrange
      have hlow : 8192 ≤ c.val.toNat := hrange.1
      simp only [isIdentPart, isIdentStart, isDigit, Bool.or_eq_true, Bool.and_eq_true,
        decide_eq_true_eq, beq_iff_eq, Char.le_def, UInt32.le_iff_toNat_le] at h
      rcases h with ((⟨-, h⟩ | ⟨-, h⟩) | rfl) | ⟨-, h⟩
      · exact absurd (Nat.le_trans hlow h) (by decide +kernel)
      · exact absurd (Nat.le_trans hlow h) (by decide +kernel)
      · exact absurd hlow (by decide +kernel)
      · exact absurd (Nat.le_trans hlow h) (by decide +kernel)
  · rintro rfl
    cases h

theorem isEdge_of_digit {c : Char} (h : isDigit c) : isEdge c :=
  isEdge_of_identPart (by simp [isIdentPart, h])

/-- A text whose first and last characters are of the kind. -/
def Edged (cs : List Char) : Prop :=
  (∃ c rest, cs = c :: rest ∧ isEdge c) ∧ ∃ front c, cs = front ++ [c] ∧ isEdge c

theorem edged_of_all (hne : cs ≠ []) (h : ∀ c ∈ cs, isEdge c) : Edged cs := by
  constructor
  · obtain ⟨c, rest, rfl⟩ := exists_cons_of_ne_nil hne
    exact ⟨c, rest, rfl, h c (.head _)⟩
  · refine ⟨cs.dropLast, cs.getLast hne, (dropLast_append_getLast hne).symm, ?_⟩
    exact h _ (getLast_mem hne)

/-- No lexeme starts or ends with a space. -/
theorem Reads.edged {lexeme : List Char} (h : Reads lexeme tok rest) : Edged lexeme := by
  cases h with
  | whole hd hds =>
    refine edged_of_all (cons_ne_nil _ _) fun c hc ↦ ?_
    rcases mem_cons.mp hc with rfl | hc
    · exact isEdge_of_digit hd
    · exact isEdge_of_digit (hds c hc)
  | @fraction d d' ds ds' _ hd hds hd' hds' =>
    refine edged_of_all (cons_ne_nil _ _) fun c hc ↦ ?_
    simp only [mem_cons, mem_append] at hc
    rcases hc with rfl | hc | rfl | rfl | hc
    · exact isEdge_of_digit hd
    · exact isEdge_of_digit (hds c hc)
    · decide
    · exact isEdge_of_digit hd'
    · exact isEdge_of_digit (hds' c hc)
  | @str quote body value _ hquote _ =>
    have hedge : isEdge quote := by rcases hquote with rfl | rfl <;> decide
    exact ⟨⟨quote, _, rfl, hedge⟩, quote :: body, quote, rfl, hedge⟩
  | @root name =>
    obtain ⟨cs, htext, hedge⟩ : ∃ cs, name.text.toList = '$' :: cs ∧ cs.all isEdge := by
      cases name <;> exact ⟨_, rfl, by decide⟩
    rw [htext]
    refine edged_of_all (cons_ne_nil _ _) fun c hc ↦ ?_
    rcases mem_cons.mp hc with rfl | hc
    · decide
    · exact all_eq_true.mp hedge c hc
  | ident hc hcs =>
    refine edged_of_all (cons_ne_nil _ _) fun c' hc' ↦ ?_
    rcases mem_cons.mp hc' with rfl | hc'
    · exact isEdge_of_identPart (by simp [isIdentPart, hc])
    · exact isEdge_of_identPart (hcs c' hc')
  | @pair text _ h =>
    obtain ⟨c, d, htext, hc, hd⟩ : ∃ c d, text.toList = [c, d] ∧ isEdge c ∧ isEdge d := by
      rw [punct2] at h
      fin_cases h <;> exact ⟨_, _, rfl, by decide, by decide⟩
    rw [htext]
    refine edged_of_all (cons_ne_nil _ _) ?_
    simp [hc, hd]
  | @single c _ h =>
    have hall : ∀ c ∈ punct1, isEdge c := all_iff_forall_prop.mp (by decide)
    exact edged_of_all (cons_ne_nil _ _) (by simpa using hall c h)

theorem isEdge_eq_false_of_isJsSpace {c : Char} (h : isJsSpace c) : isEdge c = false := by
  simp [isEdge, h]

/-- Space in front of a text is no part of it. -/
theorem Lexes.skipWs (h : Lexes cs toks) : Lexes (skipWs cs) toks := by
  induction h with
  | nil => exact .nil
  | @space c cs toks hc h ih =>
    rw [Enkaku.skipWs, dropWhile_cons]
    split_ifs
    · exact ih
    · exact .space hc h
  | @token lexeme rest tok toks hread h ih =>
    obtain ⟨⟨c, cs, rfl, hedge⟩, -⟩ := hread.edged
    have hc : isJsSpace c = false := by
      by_contra hspace
      rw [Bool.not_eq_false] at hspace
      rw [isEdge_eq_false_of_isJsSpace hspace] at hedge
      cases hedge
    rw [Enkaku.skipWs, cons_append, dropWhile_cons, if_neg (by simp [hc])]
    exact .token hread h

variable {spaces : List Char}

theorem Edged.not_spaces (h : Edged cs) (hspaces : ∀ c ∈ spaces, isJsSpace c)
    (heq : spaces = cs ++ rest) : False := by
  obtain ⟨⟨c, cs, rfl, hedge⟩, -⟩ := h
  have hspace := hspaces c (by rw [heq]; simp)
  rw [isEdge_eq_false_of_isJsSpace hspace] at hedge
  cases hedge

theorem Lexes.eq_nil_of_spaces (h : Lexes spaces toks) (hspaces : ∀ c ∈ spaces, isJsSpace c) :
    toks = [] := by
  induction h with
  | nil => rfl
  | space _ _ ih => exact ih fun c hc ↦ hspaces c (.tail _ hc)
  | token hread _ _ => exact (hread.edged.not_spaces hspaces rfl).elim

/-- Space behind a text is no part of it. -/
theorem Lexes.of_append_spaces (h : Lexes (cs ++ spaces) toks)
    (hspaces : ∀ c ∈ spaces, isJsSpace c) : Lexes cs toks := by
  generalize hall : cs ++ spaces = all at h
  induction h generalizing cs with
  | nil =>
    obtain ⟨rfl, -⟩ := append_eq_nil_iff.mp hall
    exact .nil
  | @space c all toks hc h ih =>
    cases cs with
    | nil =>
      obtain rfl : spaces = c :: all := hall
      rw [h.eq_nil_of_spaces fun d hd ↦ hspaces d (.tail _ hd)]
      exact .nil
    | cons c' cs =>
      rw [cons_append] at hall
      obtain ⟨rfl, hrest⟩ := List.cons.inj hall
      exact .space hc (ih hrest)
  | @token lexeme rest tok toks hread h ih =>
    rcases append_eq_append_iff.mp hall with ⟨inside, hlexeme, hspaces'⟩ | ⟨front, rfl, hrest⟩
    · -- The lexeme reaches into the spaces.
      cases inside with
      | nil =>
        rw [append_nil] at hlexeme
        subst hlexeme
        have hnil : toks = [] := h.eq_nil_of_spaces (by simpa [hspaces'] using hspaces)
        have hread' : Reads lexeme tok [] := Reads.of_append hread
        have halone := Lexes.token hread' .nil
        rwa [append_nil, ← hnil] at halone
      | cons c inside =>
        obtain ⟨-, ⟨front, d, hd, hedge⟩⟩ := hread.edged
        have hmem : d ∈ spaces := by
          have hlast : (cs ++ c :: inside).getLast? = some d := by rw [← hlexeme, hd]; simp
          rw [getLast?_append_of_ne_nil _ (cons_ne_nil _ _)] at hlast
          rw [hspaces']
          exact mem_append_left _ (mem_of_getLast? hlast)
        rw [isEdge_eq_false_of_isJsSpace (hspaces d hmem)] at hedge
        cases hedge
    · exact .token (Reads.of_append (hrest ▸ hread)) (ih hrest.symm)

theorem Lexes.jsTrim (h : Lexes cs toks) : Lexes (jsTrim cs) toks := by
  have hskip := h.skipWs
  have hparts : Enkaku.skipWs cs = Enkaku.jsTrim cs ++
      ((Enkaku.skipWs cs).reverse.takeWhile isJsSpace).reverse := by
    rw [Enkaku.jsTrim, ← reverse_append]
    generalize Enkaku.skipWs cs = rest
    rw [Enkaku.skipWs, takeWhile_append_dropWhile, reverse_reverse]
  rw [hparts] at hskip
  refine hskip.of_append_spaces fun c hc ↦ ?_
  exact mem_takeWhile_imp (mem_reverse.mp hc)

/-- No text that is cut into tokens ends with a closing brace. -/
theorem Lexes.getLast?_ne (h : Lexes cs toks) : cs.getLast? ≠ some '\x7d' := by
  induction h with
  | nil => simp
  | @space c cs toks hc h ih =>
    cases cs with
    | nil =>
      rintro heq
      obtain rfl : c = '\x7d' := by simpa using heq
      exact nomatch hc
    | cons d cs => simpa using ih
  | @token lexeme rest tok toks hread h ih =>
    cases rest with
    | nil =>
      obtain ⟨-, front, d, rfl, hedge⟩ := hread.edged
      intro heq
      obtain rfl : d = '\x7d' := by simpa using heq
      exact nomatch hedge
    | cons d rest =>
      rwa [getLast?_append_of_ne_nil _ (cons_ne_nil _ _)]

end Enkaku
