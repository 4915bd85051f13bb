import Enkaku.Adb.ShellQuote
import Mathlib.Algebra.GroupWithZero.Nat

/-!
# A text for `input text`

`escape.ts`: `escapeInputText` writes a percent sign as `\%` and a space as `%s`, and puts the result
between single quotes.  The shell reads one literal word, whatever the text is; but a backslash is
written as it stands, so before a space it is written like `%s` (`escapeInputText_inj_iff`).
-/

set_option autoImplicit false

namespace Enkaku

open PosixSh

structure InputTextError where
  message : String
  code : String := "INPUT_TEXT_UNSUPPORTED"
  deriving DecidableEq

/-- `replaceAll`, of one character. -/
def replaceChar (c : Char) (new s : List Char) : List Char :=
  s.flatMap fun d ↦ if d = c then new else [d]

/-- `/[\x20-\x7e]/`. -/
def isPrintable (c : Char) : Bool := ' ' ≤ c ∧ c ≤ '~'

/-- What stands between the quotes, but for the quotes in it. -/
def inputArgument (s : List Char) : List Char :=
  replaceChar ' ' ['%', 's'] (replaceChar '%' ['\\', '%'] s)

/-- `escapeInputText`; the length is in UTF-16 units. -/
def escapeInputText (s : List Char) : Except InputTextError (List Char) :=
  let length := (s.map fun c ↦ if c.val > 0xFFFF then 2 else 1).sum
  if length = 0 ∨ length > 1000 then .error { message := "text must be 1..1000 characters" }
  else if s.any fun c ↦ !isPrintable c then
    .error { message :=
      "only printable ASCII is supported in the fallback input mode (adb-input)" }
  else .ok ('\'' :: (replaceChar '\'' ['\'', '\\', '\'', '\''] (inputArgument s) ++ ['\'']))

/-- Printable ASCII of 1 to 1000 characters. -/
def Typable (s : List Char) : Prop := 1 ≤ s.length ∧ s.length ≤ 1000 ∧ s.all isPrintable

instance : DecidablePred Typable := fun _ ↦ inferInstanceAs (Decidable (_ ∧ _))

theorem escapeInputText_of_typable {s : List Char} (h : Typable s) :
    escapeInputText s = .ok (shellQuote (inputArgument s)) := by
  obtain ⟨hpos, hmax, hall⟩ := h
  rw [List.all_eq_true] at hall
  have hlength : (s.map fun c ↦ if c.val > 0xFFFF then 2 else 1).sum = s.length := by
    have hone : ∀ c ∈ s, (if c.val > 0xFFFF then 2 else 1) = 1 := fun c hc ↦
      if_neg (Nat.not_lt.mpr (Nat.le_trans (of_decide_eq_true (hall c hc)).2 (by decide)))
    simp [List.map_congr_left hone]
  have hany : (s.any fun c ↦ !isPrintable c) = false := by
    simpa using hall
  rw [escapeInputText, hlength, if_neg (by omega), if_neg (by simp [hany])]
  rfl

/-! ## Which texts are written alike -/

/-- The text with each backslash before a space, and the space, spelled `%s`. -/
def respelled : List Char → List Char
  | '\\' :: ' ' :: s => '%' :: 's' :: respelled s
  | c :: s => c :: respelled s
  | [] => []

/-- What an argument was written from, if no backslash stood before a space. -/
def unwritten : List Char → List Char
  | '\\' :: '%' :: s => '%' :: unwritten s
  | '%' :: 's' :: s => ' ' :: unwritten s
  | c :: s => c :: unwritten s
  | [] => []

theorem inputArgument_cons (c : Char) (s : List Char) : inputArgument (c :: s) =
    (if c = '%' then ['\\', '%'] else if c = ' ' then ['%', 's'] else [c]) ++ inputArgument s := by
  rw [inputArgument, replaceChar, replaceChar, List.flatMap_cons, List.flatMap_append]
  congr 1
  by_cases hc : c = '%'
  · subst hc
    rfl
  · simp [hc]

theorem inputArgument_respelled (s : List Char) : inputArgument (respelled s) = inputArgument s := by
  fun_induction respelled s with
  | case1 s ih => simp [inputArgument_cons, ih]
  | case2 c s _ ih => simp [inputArgument_cons, ih]
  | case3 => rfl

theorem unwritten_inputArgument (s : List Char) : unwritten (inputArgument s) = respelled s := by
  fun_induction respelled s with
  | case1 s ih => simp [inputArgument_cons, unwritten, ih]
  | case2 c s hnot ih =>
    by_cases hslash : c = '\\'
    · subst hslash
      -- What follows a backslash is not written with a percent sign in front.
      have hnext : ∀ t, inputArgument s ≠ '%' :: t := by
        cases s with
        | nil => exact nofun
        | cons d s =>
          intro t h
          rw [inputArgument_cons] at h
          split_ifs at h with h₁ h₂
          · cases h
          · exact hnot s rfl (h₂ ▸ rfl)
          · exact h₁ (List.cons.inj h).1
      simp [inputArgument_cons, unwritten, ih, hnext]
    · by_cases hc : c = '%'
      · simp [inputArgument_cons, unwritten, ih, hc]
      · by_cases hspace : c = ' '
        · simp [inputArgument_cons, unwritten, ih, hspace]
        · simp [inputArgument_cons, unwritten, ih, hc, hspace, hslash]
  | case3 => rfl

theorem inputArgument_eq_iff {s t : List Char} :
    inputArgument s = inputArgument t ↔ respelled s = respelled t := by
  refine ⟨fun h ↦ ?_, fun h ↦ ?_⟩
  · rw [← unwritten_inputArgument, h, unwritten_inputArgument]
  · rw [← inputArgument_respelled, h, inputArgument_respelled]

theorem shellQuote_inj {s t : List Char} (h : shellQuote s = shellQuote t) : s = t := by
  have hs := lex_shellQuote s []
  rw [h, lex_shellQuote t [], lex.eq_def, lex.eq_def] at hs
  exact List.map_injective_iff.mpr (fun c d h ↦ (Piece.char.inj h).1)
    (Token.word.inj (List.singleton_inj.mp (Option.some.inj hs.symm)))

theorem nul_notMem_inputArgument {s : List Char} (h : Typable s) : '\x00' ∉ inputArgument s := by
  have hnul : '\x00' ∉ s := fun hmem ↦ absurd (List.all_eq_true.mp h.2.2 _ hmem) (by decide)
  clear h
  induction s with
  | nil => exact List.not_mem_nil
  | cons c s ih =>
    rw [List.mem_cons, not_or] at hnul
    rw [inputArgument_cons, List.mem_append, not_or]
    refine ⟨?_, ih hnul.2⟩
    split_ifs <;> simp [hnul.1]

/-- **What is typed.**  The shell hands `input` one literal word; two texts are given the same command
exactly when they are the same once a backslash and the space behind it are spelled `%s`. -/
theorem escapeInputText_inj_iff {s t : List Char} (hs : Typable s) (ht : Typable t) :
    ((escapeInputText s = escapeInputText t → s = t) ↔ s = t ∨ respelled s ≠ respelled t) ∧
      ∃ command, escapeInputText s = .ok command ∧
        tokens command = some [.literal (inputArgument s)] := by
  have hsame : (Except.ok (ε := InputTextError) (shellQuote (inputArgument s)) =
      .ok (shellQuote (inputArgument t))) ↔ respelled s = respelled t := by
    rw [← inputArgument_eq_iff, Except.ok.injEq]
    exact ⟨shellQuote_inj, congrArg shellQuote⟩
  rw [escapeInputText_of_typable hs, escapeInputText_of_typable ht, hsame, imp_iff_not_or, or_comm]
  refine ⟨Iff.rfl, _, rfl, ?_⟩
  · have hnul := nul_notMem_shellQuote (nul_notMem_inputArgument hs)
    have hlex := lex_shellQuote (inputArgument s) []
    rw [List.append_nil] at hlex
    rw [tokens, if_neg hnul, hlex]
    rfl

/-- A percent sign and an `s`; a backslash and a space. -/
theorem escapeInputText_collision : Typable "%s".toList ∧ Typable "\\ ".toList ∧
    escapeInputText "%s".toList = escapeInputText "\\ ".toList ∧ "%s".toList ≠ "\\ ".toList := by
  decide

theorem escapeInputText_inj_iff_quoted :
    (escapeInputText "it's 5%".toList = escapeInputText "\\ ".toList → "it's 5%".toList = "\\ ".toList) ∧
      ∃ command, escapeInputText "it's 5%".toList = .ok command ∧
        tokens command = some [.literal "it's%s5\\%".toList] :=
  have h := escapeInputText_inj_iff (s := "it's 5%".toList) (t := "\\ ".toList) (by decide) (by decide)
  ⟨h.1.mpr (.inr (by decide)), h.2⟩

end Enkaku
