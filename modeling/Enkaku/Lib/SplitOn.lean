import Mathlib.Data.String.Basic
import Mathlib.Data.String.Lemmas

/-!
# Splitting a string at a character

`String.splitOn` walks its string by byte offset.  With a separator of one character it is
`List.splitOn` on the characters, which has the lemmas: splitting what was joined gives the pieces
back, and joining what was split gives the string.
-/

set_option autoImplicit false

namespace SplitOn

open String

/-- One step of the walk, at the start of the separator. -/
theorem splitOnAux_step (s sep : String) (b i : Pos.Raw) (acc : List String) :
    splitOnAux s sep b i 0 acc =
      if i.atEnd s then (b.extract s i :: acc).reverse
      else if i.get s == (0 : Pos.Raw).get sep then
        if ((0 : Pos.Raw).next sep).atEnd sep then
          splitOnAux s sep (i.next s) (i.next s) 0
            (b.extract s ((i.next s).unoffsetBy ((0 : Pos.Raw).next sep)) :: acc)
        else splitOnAux s sep b (i.next s) ((0 : Pos.Raw).next sep) acc
      else splitOnAux s sep b ((i.unoffsetBy 0).next s) 0 acc := by
  rw [splitOnAux]

/-- The walk with `l` cut off already, `m` read since the last cut and `r` still to read. -/
theorem splitOnAux_eq (sep : Char) : ∀ (r l m : List Char) (acc : List String),
    splitOnAux (ofList (l ++ m ++ r)) (ofList [sep]) ⟨utf8Len l⟩ ⟨utf8Len l + utf8Len m⟩ 0 acc =
      acc.reverse ++ (List.splitOnPPrepend (· == sep) r m.reverse).map ofList
  | [], l, m, acc => by
    have hend : (⟨utf8Len l + utf8Len m⟩ : Pos.Raw).atEnd (ofList (l ++ m ++ [])) = true := by
      have h := atEnd_of_valid (l ++ m) []
      rw [utf8Len_append] at h
      exact h.mpr rfl
    rw [splitOnAux_step, if_pos hend, extract_of_valid]
    simp
  | c :: r, l, m, acc => by
    have hend : ¬ (⟨utf8Len l + utf8Len m⟩ : Pos.Raw).atEnd (ofList (l ++ m ++ c :: r)) = true := by
      have h := atEnd_of_valid (l ++ m) (c :: r)
      rw [utf8Len_append] at h
      exact fun hc ↦ by simpa using h.mp hc
    have hget : (⟨utf8Len l + utf8Len m⟩ : Pos.Raw).get (ofList (l ++ m ++ c :: r)) = c := by
      have h := get_of_valid (l ++ m) (c :: r)
      rwa [utf8Len_append] at h
    have hnext : (⟨utf8Len l + utf8Len m⟩ : Pos.Raw).next (ofList (l ++ m ++ c :: r)) =
        ⟨utf8Len l + utf8Len m + c.utf8Size⟩ := by
      have h := next_of_valid (l ++ m) c r
      rwa [utf8Len_append] at h
    have hsep : (0 : Pos.Raw).get (ofList [sep]) = sep := get_of_valid [] [sep]
    have hsepNext : (0 : Pos.Raw).next (ofList [sep]) = ⟨sep.utf8Size⟩ := by
      simpa using next_of_valid [] sep []
    have hsepEnd : (⟨sep.utf8Size⟩ : Pos.Raw).atEnd (ofList [sep]) = true := by
      simpa using atEnd_of_valid [sep] []
    have hassoc : l ++ m ++ c :: r = l ++ (m ++ [c]) ++ r := by simp
    rw [splitOnAux_step, if_neg hend, hget, hsep, hsepNext, if_pos hsepEnd, hnext,
      List.splitOnPPrepend_cons_eq_if]
    by_cases hc : c = sep
    · subst hc
      have hback : (⟨utf8Len l + utf8Len m + c.utf8Size⟩ : Pos.Raw).unoffsetBy ⟨c.utf8Size⟩ =
          ⟨utf8Len l + utf8Len m⟩ := by
        simp [Pos.Raw.unoffsetBy]
      have hcut : l ++ (m ++ [c]) ++ r = l ++ m ++ [c] ++ [] ++ r := by simp
      have ih := splitOnAux_eq c r (l ++ m ++ [c]) [] (ofList m :: acc)
      rw [if_pos (beq_self_eq_true c), if_pos (beq_self_eq_true c), hback, extract_of_valid, hassoc,
        hcut]
      simpa [Nat.add_assoc] using ih
    · have hne : (c == sep) = false := by simpa using hc
      have hback : (⟨utf8Len l + utf8Len m⟩ : Pos.Raw).unoffsetBy 0 = ⟨utf8Len l + utf8Len m⟩ := by
        simp [Pos.Raw.unoffsetBy]
      have ih := splitOnAux_eq sep r l (m ++ [c]) acc
      rw [hne, if_neg Bool.false_ne_true, if_neg Bool.false_ne_true, hback, hnext, hassoc]
      simpa [Nat.add_assoc] using ih

/-- Splitting at a character is splitting the characters. -/
theorem splitOn_eq (s : String) (sep : Char) :
    s.splitOn (ofList [sep]) = (s.toList.splitOn sep).map ofList := by
  have h := splitOnAux_eq sep s.toList [] [] []
  have hne : (ofList [sep] == "") = false := by simp
  rw [String.splitOn, hne, if_neg Bool.false_ne_true]
  simpa [List.splitOn] using h

theorem not_mem_of_mem_list_splitOn {α : Type*} [DecidableEq α] {x : α} {xs : List α} :
    ∀ piece ∈ xs.splitOn x, x ∉ piece := by
  induction xs with
  | nil => simp
  | cons a xs ih =>
    intro piece hpiece
    rw [List.splitOn_cons_eq_if_modifyHead] at hpiece
    obtain ⟨head, tail, hsplit⟩ := List.exists_cons_of_ne_nil (List.splitOn_ne_nil x xs)
    rw [hsplit] at hpiece ih
    split_ifs at hpiece with ha
    · rcases List.mem_cons.mp hpiece with rfl | hpiece
      · exact List.not_mem_nil
      · exact ih piece hpiece
    · rcases List.mem_cons.mp hpiece with rfl | hpiece
      · have hhead := ih head (.head _)
        have hne : x ≠ a := fun h ↦ ha (by simp [h])
        simp [hne, hhead]
      · exact ih piece (.tail _ hpiece)

/-- No piece holds the separator. -/
theorem not_mem_of_mem_splitOn {s : String} {sep : Char} {piece : String}
    (h : piece ∈ s.splitOn (ofList [sep])) : sep ∉ piece.toList := by
  rw [splitOn_eq] at h
  obtain ⟨cs, hcs, rfl⟩ := List.mem_map.mp h
  rw [String.toList_ofList]
  exact not_mem_of_mem_list_splitOn cs hcs

theorem splitOn_ne_nil (s : String) (sep : Char) : s.splitOn (ofList [sep]) ≠ [] := by
  rw [splitOn_eq]
  simp [List.splitOn_ne_nil]

/-- Joining the pieces gives the string. -/
theorem intercalate_splitOn (s : String) (sep : Char) :
    (ofList [sep]).intercalate (s.splitOn (ofList [sep])) = s := by
  have hmap : ((s.toList.splitOn sep).map ofList).map toList = s.toList.splitOn sep := by
    simp [Function.comp_def]
  rw [← String.toList_inj, String.toList_intercalate, splitOn_eq, hmap, String.toList_ofList,
    List.intercalate_splitOn]

/-- Splitting what was joined gives the pieces. -/
theorem splitOn_intercalate {pieces : List String} {sep : Char} (hne : pieces ≠ [])
    (h : ∀ piece ∈ pieces, sep ∉ piece.toList) :
    ((ofList [sep]).intercalate pieces).splitOn (ofList [sep]) = pieces := by
  have hsep : ∀ cs ∈ pieces.map toList, sep ∉ cs := by
    intro cs hcs
    obtain ⟨piece, hpiece, rfl⟩ := List.mem_map.mp hcs
    exact h piece hpiece
  rw [splitOn_eq, String.toList_intercalate, String.toList_ofList,
    List.splitOn_intercalate sep hsep (by simpa using hne)]
  simp [Function.comp_def]

end SplitOn
