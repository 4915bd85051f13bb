import Mathlib.Data.List.Infix

/-!
# Replacing one text after another

`split` cuts a list at the places where a needle stands, from left to right and without overlaps, and
`replace` puts a marker there.  A replacement can make appear what was not there before, out of the
marker and what stands beside it.

`MakesAppear` says when one replacement at one place does.  `replaceAll_free` is that nothing else has
to be looked at: where it never does, no needle is left after any number of replacements.
-/

set_option autoImplicit false

namespace Replace

open List

variable {α : Type*}

section Split

variable [DecidableEq α]

/-- The walk that splits: so many elements belong to a needle still, and those are the piece. -/
def splitAux (needle : List α) : ℕ → List α → List α → List (List α)
  | _, piece, [] => [piece]
  | n + 1, piece, _ :: rest => splitAux needle n piece rest
  | 0, piece, x :: rest =>
    if needle.isPrefixOf (x :: rest) then
      piece :: splitAux needle (needle.length - 1) [] rest
    else splitAux needle 0 (piece ++ [x]) rest

/-- The pieces between the needles. -/
def split (needle xs : List α) : List (List α) := splitAux needle 0 [] xs

/-- They, with a marker between them. -/
def replace (needle marker xs : List α) : List α := marker.intercalate (split needle xs)

/-- One replacement after the other. -/
def replaceAll (pairs : List (List α × List α)) (xs : List α) : List α :=
  pairs.foldl (fun acc p ↦ replace p.1 p.2 acc) xs

end Split

/-- Somewhere the needle stands once, and with the marker in its place a text is there that was not
there before, or that is the needle itself. -/
def MakesAppear (needle marker s : List α) : Prop :=
  ∃ x z, ¬ needle <:+: (x ++ needle).dropLast ∧ ¬ needle <:+: z ∧
    (s ≠ needle → ¬ s <:+: x ++ needle ++ z) ∧ s <:+: x ++ marker ++ z

variable {needle marker s x z rest xs : List α}

/-! ## What `split` does -/

section Split

variable [DecidableEq α]

theorem splitAux_ne_nil (n : ℕ) (piece : List α) : splitAux needle n piece xs ≠ [] := by
  induction xs generalizing n piece with
  | nil => simp [splitAux]
  | cons x xs ih =>
    match n with
    | 0 =>
      rw [splitAux]
      split_ifs
      · exact cons_ne_nil _ _
      · exact ih _ _
    | n + 1 => exact ih n piece

theorem splitAux_skip (piece : List α) : ∀ skipped : List α,
    splitAux needle skipped.length piece (skipped ++ rest) = splitAux needle 0 piece rest
  | [] => rfl
  | _ :: skipped => splitAux_skip piece skipped

theorem splitAux_of_free (piece : List α) (h : ¬ needle <:+: xs) :
    splitAux needle 0 piece xs = [piece ++ xs] := by
  induction xs generalizing piece with
  | nil => simp [splitAux]
  | cons x xs ih =>
    have hstart : ¬ needle.isPrefixOf (x :: xs) = true :=
      fun hp ↦ h (List.isPrefixOf_iff_prefix.mp hp).isInfix
    rw [splitAux, if_neg hstart, ih _ fun hxs ↦ h (hxs.trans (suffix_cons x xs).isInfix)]
    simp

theorem splitAux_first (hne : needle ≠ []) (piece : List α) (h : ¬ needle <:+: (x ++ needle).dropLast) :
    splitAux needle 0 piece (x ++ needle ++ rest) = (piece ++ x) :: split needle rest := by
  induction x generalizing piece with
  | nil =>
    obtain ⟨u, tail, rfl⟩ := exists_cons_of_ne_nil hne
    have hstart : (u :: tail).isPrefixOf (u :: (tail ++ rest)) = true :=
      List.isPrefixOf_iff_prefix.mpr (prefix_append _ _)
    rw [nil_append, cons_append, splitAux, if_pos hstart, append_nil]
    exact congrArg (piece :: ·) (splitAux_skip [] tail)
  | cons u x ih =>
    have hdrop : (u :: x ++ needle).dropLast = u :: (x ++ needle).dropLast :=
      dropLast_cons_of_ne_nil (by simp [hne])
    rw [hdrop] at h
    have hstart : ¬ needle.isPrefixOf (u :: (x ++ needle ++ rest)) = true := by
      intro hp
      have hprefix : needle <+: u :: (x ++ needle).dropLast := by
        refine prefix_of_prefix_length_le (List.isPrefixOf_iff_prefix.mp hp) ?_ ?_
        · exact cons_prefix_cons.mpr ⟨rfl, (List.dropLast_prefix _).trans (prefix_append _ _)⟩
        · have hpos := length_pos_of_ne_nil hne
          simp only [length_cons, length_dropLast, length_append]
          omega
      exact h hprefix.isInfix
    rw [cons_append, cons_append, splitAux, if_neg hstart,
      ih _ fun hx ↦ h (hx.trans (suffix_cons u _).isInfix)]
    simp

theorem replace_of_free (h : ¬ needle <:+: xs) : replace needle marker xs = xs := by
  rw [replace, split, splitAux_of_free [] h]
  simp

theorem replace_first (hne : needle ≠ []) (h : ¬ needle <:+: (x ++ needle).dropLast) :
    replace needle marker (x ++ needle ++ rest) = x ++ marker ++ replace needle marker rest := by
  rw [replace, split, splitAux_first hne [] h, nil_append,
    intercalate_cons_of_ne_nil (show split needle rest ≠ [] from splitAux_ne_nil _ _),
    append_assoc]
  simp [replace]

end Split

/-- A needle that stands somewhere stands somewhere first. -/
theorem exists_first (hne : needle ≠ []) (h : needle <:+: xs) :
    ∃ x rest, xs = x ++ needle ++ rest ∧ ¬ needle <:+: (x ++ needle).dropLast := by
  induction hlen : xs.length using Nat.strong_induction_on generalizing xs with
  | _ n ih =>
    obtain ⟨x, rest, rfl⟩ := h
    by_cases hfirst : needle <:+: (x ++ needle).dropLast
    · have hshort : (x ++ needle).dropLast.length < n := by
        have hpos := length_pos_of_ne_nil hne
        simp only [← hlen, length_dropLast, length_append]
        omega
      obtain ⟨x', rest', heq, hx'⟩ := ih _ hshort hfirst rfl
      obtain ⟨last, hlast⟩ := List.dropLast_prefix (x ++ needle)
      refine ⟨x', rest' ++ last ++ rest, ?_, hx'⟩
      rw [← hlast, heq]
      simp
    · exact ⟨x, rest, rfl, hfirst⟩

/-! ## One replacement -/

/-- What begins before the end of `x` reaches no farther behind it than it is long. -/
theorem exists_end {y end' : List α} (h : x ++ rest = y ++ s ++ end') (hstart : y.length < x.length)
    (hs : s ≠ []) : ∃ z rest', rest = z ++ rest' ∧ s <:+: x ++ z ∧ z <:+ s ∧ z.length < s.length := by
  have hpos := length_pos_of_ne_nil hs
  rcases Nat.lt_or_ge x.length (y ++ s).length with hlong | hshort
  · obtain ⟨z, hz⟩ := prefix_of_prefix_length_le (prefix_append x rest)
      (h ▸ prefix_append (y ++ s) end') hlong.le
    rw [← hz, append_assoc, append_cancel_left_eq] at h
    have hlen := congrArg List.length hz
    rw [length_append, length_append] at hlen
    refine ⟨z, end', h, ?_, ?_, by omega⟩
    · rw [hz]
      exact (suffix_append y s).isInfix
    · exact suffix_of_suffix_length_le (hz ▸ suffix_append x z) (suffix_append y s)
        (by omega)
  · have hprefix := prefix_of_prefix_length_le (h ▸ prefix_append (y ++ s) end')
      (prefix_append x rest) hshort
    refine ⟨[], rest, rfl, ?_, nil_suffix, hpos⟩
    rw [append_nil]
    exact (suffix_append y s).isInfix.trans hprefix.isInfix

/-- Nothing begins in `done` that is a needle. -/
def Passed (needle done rest : List α) : Prop :=
  ∀ y z, done ++ rest = y ++ needle ++ z → done.length ≤ y.length

/-- The first needle behind what is done is the first of all. -/
theorem Passed.first {done : List α} (h : Passed needle done (x ++ needle ++ rest))
    (hfirst : ¬ needle <:+: (x ++ needle).dropLast) (hne : needle ≠ []) :
    ¬ needle <:+: (done ++ x ++ needle).dropLast := by
  rintro ⟨y, z, heq⟩
  have hdrop : (done ++ x ++ needle).dropLast = done ++ (x ++ needle).dropLast := by
    rw [append_assoc, dropLast_append_of_ne_nil (by simp [hne])]
  obtain ⟨last, hlast⟩ := List.dropLast_prefix (x ++ needle)
  rw [hdrop] at heq
  have hwhole : done ++ (x ++ needle ++ rest) = y ++ needle ++ (z ++ last ++ rest) := by
    rw [← hlast, ← append_assoc, ← append_assoc, ← heq]
    simp
  have hprefix := prefix_of_prefix_length_le (prefix_append done (x ++ needle).dropLast)
    (heq ▸ (prefix_append y (needle ++ z)).trans (by rw [append_assoc]))
    (h y _ hwhole)
  obtain ⟨y', rfl⟩ := hprefix
  rw [append_assoc, append_assoc, append_cancel_left_eq] at heq
  exact hfirst ⟨y', z, by rw [← heq, append_assoc]⟩

/-- With the marker for the first needle, what is done ends behind it. -/
theorem Passed.step {done : List α} (h : Passed needle done (x ++ needle ++ rest))
    (hfirst : ¬ needle <:+: (x ++ needle).dropLast) (hne : needle ≠ [])
    (hself : ¬ MakesAppear needle marker needle) : Passed needle (done ++ x ++ marker) rest := by
  intro y z heq
  by_contra hlt
  obtain ⟨z', rest', -, happears, -, hlen⟩ := exists_end heq (Nat.lt_of_not_le hlt) hne
  refine hself ⟨done ++ x, z', h.first hfirst hne, fun hz ↦ ?_, fun hne' ↦ absurd rfl hne', happears⟩
  exact absurd hz.length_le (Nat.not_le.mpr hlen)

/-- A text without an element is on one side of it. -/
theorem infix_of_not_mem {l : α} (hl : l ∉ s) (h : s <:+: x ++ l :: z) : s <:+: x ∨ s <:+: z := by
  rcases infix_append_iff.mp h with hx | hz | ⟨t, t', rfl, ht, ht'⟩
  · exact .inl hx
  · rcases infix_cons_iff.mp hz with hprefix | hz
    · rcases s with _ | ⟨u, s⟩
      · exact .inr (List.nil_infix)
      · rw [(cons_prefix_cons.mp hprefix).1] at hl
        exact absurd (.head _) hl
    · exact .inr hz
  · rcases t' with _ | ⟨u, t'⟩
    · rw [append_nil]
      exact .inl ht.isInfix
    · rw [(cons_prefix_cons.mp ht').1] at hl
      exact absurd (mem_append_right t (.head _)) hl

/-- A marker does not make appear what it does not hold and what has nothing of its ends. -/
theorem not_makesAppear {l r : α} {mid : List α} (hne : needle ≠ []) (hmid : ¬ s <:+: mid)
    (hl : l ∉ s) (hr : r ∉ s) : ¬ MakesAppear needle (l :: (mid ++ [r])) s := by
  rintro ⟨x, z, hfirst, hz, hfree, happears⟩
  have hcut : x ++ l :: (mid ++ [r]) ++ z = x ++ l :: (mid ++ r :: z) := by simp
  have hthere : s <:+: x ∨ s <:+: z := by
    rw [hcut] at happears
    rcases infix_of_not_mem hl happears with hx | hrest
    · exact .inl hx
    · exact .inr ((infix_of_not_mem hr hrest).resolve_left hmid)
  by_cases hs : s = needle
  · subst hs
    refine hthere.elim (fun hx ↦ hfirst (hx.trans ?_)) hz
    rw [dropLast_append_of_ne_nil hne]
    exact infix_append_left
  · refine hfree hs (hthere.elim (fun hx ↦ hx.trans ?_) fun hz ↦ hz.trans infix_append_right)
    rw [append_assoc]
    exact infix_append_left

section Split

variable [DecidableEq α]

section

variable (hne : needle ≠ [])
include hne

/-- Behind what is done, one first needle after the other. -/
theorem replace_induction {motive : List α → List α → Prop}
    (free : ∀ done rest, ¬ needle <:+: rest → motive done rest)
    (first : ∀ done x rest, ¬ needle <:+: (x ++ needle).dropLast →
      motive (done ++ x ++ marker) rest → motive done (x ++ needle ++ rest)) :
    ∀ done rest, motive done rest := by
  intro done rest
  induction hlen : rest.length using Nat.strong_induction_on generalizing done rest with
  | _ n ih =>
    by_cases hrest : needle <:+: rest
    · obtain ⟨x, rest', rfl, hfirst⟩ := exists_first hne hrest
      refine first done x rest' hfirst (ih _ ?_ _ rest' rfl)
      have hpos := length_pos_of_ne_nil hne
      simp only [length_append] at hlen
      omega
    · exact free done rest hrest

section

variable (hself : ¬ MakesAppear needle marker needle)
include hself

/-- A needle that its marker never makes appear is gone. -/
theorem free_replace_self :
    ∀ done rest, Passed needle done rest → ¬ needle <:+: done ++ replace needle marker rest := by
  refine @replace_induction _ _ marker _ hne _ ?_ ?_
  · rintro done rest hrest hpassed ⟨y, z, heq⟩
    rw [replace_of_free hrest] at heq
    obtain ⟨y', rfl⟩ := prefix_of_prefix_length_le (prefix_append done rest)
      (heq ▸ (prefix_append y (needle ++ z)).trans (by rw [append_assoc]))
      (hpassed y z heq.symm)
    rw [append_assoc, append_assoc, append_cancel_left_eq] at heq
    exact hrest ⟨y', z, by rw [← heq, append_assoc]⟩
  · intro done x rest hfirst ih hpassed
    rw [replace_first hne hfirst, ← append_assoc, ← append_assoc]
    exact ih (hpassed.step hfirst hne hself)

/-- What the marker never makes appear does not appear. -/
theorem free_replace_of_apart
    (hs : ¬ MakesAppear needle marker s) (hinside : ¬ needle <:+: s) (hnil : s ≠ []) :
    ∀ done rest, Passed needle done rest → ¬ s <:+: done ++ rest →
      ¬ s <:+: done ++ replace needle marker rest := by
  refine @replace_induction _ _ marker _ hne _ ?_ ?_
  · intro done rest hrest _ hfree
    rwa [replace_of_free hrest]
  · intro done x rest hfirst ih hpassed hfree
    rw [replace_first hne hfirst, ← append_assoc, ← append_assoc]
    refine ih (hpassed.step hfirst hne hself) ?_
    rintro ⟨y, end', heq⟩
    rcases Nat.lt_or_ge y.length (done ++ x ++ marker).length with hlt | hge
    · obtain ⟨z, rest', rfl, happears, hsuffix, -⟩ := exists_end heq.symm hlt hnil
      refine hs ⟨done ++ x, z, hpassed.first hfirst hne, fun hz ↦ ?_, fun _ hthere ↦ ?_, happears⟩
      · exact hinside (hz.trans hsuffix.isInfix)
      · refine hfree (hthere.trans ⟨[], rest', ?_⟩)
        simp
    · obtain ⟨y', rfl⟩ := prefix_of_prefix_length_le (prefix_append _ rest)
        (heq ▸ (prefix_append y (s ++ end')).trans (by rw [append_assoc])) hge
      rw [append_assoc, append_assoc (done ++ x ++ marker), append_cancel_left_eq]
        at heq
      exact hfree ⟨done ++ x ++ needle ++ y', end', by rw [← heq]; simp⟩

/-- One replacement makes nothing appear that it makes appear nowhere by itself. -/
theorem free_replace (hs : ¬ MakesAppear needle marker s) (hnil : s ≠ []) (h : ¬ s <:+: xs) :
    ¬ s <:+: replace needle marker xs := by
  have hpassed : Passed needle [] xs := fun y _ _ ↦ Nat.zero_le y.length
  by_cases hinside : needle <:+: s
  · exact fun happears ↦ free_replace_self hne hself [] xs hpassed (hinside.trans happears)
  · exact free_replace_of_apart hne hself hs hinside hnil [] xs hpassed h

end

/-- What appears in one place appears in a text. -/
theorem MakesAppear.exists_text (h : MakesAppear needle marker s) :
    ∃ xs, (s ≠ needle → ¬ s <:+: xs) ∧ s <:+: replace needle marker xs := by
  obtain ⟨x, z, hfirst, hz, hfree, happears⟩ := h
  refine ⟨x ++ needle ++ z, hfree, ?_⟩
  rwa [replace_first hne hfirst, replace_of_free hz]

end

/-! ## One after the other -/

/-- **Nothing is left.**  If no marker makes the needle it is for appear, or one before it, then no
needle is in the result. -/
theorem replaceAll_free {pairs : List (List α × List α)} (hne : ∀ p ∈ pairs, p.1 ≠ [])
    (hself : ∀ p ∈ pairs, ¬ MakesAppear p.1 p.2 p.1)
    (hbefore : pairs.Pairwise fun p q ↦ ¬ MakesAppear q.1 q.2 p.1) (xs : List α) :
    ∀ p ∈ pairs, ¬ p.1 <:+: replaceAll pairs xs := by
  -- What is free of some needles stays free of them, and comes to be free of the others.
  suffices h : ∀ (pairs : List (List α × List α)) (gone : List (List α)) (xs : List α),
      (∀ p ∈ pairs, p.1 ≠ []) → (∀ p ∈ pairs, ¬ MakesAppear p.1 p.2 p.1) →
      (pairs.Pairwise fun p q ↦ ¬ MakesAppear q.1 q.2 p.1) →
      (∀ s ∈ gone, s ≠ [] ∧ ¬ s <:+: xs ∧ ∀ p ∈ pairs, ¬ MakesAppear p.1 p.2 s) →
      ∀ s, s ∈ gone ∨ s ∈ pairs.map (·.1) → ¬ s <:+: replaceAll pairs xs by
    exact fun p hp ↦ h pairs [] xs hne hself hbefore (nofun) p.1
      (.inr (mem_map_of_mem hp))
  intro pairs
  induction pairs with
  | nil =>
    intro gone xs _ _ _ hgone s hs
    rcases hs with hs | hs
    · exact (hgone s hs).2.1
    · exact nomatch hs
  | cons q pairs ih =>
    intro gone xs hne hself hbefore hgone s hs
    rw [forall_mem_cons] at hne hself
    rw [pairwise_cons] at hbefore
    refine ih (q.1 :: gone) (replace q.1 q.2 xs) hne.2 hself.2 hbefore.2 ?_ s ?_
    · intro t ht
      rcases mem_cons.mp ht with rfl | ht
      · exact ⟨hne.1, free_replace_self hne.1 hself.1 [] xs fun y _ _ ↦ Nat.zero_le y.length, hbefore.1⟩
      · obtain ⟨hnil, hfree, happears⟩ := hgone t ht
        rw [forall_mem_cons] at happears
        exact ⟨hnil, free_replace hne.1 hself.1 happears.1 hnil hfree, happears.2⟩
    · rcases hs with hs | hs
      · exact .inl (.tail _ hs)
      · rcases mem_cons.mp hs with rfl | hs
        · exact .inl (.head _)
        · exact .inr hs

end Split

end Replace
