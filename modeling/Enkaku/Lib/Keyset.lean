import Mathlib.Data.List.Sort
import Mathlib.Data.Prod.Lex

/-!
# Paging by a key

Rows in descending order of a key that no two of them share, read a page at a time: every page takes
the first rows below the key the page before it ended at.  `descending_filter` says that the rows a
page chooses from are in the order all of them are in, and `filter_below` that they are exactly what
the pages before it left.

Rows may also come in one order and be resumed by another.  `walk_perm_iff` says when that shows each
of them once all the same.
-/

set_option autoImplicit false

namespace Keyset

open List

variable {α κ : Type*} [LinearOrder κ] (key : α → κ)

/-- `ORDER BY key DESC`. -/
def descending (rows : List α) : List α := rows.insertionSort fun a b ↦ key b ≤ key a

theorem perm_descending (rows : List α) : (descending key rows).Perm rows :=
  perm_insertionSort _ _

section Distinct

variable {key} {rows : List α}

theorem pairwise_descending (h : (rows.map key).Nodup) :
    (descending key rows).Pairwise fun a b ↦ key b < key a := by
  have htotal : ∀ a b : α, key b ≤ key a ∨ key a ≤ key b := fun a b ↦ le_total _ _
  have hle : (descending key rows).Pairwise fun a b ↦ key b ≤ key a := by
    have : Std.Total fun a b : α ↦ key b ≤ key a := ⟨htotal⟩
    have : IsTrans α fun a b ↦ key b ≤ key a := ⟨fun _ _ _ hab hbc ↦ hbc.trans hab⟩
    exact pairwise_insertionSort _ _
  have hne : (descending key rows).Pairwise fun a b ↦ key a ≠ key b := by
    have hmap := ((perm_descending key rows).map key).nodup_iff.mpr h
    exact pairwise_map.mp hmap
  exact (hle.and hne).imp fun h ↦ lt_of_le_of_ne h.1 h.2.symm

/-- Choosing rows and putting them in order can be done in either order. -/
theorem descending_filter (h : (rows.map key).Nodup) (p : α → Bool) :
    descending key (rows.filter p) = (descending key rows).filter p := by
  have hsub : ((rows.filter p).map key).Nodup := h.sublist (filter_sublist.map key)
  refine List.Perm.eq_of_pairwise ?_ (pairwise_descending hsub)
    ((pairwise_descending h).filter p)
    ((perm_descending key _).trans ((perm_descending key rows).filter p).symm)
  exact fun a b _ _ hab hba ↦ absurd (hab.trans hba) (lt_irrefl _)

/-- Below a row of a descending list is what comes after it. -/
theorem filter_below {front back : List α} {x : α}
    (h : (front ++ x :: back).Pairwise fun a b ↦ key b < key a) :
    (front ++ x :: back).filter (fun y ↦ key y < key x) = back := by
  rw [pairwise_append, pairwise_cons] at h
  obtain ⟨-, ⟨hback, -⟩, hfront⟩ := h
  have hnone : front.filter (fun y ↦ key y < key x) = [] :=
    filter_eq_nil_iff.mpr fun y hy ↦ by
      simpa using (hfront y hy x (.head _)).le
  rw [filter_append, hnone, nil_append, filter_cons_of_neg (by simp)]
  exact filter_eq_self.mpr fun y hy ↦ by simpa using hback y hy

end Distinct

/-! ## Rows in one order, cursors in another -/

section Resumed

variable {κ : Type*} (after : κ → κ → Bool) (limit : ℕ) (rows : List κ)

/-- What a page is taken from: all rows, or those that are after a cursor. -/
def resumed (cursor : Option κ) : List κ := rows.filter fun k ↦ cursor.all fun c ↦ after c k

/-- The pages from a cursor on, as long as there is a next one, `n` of them at most. -/
def walk : ℕ → Option κ → Option (List κ)
  | 0, _ => none
  | n + 1, cursor =>
    let rest := resumed after rows cursor
    let page := rest.take limit
    if limit < rest.length then
      match page.getLast? with
      | none => some page
      | some c => (walk n (some c)).map (page ++ ·)
    else some page

/-- The rows behind the first `m` are after the last of these, and these are not. -/
def SplitsAt (m : ℕ) : Prop :=
  ∀ c ∈ (rows.take m).getLast?,
    (∀ k ∈ rows.take m, after c k = false) ∧ ∀ k ∈ rows.drop m, after c k = true

variable {after limit rows} {cursor : Option κ} {c k : κ} {n : ℕ} {out front back : List κ}

theorem walk_of_le (h : (resumed after rows cursor).length ≤ limit) :
    walk after limit rows (n + 1) cursor = some (resumed after rows cursor) := by
  simp only [walk]
  rw [if_neg (by omega), take_of_length_le h]

/-- The last row of a page that is not the last one. -/
theorem exists_take_eq (hlimit : 0 < limit) (h : limit < back.length) :
    ∃ init c, back.take limit = init ++ [c] := by
  have hne : back.take limit ≠ [] := by
    intro hnil
    have hlen := congrArg List.length hnil
    rw [length_take, length_nil] at hlen
    omega
  exact ⟨_, _, (dropLast_append_getLast hne).symm⟩

theorem walk_of_lt {init : List κ} (h : limit < (resumed after rows cursor).length)
    (hpage : (resumed after rows cursor).take limit = init ++ [c]) :
    walk after limit rows (n + 1) cursor =
      (walk after limit rows n (some c)).map (init ++ [c] ++ ·) := by
  simp only [walk]
  rw [if_pos h, hpage, getLast?_concat]

/-- Behind a row where the two orders agree. -/
theorem resumed_of_splitsAt {m : ℕ} (h : SplitsAt after rows m) (hc : c ∈ (rows.take m).getLast?) :
    resumed after rows (some c) = rows.drop m := by
  obtain ⟨hnone, hall⟩ := h c hc
  rw [resumed]
  conv_lhs => rw [← take_append_drop m rows]
  rw [filter_append, filter_eq_nil_iff.mpr fun k hk ↦ by simp [hnone k hk],
    filter_eq_self.mpr fun k hk ↦ by simp [hall k hk], nil_append]

/-- From where the orders agree on, they are walked through to the end. -/
theorem walk_of_splitsAt (hlimit : 0 < limit)
    (hsplits : ∀ m, limit ∣ m → 0 < m → m < rows.length → SplitsAt after rows m) (n : ℕ) :
    ∀ {cursor : Option κ} {m : ℕ}, limit ∣ m → (rows.drop m).length ≤ n →
      resumed after rows cursor = rows.drop m →
      walk after limit rows (n + 1) cursor = some (rows.drop m) := by
  induction n with
  | zero =>
    intro cursor m _ hlen hrest
    rw [← hrest]
    exact walk_of_le (by rw [hrest]; omega)
  | succ n ih =>
    intro cursor m hm hlen hrest
    rcases Nat.lt_or_ge limit (rows.drop m).length with hmore | hlast
    · obtain ⟨init, c, hpage⟩ := exists_take_eq hlimit hmore
      have hnext : c ∈ (rows.take (m + limit)).getLast? := by
        rw [take_add, hpage, ← append_assoc, getLast?_concat]
        rfl
      have hsplit := hsplits (m + limit) (Nat.dvd_add hm (Nat.dvd_refl _)) (by omega)
        (by rw [length_drop] at hmore; omega)
      have hwalk := ih (m := m + limit) (Nat.dvd_add hm (Nat.dvd_refl _))
        (by rw [length_drop] at hlen ⊢; omega) (resumed_of_splitsAt hsplit hnext)
      rw [walk_of_lt (by rwa [hrest]) (by rwa [hrest]), hwalk, Option.map_some, ← hpage,
        ← drop_drop, take_append_drop]
    · rw [← hrest]
      exact walk_of_le (by rwa [hrest])

/-- Nothing from a cursor on is before it. -/
theorem after_of_walk (htrans : ∀ a b c, after a b = true → after b c = true → after a c = true)
    (hlimit : 0 < limit) (n : ℕ) :
    ∀ {c : κ} {out : List κ}, walk after limit rows n (some c) = some out →
      ∀ k ∈ out, after c k = true := by
  induction n with
  | zero => exact fun {c out} h ↦ absurd h (by simp [walk])
  | succ n ih =>
    intro c out h
    have hrest : ∀ k ∈ resumed after rows (some c), after c k = true := fun k hk ↦ by
      simpa using (mem_filter.mp hk).2
    rcases Nat.lt_or_ge limit (resumed after rows (some c)).length with hmore | hlast
    · obtain ⟨init, d, hpage⟩ := exists_take_eq hlimit hmore
      have htake : ∀ k ∈ init ++ [d], after c k = true := fun k hk ↦
        hrest k (mem_of_mem_take (hpage ▸ hk))
      rw [walk_of_lt hmore hpage] at h
      obtain ⟨out', hout', rfl⟩ := Option.map_eq_some_iff.mp h
      intro k hk
      rcases mem_append.mp hk with hk | hk
      · exact htake k hk
      · exact htrans c d k (htake d (by simp)) (ih hout' k hk)
    · rw [walk_of_le hlast] at h
      exact Option.some.inj h ▸ hrest

/-- The first row a page can show is shown. -/
theorem mem_of_walk (hlimit : 0 < limit) (h : walk after limit rows n cursor = some out)
    (hrest : resumed after rows cursor = k :: back) : k ∈ out := by
  cases n with
  | zero => exact absurd h (by simp [walk])
  | succ n =>
    rcases Nat.lt_or_ge limit (resumed after rows cursor).length with hmore | hlast
    · obtain ⟨init, c, hpage⟩ := exists_take_eq hlimit hmore
      rw [walk_of_lt hmore hpage] at h
      obtain ⟨out', -, rfl⟩ := Option.map_eq_some_iff.mp h
      rw [← hpage, hrest]
      refine mem_append_left _ ?_
      obtain ⟨l, rfl⟩ := Nat.exists_eq_succ_of_ne_zero hlimit.ne'
      exact .head _
    · rw [walk_of_le hlast, hrest] at h
      cases h
      exact .head _

/-- A walk that shows each row once goes on behind every page exactly where it left off. -/
theorem splitsAt_of_walk (htrans : ∀ a b c, after a b = true → after b c = true → after a c = true)
    (hnodup : rows.Nodup) (hlimit : 0 < limit) (n : ℕ) :
    ∀ {cursor : Option κ} {out : List κ} {m : ℕ}, limit ∣ m →
      resumed after rows cursor = rows.drop m → walk after limit rows n cursor = some out →
      out.Perm (rows.drop m) →
      out = rows.drop m ∧ ∀ m', limit ∣ m' → m < m' → m' < rows.length → SplitsAt after rows m' := by
  induction n with
  | zero => exact fun {cursor out m} _ _ h ↦ absurd h (by simp [walk])
  | succ n ih =>
    intro cursor out m hm hrest h hperm
    rcases Nat.lt_or_ge limit (rows.drop m).length with hmore | hlast
    · obtain ⟨init, c, hpage⟩ := exists_take_eq hlimit hmore
      rw [walk_of_lt (by rwa [hrest]) (by rwa [hrest])] at h
      obtain ⟨out', hout', rfl⟩ := Option.map_eq_some_iff.mp h
      have htake : rows.take (m + limit) = rows.take m ++ (init ++ [c]) := by
        rw [take_add, hpage]
      have hperm' : out'.Perm (rows.drop (m + limit)) := by
        have hsplit : rows.drop m = (init ++ [c]) ++ rows.drop (m + limit) := by
          rw [← hpage, ← drop_drop, take_append_drop]
        rw [hsplit] at hperm
        exact (perm_append_left_iff _).mp hperm
      have hall : ∀ k ∈ rows.drop (m + limit), after c k = true := fun k hk ↦
        after_of_walk htrans hlimit n hout' k (hperm'.symm.subset hk)
      -- A row shown already that is after the cursor would be the first to be shown again.
      have hnone : ∀ k ∈ rows.take (m + limit), after c k = false := by
        have hfilter : resumed after rows (some c) =
            (rows.take (m + limit)).filter (after c) ++ rows.drop (m + limit) := by
          rw [resumed]
          conv_lhs => rw [← take_append_drop (m + limit) rows]
          rw [filter_append]
          exact congrArg _ (filter_eq_self.mpr fun k hk ↦ by simp [hall k hk])
        cases hagain : (rows.take (m + limit)).filter (after c) with
        | nil => exact fun k hk ↦ by simpa using filter_eq_nil_iff.mp hagain k hk
        | cons k ks =>
          rw [hagain] at hfilter
          have hk : k ∈ rows.take (m + limit) :=
            mem_of_mem_filter (hagain ▸ mem_cons_self)
          have hk' := hperm'.subset (mem_of_walk hlimit hout' hfilter)
          rw [← take_append_drop (m + limit) rows] at hnodup
          exact absurd hk' (disjoint_of_nodup_append hnodup hk)
      have hlastRow : (rows.take (m + limit)).getLast? = some c := by
        rw [htake, ← append_assoc, getLast?_concat]
      have hsplit : SplitsAt after rows (m + limit) := by
        intro d hd
        rw [hlastRow] at hd
        cases hd
        exact ⟨hnone, hall⟩
      obtain ⟨rfl, hrestSplits⟩ := ih (Nat.dvd_add hm (Nat.dvd_refl _))
        (resumed_of_splitsAt hsplit hlastRow) hout' hperm'
      refine ⟨by rw [← hpage, ← drop_drop, take_append_drop], fun m' hm' hlt hlen ↦ ?_⟩
      rcases Nat.lt_or_ge (m + limit) m' with hbeyond | hwithin
      · exact hrestSplits m' hm' hbeyond hlen
      · have hle : limit ≤ m' - m := Nat.le_of_dvd (by omega) (Nat.dvd_sub hm' hm)
        obtain rfl : m' = m + limit := by omega
        exact hsplit
    · rw [walk_of_le (by rwa [hrest]), hrest] at h
      refine ⟨(Option.some.inj h).symm, fun m' hm' hlt hlen ↦ ?_⟩
      have hle : limit ≤ m' - m := Nat.le_of_dvd (by omega) (Nat.dvd_sub hm' hm)
      rw [length_drop] at hlast
      omega

theorem resumed_none : resumed after rows none = rows :=
  filter_eq_self.mpr fun _ _ ↦ rfl

section

variable (htrans : ∀ a b c, after a b = true → after b c = true → after a c = true)
include htrans

/-- The pages show each row once if and only if, at the end of every page, what is behind it is after
its last row and what is before it is not. -/
theorem walk_perm_iff
    (hnodup : rows.Nodup) (hlimit : 0 < limit) :
    (∃ n out, walk after limit rows n none = some out ∧ out.Perm rows) ↔
      ∀ m, limit ∣ m → 0 < m → m < rows.length → SplitsAt after rows m := by
  constructor
  · rintro ⟨n, out, h, hperm⟩
    exact (splitsAt_of_walk htrans hnodup hlimit n (Nat.dvd_zero limit) resumed_none h hperm).2
  · intro hsplits
    exact ⟨rows.length + 1, rows, walk_of_splitsAt hlimit hsplits rows.length (m := 0)
      (Nat.dvd_zero limit) (le_rfl) resumed_none, List.Perm.refl _⟩

/-- They show the rows in their order. -/
theorem eq_of_walk_perm
    (hnodup : rows.Nodup) (hlimit : 0 < limit) (h : walk after limit rows n none = some out)
    (hperm : out.Perm rows) : out = rows :=
  (splitsAt_of_walk htrans hnodup hlimit n (Nat.dvd_zero limit) resumed_none h hperm).1

end

end Resumed

end Keyset
