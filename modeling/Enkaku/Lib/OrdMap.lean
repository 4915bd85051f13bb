import Mathlib.Data.List.Basic

/-!
# Maps that remember the order their keys came in

A map as the list of its bindings, oldest key first: setting a key it has replaces the value where
it stands, setting a new one appends.  That is the iteration order of a JavaScript `Map`, and of
the string keys of an object.
-/

set_option autoImplicit false

variable {α β : Type*} [DecidableEq α]

namespace OrdMap

open List

/-- The value bound to a key. -/
def get? (k : α) : List (α × β) → Option β
  | [] => none
  | (k', v) :: m => if k' = k then some v else get? k m

/-- Binds a key. -/
def set (k : α) (v : β) : List (α × β) → List (α × β)
  | [] => [(k, v)]
  | (k', v') :: m => if k' = k then (k, v) :: m else (k', v') :: set k v m

@[simp] theorem get?_nil (k : α) : get? k ([] : List (α × β)) = none := rfl

@[simp] theorem get?_set_self (k : α) (v : β) (m : List (α × β)) : get? k (set k v m) = some v := by
  induction m with
  | nil => simp [set, get?]
  | cons p m ih =>
    rw [set]
    by_cases h : p.1 = k
    · simp [h, get?]
    · simp [h, get?, ih]

variable {k : α}

theorem get?_set_of_ne {k' : α} (h : k ≠ k') (v : β) (m : List (α × β)) :
    get? k' (set k v m) = get? k' m := by
  induction m with
  | nil => simp [set, get?, h]
  | cons p m ih =>
    rw [set]
    by_cases hp : p.1 = k
    · simp [hp, get?, h]
    · simp [hp, get?, ih]

theorem get?_set (k k' : α) (v : β) (m : List (α × β)) :
    get? k' (set k v m) = if k = k' then some v else get? k' m := by
  by_cases h : k = k'
  · subst h
    simp
  · simp [h, get?_set_of_ne h]

variable {v : β} {m : List (α × β)}

theorem mem_of_get? (h : get? k m = some v) : (k, v) ∈ m := by
  induction m with
  | nil => simp at h
  | cons p m ih =>
    rw [get?] at h
    split_ifs at h with hk
    · cases h
      simp [← hk]
    · exact .tail _ (ih h)

theorem get?_eq_none_iff : get? k m = none ↔ k ∉ m.map (·.1) := by
  induction m with
  | nil => simp
  | cons p m ih =>
    rw [get?, map_cons, mem_cons, not_or, ← ih]
    by_cases h : p.1 = k
    · simp [h]
    · simp [h, Ne.symm h]

/-- Setting a key appends its binding, or replaces the one there is where it stands. -/
theorem set_cases (k : α) (v : β) (m : List (α × β)) :
    (get? k m = none ∧ set k v m = m ++ [(k, v)]) ∨
      ∃ l w r, m = l ++ (k, w) :: r ∧ get? k m = some w ∧ set k v m = l ++ (k, v) :: r := by
  induction m with
  | nil => exact .inl ⟨rfl, rfl⟩
  | cons p m ih =>
    obtain ⟨k', w⟩ := p
    by_cases h : k' = k
    · subst h
      exact .inr ⟨[], w, m, rfl, by simp [get?], by simp [set]⟩
    · rcases ih with ⟨hget, hset⟩ | ⟨l, w', r, hm, hget, hset⟩
      · exact .inl ⟨by simp [get?, h, hget], by simp [set, h, hset]⟩
      · exact .inr ⟨(k', w) :: l, w', r, by simp [hm], by simp [get?, h, hget], by simp [set, h, hset]⟩

/-- Nothing else is bound. -/
theorem mem_of_mem_set {p : α × β} (h : p ∈ set k v m) : p = (k, v) ∨ p ∈ m := by
  rcases set_cases k v m with ⟨-, hset⟩ | ⟨l, w, r, rfl, -, hset⟩
  · rw [hset, mem_append, mem_singleton] at h
    exact h.symm
  · rw [hset] at h
    simp only [mem_append, mem_cons] at h ⊢
    tauto

theorem set_of_get?_eq_none (h : get? k m = none) (v : β) : set k v m = m ++ [(k, v)] := by
  rcases set_cases k v m with ⟨-, hset⟩ | ⟨l, w, r, -, hget, -⟩
  · exact hset
  · simp [h] at hget

/-- Replacing a value leaves the other bindings where they are. -/
theorem set_of_get?_eq_some {w : β} (h : get? k m = some w) (v : β) :
    ∃ l r, m = l ++ (k, w) :: r ∧ set k v m = l ++ (k, v) :: r := by
  rcases set_cases k v m with ⟨hnone, -⟩ | ⟨l, w', r, hm, hget, hset⟩
  · simp [h] at hnone
  · cases h.symm.trans hget
    exact ⟨l, r, hm, hset⟩

@[simp] theorem set_set (k : α) (v w : β) (m : List (α × β)) : set k w (set k v m) = set k w m := by
  induction m with
  | nil => simp [set]
  | cons p m ih =>
    rw [set, set]
    by_cases h : p.1 = k
    · simp [h, set]
    · simp [h, set, ih]

/-- Removes a key. -/
def erase (k : α) (m : List (α × β)) : List (α × β) := m.filter (·.1 ≠ k)

@[simp] theorem get?_erase_self (k : α) (m : List (α × β)) : get? k (erase k m) = none := by
  rw [get?_eq_none_iff, erase]
  simp

theorem get?_erase_of_ne {k' : α} (h : k ≠ k') (m : List (α × β)) : get? k' (erase k m) = get? k' m := by
  induction m with
  | nil => simp [erase]
  | cons p m ih =>
    rw [erase, filter_cons, ← erase]
    by_cases hp : p.1 = k
    · simp [get?, ih, hp, h]
    · simp [get?, ih, hp]

theorem get?_erase (k k' : α) (m : List (α × β)) :
    get? k' (erase k m) = if k = k' then none else get? k' m := by
  by_cases h : k = k'
  · subst h
    simp
  · simp [h, get?_erase_of_ne h]

theorem erase_of_get?_eq_none (h : get? k m = none) : erase k m = m := by
  rw [get?_eq_none_iff] at h
  refine filter_eq_self.mpr fun p hp ↦ ?_
  simpa using fun hk : p.1 = k ↦ h (hk ▸ mem_map_of_mem hp)

/-- What is erased, put in front. -/
theorem perm_erase (h : (m.map (·.1)).Nodup) (hget : get? k m = some v) :
    m.Perm ((k, v) :: erase k m) := by
  induction m with
  | nil => simp at hget
  | cons p m ih =>
    obtain ⟨k', w⟩ := p
    rw [map_cons, nodup_cons] at h
    rw [get?] at hget
    split_ifs at hget with hk
    · subst hk
      cases hget
      have hrest : erase k' m = m := erase_of_get?_eq_none (get?_eq_none_iff.mpr h.1)
      rw [erase, filter_cons, ← erase, hrest]
      simp
    · rw [erase, filter_cons, ← erase, if_pos (by simpa using hk)]
      exact ((ih h.2 hget).cons _).trans (List.Perm.swap _ _ _)

theorem length_erase_le (k : α) (m : List (α × β)) : (erase k m).length ≤ m.length :=
  length_filter_le _ _

theorem length_set_le (k : α) (v : β) (m : List (α × β)) : (set k v m).length ≤ m.length + 1 := by
  rcases set_cases k v m with ⟨-, h⟩ | ⟨l, w, r, hm, -, h⟩
  · simp [h]
  · rw [h, hm]
    simp

section

variable (h : (m.map (·.1)).Nodup)
include h

theorem nodup_erase (k : α) : ((erase k m).map (·.1)).Nodup :=
  h.sublist (filter_sublist.map _)

theorem nodup_set (k : α) (v : β) : ((set k v m).map (·.1)).Nodup := by
  rcases set_cases k v m with ⟨hnone, hset⟩ | ⟨l, w, r, hm, -, hset⟩
  · rw [get?_eq_none_iff] at hnone
    rw [hset, map_append, nodup_append]
    refine ⟨h, by simp, fun a ha b hb ↦ ?_⟩
    obtain rfl : b = k := by simpa using hb
    exact fun heq ↦ hnone (heq ▸ ha)
  · rw [hm] at h
    rw [hset]
    simpa using h

/-- With distinct keys the bindings are what `get?` finds. -/
theorem get?_of_mem (hmem : (k, v) ∈ m) : get? k m = some v := by
  induction m with
  | nil => simp at hmem
  | cons p m ih =>
    rw [map_cons, nodup_cons] at h
    rw [get?]
    rcases mem_cons.mp hmem with rfl | hmem
    · simp
    · have hne : p.1 ≠ k := fun heq ↦ h.1 (heq ▸ mem_map_of_mem hmem)
      rw [if_neg hne]
      exact ih h.2 hmem

theorem mem_iff_get? : (k, v) ∈ m ↔ get? k m = some v :=
  ⟨get?_of_mem h, mem_of_get?⟩

theorem mem_set_iff {p : α × β} : p ∈ set k v m ↔ p.1 = k ∧ p.2 = v ∨ p.1 ≠ k ∧ p ∈ m := by
  obtain ⟨k', v'⟩ := p
  rw [mem_iff_get? (nodup_set h k v), mem_iff_get? h, get?_set]
  by_cases hk : k = k'
  · simp [hk, eq_comm]
  · simp [hk, Ne.symm hk]

end

/-- Bindings of one map over those of another, in the order of an object spread. -/
def merge (m m' : List (α × β)) : List (α × β) := m'.foldl (fun acc p ↦ set p.1 p.2 acc) m

/-- Bindings of new keys go behind the others, in their order. -/
theorem merge_of_nodup {m' : List (α × β)} (h : ((m ++ m').map (·.1)).Nodup) : merge m m' = m ++ m' := by
  induction m' generalizing m with
  | nil => rw [append_nil, merge, foldl_nil]
  | cons p m' ih =>
    have hnew : get? p.1 m = none := by
      rw [get?_eq_none_iff]
      rw [map_append, map_cons, nodup_append] at h
      exact fun hp ↦ h.2.2 _ hp _ (.head _) rfl
    rw [merge, foldl_cons, ← merge, set_of_get?_eq_none hnew]
    rw [append_cons] at h
    rw [ih h, append_assoc, singleton_append]

theorem get?_merge {m' : List (α × β)} (h : (m'.map (·.1)).Nodup) (k : α) :
    get? k (merge m m') = (get? k m').or (get? k m) := by
  induction m' generalizing m with
  | nil => rfl
  | cons p m' ih =>
    rw [map_cons, nodup_cons] at h
    rw [merge, foldl_cons, ← merge, ih h.2, get?_set, get?]
    by_cases hk : p.1 = k
    · have hnone : get? k m' = none := get?_eq_none_iff.mpr (hk ▸ h.1)
      simp [hk, hnone]
    · simp [hk]

theorem get?_merge_eq_none_iff {m' : List (α × β)} :
    get? k (merge m m') = none ↔ get? k m = none ∧ k ∉ m'.map (·.1) := by
  induction m' generalizing m with
  | nil => simp [merge]
  | cons p m' ih =>
    rw [merge, foldl_cons, ← merge, ih, get?_set, map_cons, mem_cons, not_or]
    by_cases hk : p.1 = k
    · simp [hk]
    · simp [hk, Ne.symm hk]

theorem nodup_merge (h : (m.map (·.1)).Nodup) (m' : List (α × β)) : ((merge m m').map (·.1)).Nodup := by
  induction m' generalizing m with
  | nil => exact h
  | cons p m' ih => exact ih (nodup_set h p.1 p.2)

theorem get?_foldl_erase (ks : List α) (m : List (α × β)) (k : α) :
    get? k (ks.foldl (fun m k ↦ erase k m) m) = if k ∈ ks then none else get? k m := by
  induction ks generalizing m with
  | nil => rfl
  | cons k' ks ih =>
    rw [foldl_cons, ih, get?_erase]
    by_cases hk : k' = k
    · simp [hk]
    · simp [hk, Ne.symm hk]

/-- What a filter leaves of a map with distinct keys. -/
theorem get?_filter (h : (m.map (·.1)).Nodup) (p : α × β → Bool) (k : α) :
    get? k (m.filter p) = (get? k m).filter fun v ↦ p (k, v) := by
  induction m with
  | nil => simp
  | cons q m ih =>
    obtain ⟨k', v⟩ := q
    rw [map_cons, nodup_cons] at h
    rw [filter_cons]
    by_cases hk : k' = k
    · subst hk
      by_cases hp : p (k', v)
      · simp [get?, hp, Option.filter]
      · have hnone : get? k' m = none := get?_eq_none_iff.mpr h.1
        simp [get?, hp, ih h.2, hnone, Option.filter]
    · by_cases hp : p (k', v)
      · simp [get?, hp, hk, ih h.2]
      · simp [get?, hp, hk, ih h.2]

end OrdMap
