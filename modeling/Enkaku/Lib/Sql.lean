import Mathlib.Data.List.Count
import Mathlib.Data.List.Sort

/-!
# Tables and three-valued logic

What the queries of a relational store mean, for tables that are lists of rows.

* `Sql.Truth` is the logic of a `WHERE` clause: a condition is true, false or unknown, and a row
  is selected only when it is *true*.  The comparison operators are unknown as soon as one operand
  is `NULL`, which is where gates get lost; `isTrue_or`, `isTrue_and` and the lemmas on the
  comparisons push `isTrue` down to the operands and leave ordinary propositions.
* `Sql.join` and `Sql.leftJoin` are the two joins, with their membership lemmas.
* `Sql.update` is `UPDATE … SET … WHERE …`.  `countP_update_le` and `countP_update_le_succ` say how
  an update moves a `COUNT(*)`: not up, when no updated row starts to be counted, and by at most
  one, when the `WHERE` names a primary key.
* `insertionSort_append` and `exists_first` are about `ORDER BY`: rows already in order in front of
  the others, and the row a `LIMIT 1` returns.
-/

set_option autoImplicit false

namespace Sql

open List

/-! ## Three-valued conditions -/

/-- The value of a condition: `none` is SQL's unknown. -/
abbrev Truth := Option Bool

namespace Truth

/-- `OR`: true as soon as one side is, unknown when nothing decides it. -/
def or : Truth → Truth → Truth
  | some true, _ => some true
  | _, some true => some true
  | some false, some false => some false
  | _, _ => none

/-- `AND`: false as soon as one side is, unknown when nothing decides it. -/
def and : Truth → Truth → Truth
  | some false, _ => some false
  | _, some false => some false
  | some true, some true => some true
  | _, _ => none

/-- A `WHERE` clause keeps a row only when its condition is true; unknown drops it. -/
def isTrue (t : Truth) : Bool := t == some true

@[simp] theorem isTrue_some (b : Bool) : isTrue (some b) = b := by cases b <;> rfl

@[simp] theorem isTrue_none : isTrue none = false := rfl

@[simp] theorem isTrue_or (a b : Truth) : (a.or b).isTrue = (a.isTrue || b.isTrue) := by
  rcases a with _ | _ | _ <;> rcases b with _ | _ | _ <;> rfl

@[simp] theorem isTrue_and (a b : Truth) : (a.and b).isTrue = (a.isTrue && b.isTrue) := by
  rcases a with _ | _ | _ <;> rcases b with _ | _ | _ <;> rfl

end Truth

/-! ## Comparing columns

A column that may be `NULL` is an `Option`; a comparison is unknown unless both sides are there. -/

section Compare

variable {α : Type*}

/-- `x IS NULL`, the one test that is never unknown. -/
def isNull (x : Option α) : Truth := some x.isNone

@[simp] theorem isTrue_isNull (x : Option α) : (isNull x).isTrue = x.isNone := by
  simp [isNull]

/-- Lift a two-valued comparison to columns that may be `NULL`. -/
def compare (p : α → α → Bool) (x y : Option α) : Truth :=
  match x, y with
  | some a, some b => some (p a b)
  | _, _ => none

theorem isTrue_compare {p : α → α → Bool} {x y : Option α} :
    (compare p x y).isTrue = true ↔ ∃ a b, x = some a ∧ y = some b ∧ p a b = true := by
  rcases x with _ | a <;> rcases y with _ | b <;> simp [compare]

/-- `x = y`. -/
def eq [DecidableEq α] : Option α → Option α → Truth := compare fun a b ↦ decide (a = b)

/-- `x <> y`. -/
def ne [DecidableEq α] : Option α → Option α → Truth := compare fun a b ↦ decide (a ≠ b)

/-- `x < y`. -/
def lt [LT α] [DecidableLT α] : Option α → Option α → Truth := compare fun a b ↦ decide (a < b)

/-- `x <= y`. -/
def le [LE α] [DecidableLE α] : Option α → Option α → Truth := compare fun a b ↦ decide (a ≤ b)

@[simp] theorem isTrue_eq [DecidableEq α] (x : Option α) (b : α) :
    (eq x (some b)).isTrue = true ↔ x = some b := by
  rw [eq, isTrue_compare]
  simp

@[simp] theorem isTrue_ne [DecidableEq α] (a : α) (y : Option α) :
    (ne (some a) y).isTrue = true ↔ ∃ b, y = some b ∧ a ≠ b := by
  rw [ne, isTrue_compare]
  simp

@[simp] theorem isTrue_lt [LT α] [DecidableLT α] (a : α) (y : Option α) :
    (lt (some a) y).isTrue = true ↔ ∃ b, y = some b ∧ a < b := by
  rw [lt, isTrue_compare]
  simp

@[simp] theorem isTrue_le [LE α] [DecidableLE α] (x : Option α) (b : α) :
    (le x (some b)).isTrue = true ↔ ∃ a, x = some a ∧ a ≤ b := by
  rw [le, isTrue_compare]
  simp

end Compare

/-! ## Joins -/

section Join

variable {α β : Type*}

/-- `xs JOIN ys ON on`. -/
def join (on : α → β → Bool) (xs : List α) (ys : List β) : List (α × β) :=
  xs.flatMap fun x ↦ (ys.filter (on x)).map fun y ↦ (x, y)

variable {xs : List α} {ys : List β} {on : α → β → Bool}

theorem mem_join {x : α} {y : β} : (x, y) ∈ join on xs ys ↔ x ∈ xs ∧ y ∈ ys ∧ on x y = true := by
  simp [join, mem_flatMap]

/-- `xs LEFT JOIN ys ON on`: a row that matches nothing is kept, with `NULL`s on the right. -/
def leftJoin (on : α → β → Bool) (xs : List α) (ys : List β) : List (α × Option β) :=
  xs.flatMap fun x ↦
    if (ys.filter (on x)).isEmpty then [(x, none)] else (ys.filter (on x)).map fun y ↦ (x, some y)

theorem mem_leftJoin_left {p : α × Option β} (h : p ∈ leftJoin on xs ys) : p.1 ∈ xs := by
  obtain ⟨x, hx, hp⟩ := mem_flatMap.mp h
  split at hp
  · simpa [mem_singleton.mp hp] using hx
  · obtain ⟨y, -, rfl⟩ := mem_map.mp hp
    exact hx

/-- A row that did match comes from the right table and satisfies the `ON` condition. -/
theorem mem_leftJoin_some {x : α} {y : β} (h : (x, some y) ∈ leftJoin on xs ys) :
    y ∈ ys ∧ on x y = true := by
  obtain ⟨x', -, hp⟩ := mem_flatMap.mp h
  split at hp
  · simp at hp
  · obtain ⟨y', hy', he⟩ := mem_map.mp hp
    simp only [Prod.mk.injEq, Option.some.injEq] at he
    obtain ⟨rfl, rfl⟩ := he
    exact mem_filter.mp hy'

/-- Counting the rows of a join that satisfy `q` counts every left row at least once for which
some partner does. -/
theorem countP_le_countP_join {p : α → Bool} {q : α × β → Bool}
    (h : ∀ x ∈ xs, p x = true → ∃ y ∈ ys, on x y = true ∧ q (x, y) = true) :
    xs.countP p ≤ (join on xs ys).countP q := by
  induction xs with
  | nil => simp
  | cons x rest ih =>
    have hrest := ih fun z hz ↦ h z (.tail _ hz)
    rw [join, flatMap_cons, countP_append, ← join, countP_cons]
    by_cases hx : p x = true
    · obtain ⟨y, hy, hon, hq⟩ := h x (.head _) hx
      have hpos : 0 < ((ys.filter (on x)).map fun y ↦ (x, y)).countP q :=
        countP_pos_iff.mpr
          ⟨(x, y), mem_map_of_mem (mem_filter.mpr ⟨hy, hon⟩), hq⟩
      rw [if_pos hx]
      omega
    · rw [if_neg hx]
      omega

end Join

/-! ## Updating a table -/

section Update

variable {α : Type*}

/-- `UPDATE rows SET set WHERE p`. -/
def update (p : α → Bool) (set : α → α) (rows : List α) : List α :=
  rows.map fun r ↦ if p r then set r else r

variable {rows : List α}

theorem mem_update {p : α → Bool} {set : α → α} {r : α} (h : r ∈ update p set rows) :
    ∃ r₀ ∈ rows, r = if p r₀ then set r₀ else r₀ := by
  obtain ⟨r₀, hr₀, rfl⟩ := mem_map.mp h
  exact ⟨r₀, hr₀, rfl⟩

/-- An update under which no row starts to satisfy `q` does not raise `COUNT(*) WHERE q`. -/
theorem countP_map_le {f : α → α} {q : α → Bool} (h : ∀ r ∈ rows, q (f r) = true → q r = true) :
    (rows.map f).countP q ≤ rows.countP q := by
  rw [countP_map]
  exact countP_mono_left fun r hr hq ↦ h r hr hq

/-- An update whose `WHERE` compares a key that no two rows share raises any count by at most
one. -/
theorem countP_update_le_succ {κ : Type*} [DecidableEq κ] {key : α → κ}
    (hkey : (rows.map key).Nodup) (k : κ) (set : α → α) (q : α → Bool) :
    (update (fun r ↦ decide (key r = k)) set rows).countP q ≤ rows.countP q + 1 := by
  induction rows with
  | nil => simp [update]
  | cons r rest ih =>
    rw [map_cons, nodup_cons] at hkey
    rw [update, map_cons, ← update]
    by_cases hr : key r = k
    · have hrest : update (fun r ↦ decide (key r = k)) set rest = rest := by
        refine (map_congr_left fun r' hr' ↦ ?_).trans (map_id rest)
        have hne : key r' ≠ k := fun he ↦ hkey.1 (hr.trans he.symm ▸ mem_map_of_mem hr')
        simp [hne]
      rw [hrest]
      simp only [countP_cons]
      split <;> split <;> omega
    · have hrest := ih hkey.2
      simp only [countP_cons, hr, decide_false, Bool.false_eq_true, if_false]
      omega

/-- An insert that the primary key does not refuse leaves the key unique. -/
theorem nodup_insert {κ : Type*} {key : α → κ} {r : α} (h : (rows.map key).Nodup)
    (hnew : ∀ r' ∈ rows, key r' ≠ key r) : ((rows ++ [r]).map key).Nodup := by
  rw [map_append, nodup_append]
  refine ⟨h, by simp, ?_⟩
  intro a ha b hb
  obtain ⟨r', hr', rfl⟩ := mem_map.mp ha
  rw [map_singleton, mem_singleton] at hb
  exact hb ▸ hnew r' hr'

end Update

/-! ## `ORDER BY` -/

/-- Rows that are in order and stand before all others stay in front of what is sorted. -/
theorem insertionSort_append {α : Type*} {r : α → α → Prop} [DecidableRel r] {xs ys : List α}
    (hxs : xs.Pairwise r) (hys : ∀ x ∈ xs, ∀ y ∈ ys, r x y) :
    (xs ++ ys).insertionSort r = xs ++ ys.insertionSort r := by
  induction xs with
  | nil => rfl
  | cons x xs ih =>
    obtain ⟨hx, hxs⟩ := pairwise_cons.mp hxs
    have hfirst : ∀ y ∈ xs ++ ys, r x y := by
      intro y hy
      rcases mem_append.mp hy with hy | hy
      · exact hx y hy
      · exact hys x (by simp) y hy
    rw [cons_append, insertionSort_cons_of_forall_rel r hfirst,
      ih hxs fun x' hx' ↦ hys x' (by simp [hx']), cons_append]

/-- `ORDER BY … LIMIT 1` finds a row where there is one: one that no other comes before. -/
theorem exists_first {α : Type*} (before : α → α → Prop)
    (htrans : ∀ a b c, before a b → before b c → before a c) (hirr : ∀ a, ¬ before a a) {rows : List α}
    (hne : rows ≠ []) : ∃ r ∈ rows, ∀ r' ∈ rows, ¬ before r' r := by
  induction rows with
  | nil => exact absurd rfl hne
  | cons a rows ih =>
    rcases eq_or_ne rows [] with rfl | hrows
    · exact ⟨a, mem_singleton_self a, by simp [hirr]⟩
    · obtain ⟨r, hr, hfirst⟩ := ih hrows
      by_cases hbefore : before a r
      · refine ⟨a, mem_cons_self, fun r' hr' hba ↦ ?_⟩
        rcases mem_cons.mp hr' with rfl | hr'
        · exact hirr _ hba
        · exact hfirst r' hr' (htrans _ _ _ hba hbefore)
      · refine ⟨r, .tail _ hr, fun r' hr' ↦ ?_⟩
        rcases mem_cons.mp hr' with rfl | hr'
        · exact hbefore
        · exact hfirst r' hr'

end Sql
