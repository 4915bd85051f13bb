import Mathlib.Data.List.Basic
import Mathlib.Data.List.Induction

/-!
# Parsers that are fed a piece at a time

A parser that takes items off the front of what has arrived, and keeps the rest until more of it
arrives.  `run` takes items as long as there is a whole one.  What a parser has taken, and what it
keeps, then depends only on all that has arrived (`foldl_feed`), not on how it was cut.
-/

set_option autoImplicit false

/-- One item off the front, when a whole one is there. -/
structure Incremental (α β : Type*) where
  next? : List α → Option (β × List α)
  /-- An item is not empty. -/
  shorter : ∀ {xs b rest}, next? xs = some (b, rest) → rest.length < xs.length
  /-- What is behind an item has no say in it. -/
  append : ∀ {xs b rest}, next? xs = some (b, rest) → ∀ ys, next? (xs ++ ys) = some (b, rest ++ ys)

namespace Incremental

variable {α β : Type*} (p : Incremental α β)

/-- The loop, with fuel for as many items as there are places. -/
def loop : Nat → List α → List β × List α
  | 0, xs => ([], xs)
  | fuel + 1, xs =>
    match p.next? xs with
    | none => ([], xs)
    | some (b, rest) => (b :: (loop fuel rest).1, (loop fuel rest).2)

/-- All the items that are there, and what is left. -/
def run (xs : List α) : List β × List α := p.loop xs.length xs

theorem loop_of_none {xs : List α} (h : p.next? xs = none) (fuel : Nat) : p.loop fuel xs = ([], xs) := by
  cases fuel with
  | zero => rfl
  | succ fuel => rw [loop, h]

/-- More fuel than there are places makes no difference. -/
theorem loop_eq_loop {fuel fuel' : Nat} {xs : List α} (h : xs.length ≤ fuel)
    (h' : xs.length ≤ fuel') : p.loop fuel xs = p.loop fuel' xs := by
  induction fuel generalizing fuel' xs with
  | zero =>
    have hnone : p.next? xs = none := by
      cases hnext : p.next? xs with
      | none => rfl
      | some r => exact absurd (Nat.lt_of_lt_of_le (p.shorter hnext) h) (Nat.not_lt_zero _)
    rw [loop_of_none p hnone, loop_of_none p hnone]
  | succ fuel ih =>
    cases hnext : p.next? xs with
    | none => rw [loop_of_none p hnext, loop_of_none p hnext]
    | some r =>
      have hlt := p.shorter hnext
      obtain ⟨fuel', rfl⟩ : ∃ k, fuel' = k + 1 := ⟨fuel' - 1, by omega⟩
      rw [loop, loop, hnext]
      dsimp only
      rw [@ih fuel' r.2 (by omega) (by omega)]

theorem run_of_none {xs : List α} (h : p.next? xs = none) : p.run xs = ([], xs) :=
  p.loop_of_none h _

theorem run_of_some {xs rest : List α} {b : β} (h : p.next? xs = some (b, rest)) :
    p.run xs = (b :: (p.run rest).1, (p.run rest).2) := by
  have hlt := p.shorter h
  obtain ⟨k, hk⟩ : ∃ k, xs.length = k + 1 := ⟨xs.length - 1, by omega⟩
  have hrest : p.loop k rest = p.run rest := p.loop_eq_loop (by omega) (Nat.le_refl _)
  rw [run, hk, loop, h]
  dsimp only
  rw [hrest]

/-- What holds of what is read: it holds where there is no whole item, and an item in front keeps it. -/
theorem run_induction {P : List α → List β → List α → Prop}
    (hnone : ∀ {xs}, p.next? xs = none → P xs [] xs)
    (hsome : ∀ {xs b rest items left}, p.next? xs = some (b, rest) → P rest items left →
      P xs (b :: items) left) (xs : List α) : P xs (p.run xs).1 (p.run xs).2 := by
  induction h : xs.length using Nat.strongRecOn generalizing xs with
  | ind n ih =>
    cases hnext : p.next? xs with
    | none =>
      rw [p.run_of_none hnext]
      exact hnone hnext
    | some r =>
      rw [p.run_of_some hnext]
      exact hsome hnext (ih r.2.length (h ▸ p.shorter hnext) r.2 rfl)

/-- What is left has no whole item in front. -/
theorem next?_run (xs : List α) : p.next? (p.run xs).2 = none :=
  p.run_induction (P := fun _ _ left ↦ p.next? left = none) (fun h ↦ h) (fun _ h ↦ h) xs

/-- **What has arrived later is read after what had arrived before.** -/
theorem run_append (xs ys : List α) :
    p.run (xs ++ ys) =
      ((p.run xs).1 ++ (p.run ((p.run xs).2 ++ ys)).1, (p.run ((p.run xs).2 ++ ys)).2) := by
  induction h : xs.length using Nat.strongRecOn generalizing xs with
  | ind n ih =>
    cases hnext : p.next? xs with
    | none =>
      rw [p.run_of_none hnext]
      rfl
    | some r =>
      rw [p.run_of_some hnext, p.run_of_some (p.append hnext ys),
        ih r.2.length (h ▸ p.shorter hnext) r.2 rfl]
      rfl

/-- The items taken so far, and what is kept, when one more piece has arrived. -/
def feed (s : List β × List α) (piece : List α) : List β × List α :=
  (s.1 ++ (p.run (s.2 ++ piece)).1, (p.run (s.2 ++ piece)).2)

/-- **How it was cut makes no difference.** -/
theorem foldl_feed (pieces : List (List α)) : pieces.foldl p.feed ([], []) = p.run pieces.flatten := by
  induction pieces using List.reverseRecOn with
  | nil =>
    have hnone : p.next? ([] : List α) = none := by
      cases hnext : p.next? ([] : List α) with
      | none => rfl
      | some r => exact absurd (p.shorter hnext) (Nat.not_lt_zero _)
    exact (p.run_of_none hnone).symm
  | append_singleton pieces piece ih =>
    rw [List.foldl_append, List.foldl_cons, List.foldl_nil, ih, feed, List.flatten_append,
      List.flatten_singleton]
    exact (p.run_append pieces.flatten piece).symm

end Incremental
