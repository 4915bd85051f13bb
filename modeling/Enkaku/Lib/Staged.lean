import Mathlib.Data.List.Basic
import Mathlib.Data.List.Induction

/-!
# Parsers with stages, fed a piece at a time

A parser whose stage says what it looks for in front of what has arrived.  It finds it and goes on
with the next stage, waits for more, or fails for good.  What it has put out, and whether it waits or
has failed, depends only on all that has arrived (`foldl_feed`), not on how it was cut.
-/

set_option autoImplicit false

/-- What a stage makes of what is there. -/
inductive Staged.Next (σ α β ε : Type*) where
  /-- Not enough has arrived. -/
  | more
  | fail (error : ε)
  /-- This is put out, and behind it the next stage goes on. -/
  | found (out : List β) (stage : σ) (rest : List α)

/-- What is left of a parser when it can do no more. -/
inductive Staged.Left (σ α ε : Type*) where
  | waiting (stage : σ) (kept : List α)
  | failed (error : ε)

structure Staged (σ α β ε : Type*) where
  next : σ → List α → Staged.Next σ α β ε
  nil : ∀ s, next s [] = .more
  /-- What is found is not empty. -/
  shorter : ∀ {s xs out s' rest}, next s xs = .found out s' rest → rest.length < xs.length
  /-- What comes behind has no say in what is found. -/
  append_found : ∀ {s xs out s' rest}, next s xs = .found out s' rest →
    ∀ ys, next s (xs ++ ys) = .found out s' (rest ++ ys)
  append_fail : ∀ {s xs e}, next s xs = .fail e → ∀ ys, next s (xs ++ ys) = .fail e

namespace Staged

variable {σ α β ε : Type*} (p : Staged σ α β ε)

/-- The loop, with fuel for as many steps as there are places. -/
def loop : Nat → σ → List α → List β × Left σ α ε
  | 0, s, xs => ([], .waiting s xs)
  | fuel + 1, s, xs =>
    match p.next s xs with
    | .more => ([], .waiting s xs)
    | .fail e => ([], .failed e)
    | .found out s' rest => (out ++ (loop fuel s' rest).1, (loop fuel s' rest).2)

/-- All that can be found, and what is left. -/
def run (s : σ) (xs : List α) : List β × Left σ α ε := p.loop xs.length s xs

variable {p} {s s' : σ} {xs rest : List α} {out : List β} {e : ε}

theorem loop_of_more (h : p.next s xs = .more) (fuel : Nat) :
    p.loop fuel s xs = ([], .waiting s xs) := by
  cases fuel with
  | zero => rfl
  | succ fuel => rw [loop, h]

theorem length_pos_of_ne_more (h : p.next s xs ≠ .more) : 0 < xs.length := by
  rcases xs with _ | ⟨x, xs⟩
  · exact absurd (p.nil s) h
  · exact Nat.succ_pos _

/-- More fuel than there are places makes no difference. -/
theorem loop_eq_loop {fuel fuel' : Nat} (h : xs.length ≤ fuel) (h' : xs.length ≤ fuel') :
    p.loop fuel s xs = p.loop fuel' s xs := by
  induction fuel generalizing fuel' s xs with
  | zero =>
    obtain rfl := List.eq_nil_of_length_eq_zero (Nat.le_zero.mp h)
    rw [loop_of_more (p.nil s), loop_of_more (p.nil s)]
  | succ fuel ih =>
    cases hnext : p.next s xs with
    | more => rw [loop_of_more hnext, loop_of_more hnext]
    | fail e =>
      have hne : p.next s xs ≠ .more := by simp [hnext]
      have hpos := length_pos_of_ne_more hne
      obtain ⟨fuel', rfl⟩ : ∃ k, fuel' = k + 1 := ⟨fuel' - 1, by omega⟩
      rw [loop, loop, hnext]
    | found out s' rest =>
      have hlt := p.shorter hnext
      obtain ⟨fuel', rfl⟩ : ∃ k, fuel' = k + 1 := ⟨fuel' - 1, by omega⟩
      have hrest : p.loop fuel s' rest = p.loop fuel' s' rest := ih (by omega) (by omega)
      rw [loop, loop, hnext]
      dsimp only
      rw [hrest]

theorem run_of_more (h : p.next s xs = .more) : p.run s xs = ([], .waiting s xs) :=
  loop_of_more h _

theorem run_of_fail (h : p.next s xs = .fail e) : p.run s xs = ([], .failed e) := by
  have hne : p.next s xs ≠ .more := by simp [h]
  have hpos := length_pos_of_ne_more hne
  obtain ⟨k, hk⟩ : ∃ k, xs.length = k + 1 := ⟨xs.length - 1, by omega⟩
  rw [run, hk, loop, h]

theorem run_of_found (h : p.next s xs = .found out s' rest) :
    p.run s xs = (out ++ (p.run s' rest).1, (p.run s' rest).2) := by
  have hlt := p.shorter h
  obtain ⟨k, hk⟩ : ∃ k, xs.length = k + 1 := ⟨xs.length - 1, by omega⟩
  have hrest : p.loop k s' rest = p.run s' rest := loop_eq_loop (by omega) (Nat.le_refl _)
  rw [run, hk, loop, h]
  dsimp only
  rw [hrest]

@[simp] theorem run_nil : p.run s [] = ([], .waiting s []) := run_of_more (p.nil s)

variable (p)

/-- One more piece arrives. -/
def feed (state : List β × Left σ α ε) (piece : List α) : List β × Left σ α ε :=
  match state.2 with
  | .failed e => (state.1, .failed e)
  | .waiting s kept => (state.1 ++ (p.run s (kept ++ piece)).1, (p.run s (kept ++ piece)).2)

variable {p}

theorem feed_append (out : List β) (state : List β × Left σ α ε) (piece : List α) :
    p.feed (out ++ state.1, state.2) piece = (out ++ (p.feed state piece).1, (p.feed state piece).2) := by
  rw [feed, feed]
  cases state.2 with
  | failed e => rfl
  | waiting s kept => simp

/-- **What has arrived later is read after what had arrived before.** -/
theorem run_append (s : σ) (xs ys : List α) : p.run s (xs ++ ys) = p.feed (p.run s xs) ys := by
  induction h : xs.length using Nat.strongRecOn generalizing s xs with
  | ind n ih =>
    cases hnext : p.next s xs with
    | more =>
      rw [run_of_more hnext]
      rfl
    | fail e =>
      rw [run_of_fail hnext, run_of_fail (p.append_fail hnext ys)]
      rfl
    | found out s' rest =>
      rw [run_of_found hnext, run_of_found (p.append_found hnext ys),
        ih rest.length (h ▸ p.shorter hnext) s' rest rfl, feed_append]

/-- **How it was cut makes no difference.** -/
theorem foldl_feed (s : σ) (pieces : List (List α)) :
    pieces.foldl p.feed ([], .waiting s []) = p.run s pieces.flatten := by
  induction pieces using List.reverseRecOn with
  | nil => exact run_nil.symm
  | append_singleton pieces piece ih =>
    rw [List.foldl_append, List.foldl_cons, List.foldl_nil, ih, List.flatten_append,
      List.flatten_singleton, run_append]

end Staged
