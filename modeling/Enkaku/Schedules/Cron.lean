import Mathlib.Data.List.Basic

/-!
# When a schedule fires

`nextFire` and `occurrencesBetween`, over the one call of the cron library that they make.  Instants are
milliseconds of the epoch, what the database and the cache of the runner hold is seconds.
-/

set_option autoImplicit false

namespace Enkaku

/-- The cron library: `nextRun` of a pattern in a time zone, which throws for one that it cannot read. -/
structure Croner where
  nextRun : String → String → Nat → Except String (Option Nat)

namespace Croner

/-- What the runner relies on: the next run is strictly after the instant it is asked for. -/
def IsForward (cron : Croner) : Prop :=
  ∀ expr timezone after next, cron.nextRun expr timezone after = .ok (some next) → after < next

/-- A pattern names seconds, none of it finer. -/
def IsWhole (cron : Croner) : Prop :=
  ∀ expr timezone after next, cron.nextRun expr timezone after = .ok (some next) → next % 1000 = 0

/-- An instant, in seconds, at which a pattern fires. -/
def Occurs (cron : Croner) (expr timezone : String) (second : Nat) : Prop :=
  ∃ after, cron.nextRun expr timezone after = .ok (some (second * 1000))

/-- `nextFire`. -/
def nextFire (cron : Croner) (expr timezone : String) (after : Nat) : Except String (Option Nat) :=
  (cron.nextRun expr timezone after).map (·.map (· / 1000))

/-- `MAX_COUNTED_OCCURRENCES`. -/
def maxCountedOccurrences : Nat := 10000

/-- The loop of `occurrencesBetween`. -/
def countOccurrences (cron : Croner) (expr timezone : String) (upto : Nat) :
    Nat → Nat → Nat → Except String Nat
  | 0, _, count => .ok count
  | fuel + 1, cursor, count =>
    match cron.nextRun expr timezone cursor with
    | .error err => .error err
    | .ok none => .ok count
    | .ok (some next) =>
      if upto < next then .ok count else countOccurrences cron expr timezone upto fuel next (count + 1)

/-- `occurrencesBetween`. -/
def occurrencesBetween (cron : Croner) (expr timezone : String) (after upto : Nat) : Except String Nat :=
  cron.countOccurrences expr timezone upto maxCountedOccurrences after 0

variable {cron : Croner} {expr timezone : String} {after upto missed : Nat}

/-- Something is missed only if the interval is not empty. -/
theorem IsForward.lt_of_missed (hcron : cron.IsForward)
    (h : cron.occurrencesBetween expr timezone after upto = .ok missed) (hmissed : missed ≠ 0) :
    after < upto := by
  rw [occurrencesBetween, maxCountedOccurrences, countOccurrences] at h
  cases hnext : cron.nextRun expr timezone after with
  | error err => simp [hnext] at h
  | ok next =>
    cases next with
    | none =>
      simp only [hnext, Except.ok.injEq] at h
      exact absurd h.symm hmissed
    | some next =>
      have hlt := hcron expr timezone after next hnext
      simp only [hnext] at h
      by_cases hupto : upto < next
      · rw [if_pos hupto, Except.ok.injEq] at h
        exact absurd h.symm hmissed
      · exact Nat.lt_of_lt_of_le hlt (Nat.le_of_not_lt hupto)

/-- The next fire after a full second is a later second. -/
theorem IsForward.lt_of_nextFire (hcron : cron.IsForward) (hwhole : cron.IsWhole) {second next : Nat}
    (h : cron.nextFire expr timezone (second * 1000) = .ok (some next)) : second < next := by
  rw [nextFire] at h
  cases hrun : cron.nextRun expr timezone (second * 1000) with
  | error err => simp [hrun, Except.map] at h
  | ok found =>
    cases found with
    | none => simp [hrun, Except.map] at h
    | some instant =>
      have hlt := hcron expr timezone (second * 1000) instant hrun
      have hmod := hwhole expr timezone (second * 1000) instant hrun
      have hnext : instant / 1000 = next := by simpa [hrun, Except.map] using h
      omega

/-- The library on `* * * * *` in UTC: the next full minute. -/
def everyMinute : Croner := ⟨fun _ _ after ↦ .ok (some ((after / 60000 + 1) * 60000))⟩

theorem everyMinute_isForward : everyMinute.IsForward := by
  intro expr timezone after next h
  cases Except.ok.inj h
  omega

theorem everyMinute_isWhole : everyMinute.IsWhole := by
  intro expr timezone after next h
  cases Except.ok.inj h
  omega

/-- The library on `0 0 1 1 *` in UTC, up to 1972: the next New Year. -/
def everyNewYear : Croner := ⟨fun _ _ after ↦ .ok (some ((after / 31536000000 + 1) * 31536000000))⟩

theorem everyNewYear_isForward : everyNewYear.IsForward := by
  intro expr timezone after next h
  cases Except.ok.inj h
  omega

theorem everyNewYear_isWhole : everyNewYear.IsWhole := by
  intro expr timezone after next h
  cases Except.ok.inj h
  omega

end Croner

end Enkaku
