import Enkaku.Schedules.Overlap

/-!
# The precise timer of the schedule runner

`armTimer` hands the time to the earliest next fire to `setTimeout`, which cannot wait longer than
`maxTimerDelay` and fires a longer delay at once.  `TimedRunner` is the runner with the time at which the
platform fires the timer that it armed.  As long as no timer is armed farther ahead (`Near`), and a wake
can dispatch what it finds, every wake of the timer claims all that is due and there is no other
(`wakes_quietly`).  A schedule that fires once a year makes it spin (`wakes_not_quietly_sparse`).
-/

set_option autoImplicit false

namespace Enkaku.Schedules

open List Option

/-- The longest delay of a timer, in milliseconds. -/
def maxTimerDelay : Nat := 2147483647

/-- How long `setTimeout` waits. -/
def timeoutWait (delayMs : Nat) : Nat := if maxTimerDelay < delayMs then 0 else delayMs

/-- `computeNext`, from where `recomputeCache` counts. -/
def computeNext (cron : Croner) (schedule : ScheduleRow) : Option Nat :=
  match cron.nextFire schedule.cron schedule.timezone
    (schedule.lastFiredAt.getD schedule.createdAt * 1000) with
  | .ok (some next) => some next
  | _ => none

namespace ScheduleRunner

/-- `earliest` of `armTimer`. -/
def earliest? (s : ScheduleRunner) : Option Nat := (s.nextFireCache.map (·.2)).min?

/-- `delayMs` of `armTimer`, if it arms a timer. -/
def delayMs (s : ScheduleRunner) : Option Nat :=
  if s.running then s.earliest?.map fun earliest ↦ earliest * 1000 - s.clock else none

/-- The next fires of the enabled schedules. -/
def nextFires (cron : Croner) (s : ScheduleRunner) : List Nat :=
  (s.rows.filter (·.enabled)).filterMap (computeNext cron)

/-- The earliest next fire is not farther away than a timer can wait. -/
def Near (cron : Croner) (s : ScheduleRunner) : Prop :=
  ∀ earliest ∈ (s.nextFires cron).min?, earliest * 1000 ≤ s.clock + maxTimerDelay

instance (cron : Croner) (s : ScheduleRunner) : Decidable (s.Near cron) := by
  unfold Near
  infer_instance

/-- A timer is armed with a delay that the platform can wait, and waits for the earliest next fire or for
the longest delay there is. -/
structure WaitsOut (s : ScheduleRunner) (delay : Nat) : Prop where
  bounded : delay ≤ maxTimerDelay
  waits : ∀ earliest ∈ s.earliest?, min (earliest * 1000 - s.clock) maxTimerDelay ≤ timeoutWait delay

/-- What an event does with the precise timer. -/
inductive TimerUse where
  | keeps | clears | arms
  deriving DecidableEq, Repr

/-- The catch-up arms the timer when it comes to its end. -/
def catchUpUse (cron : Croner) (now : Nat) (rest : List ScheduleRow) : TimerUse :=
  if (firedRow cron now rest).isNone then .arms else .keeps

/-- What an event of the runner does with the precise timer. -/
def timerUse (cron : Croner) (s : ScheduleRunner) : Event → TimerUse
  | .start _ => if s.running then .keeps else catchUpUse cron s.clock (s.rows.filter (·.enabled))
  | .resume id _ =>
    match s.pass? id with
    | none => .keeps
    | some p => catchUpUse cron p.now p.rest
  | .reload | .wake _ | .tick _ => .arms
  | .stop | .restart => .clears
  | .advance _ | .woken .. | .progress .. => .keeps

end ScheduleRunner

/-- The runner, and when the platform fires the precise timer. -/
structure TimedRunner where
  runner : ScheduleRunner
  firesAt : Option Nat
  deriving DecidableEq, Repr

/-- What happens to the runner and to its schedules. -/
inductive TimedEvent where
  | runner (e : ScheduleRunner.Event)
  /-- A mutation of the schedules, which reloads the runner. -/
  | mutate (rows : List ScheduleRow) (keyed : (rows.map (·.id)).Nodup)

/-- The precise timer fires. -/
def TimedEvent.isWake : TimedEvent → Bool
  | .runner (.wake _) => true
  | _ => false

namespace TimedRunner

open ScheduleRunner

variable (cron : Croner)

/-- A runner that has not been started. -/
def new (clock : Nat) (table : ScheduleTable) : TimedRunner := ⟨.new clock table, none⟩

/-- What an event makes of the runner.  The precise timer fires when the platform says so. -/
def next (s : TimedRunner) : TimedEvent → Option ScheduleRunner
  | .runner (.wake meeting) =>
    if s.firesAt.any (· ≤ s.runner.clock) then some (s.runner.wake cron meeting) else none
  | .runner e => s.runner.step cron e
  | .mutate rows _ => some ({ s.runner with rows := rows }.recomputeCache cron).armTimer

/-- What an event does with the precise timer. -/
def timerUse (s : TimedRunner) : TimedEvent → TimerUse
  | .runner e => s.runner.timerUse cron e
  | .mutate .. => .arms

/-- When the platform fires the timer after an event that leaves this runner. -/
def rearm (s : TimedRunner) (r : ScheduleRunner) : TimerUse → Option Nat
  | .keeps => s.firesAt
  | .clears => none
  | .arms => r.delayMs.map fun delay ↦ r.clock + timeoutWait delay

/-- One event; none if it cannot happen. -/
def step (s : TimedRunner) (e : TimedEvent) : Option TimedRunner :=
  (s.next cron e).map fun r ↦ ⟨r, s.rearm r (s.timerUse cron e)⟩

/-- Every due schedule of an agent finds a dispatcher. -/
def Wired (s : ScheduleRunner) (meeting : String → Meeting) : Prop :=
  ∀ p ∈ s.due, ∀ schedule ∈ s.row? p.1, schedule.target = .agent → (meeting p.1).wired

instance (s : ScheduleRunner) (meeting : String → Meeting) : Decidable (Wired s meeting) := by
  unfold Wired
  infer_instance

/-- No timer is armed farther ahead than it can wait, and no wake of the timer lacks a dispatcher. -/
def Quiet (s : TimedRunner) (e : TimedEvent) : Prop :=
  (∀ r ∈ s.next cron e, s.timerUse cron e = .arms → r.Near cron) ∧
    match e with
    | .runner (.wake meeting) => Wired s.runner meeting
    | _ => True

instance (s : TimedRunner) (e : TimedEvent) : Decidable (s.Quiet cron e) := by
  unfold Quiet
  split <;> infer_instance

/-- How often the precise timer fires. -/
def wakes (es : List TimedEvent) : Nat := es.countP TimedEvent.isWake

/-- The armed timer waits for the earliest next fire of a runner that runs. -/
def Waits (s : TimedRunner) : Prop :=
  ∀ fires ∈ s.firesAt, s.runner.running = true ∧
    ∃ earliest ∈ s.runner.earliest?, earliest * 1000 ≤ fires

/-- A wake finds something due, claims exactly what is due, and leaves for each such schedule a next fire
that comes later. -/
structure Serves (s u : TimedRunner) : Prop where
  due : s.runner.due ≠ []
  claims : ∃ fires : List Fire, u.runner.claims = s.runner.claims ++ fires ∧
    fires.map (fun f ↦ (f.schedule.id, f.dueAt)) = s.runner.due.map fun p ↦ (p.1, p.2 * 1000)
  later : ∀ p ∈ s.runner.due, ∀ q ∈ u.runner.nextFireCache, q.1 = p.1 → p.2 < q.2

end TimedRunner

/-! ## One timer -/

namespace ScheduleRunner

variable {cron : Croner} {s t u : ScheduleRunner}

theorem cache_recompute (cron : Croner) (s : ScheduleRunner) :
    (s.recomputeCache cron).nextFireCache =
      (s.rows.filter (·.enabled)).filterMap fun row ↦ (computeNext cron row).map (row.id, ·) := by
  rw [recomputeCache, filterMap_filter]
  refine filterMap_congr fun row _ ↦ ?_
  split_ifs
  · rw [computeNext]
    cases cron.nextFire row.cron row.timezone (row.lastFiredAt.getD row.createdAt * 1000) with
    | error err => rfl
    | ok next => cases next <;> rfl
  · rfl

/-- The cache holds the next fires of the enabled schedules. -/
theorem map_cache_recompute (cron : Croner) (s : ScheduleRunner) :
    (s.recomputeCache cron).nextFireCache.map (·.2) = s.nextFires cron := by
  rw [cache_recompute, List.map_filterMap, nextFires]
  refine filterMap_congr fun row _ ↦ ?_
  rw [Option.map_map]
  exact map_id'

theorem earliest?_recompute (cron : Croner) (s : ScheduleRunner) :
    (s.recomputeCache cron).earliest? = (s.nextFires cron).min? := by
  rw [earliest?, map_cache_recompute]

/-- A delay that the platform can wait is waited for. -/
theorem timeoutWait_of_le {delay : Nat} (h : delay ≤ maxTimerDelay) : timeoutWait delay = delay :=
  if_neg (Nat.not_lt.mpr h)

/-- **A timer that waits.**  What `armTimer` arms after `recomputeCache` waits for the earliest next fire,
or for the longest delay, if and only if that fire is not farther away than a timer can wait. -/
theorem waitsOut_iff_near (cron : Croner) (s : ScheduleRunner) :
    (∀ delay ∈ (s.recomputeCache cron).delayMs, (s.recomputeCache cron).WaitsOut delay) ↔
      (s.running = true → s.Near cron) := by
  have hclock : (s.recomputeCache cron).clock = s.clock := rfl
  have hrunning : (s.recomputeCache cron).running = s.running := rfl
  constructor
  · intro h hrun earliest hearliest
    rw [← earliest?_recompute] at hearliest
    have hdelay : (s.recomputeCache cron).delayMs = some (earliest * 1000 - s.clock) := by
      rw [delayMs, hrunning, if_pos hrun, hearliest, hclock]
      rfl
    have hbounded := (h _ hdelay).bounded
    omega
  · intro hnear delay hdelay
    rw [mem_def, delayMs, hrunning] at hdelay
    split_ifs at hdelay with hrun
    obtain ⟨earliest, hearliest, rfl⟩ := map_eq_some_iff.mp hdelay
    have hle := hnear hrun earliest (earliest?_recompute cron s ▸ hearliest)
    have hbounded : earliest * 1000 - (s.recomputeCache cron).clock ≤ maxTimerDelay := by
      rw [hclock]
      omega
    refine ⟨hbounded, fun earliest' hearliest' ↦ ?_⟩
    cases hearliest.symm.trans hearliest'
    rw [timeoutWait_of_le hbounded]
    exact Nat.min_le_left _ _

/-! ## What a fire leaves as it is -/

/-- The cache and what the operator set are as they were, a runner that runs goes on, and no claim is
lost. -/
structure Frame (s t : ScheduleRunner) : Prop where
  running : s.running = true → t.running = true
  cache : t.nextFireCache = s.nextFireCache
  settings : t.rows.map (·.toSchedule) = s.rows.map (·.toSchedule)
  claims : s.claims <+: t.claims

theorem Frame.refl (s : ScheduleRunner) : Frame s s := ⟨id, rfl, rfl, prefix_rfl⟩

theorem Frame.trans (h : Frame s t) (h' : Frame t u) : Frame s u :=
  ⟨h'.running ∘ h.running, h'.cache.trans h.cache, h'.settings.trans h.settings,
    h.claims.trans h'.claims⟩

theorem Frame.ids (h : Frame s t) : t.ids = s.ids := by
  have hids : ∀ r : ScheduleRunner, r.ids = (r.rows.map (·.toSchedule)).map (·.id) := by
    intro r
    rw [ScheduleRunner.ids, List.map_map]
    rfl
  rw [hids, h.settings, ← hids]

/-- The row of an id keeps what the operator set. -/
theorem Frame.row? (h : Frame s t) (k : String) :
    (t.row? k).map (·.toSchedule) = (s.row? k).map (·.toSchedule) := by
  have hrow : ∀ r : ScheduleRunner,
      (r.row? k).map (·.toSchedule) = (r.rows.map (·.toSchedule)).find? (·.id = k) := by
    intro r
    rw [find?_map]
    rfl
  rw [hrow, h.settings, ← hrow]

section

variable (s : ScheduleRunner)

theorem frame_update (k : String) {f : ScheduleRow → ScheduleRow}
    (hf : ∀ row, (f row).toSchedule = row.toSchedule) : Frame s (s.update k f) := by
  refine ⟨id, rfl, ?_, List.prefix_rfl⟩
  rw [update, List.map_map]
  refine map_congr_left fun row _ ↦ ?_
  simp only [Function.comp_apply]
  split_ifs
  · exact hf row
  · rfl

theorem frame_claim (fire : Fire) : Frame s (s.claim fire) := by
  have h := frame_update s fire.schedule.id
    (f := fun row ↦ { row with lastFiredAt := some (fire.dueAt / 1000) }) fun _ ↦ rfl
  exact ⟨h.running, h.cache, h.settings, prefix_append _ _⟩

theorem frame_stopPrevious (schedule : ScheduleRow) (active : Bool) (m : Meeting) :
    Frame s (s.stopPrevious schedule active m) := by
  rw [stopPrevious]
  split
  · exact Frame.refl s
  · split_ifs
    · exact ⟨id, rfl, rfl, prefix_rfl⟩
    · exact Frame.refl s

theorem frame_dispatch (fire : Fire) (creation : Creation) : Frame s (s.dispatch fire creation) := by
  cases creation with
  | failed outcome => exact frame_update s _ fun _ ↦ rfl
  | created members =>
    rw [dispatch]
    split_ifs
    · have h := frame_update s fire.schedule.id
        (f := fun row ↦ { row with lastFireOutcome := some .dispatched }) fun _ ↦ rfl
      exact ⟨h.running, h.cache, h.settings, h.claims⟩
    · have h := frame_update s fire.schedule.id
        (f := fun row ↦ { row with lastFireOutcome := some .dispatched, batchId := some s.nextId })
        fun _ ↦ rfl
      exact ⟨h.running, h.cache, h.settings, h.claims⟩

theorem frame_fireOnce (schedule : ScheduleRow) (dueAt first : Nat)
    (isCatchUp : Bool) (m : Meeting) : Frame s (s.fireOnce schedule dueAt first isCatchUp m) := by
  have hclaim := frame_claim s (s.fireOf schedule dueAt first isCatchUp)
  have hstop := hclaim.trans (frame_stopPrevious _ schedule (s.isPreviousActive schedule m) m)
  rw [fireOnce]
  by_cases hwired : schedule.target = .agent ∧ ¬ m.wired
  · rw [if_pos hwired]
    exact Frame.refl s
  · rw [if_neg hwired]
    by_cases hskip : s.isPreviousActive schedule m ∧ schedule.onOverlap = .skip
    · rw [if_pos hskip]
      exact hclaim.trans (frame_update _ _ fun _ ↦ rfl)
    · rw [if_neg hskip]
      by_cases hsleep : 0 < pickJitterMs schedule.jitterSec m.draw
      · rw [if_pos hsleep]
        exact ⟨hstop.running, hstop.cache, hstop.settings, hstop.claims⟩
      · rw [if_neg hsleep]
        exact hstop.trans (frame_dispatch _ _ _)

theorem frame_fireDue (p : String × Nat) (meeting : String → Meeting) :
    Frame s (s.fireDue p meeting) := by
  rw [fireDue]
  split
  · exact Frame.refl s
  · split_ifs
    · exact frame_fireOnce s _ _ _ _ _
    · exact Frame.refl s

end

theorem frame_fireAll (meeting : String → Meeting) (due : List (String × Nat)) (s : ScheduleRunner) :
    Frame s (due.foldl (fun s p ↦ s.fireDue p meeting) s) := by
  induction due generalizing s with
  | nil => exact Frame.refl s
  | cons p due ih => exact (frame_fireDue s p meeting).trans (ih _)

theorem frame_recordMissed (s : ScheduleRunner) (schedule : ScheduleRow) (now first : Nat) :
    Frame s (s.recordMissed schedule now first) :=
  (frame_claim s _).trans (frame_update _ _ fun _ ↦ rfl)

/-- The catch-up comes to its end, and then arms the timer, or it awaits a fire. -/
theorem catchUp_cases (now : Nat) (meeting : String → Meeting) (rest : List ScheduleRow)
    (s : ScheduleRunner) :
    (firedRow cron now rest = none ∧ ∃ r, Frame s r ∧
      s.catchUp cron now meeting rest = (r.recomputeCache cron).armTimer) ∨
    ((firedRow cron now rest).isSome ∧ Frame s (s.catchUp cron now meeting rest)) := by
  induction rest generalizing s with
  | nil => exact .inl ⟨rfl, s, Frame.refl s, rfl⟩
  | cons schedule rest ih =>
    rw [catchUp, firedRow]
    cases hlast : schedule.lastFiredAt with
    | none => exact ih s
    | some last =>
      simp only
      cases hmissed : cron.occurrencesBetween schedule.cron schedule.timezone (last * 1000) now with
      | error err => exact ih s
      | ok missed =>
        simp only
        by_cases hzero : missed = 0
        · rw [if_pos hzero, if_pos hzero]
          exact ih s
        · rw [if_neg hzero, if_neg hzero]
          cases hcatch : schedule.catchUp with
          | skip =>
            have hrecord := frame_recordMissed s schedule now (last + 1)
            rcases ih (s.recordMissed schedule now (last + 1)) with ⟨huse, r, hr, heq⟩ | ⟨huse, hframe⟩
            · exact .inl ⟨huse, r, hrecord.trans hr, heq⟩
            · exact .inr ⟨huse, hrecord.trans hframe⟩
          | once =>
            have hfired := frame_fireOnce s schedule now (last + 1) true (meeting schedule.id)
            exact .inr ⟨rfl, hfired.running, hfired.cache, hfired.settings, hfired.claims⟩

/-! ## The fires of a wake -/

/-- What a fire of the cache finds when it is dispatched: an enabled schedule, and an agent dispatcher if
it needs one. -/
def Fires (s : ScheduleRunner) (meeting : String → Meeting) (p : String × Nat) : Prop :=
  ∃ k, (s.row? p.1).map (·.toSchedule) = some k ∧ k.enabled = true ∧
    (k.target = .agent → (meeting p.1).wired)

theorem claimedBy_fireDue {meeting : String → Meeting} {p : String × Nat} (h : s.Fires meeting p) :
    ∃ schedule, s.row? p.1 = some schedule ∧
      ClaimedBy s (s.fireDue p meeting) (s.fireOf schedule (p.2 * 1000) p.2 false) := by
  obtain ⟨k, hk, henabled, hwired⟩ := h
  obtain ⟨schedule, hrow, rfl⟩ := map_eq_some_iff.mp hk
  refine ⟨schedule, hrow, ?_⟩
  rw [fireDue, hrow]
  simp only [henabled, if_true]
  exact claimedBy_fireOnce _ _ _ fun h ↦ h.2 (hwired h.1)

theorem fireAll_of_notMem {k : String} (meeting : String → Meeting) (due : List (String × Nat))
    (s : ScheduleRunner) (hk : k ∉ due.map (·.1)) :
    (due.foldl (fun s p ↦ s.fireDue p meeting) s).lastFired k = s.lastFired k := by
  induction due generalizing s with
  | nil => rfl
  | cons p due ih =>
    rw [map_cons, mem_cons, not_or] at hk
    rw [foldl_cons, ih _ hk.2, fireDue_of_ne meeting hk.1]

/-- The fires of a wake claim exactly what is due. -/
theorem claims_fireAll (meeting : String → Meeting) (due : List (String × Nat)) (s : ScheduleRunner)
    (hfires : ∀ p ∈ due, s.Fires meeting p) (hnodup : (due.map (·.1)).Nodup) :
    (∃ fires : List Fire, (due.foldl (fun s p ↦ s.fireDue p meeting) s).claims = s.claims ++ fires ∧
        fires.map (fun f ↦ (f.schedule.id, f.dueAt)) = due.map fun p ↦ (p.1, p.2 * 1000)) ∧
    ∀ p ∈ due, (due.foldl (fun s p ↦ s.fireDue p meeting) s).lastFired p.1 = some p.2 := by
  induction due generalizing s with
  | nil => exact ⟨⟨[], (append_nil _).symm, rfl⟩, by simp⟩
  | cons p due ih =>
    obtain ⟨hnot, hnodup⟩ := nodup_cons.mp hnodup
    obtain ⟨schedule, hrow, hclaimed⟩ := claimedBy_fireDue (hfires p (.head _))
    have hid := row?_id hrow
    have hframe := frame_fireDue s p meeting
    obtain ⟨⟨fires, hfires', hmap⟩, hlast⟩ := ih (s.fireDue p meeting) (fun q hq ↦ by
      obtain ⟨k, hk, hready⟩ := hfires q (.tail _ hq)
      exact ⟨k, (hframe.row? q.1).trans hk, hready⟩) hnodup
    refine ⟨⟨s.fireOf schedule (p.2 * 1000) p.2 false :: fires, ?_, ?_⟩, fun q hq ↦ ?_⟩
    · rw [foldl_cons, hfires', hclaimed.claims, append_assoc]
      rfl
    · rw [map_cons, map_cons, hmap]
      exact congrArg (fun k ↦ (k, p.2 * 1000) :: _) hid
    · rcases mem_cons.mp hq with rfl | hq
      · have hclaim : (s.claim (s.fireOf schedule (q.2 * 1000) q.2 false)).lastFired
            (s.fireOf schedule (q.2 * 1000) q.2 false).schedule.id = _ := lastFired_claim (hid ▸ hrow)
        rw [foldl_cons, fireAll_of_notMem meeting due _ hnot, hclaimed.lastFired]
        rw [show (s.fireOf schedule (q.2 * 1000) q.2 false).schedule.id = q.1 from hid] at hclaim
        exact hclaim.trans (congrArg some (Nat.mul_div_cancel _ (by decide)))
      · exact hlast q hq

/-- What the cache holds for a schedule comes after the fire that the schedule has claimed last. -/
theorem lt_of_mem_cache (hcron : cron.IsForward) (hwhole : cron.IsWhole) (hids : s.ids.Nodup)
    {q : String × Nat} {last : Nat} (hq : q ∈ (s.recomputeCache cron).nextFireCache)
    (hlast : s.lastFired q.1 = some last) : last < q.2 := by
  rw [cache_recompute] at hq
  obtain ⟨row, hrow, hmap⟩ := mem_filterMap.mp hq
  obtain ⟨next, hnext, rfl⟩ := map_eq_some_iff.mp hmap
  have hread : row.lastFiredAt = some last := by
    rw [lastFired, row?_of_mem hids (mem_of_mem_filter hrow)] at hlast
    exact hlast
  rw [computeNext, hread, getD_some] at hnext
  cases hfire : cron.nextFire row.cron row.timezone (last * 1000) with
  | error err => simp [hfire] at hnext
  | ok found =>
    cases found with
    | none => simp [hfire] at hnext
    | some found =>
      obtain rfl : found = next := by simpa [hfire] using hnext
      exact hcron.lt_of_nextFire hwhole hfire

/-- What the cache holds belongs to enabled schedules. -/
theorem enabled_of_mem_cache (hids : s.ids.Nodup) {p : String × Nat}
    (hp : p ∈ (s.recomputeCache cron).nextFireCache) :
    ∃ k, (s.row? p.1).map (·.toSchedule) = some k ∧ k.enabled = true := by
  rw [cache_recompute] at hp
  obtain ⟨row, hrow, hnext⟩ := mem_filterMap.mp hp
  obtain ⟨next, -, rfl⟩ := map_eq_some_iff.mp hnext
  obtain ⟨hmem, henabled⟩ := mem_filter.mp hrow
  refine ⟨row.toSchedule, ?_, henabled⟩
  rw [row?_of_mem hids hmem]
  rfl

end ScheduleRunner

/-! ## Every run -/

namespace TimedRunner

open ScheduleRunner

variable {cron : Croner} {s t u : TimedRunner} {e : TimedEvent} {es fs : List TimedEvent}
  {r : ScheduleRunner}

/-- The event ends with `recomputeCache` and `armTimer`. -/
def Arms (cron : Croner) (s r : ScheduleRunner) : Prop :=
  ∃ r' : ScheduleRunner, r = (r'.recomputeCache cron).armTimer ∧ (s.ids.Nodup → r'.ids.Nodup) ∧
    s.claims <+: r'.claims

theorem arms_of_frame {s r' : ScheduleRunner} (h : Frame s r') :
    Arms cron s (r'.recomputeCache cron).armTimer :=
  ⟨r', rfl, fun hids ↦ h.ids ▸ hids, h.claims⟩

theorem catchUp_uses {s start : ScheduleRunner} (hstart : Frame s start) (now : Nat)
    (meeting : String → Meeting) (rest : List ScheduleRow) :
    (catchUpUse cron now rest = .keeps ∧ Frame s (start.catchUp cron now meeting rest)) ∨
      (catchUpUse cron now rest = .arms ∧ Arms cron s (start.catchUp cron now meeting rest)) := by
  rw [catchUpUse]
  rcases catchUp_cases now meeting rest start with ⟨hend, r', hframe, heq⟩ | ⟨hawaits, hframe⟩
  · rw [hend, heq]
    exact .inr ⟨rfl, arms_of_frame (hstart.trans hframe)⟩
  · rw [isNone_eq_false_iff.mpr hawaits]
    exact .inl ⟨rfl, hstart.trans hframe⟩

/-- A wake of a runner that runs fires what is due and arms the timer. -/
theorem wake_eq {s : ScheduleRunner} (hrun : s.running = true) (meeting : String → Meeting) :
    s.wake cron meeting =
      ((s.due.foldl (fun s p ↦ s.fireDue p meeting) s).recomputeCache cron).armTimer :=
  if_pos hrun

/-- What an event makes of the runner, by what it does with the precise timer. -/
theorem next_cases (hwaits : s.Waits) (h : s.next cron e = some r) :
    (s.timerUse cron e = .keeps ∧ Frame s.runner r) ∨
    (s.timerUse cron e = .clears ∧ r.rows = s.runner.rows ∧ r.claims = s.runner.claims ∧
      r.nextFireCache.Sublist s.runner.nextFireCache) ∨
    (s.timerUse cron e = .arms ∧ Arms cron s.runner r) := by
  cases e with
  | mutate rows keyed =>
    cases h
    exact .inr (.inr ⟨rfl, _, rfl, fun _ ↦ keyed, prefix_rfl⟩)
  | runner e =>
    cases e with
    | advance ms =>
      cases h
      exact .inl ⟨rfl, id, rfl, rfl, prefix_rfl⟩
    | start meeting =>
      cases h
      rw [TimedRunner.timerUse, ScheduleRunner.timerUse, ScheduleRunner.start]
      by_cases hrun : s.runner.running = true
      · rw [if_pos hrun, if_pos hrun]
        exact .inl ⟨rfl, Frame.refl _⟩
      · rw [if_neg hrun, if_neg hrun]
        have hstart : Frame s.runner { s.runner with running := true } :=
          ⟨fun _ ↦ rfl, rfl, rfl, prefix_rfl⟩
        rcases catchUp_uses hstart s.runner.clock meeting _ with hkeeps | harms
        · exact .inl hkeeps
        · exact .inr (.inr harms)
    | stop =>
      cases h
      exact .inr (.inl ⟨rfl, rfl, rfl, List.Sublist.refl _⟩)
    | reload =>
      cases h
      exact .inr (.inr ⟨rfl, arms_of_frame (Frame.refl _)⟩)
    | wake meeting =>
      obtain ⟨hfires, ⟨⟩⟩ := ite_none_right_eq_some.mp h
      obtain ⟨fires, hfires, -⟩ := (any_eq_true _ _).mp hfires
      rw [wake_eq (hwaits fires hfires).1]
      exact .inr (.inr ⟨rfl, arms_of_frame (frame_fireAll meeting _ _)⟩)
    | tick meeting =>
      have h : s.runner.step cron (.tick meeting) = some r := h
      obtain ⟨hrun, ⟨⟩⟩ := ite_none_right_eq_some.mp h
      rw [wake_eq hrun]
      exact .inr (.inr ⟨rfl, arms_of_frame (frame_fireAll meeting _ _)⟩)
    | resume k meeting =>
      obtain ⟨p, hp, rfl⟩ := map_eq_some_iff.mp h
      rw [TimedRunner.timerUse, ScheduleRunner.timerUse, hp]
      have hstart : Frame s.runner { s.runner with passes := s.runner.passes.erase p } :=
        ⟨id, rfl, rfl, prefix_rfl⟩
      rcases catchUp_uses hstart p.now meeting p.rest with hkeeps | harms
      · exact .inl hkeeps
      · exact .inr (.inr harms)
    | woken k creation =>
      obtain ⟨f, -, rfl⟩ := map_eq_some_iff.mp h
      have hwoken : Frame s.runner { s.runner with sleeping := s.runner.sleeping.erase f } :=
        ⟨id, rfl, rfl, prefix_rfl⟩
      exact .inl ⟨rfl, hwoken.trans (frame_dispatch _ _ _)⟩
    | progress k members =>
      have h : s.runner.step cron (.progress k members) = some r := h
      obtain ⟨-, ⟨⟩⟩ := ite_none_right_eq_some.mp h
      exact .inl ⟨rfl, id, rfl, rfl, prefix_rfl⟩
    | restart =>
      cases h
      exact .inr (.inl ⟨rfl, rfl, rfl, nil_sublist _⟩)

/-- What every event keeps that arms no timer too far ahead. -/
structure Good (s : TimedRunner) : Prop where
  waits : s.Waits
  enabled : ∀ p ∈ s.runner.nextFireCache,
    ∃ k, (s.runner.row? p.1).map (·.toSchedule) = some k ∧ k.enabled = true
  keys : (s.runner.nextFireCache.map (·.1)).Nodup
  ids : s.runner.ids.Nodup

theorem good_new (clock : Nat) (table : ScheduleTable) : Good (new clock table) := by
  refine ⟨?_, ?_, ?_, ids_new clock table⟩ <;> simp [Waits, new, ScheduleRunner.new]

theorem Good.keeps (hg : Good s) (h : Frame s.runner r) : Good ⟨r, s.firesAt⟩ := by
  refine ⟨fun fires hfires ↦ ?_, fun p hp ↦ ?_, h.cache ▸ hg.keys, h.ids ▸ hg.ids⟩
  · obtain ⟨hrun, earliest, hearliest, hle⟩ := hg.waits fires hfires
    refine ⟨h.running hrun, earliest, ?_, hle⟩
    rw [earliest?, h.cache]
    exact hearliest
  · rw [h.row?]
    exact hg.enabled p (h.cache ▸ hp)

theorem Good.clears (hg : Good s) (hrows : r.rows = s.runner.rows)
    (hcache : r.nextFireCache.Sublist s.runner.nextFireCache) : Good ⟨r, none⟩ := by
  refine ⟨by simp [Waits], fun p hp ↦ ?_, hg.keys.sublist (hcache.map _), ?_⟩
  · rw [row?, hrows]
    exact hg.enabled p (hcache.subset hp)
  · rw [ScheduleRunner.ids, hrows]
    exact hg.ids

/-- A timer that is armed with what it can wait waits for the earliest next fire. -/
theorem good_arms (r' : ScheduleRunner) (hids : r'.ids.Nodup)
    (hnear : (r'.recomputeCache cron).armTimer.Near cron) :
    Good ⟨(r'.recomputeCache cron).armTimer,
      (r'.recomputeCache cron).armTimer.delayMs.map fun delay ↦ r'.clock + timeoutWait delay⟩ := by
  refine ⟨fun fires hfires ↦ ?_, fun p hp ↦ enabled_of_mem_cache hids hp,
    hids.sublist (cache_sublist r'), hids⟩
  obtain ⟨delay, hdelay, rfl⟩ := map_eq_some_iff.mp hfires
  have hdelay : (r'.recomputeCache cron).delayMs = some delay := hdelay
  have hwaits := (waitsOut_iff_near cron r').mpr (fun _ ↦ hnear) delay hdelay
  rw [delayMs] at hdelay
  split_ifs at hdelay with hrun
  obtain ⟨earliest, hearliest, rfl⟩ := map_eq_some_iff.mp hdelay
  refine ⟨hrun, earliest, hearliest, ?_⟩
  rw [timeoutWait_of_le hwaits.bounded]
  show earliest * 1000 ≤ r'.clock + (earliest * 1000 - r'.clock)
  omega

theorem Good.step (hg : Good s) (h : s.step cron e = some t) (hquiet : s.Quiet cron e) : Good t := by
  obtain ⟨r, hr, rfl⟩ := map_eq_some_iff.mp h
  rcases next_cases hg.waits hr with ⟨huse, hframe⟩ | ⟨huse, hrows, -, hcache⟩ |
    ⟨huse, r', rfl, hids, -⟩
  · rw [huse]
    exact hg.keeps hframe
  · rw [huse]
    exact hg.clears hrows hcache
  · have hnear := hquiet.1 _ hr huse
    rw [huse]
    exact good_arms r' (hids hg.ids) hnear

theorem good_of_quiet (h : Steps.Guarded (Steps.By (step cron)) (Quiet cron) s es t) (hg : Good s) :
    Good t :=
  Steps.invariant_of_guarded h hg fun _ _ _ hi he hq ↦ hi.step he hq

/-- No event loses a claim. -/
theorem claims_step (hwaits : s.Waits) (h : s.step cron e = some t) :
    s.runner.claims <+: t.runner.claims := by
  obtain ⟨r, hr, rfl⟩ := map_eq_some_iff.mp h
  rcases next_cases hwaits hr with ⟨-, hframe⟩ | ⟨-, -, hclaims, -⟩ | ⟨-, r', rfl, -, hclaims⟩
  · exact hframe.claims
  · exact hclaims ▸ prefix_rfl
  · exact hclaims

/-- A wake of the precise timer serves what is due. -/
theorem Good.serves (hg : Good s) (hcron : cron.IsForward) (hwhole : cron.IsWhole)
    {meeting : String → Meeting} (hwired : Wired s.runner meeting)
    (h : s.step cron (.runner (.wake meeting)) = some t) : Serves s t := by
  obtain ⟨r, hr, rfl⟩ := map_eq_some_iff.mp h
  obtain ⟨hany, ⟨⟩⟩ := ite_none_right_eq_some.mp hr
  obtain ⟨fires, hfires, hnow⟩ := (any_eq_true _ _).mp hany
  have hnow : fires ≤ s.runner.clock := of_decide_eq_true hnow
  obtain ⟨hrun, earliest, hearliest, hle⟩ := hg.waits fires hfires
  have hready : ∀ p ∈ s.runner.due, s.runner.Fires meeting p := by
    intro p hp
    obtain ⟨k, hk, henabled⟩ := hg.enabled p (mem_of_mem_filter hp)
    obtain ⟨schedule, hrow, rfl⟩ := map_eq_some_iff.mp hk
    exact ⟨_, hk, henabled, hwired p hp schedule hrow⟩
  have hkeys : (s.runner.due.map (·.1)).Nodup := hg.keys.sublist (filter_sublist.map _)
  obtain ⟨hclaims, hlast⟩ := claims_fireAll meeting s.runner.due s.runner hready hkeys
  have hframe := frame_fireAll meeting s.runner.due s.runner
  refine ⟨?_, ?_, fun p hp q hq hsame ↦ ?_⟩
  · -- The timer has waited for the earliest fire, which is due then.
    obtain ⟨p, hp, rfl⟩ := mem_map.mp (min?_mem hearliest)
    refine ne_nil_of_mem (mem_filter.mpr ⟨hp, ?_⟩)
    rw [decide_eq_true_iff, Nat.le_div_iff_mul_le (by decide)]
    exact Nat.le_trans hle hnow
  · rw [wake_eq hrun]
    exact hclaims
  · rw [wake_eq hrun] at hq
    exact lt_of_mem_cache hcron hwhole (hframe.ids ▸ hg.ids) hq (hsame ▸ hlast p hp)

/-- The timer does not fire more often than something is claimed. -/
theorem wakes_le_claims (hcron : cron.IsForward) (hwhole : cron.IsWhole) (hg : Good s)
    (h : Steps.Guarded (Steps.By (step cron)) (Quiet cron) s es t) :
    wakes es + s.runner.claims.length ≤ t.runner.claims.length := by
  induction h with
  | nil => simp [wakes]
  | @snoc es t u e hrun he ih =>
    have ht := good_of_quiet hrun hg
    have hle := (claims_step ht.waits he.1).length_le
    have hcount : wakes (es ++ [e]) = wakes es + wakes [e] := countP_append
    suffices hlast : wakes [e] + t.runner.claims.length ≤ u.runner.claims.length by omega
    cases hwake : e.isWake with
    | false => simpa [wakes, hwake] using hle
    | true =>
      obtain ⟨meeting, rfl⟩ : ∃ meeting, e = .runner (.wake meeting) := by
        unfold TimedEvent.isWake at hwake
        split at hwake
        · exact ⟨_, rfl⟩
        · cases hwake
      have hserves := ht.serves hcron hwhole he.2.2 he.1
      obtain ⟨fires, hclaims, hmap⟩ := hserves.claims
      have hlength : fires.length = t.runner.due.length := by
        simpa using congrArg List.length hmap
      have hpos := length_pos_iff.mpr hserves.due
      rw [hclaims, length_append]
      simp only [wakes, countP_singleton, hwake, if_true]
      omega

/-- **No spin.**  A timer waits for the earliest next fire, or for the longest delay, if and only if that
fire is not farther away than a timer can wait.  In every run in which each timer is armed so, and each
wake of the timer finds the agent dispatchers that it needs, the armed timer waits for the earliest next
fire; a wake of the timer claims exactly what is due, of which there is something, and moves each of these
schedules on; and from there on it wakes at most as often as something is claimed. -/
theorem wakes_quietly {clock : Nat} {table : ScheduleTable} (hcron : cron.IsForward)
    (hwhole : cron.IsWhole)
    (h : Steps.Guarded (Steps.By (step cron)) (Quiet cron) (new clock table) es t) :
    (∀ s : ScheduleRunner,
      (∀ delay ∈ (s.recomputeCache cron).delayMs, (s.recomputeCache cron).WaitsOut delay) ↔
        (s.running = true → s.Near cron)) ∧
    t.Waits ∧
    (∀ meeting u, Wired t.runner meeting → t.step cron (.runner (.wake meeting)) = some u → Serves t u) ∧
    ∀ fs u, Steps.Guarded (Steps.By (step cron)) (Quiet cron) t fs u →
      wakes fs + t.runner.claims.length ≤ u.runner.claims.length := by
  have hg := good_of_quiet h (good_new clock table)
  exact ⟨waitsOut_iff_near cron, hg.waits, fun _ _ hwired hwake ↦ hg.serves hcron hwhole hwired hwake,
    fun _ _ hrun ↦ wakes_le_claims hcron hwhole hg hrun⟩

/-- Two minutes of a schedule that fires every minute. -/
theorem wakes_quietly_minutely : ∃ t,
    Steps.Guarded (Steps.By (step .everyMinute)) (Quiet .everyMinute)
      (new 0 ⟨[(minutely "a" 0, none)], by decide⟩)
      [.runner (.start fun _ ↦ oneMember 0), .runner (.advance 60000),
        .runner (.wake fun _ ↦ oneMember 0)] t ∧
    ∀ fs u, Steps.Guarded (Steps.By (step .everyMinute)) (Quiet .everyMinute) t fs u →
      wakes fs + t.runner.claims.length ≤ u.runner.claims.length := by
  have hrun : Steps.Guarded (Steps.By (step .everyMinute)) (Quiet .everyMinute)
      (new 0 ⟨[(minutely "a" 0, none)], by decide⟩)
      [.runner (.start fun _ ↦ oneMember 0), .runner (.advance 60000),
        .runner (.wake fun _ ↦ oneMember 0)] _ := Steps.guarded_by_iff.mpr rfl
  exact ⟨_, hrun, (wakes_quietly Croner.everyMinute_isForward Croner.everyMinute_isWhole hrun).2.2.2⟩

/-- A schedule that fires at New Year. -/
def yearly : Schedule := ⟨"a", "0 0 1 1 *", "UTC", true, .skip, .queue, 0, .script, 0⟩

/-- A runner that has been started at the beginning of 1970. -/
def yearlyStarted : TimedRunner :=
  ⟨{ ScheduleRunner.new 0 ⟨[(yearly, none)], by decide⟩ with
      running := true, wakeTimer := some 31536000000, nextFireCache := [("a", 31536000)] }, some 0⟩

theorem wake_yearlyStarted : yearlyStarted.step .everyNewYear (.runner (.wake fun _ ↦ oneMember 0)) =
    some yearlyStarted := by
  decide +kernel

/-- One schedule that fires at New Year.  Its timer is armed for a year, the platform fires it at once, and
each wake finds nothing due and arms it again. -/
theorem wakes_not_quietly_sparse : ¬ ∀ (cron : Croner) (clock : Nat) (table : ScheduleTable)
    (es : List TimedEvent) (t : TimedRunner), cron.IsForward → cron.IsWhole →
      Steps (Steps.By (step cron)) (new clock table) es t →
      (∀ delay ∈ t.runner.delayMs, delay ≤ maxTimerDelay) ∨
      ∃ bound, ∀ fs u, Steps (Steps.By (step cron)) t fs u → u.runner.claims = t.runner.claims →
        u.runner.clock = t.runner.clock → wakes fs ≤ bound := by
  intro hall
  have hstart : Steps (Steps.By (step .everyNewYear)) (new 0 ⟨[(yearly, none)], by decide⟩)
      [.runner (.start fun _ ↦ oneMember 0)] yearlyStarted :=
    Steps.steps_by_iff.mpr (by decide +kernel)
  rcases hall .everyNewYear 0 ⟨[(yearly, none)], by decide⟩ _ _ Croner.everyNewYear_isForward
    Croner.everyNewYear_isWhole hstart with hdelay | ⟨bound, hbound⟩
  · exact absurd (hdelay 31536000000 (by decide +kernel)) (by decide)
  · have hspin : ∀ n, Steps (Steps.By (step .everyNewYear)) yearlyStarted
        (List.replicate n (.runner (.wake fun _ ↦ oneMember 0))) yearlyStarted := by
      intro n
      induction n with
      | zero => exact Steps.nil
      | succ n ih => exact Steps.cons wake_yearlyStarted ih
    have hle := hbound _ _ (hspin (bound + 1)) rfl rfl
    rw [wakes, countP_replicate] at hle
    exact absurd hle (by simp [TimedEvent.isWake])

end TimedRunner

end Enkaku.Schedules
