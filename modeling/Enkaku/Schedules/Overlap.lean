import Enkaku.Schedules.Occurrences

/-!
# A schedule that skips does not run over itself

`fireOnce` tests the batch that the row it was given names, sleeps its jitter, and creates its own batch.
As long as that test still stands when the batch is created (`Stands`), only the newest batch of a
schedule that skips can be active (`Apart.newest`), and none is created beside an active one
(`never_beside_active`).
-/

set_option autoImplicit false

namespace Enkaku.Schedules.ScheduleRunner

open List

/-- The batch that the row with this id names. -/
def batchIdOf (s : ScheduleRunner) (id : String) : Option Nat := (s.row? id).bind (·.batchId)

/-- The overlap test that was made of this row still stands: its schedule names the same batch, or one
that is over. -/
def Stands (s : ScheduleRunner) (schedule : ScheduleRow) : Prop :=
  s.batchIdOf schedule.id = schedule.batchId ∨ s.isBatchActive (s.batchIdOf schedule.id) = false

instance (s : ScheduleRunner) (schedule : ScheduleRow) : Decidable (s.Stands schedule) := by
  unfold Stands
  infer_instance

/-- The row that a catch-up fires before it awaits again. -/
def firedRow (cron : Croner) (now : Nat) : List ScheduleRow → Option ScheduleRow
  | [] => none
  | schedule :: rest =>
    match schedule.lastFiredAt with
    | none => firedRow cron now rest
    | some last =>
      match cron.occurrencesBetween schedule.cron schedule.timezone (last * 1000) now with
      | .error _ => firedRow cron now rest
      | .ok missed =>
        if missed = 0 then firedRow cron now rest
        else
          match schedule.catchUp with
          | .skip => firedRow cron now rest
          | .once => some schedule

/-- A batch is created on an overlap test that still stands. -/
def OnStandingTest (cron : Croner) (s : ScheduleRunner) : Event → Prop
  | .woken id (.created _) => ∀ f ∈ s.sleeper? id, s.Stands f.schedule
  | .resume id meeting => ∀ p ∈ s.pass? id, ∀ schedule ∈ firedRow cron p.now p.rest,
      pickJitterMs schedule.jitterSec (meeting schedule.id).draw = 0 → s.Stands schedule
  | _ => True

instance (cron : Croner) (s : ScheduleRunner) : ∀ e, Decidable (OnStandingTest cron s e)
  | .woken id (.created _) => inferInstanceAs (Decidable (∀ f ∈ s.sleeper? id, s.Stands f.schedule))
  | .resume id meeting => inferInstanceAs (Decidable (∀ p ∈ s.pass? id,
      ∀ schedule ∈ firedRow cron p.now p.rest,
        pickJitterMs schedule.jitterSec (meeting schedule.id).draw = 0 → s.Stands schedule))
  | .woken _ (.failed _) | .advance .. | .start .. | .stop | .reload | .wake .. | .tick ..
  | .progress .. | .restart => isTrue trivial

/-! ## What does not touch a schedule -/

variable {cron : Croner} {k : Schedule} {s t u : ScheduleRunner} {e : Event} {es : List Event}
  {fire : Fire} {id : String} {f : ScheduleRow → ScheduleRow}

/-- Nothing of this schedule is fired or created, and no batch becomes active again. -/
structure Calm (k : Schedule) (s t : ScheduleRunner) : Prop where
  row : (t.row? k.id).map (·.toSchedule) = (s.row? k.id).map (·.toSchedule)
  batchId : t.batchIdOf k.id = s.batchIdOf k.id
  nextId : s.nextId ≤ t.nextId
  active : ∀ b ∈ t.batches, b.isActive →
    (∃ b' ∈ s.batches, b'.id = b.id ∧ b'.schedule = b.schedule ∧ b'.isActive) ∨
      (b.schedule ≠ k.id ∧ s.nextId ≤ b.id)
  sleeping : ∀ f ∈ t.sleeping, f.schedule.id = k.id → f ∈ s.sleeping
  passes : ∀ p ∈ t.passes, p ∈ s.passes
  ids : t.ids = s.ids
  dispatched : ∀ d ∈ t.dispatched, d.fire.schedule.id = k.id → d ∈ s.dispatched

theorem calm_of_eq (hrows : t.rows = s.rows) (hnext : s.nextId ≤ t.nextId)
    (hbatches : t.batches = s.batches) (hsleeping : ∀ f ∈ t.sleeping, f.schedule.id = k.id → f ∈ s.sleeping)
    (hpasses : ∀ p ∈ t.passes, p ∈ s.passes)
    (hdispatched : ∀ d ∈ t.dispatched, d.fire.schedule.id = k.id → d ∈ s.dispatched) : Calm k s t := by
  refine ⟨?_, ?_, hnext, fun b hb hactive ↦ .inl ⟨b, hbatches ▸ hb, rfl, rfl, hactive⟩, hsleeping, hpasses,
    ?_, hdispatched⟩
  · rw [row?, hrows, row?]
  · rw [batchIdOf, row?, hrows, batchIdOf, row?]
  · rw [ids, hrows, ids]

/-- Neither the rows, the batches nor the fires change. -/
theorem calm_of_same (hrows : t.rows = s.rows) (hnext : s.nextId ≤ t.nextId)
    (hbatches : t.batches = s.batches) (hsleeping : t.sleeping = s.sleeping)
    (hpasses : t.passes = s.passes) (hdispatched : t.dispatched = s.dispatched) : Calm k s t :=
  calm_of_eq hrows hnext hbatches (fun _ h _ ↦ hsleeping ▸ h) (fun _ h ↦ hpasses ▸ h)
    fun _ h _ ↦ hdispatched ▸ h

theorem Calm.refl (k : Schedule) (s : ScheduleRunner) : Calm k s s :=
  calm_of_same rfl (le_rfl) rfl rfl rfl rfl

theorem Calm.trans (h : Calm k s t) (h' : Calm k t u) : Calm k s u := by
  refine ⟨h'.row.trans h.row, h'.batchId.trans h.batchId, Nat.le_trans h.nextId h'.nextId,
    fun b hb hactive ↦ ?_, fun f hf hid ↦ h.sleeping f (h'.sleeping f hf hid) hid,
    fun p hp ↦ h.passes p (h'.passes p hp), h'.ids.trans h.ids,
    fun d hd hid ↦ h.dispatched d (h'.dispatched d hd hid) hid⟩
  rcases h'.active b hb hactive with ⟨b', hb', hid, hschedule, hactive'⟩ | ⟨hne, hle⟩
  · rcases h.active b' hb' hactive' with ⟨b'', hb'', hid', hschedule', hactive''⟩ | ⟨hne, hle⟩
    · exact .inl ⟨b'', hb'', hid'.trans hid, hschedule'.trans hschedule, hactive''⟩
    · exact .inr ⟨hschedule ▸ hne, hid ▸ hle⟩
  · exact .inr ⟨hne, Nat.le_trans h.nextId hle⟩

section

variable (s : ScheduleRunner)

/-- A write to a row that keeps what the operator set, and the batch of this schedule. -/
theorem calm_update (hf : ∀ row, (f row).toSchedule = row.toSchedule)
    (hbatch : id = k.id → ∀ row, (f row).batchId = row.batchId) : Calm k s (s.update id f) := by
  have hid : ∀ row, (f row).id = row.id := fun row ↦ congrArg Schedule.id (hf row)
  refine ⟨?_, ?_, le_rfl, fun b hb hactive ↦ .inl ⟨b, hb, rfl, rfl, hactive⟩, fun _ h _ ↦ h,
    fun _ h ↦ h, ids_update hid, fun _ h _ ↦ h⟩
  · rw [row?_update hid]
    split_ifs
    · cases s.row? k.id <;> simp [hf]
    · rfl
  · rw [batchIdOf, row?_update hid, batchIdOf]
    split_ifs with heq
    · cases s.row? k.id <;> simp [hbatch heq.symm]
    · rfl

theorem calm_claim (fire : Fire) : Calm k s (s.claim fire) := by
  have hfired : Calm k s
      (s.update fire.schedule.id fun row ↦ { row with lastFiredAt := some (fire.dueAt / 1000) }) :=
    calm_update s (fun _ ↦ rfl) fun _ _ ↦ rfl
  refine hfired.trans ?_
  exact calm_of_same rfl (Nat.le_succ _) rfl rfl rfl rfl

theorem calm_setMembers (id : Nat) (members : List RunStatus) : Calm k s (s.setMembers id members) := by
  refine ⟨rfl, rfl, le_rfl, fun b hb hactive ↦ ?_, fun _ h _ ↦ h, fun _ h ↦ h, rfl, fun _ h _ ↦ h⟩
  obtain ⟨b', hb', rfl⟩ := mem_map.mp hb
  by_cases hset : b'.id = id ∧ b'.isActive
  · rw [if_pos hset]
    exact .inl ⟨b', hb', rfl, rfl, hset.2⟩
  · rw [if_neg hset] at hactive ⊢
    exact .inl ⟨b', hb', rfl, rfl, hactive⟩

theorem calm_stopPrevious (schedule : ScheduleRow) (active : Bool) (m : Meeting) :
    Calm k s (s.stopPrevious schedule active m) := by
  rw [stopPrevious]
  split
  · exact Calm.refl k s
  · split_ifs
    · exact calm_setMembers s _ _
    · exact Calm.refl k s

theorem calm_failed (fire : Fire) (outcome : ScheduleRunOutcome) :
    Calm k s (s.dispatch fire (.failed outcome)) :=
  calm_update s (fun _ ↦ rfl) fun _ _ ↦ rfl

theorem calm_log (entry : Dispatched) (hne : entry.fire.schedule.id ≠ k.id) :
    Calm k s { s with dispatched := s.dispatched ++ [entry] } := by
  refine calm_of_eq rfl (le_rfl) rfl (fun _ h _ ↦ h) (fun _ h ↦ h) fun d hd hid ↦ ?_
  rcases mem_append.mp hd with hd | hd
  · exact hd
  · rw [mem_singleton.mp hd] at hid
    exact absurd hid hne

theorem calm_batch (batch : ScheduleBatch) (hid : batch.id = s.nextId) (hne : batch.schedule ≠ k.id) :
    Calm k s { s with batches := s.batches ++ [batch], nextId := s.nextId + 1 } := by
  refine ⟨rfl, rfl, Nat.le_succ _, fun b hb hactive ↦ ?_, fun _ h _ ↦ h, fun _ h ↦ h, rfl, fun _ h _ ↦ h⟩
  rcases mem_append.mp hb with hb | hb
  · exact .inl ⟨b, hb, rfl, rfl, hactive⟩
  · rw [mem_singleton.mp hb]
    exact .inr ⟨hne, Nat.le_of_eq hid.symm⟩

theorem calm_sleep (fire : Fire) (hne : fire.schedule.id ≠ k.id) :
    Calm k s { s with sleeping := s.sleeping ++ [fire] } := by
  refine calm_of_eq rfl (le_rfl) rfl (fun g hg hid ↦ ?_) (fun _ h ↦ h) fun _ h _ ↦ h
  rcases mem_append.mp hg with hg | hg
  · exact hg
  · rw [mem_singleton.mp hg] at hid
    exact absurd hid hne

end

/-- The fire of another schedule. -/
theorem calm_dispatch (hne : fire.schedule.id ≠ k.id) (creation : Creation) :
    Calm k s (s.dispatch fire creation) := by
  cases creation with
  | failed outcome => exact calm_failed s fire outcome
  | created members =>
    rw [ScheduleRunner.dispatch]
    split_ifs
    · refine (calm_log s _ ?_).trans (calm_update _ ?_ ?_)
      · exact hne
      · exact fun _ ↦ rfl
      · exact fun _ _ ↦ rfl
    · refine (calm_log s _ ?_).trans (Calm.trans (calm_update _ ?_ ?_) (calm_batch _ _ ?_ ?_))
      · exact hne
      · exact fun _ ↦ rfl
      · exact fun heq ↦ absurd heq hne
      · rfl
      · exact hne

variable {schedule : ScheduleRow}

theorem calm_fireOnce (hne : schedule.id ≠ k.id) (dueAt first : Nat) (isCatchUp : Bool)
    (m : Meeting) : Calm k s (s.fireOnce schedule dueAt first isCatchUp m) := by
  rw [fireOnce]
  dsimp only
  split_ifs
  · exact Calm.refl k s
  · refine (calm_claim s (s.fireOf schedule dueAt first isCatchUp)).trans (calm_update _ ?_ ?_)
    · exact fun _ ↦ rfl
    · exact fun _ _ ↦ rfl
  · exact ((calm_claim s _).trans (calm_stopPrevious _ _ _ _)).trans (calm_sleep _ _ hne)
  · exact ((calm_claim s _).trans (calm_stopPrevious _ _ _ _)).trans (calm_dispatch hne m.creation)

/-! ## What is kept of a schedule that skips -/

/-- What a caller knows of a row of this schedule that it has read, when this is the next id. -/
structure ReadOf (k : Schedule) (nextId : Nat) (row : ScheduleRow) : Prop where
  schedule : row.toSchedule = k
  below : ∀ id ∈ row.batchId, id < nextId

/-- What every event keeps of a schedule whose batches are created on tests that still stand. -/
structure Apart (k : Schedule) (s : ScheduleRunner) : Prop where
  row : ∃ row, s.row? k.id = some row ∧ ReadOf k s.nextId row
  /-- Only the batch that the row names can be active. -/
  newest : ∀ b ∈ s.batches, b.schedule = k.id → b.isActive → s.batchIdOf k.id = some b.id
  /-- A fire sleeps after it has found no active batch. -/
  tested : ∀ f ∈ s.sleeping, f.schedule.id = k.id →
    ReadOf k s.nextId f.schedule ∧ s.isBatchActive f.schedule.batchId = false
  rests : ∀ p ∈ s.passes, ∀ row ∈ p.rest, row.id = k.id → ReadOf k s.nextId row
  ids : s.ids.Nodup
  beside : ∀ d ∈ s.dispatched, d.fire.schedule.id = k.id → d.beside = []

theorem ReadOf.mono {row : ScheduleRow} {n m : Nat} (h : ReadOf k n row) (hle : n ≤ m) :
    ReadOf k m row :=
  ⟨h.schedule, fun id hid ↦ Nat.lt_of_lt_of_le (h.below id hid) hle⟩

theorem isBatchActive_iff {named : Option Nat} :
    s.isBatchActive named = true ↔ ∃ b ∈ s.batches, named = some b.id ∧ b.isActive := by
  cases named with
  | none => simp [isBatchActive]
  | some id =>
    rw [isBatchActive, any_eq_true]
    refine exists_congr fun b ↦ and_congr_right fun _ ↦ ?_
    rw [decide_eq_true_eq, Option.some.injEq, eq_comm]

/-- A batch that is over stays over. -/
theorem Calm.over (h : Calm k s t) {named : Option Nat} (hbelow : ∀ id ∈ named, id < s.nextId)
    (hover : s.isBatchActive named = false) : t.isBatchActive named = false := by
  refine Bool.eq_false_iff.mpr fun hactive ↦ ?_
  obtain ⟨b, hb, rfl, hb'⟩ := isBatchActive_iff.mp hactive
  rcases h.active b hb hb' with ⟨b', hmem, hid, -, hactive'⟩ | ⟨-, hle⟩
  · have hold := isBatchActive_iff.mpr ⟨b', hmem, congrArg some hid.symm, hactive'⟩
    rw [hold] at hover
    cases hover
  · exact absurd (hbelow b.id rfl) (Nat.not_lt.mpr hle)

theorem Apart.calm (hk : Apart k s) (h : Calm k s t) : Apart k t := by
  refine ⟨?_, fun b hb hschedule hactive ↦ ?_, fun f hf hid ↦ ?_, fun p hp row hrow hid ↦ ?_, h.ids ▸ hk.ids,
    fun d hd hid ↦ hk.beside d (h.dispatched d hd hid) hid⟩
  · obtain ⟨row, hrow, hread⟩ := hk.row
    have hmap := h.row
    rw [hrow, Option.map_some] at hmap
    obtain ⟨row', hrow', hsame⟩ := Option.map_eq_some_iff.mp hmap
    refine ⟨row', hrow', hsame.trans hread.schedule, fun id hid ↦ ?_⟩
    have hbatch : row'.batchId = row.batchId := by
      have heq := h.batchId
      rwa [batchIdOf, hrow', batchIdOf, hrow] at heq
    exact Nat.lt_of_lt_of_le (hread.below id (hbatch ▸ hid)) h.nextId
  · rw [h.batchId]
    rcases h.active b hb hactive with ⟨b', hb', hid, hschedule', hactive'⟩ | ⟨hne, -⟩
    · rw [← hid]
      exact hk.newest b' hb' (hschedule'.trans hschedule) hactive'
    · exact absurd hschedule hne
  · obtain ⟨hread, hover⟩ := hk.tested f (h.sleeping f hf hid) hid
    exact ⟨hread.mono h.nextId, h.over hread.below hover⟩
  · exact (hk.rests p (h.passes p hp) row hrow hid).mono h.nextId

theorem Apart.batchIdOf_below (hk : Apart k s) : ∀ id ∈ s.batchIdOf k.id, id < s.nextId := by
  obtain ⟨row, hrow, hread⟩ := hk.row
  intro id hid
  rw [batchIdOf, hrow] at hid
  exact hread.below id hid

/-- On a test that stands, no batch of the schedule is active. -/
theorem Apart.over (hk : Apart k s) (hid : schedule.id = k.id)
    (hover : s.isBatchActive schedule.batchId = false) (hstands : s.Stands schedule) :
    ∀ b ∈ s.batches, b.schedule = k.id → ¬ b.isActive := by
  intro b hb hschedule hactive
  have hnamed := hk.newest b hb hschedule hactive
  have hyes := isBatchActive_iff.mpr ⟨b, hb, hnamed, hactive⟩
  rw [Stands, hid] at hstands
  rcases hstands with heq | hno
  · rw [heq, hover] at hyes
    cases hyes
  · rw [hno] at hyes
    cases hyes

theorem Calm.clear (h : Calm k s t) (hclear : ∀ b ∈ s.batches, b.schedule = k.id → ¬ b.isActive) :
    ∀ b ∈ t.batches, b.schedule = k.id → ¬ b.isActive := by
  intro b hb hschedule hactive
  rcases h.active b hb hactive with ⟨b', hb', -, hschedule', hactive'⟩ | ⟨hne, -⟩
  · exact hclear b' hb' (hschedule'.trans hschedule) hactive'
  · exact hne hschedule

/-- The batch that is created is the newest, and the only one that can be active. -/
theorem Apart.created (hk : Apart k s) (hid : fire.schedule.id = k.id) (htarget : fire.schedule.target ≠ .agent)
    (hclear : ∀ b ∈ s.batches, b.schedule = k.id → ¬ b.isActive) (members : List RunStatus) :
    Apart k (s.dispatch fire (.created members)) := by
  rw [ScheduleRunner.dispatch, if_neg htarget]
  have hkeepsId : ∀ row : ScheduleRow, ({ row with
      lastFireOutcome := some .dispatched, batchId := some s.nextId } : ScheduleRow).id = row.id := fun _ ↦ rfl
  have hrow? : (s.update fire.schedule.id _).row? k.id = if k.id = fire.schedule.id then _ else _ :=
    row?_update hkeepsId
  rw [if_pos hid.symm] at hrow?
  obtain ⟨row, hrow, hread⟩ := hk.row
  rw [hrow, Option.map_some] at hrow?
  refine ⟨⟨_, hrow?, hread.schedule, ?_⟩, fun b hb hschedule hactive ↦ ?_, fun f hf hfid ↦ ?_,
    fun p hp row hrow hrid ↦ (hk.rests p hp row hrow hrid).mono (Nat.le_succ _), ?_, fun d hd hdid ↦ ?_⟩
  · rintro id hid'
    rw [← Option.some.inj hid']
    exact Nat.lt_succ_self _
  · rcases mem_append.mp hb with hb | hb
    · exact absurd hactive (hclear b hb hschedule)
    · rw [mem_singleton.mp hb]
      exact congrArg (·.bind ScheduleRow.batchId) hrow?
  · obtain ⟨hread, hover⟩ := hk.tested f hf hfid
    refine ⟨hread.mono (Nat.le_succ _), Bool.eq_false_iff.mpr fun hactive ↦ ?_⟩
    obtain ⟨b, hb, hnamed, hb'⟩ := isBatchActive_iff.mp hactive
    rcases mem_append.mp hb with hb | hb
    · have hold : s.isBatchActive f.schedule.batchId = true :=
        isBatchActive_iff.mpr ⟨b, hb, hnamed, hb'⟩
      rw [hold] at hover
      cases hover
    · rw [mem_singleton.mp hb] at hnamed
      exact absurd (hread.below _ hnamed) (Nat.lt_irrefl _)
  · exact (ids_update hkeepsId).symm ▸ hk.ids
  · rcases mem_append.mp hd with hd | hd
    · exact hk.beside d hd hdid
    · rw [mem_singleton.mp hd]
      refine map_eq_nil_iff.mpr (filter_eq_nil_iff.mpr fun b hb hbeside ↦ ?_)
      obtain ⟨hschedule, -, hactive⟩ := of_decide_eq_true hbeside
      exact hclear b hb (hschedule.trans hid) hactive

/-- A fire of the schedule itself. -/
theorem Apart.fireOnce (hk : Apart k s) (hskip : k.onOverlap = .skip)
    (htarget : k.target ≠ .agent) (hread : ReadOf k s.nextId schedule) (dueAt first : Nat)
    (isCatchUp : Bool) (m : Meeting)
    (hstands : pickJitterMs schedule.jitterSec m.draw = 0 → s.Stands schedule) :
    Apart k (s.fireOnce schedule dueAt first isCatchUp m) := by
  have hid : schedule.id = k.id := congrArg Schedule.id hread.schedule
  have hoverlap : schedule.onOverlap = .skip := (congrArg Schedule.onOverlap hread.schedule).trans hskip
  have htarget' : schedule.target ≠ .agent := by
    rw [show schedule.target = k.target from congrArg Schedule.target hread.schedule]
    exact htarget
  rw [ScheduleRunner.fireOnce]
  rw [if_neg fun h ↦ htarget' h.1, isPreviousActive, if_neg htarget']
  have hclaim := calm_claim (k := k) s (s.fireOf schedule dueAt first isCatchUp)
  cases hover : s.isBatchActive schedule.batchId with
  | true =>
    rw [if_pos ⟨rfl, hoverlap⟩]
    exact hk.calm (hclaim.trans (calm_update _ (fun _ ↦ rfl) fun _ _ ↦ rfl))
  | false =>
    rw [if_neg (by simp)]
    have hcalm := hclaim.trans (calm_stopPrevious _ schedule false m)
    by_cases hsleep : 0 < pickJitterMs schedule.jitterSec m.draw
    · rw [if_pos hsleep]
      have hkept := hk.calm hcalm
      refine ⟨hkept.row, hkept.newest, fun f hf hfid ↦ ?_, hkept.rests, hkept.ids, hkept.beside⟩
      rcases mem_append.mp hf with hf | hf
      · exact hkept.tested f hf hfid
      · rw [mem_singleton.mp hf]
        exact ⟨hread.mono hcalm.nextId, hcalm.over hread.below hover⟩
    · rw [if_neg hsleep]
      have hclear := hk.over hid hover (hstands (Nat.eq_zero_of_not_pos hsleep))
      cases hcreation : m.creation with
      | failed outcome => exact hk.calm (hcalm.trans (calm_failed _ _ outcome))
      | created members => exact (hk.calm hcalm).created hid htarget' (hcalm.clear hclear) members

/-! ## Wakes and the catch-up -/

theorem mem_of_mem_firedRow {now : Nat} {row : ScheduleRow} {rest : List ScheduleRow}
    (h : row ∈ firedRow cron now rest) : row ∈ rest := by
  induction rest with
  | nil => cases h
  | cons schedule rest ih =>
    rw [firedRow] at h
    split at h
    · exact .tail _ (ih h)
    · split at h
      · exact .tail _ (ih h)
      · split_ifs at h
        · exact .tail _ (ih h)
        · split at h
          · exact .tail _ (ih h)
          · rw [Option.some.inj h]
            exact .head _

theorem nextId_fireOnce (s : ScheduleRunner) (schedule : ScheduleRow) (dueAt first : Nat)
    (isCatchUp : Bool) (m : Meeting) : s.nextId ≤ (s.fireOnce schedule dueAt first isCatchUp m).nextId := by
  rcases fireOnce_cases schedule dueAt first isCatchUp m with heq | h
  · rw [heq]
  · exact Nat.le_of_lt h.nextId

theorem calm_recompute (s : ScheduleRunner) : Calm k s (s.recomputeCache cron).armTimer :=
  calm_of_same rfl (le_rfl) rfl rfl rfl rfl

theorem Calm.stands (h : Calm k s t) (hk : Apart k s) (hid : schedule.id = k.id)
    (hstands : s.Stands schedule) : t.Stands schedule := by
  rw [Stands, hid] at hstands ⊢
  rw [h.batchId]
  exact hstands.imp_right fun hover ↦ h.over hk.batchIdOf_below hover

theorem Apart.fireDue (hk : Apart k s) (hskip : k.onOverlap = .skip) (htarget : k.target ≠ .agent)
    (p : String × Nat) (meeting : String → Meeting) : Apart k (s.fireDue p meeting) := by
  rw [ScheduleRunner.fireDue]
  split
  · exact hk
  · rename_i schedule hrow
    split_ifs
    · by_cases hid : schedule.id = k.id
      · obtain ⟨row, hrow', hread⟩ := hk.row
        rw [← row?_id hrow, hid] at hrow
        cases hrow.symm.trans hrow'
        refine hk.fireOnce hskip htarget hread _ _ _ _ fun _ ↦ .inl ?_
        rw [hid, batchIdOf, hrow, Option.bind_some]
      · exact hk.calm (calm_fireOnce hid _ _ _ _)
    · exact hk

theorem Apart.wake (hk : Apart k s) (hskip : k.onOverlap = .skip) (htarget : k.target ≠ .agent)
    (meeting : String → Meeting) : Apart k (s.wake cron meeting) := by
  have hall : ∀ due : List (String × Nat), ∀ {s : ScheduleRunner}, Apart k s →
      Apart k (due.foldl (fun s p ↦ s.fireDue p meeting) s) := by
    intro due
    induction due with
    | nil => exact fun hk ↦ hk
    | cons p due ih => exact fun hk ↦ ih (hk.fireDue hskip htarget p meeting)
  rw [ScheduleRunner.wake]
  split_ifs
  · exact (hall s.due hk).calm (calm_recompute _)
  · exact hk

theorem Apart.catchUp (hskip : k.onOverlap = .skip) (htarget : k.target ≠ .agent) (now : Nat)
    (meeting : String → Meeting) (rest : List ScheduleRow) (hk : Apart k s)
    (hrest : ∀ row ∈ rest, row.id = k.id → ReadOf k s.nextId row)
    (hstands : ∀ schedule ∈ firedRow cron now rest, schedule.id = k.id →
      pickJitterMs schedule.jitterSec (meeting schedule.id).draw = 0 → s.Stands schedule) :
    Apart k (s.catchUp cron now meeting rest) := by
  induction rest generalizing s with
  | nil => exact hk.calm (calm_recompute s)
  | cons schedule rest ih =>
    have htail : ∀ row ∈ rest, row.id = k.id → ReadOf k s.nextId row :=
      fun row hrow ↦ hrest row (.tail _ hrow)
    rw [ScheduleRunner.catchUp]
    rw [firedRow] at hstands
    cases hlast : schedule.lastFiredAt with
    | none =>
      simp only [hlast] at hstands ⊢
      exact ih hk htail hstands
    | some last =>
      simp only [hlast] at hstands ⊢
      cases hmissed : cron.occurrencesBetween schedule.cron schedule.timezone (last * 1000) now with
      | error err =>
        simp only [hmissed] at hstands ⊢
        exact ih hk htail hstands
      | ok missed =>
        simp only [hmissed] at hstands ⊢
        by_cases hzero : missed = 0
        · rw [if_pos hzero] at hstands ⊢
          exact ih hk htail hstands
        · rw [if_neg hzero] at hstands ⊢
          cases hcatch : schedule.catchUp with
          | skip =>
            simp only [hcatch] at hstands ⊢
            have hcalm : Calm k s (s.recordMissed schedule now (last + 1)) :=
              (calm_claim s _).trans (calm_update _ (fun _ ↦ rfl) fun _ _ ↦ rfl)
            exact ih (hk.calm hcalm) (fun row hrow hid ↦ (htail row hrow hid).mono hcalm.nextId)
              fun row hrow hid hnow ↦ hcalm.stands hk hid (hstands row hrow hid hnow)
          | once =>
            simp only [hcatch] at hstands ⊢
            have hfired : Apart k (s.fireOnce schedule now (last + 1) true (meeting schedule.id)) := by
              by_cases hid : schedule.id = k.id
              · exact hk.fireOnce hskip htarget (hrest schedule (.head _) hid) _ _ _ _
                  (hstands schedule rfl hid)
              · exact hk.calm (calm_fireOnce hid _ _ _ _)
            have hnext := nextId_fireOnce s schedule now (last + 1) true (meeting schedule.id)
            obtain ⟨row, hrow, hread⟩ := hfired.row
            refine ⟨⟨row, hrow, hread.mono (Nat.le_succ _)⟩, hfired.newest, fun f hf hid ↦ ?_,
              fun p hp row hrow hid ↦ ?_, hfired.ids, hfired.beside⟩
            · exact ⟨(hfired.tested f hf hid).1.mono (Nat.le_succ _), (hfired.tested f hf hid).2⟩
            · rcases mem_append.mp hp with hp | hp
              · exact (hfired.rests p hp row hrow hid).mono (Nat.le_succ _)
              · rw [mem_singleton.mp hp] at hrow
                exact (htail row hrow hid).mono (Nat.le_succ_of_le hnext)

theorem Apart.start (hk : Apart k s) (hskip : k.onOverlap = .skip) (htarget : k.target ≠ .agent)
    (meeting : String → Meeting) : Apart k (s.start cron meeting) := by
  rw [ScheduleRunner.start]
  split_ifs
  · exact hk
  · have hread : ∀ row ∈ s.rows.filter (·.enabled), row.id = k.id →
        ReadOf k s.nextId row ∧ s.batchIdOf k.id = row.batchId := by
      intro row hrow hid
      obtain ⟨row', hrow', hread⟩ := hk.row
      have hfound := row?_of_mem hk.ids (mem_of_mem_filter hrow)
      rw [hid] at hfound
      cases hfound.symm.trans hrow'
      exact ⟨hread, by rw [batchIdOf, hfound, Option.bind_some]⟩
    have hrunning : Apart k { s with running := true } :=
      hk.calm (calm_of_same rfl (le_rfl) rfl rfl rfl rfl)
    refine hrunning.catchUp hskip htarget _ _ _ (fun row hrow hid ↦ (hread row hrow hid).1)
      fun schedule hfired hid _ ↦ .inl ?_
    rw [hid]
    exact (hread schedule (mem_of_mem_firedRow hfired) hid).2

/-- A fire wakes, and creates its batch on the test it made before it slept. -/
theorem Apart.woken (hk : Apart k s) (htarget : k.target ≠ .agent) (hmem : fire ∈ s.sleeping)
    (creation : Creation) (hstands : ∀ members, creation = .created members → s.Stands fire.schedule) :
    Apart k ({ s with sleeping := s.sleeping.erase fire }.dispatch fire creation) := by
  have hawake : Apart k { s with sleeping := s.sleeping.erase fire } :=
    hk.calm (calm_of_eq rfl (le_rfl) rfl (fun _ h _ ↦ mem_of_mem_erase h) (fun _ h ↦ h)
      fun _ h _ ↦ h)
  by_cases hid : fire.schedule.id = k.id
  · obtain ⟨hread, hover⟩ := hk.tested fire hmem hid
    cases creation with
    | failed outcome => exact hawake.calm (calm_failed _ fire outcome)
    | created members =>
      have htarget' : fire.schedule.target ≠ .agent := by
        rw [show fire.schedule.target = k.target from congrArg Schedule.target hread.schedule]
        exact htarget
      exact hawake.created hid htarget' (hk.over hid hover (hstands members rfl)) members
  · exact hawake.calm (calm_dispatch hid creation)

/-! ## Every run -/

theorem apart_new (clock : Nat) (table : ScheduleTable) (hk : k ∈ table.schedules.map (·.1)) :
    Apart k (new clock table) := by
  obtain ⟨p, hp, rfl⟩ := mem_map.mp hk
  have hrow := row?_of_mem (ids_new clock table) (mem_map_of_mem hp)
  exact ⟨⟨_, hrow, rfl, by simp⟩, by simp [new], by simp [new], by simp [new], ids_new clock table,
    by simp [new]⟩

theorem Apart.step (hskip : k.onOverlap = .skip) (htarget : k.target ≠ .agent) (hk : Apart k s)
    (hstanding : OnStandingTest cron s e) (hstep : s.step cron e = some t) : Apart k t := by
  cases e with
  | advance ms | stop =>
    cases hstep
    exact hk.calm (calm_of_same rfl (le_rfl) rfl rfl rfl rfl)
  | start meeting =>
    cases hstep
    exact hk.start hskip htarget meeting
  | reload =>
    cases hstep
    exact hk.calm (calm_recompute s)
  | wake meeting | tick meeting =>
    obtain ⟨-, ⟨⟩⟩ := Option.ite_none_right_eq_some.mp hstep
    exact hk.wake hskip htarget meeting
  | resume id meeting =>
    obtain ⟨p, hp, rfl⟩ := Option.map_eq_some_iff.mp hstep
    have hwithout : Apart k { s with passes := s.passes.erase p } :=
      hk.calm (calm_of_eq rfl (le_rfl) rfl (fun _ h _ ↦ h) (fun _ h ↦ mem_of_mem_erase h)
        fun _ h _ ↦ h)
    exact hwithout.catchUp hskip htarget _ _ _ (hk.rests p (mem_of_find?_eq_some hp))
      fun schedule hfired _ hnow ↦ hstanding p hp schedule hfired hnow
  | woken id creation =>
    obtain ⟨f, hf, rfl⟩ := Option.map_eq_some_iff.mp hstep
    refine hk.woken htarget (mem_of_find?_eq_some hf) creation fun members hcreated ↦ ?_
    subst hcreated
    exact hstanding f hf
  | progress id members =>
    obtain ⟨-, ⟨⟩⟩ := Option.ite_none_right_eq_some.mp hstep
    exact hk.calm (calm_setMembers s id members)
  | restart =>
    cases hstep
    exact hk.calm (calm_of_eq rfl (le_rfl) rfl (by simp) (by simp) fun _ h _ ↦ h)

/-- **Never over itself.**  In every run in which a batch is created only on an overlap test that still
stands, no fire of a schedule that skips, and runs a script or a workflow, creates its batch beside an
active one of an earlier fire. -/
theorem never_beside_active {clock : Nat} {table : ScheduleTable}
    (h : Steps.Guarded (Steps.By (step cron)) (OnStandingTest cron) (new clock table) es t) :
    ∀ k ∈ table.schedules.map (·.1), k.onOverlap = .skip → k.target ≠ .agent →
      ∀ d ∈ t.dispatched, d.fire.schedule.id = k.id → d.beside = [] :=
  fun _ hk hskip htarget ↦ (Steps.invariant_of_guarded h (apart_new clock table hk)
    fun _ _ _ hapart he hg ↦ Apart.step hskip htarget hapart hg he).beside

/-- A schedule that runs every minute and skips while its last batch is active. -/
def skipping (jitterSec : Nat) : Schedule := { minutely "a" jitterSec with onOverlap := .skip }

/-- A batch is created, the next fire skips, and the one after the batch is over creates another. -/
theorem never_beside_active_short : ∃ t,
    Steps (Steps.By (step .everyMinute)) (new 0 ⟨[(skipping 10, none)], by decide⟩)
      [.start fun _ ↦ oneMember 0, .advance 60000, .wake fun _ ↦ oneMember 5000,
        .woken 0 (.created [.running]), .advance 60000, .wake fun _ ↦ oneMember 0, .progress 1 [.success],
        .advance 60000, .wake fun _ ↦ oneMember 0] t ∧
    ∀ k ∈ [skipping 10], k.onOverlap = .skip → k.target ≠ .agent →
      ∀ d ∈ t.dispatched, d.fire.schedule.id = k.id → d.beside = [] := by
  have hrun : Steps.Guarded (Steps.By (step .everyMinute)) (OnStandingTest .everyMinute)
      (new 0 ⟨[(skipping 10, none)], by decide⟩)
      [.start fun _ ↦ oneMember 0, .advance 60000, .wake fun _ ↦ oneMember 5000,
        .woken 0 (.created [.running]), .advance 60000, .wake fun _ ↦ oneMember 0, .progress 1 [.success],
        .advance 60000, .wake fun _ ↦ oneMember 0] _ := Steps.guarded_by_iff.mpr rfl
  exact ⟨_, hrun.steps, never_beside_active hrun⟩

/-- A jitter longer than the period: two fires sleep at once, and the second creates its batch while that
of the first is running. -/
theorem not_never_beside_active_slept : ¬ ∀ (cron : Croner) (clock : Nat) (table : ScheduleTable)
    (es : List Event) (t : ScheduleRunner), cron.IsForward →
      Steps (Steps.By (step cron)) (new clock table) es t →
        ∀ k ∈ table.schedules.map (·.1), k.onOverlap = .skip → k.target ≠ .agent →
          ∀ d ∈ t.dispatched, d.fire.schedule.id = k.id → d.beside = [] := by
  intro hall
  have hrun : ([.start fun _ ↦ oneMember 0, .advance 60000, .wake fun _ ↦ oneMember 100000, .advance 60000,
      .wake fun _ ↦ oneMember 100000, .advance 60000, .woken 0 (.created [.running]),
      .woken 1 (.created [.running])].foldlM (step .everyMinute)
        (new 0 ⟨[(skipping 120, none)], by decide⟩)).any
      (fun t ↦ t.dispatched.any fun d ↦ d.fire.schedule.id = "a" ∧ d.beside ≠ []) = true := by
    decide +kernel
  obtain ⟨t, ht, hany⟩ := (Option.any_eq_true _ _).mp hrun
  obtain ⟨d, hd, hbad⟩ := any_eq_true.mp hany
  obtain ⟨hid, hbeside⟩ := of_decide_eq_true hbad
  exact hbeside (hall .everyMinute 0 _ _ t Croner.everyMinute_isForward (Steps.steps_by_iff.mpr ht)
    (skipping 120) (.head _) rfl (by decide) d hd hid)

end Enkaku.Schedules.ScheduleRunner
