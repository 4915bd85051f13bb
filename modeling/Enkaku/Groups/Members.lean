import Enkaku.Groups.Pacer
import Enkaku.Jobs.Numbering
import Enkaku.Lib.Barrier

/-!
# The repetition runs of a batch

Around the pacer the queue goes on: runs are claimed, settled, requeued, cancelled and expired, jobs
are rerun by hand, other batches come and go.  `Spares` is what is left of a batch's repetition
runs: they stay on their members, phases and sub-groups, and what is settled stays settled.  Which
runs may be released is its parameter; the calls beside the pacer release none (`spares_of_exec`,
the one place the calls are taken apart for it).
-/

set_option autoImplicit false

namespace Enkaku

open List

namespace JobRunRow

/-- The repetition a run belongs to. -/
def phase (r : JobRunRow) : Int := r.batchRepeat.getD 0

/-- The sub-group a run belongs to. -/
def wave (r : JobRunRow) : Int := r.batchWave.getD 0

/-- Running, or queued and released. -/
def going (r : JobRunRow) : Bool := r.status = .running || (r.status = .queued && !r.held)

theorem going_eq_false_of_terminal {r : JobRunRow} (h : r.status.terminal = true) : r.going = false := by
  rw [going]
  cases hs : r.status <;> simp_all [RunStatus.terminal]

end JobRunRow

/-- Runs as the tasks of a barrier, on the stages of phases and their sub-groups. -/
def runKind : Barrier.Kind JobRunRow (Int ×ₗ Int) where
  stage r := toLex (r.phase, r.wave)
  active r := r.going = true
  done r := r.status.terminal = true
  not_active_of_done r h := by rw [JobRunRow.going_eq_false_of_terminal h]; decide

namespace Store

/-- The job is a member of the batch. -/
def IsMember (s : Store) (batchId jobId : String) : Prop :=
  ∃ j ∈ s.jobs, j.id = jobId ∧ j.batchId = some batchId

instance (s : Store) (batchId jobId : String) : Decidable (s.IsMember batchId jobId) :=
  inferInstanceAs (Decidable (∃ j ∈ s.jobs, j.id = jobId ∧ j.batchId = some batchId))

/-- The runs of the batch that belong to a repetition. -/
def repetitions (s : Store) (batchId : String) : List JobRunRow :=
  s.runs.filter fun r ↦ r.batchRepeat.isSome && s.IsMember batchId r.jobId

/-- No member of the batch has a gap in the numbers of its runs. -/
def NoGaps (s : Store) (batchId : String) : Prop :=
  ∀ jobId, s.IsMember batchId jobId → ∀ r ∈ s.runsOf jobId, r.seq ≤ (s.runsOf jobId).length

/-- What became of a repetition run: it stays where it stands, stays settled, and is released only
if `P` says it may be. -/
structure StaysPut (P : JobRunRow → Prop) (r r' : JobRunRow) : Prop where
  id : r'.id = r.id
  jobId : r'.jobId = r.jobId
  batchRepeat : r'.batchRepeat = r.batchRepeat
  batchWave : r'.batchWave = r.batchWave
  settled : r.status.terminal = true → r'.status.terminal = true
  going : r'.going = true → r.going = true ∨ P r

theorem StaysPut.refl (P : JobRunRow → Prop) (r : JobRunRow) : StaysPut P r r :=
  ⟨rfl, rfl, rfl, rfl, fun h ↦ h, .inl⟩

/-- No run may be released. -/
def Nothing (_ : JobRunRow) : Prop := False

/-- What is left of a batch when only the runs `P` allows are released. -/
structure Spares (P : JobRunRow → Prop) (batchId : String) (s s' : Store) : Prop where
  member : ∀ jobId, s.IsMember batchId jobId → s'.IsMember batchId jobId
  back : ∀ r' ∈ s'.repetitions batchId, ∃ r ∈ s.repetitions batchId, StaysPut P r r'
  forth : ∀ r ∈ s.repetitions batchId, ∃ r' ∈ s'.repetitions batchId, StaysPut P r r'
  noGaps : s.NoGaps batchId → s'.NoGaps batchId

section Shapes

variable {s : Store} {batchId : String} {P : JobRunRow → Prop}

theorem mem_repetitions {r : JobRunRow} : r ∈ s.repetitions batchId ↔
    r ∈ s.runs ∧ r.batchRepeat.isSome = true ∧ s.IsMember batchId r.jobId := by
  simp [repetitions]

theorem isMember_mapRows {g : JobRow → JobRow} (hg : ∀ j, JobKept j (g j)) (runs : List JobRunRow)
    (jobId : String) : IsMember { s with runs := runs, jobs := s.jobs.map g } batchId jobId ↔
      s.IsMember batchId jobId := by
  constructor
  · rintro ⟨j', hj', hid, hb⟩
    obtain ⟨j, hj, rfl⟩ := mem_map.mp hj'
    exact ⟨j, hj, (hg j).id.symm.trans hid, (hg j).batchId.symm.trans hb⟩
  · rintro ⟨j, hj, hid, hb⟩
    exact ⟨g j, mem_map_of_mem hj, (hg j).id.trans hid, (hg j).batchId.trans hb⟩

/-- Neither jobs nor runs change. -/
theorem Spares.of_rows {s' : Store} (hjobs : s'.jobs = s.jobs) (hruns : s'.runs = s.runs) :
    Spares P batchId s s' := by
  obtain ⟨jobs, runs, devices, batches⟩ := s
  obtain ⟨jobs', runs', devices', batches'⟩ := s'
  obtain rfl : jobs' = jobs := hjobs
  obtain rfl : runs' = runs := hruns
  exact ⟨fun _ h ↦ h, fun r hr ↦ ⟨r, hr, StaysPut.refl P r⟩, fun r hr ↦ ⟨r, hr, StaysPut.refl P r⟩,
    fun h ↦ h⟩

theorem Spares.refl (P : JobRunRow → Prop) (batchId : String) (s : Store) : Spares P batchId s s := Spares.of_rows rfl rfl

/-- Rows are rewritten in place. -/
theorem Spares.mapRows {f : JobRunRow → JobRunRow} {g : JobRow → JobRow} (hnum : ∀ r, SameNumber r (f r))
    (hput : ∀ r ∈ s.runs, s.IsMember batchId r.jobId → StaysPut P r (f r)) (hg : ∀ j, JobKept j (g j)) :
    Spares P batchId s { s with runs := s.runs.map f, jobs := s.jobs.map g } := by
  refine ⟨fun jobId ↦ (isMember_mapRows hg _ jobId).mpr, fun r' hr' ↦ ?_, fun r hr ↦ ?_,
    fun h jobId hmember r' hr' ↦ ?_⟩
  · obtain ⟨hmem, hsome, hmember⟩ := mem_repetitions.mp hr'
    obtain ⟨r, hr, rfl⟩ := mem_map.mp hmem
    rw [isMember_mapRows hg, (hnum r).jobId] at hmember
    have hstays := hput r hr hmember
    exact ⟨r, mem_repetitions.mpr ⟨hr, hstays.batchRepeat ▸ hsome, hmember⟩, hstays⟩
  · obtain ⟨hmem, hsome, hmember⟩ := mem_repetitions.mp hr
    have hstays := hput r hmem hmember
    refine ⟨f r, mem_repetitions.mpr ⟨mem_map_of_mem hmem, hstays.batchRepeat ▸ hsome, ?_⟩, hstays⟩
    rwa [isMember_mapRows hg, (hnum r).jobId]
  · rw [runsOf_map hnum] at hr' ⊢
    obtain ⟨r, hr, rfl⟩ := mem_map.mp hr'
    rw [isMember_mapRows hg] at hmember
    rw [length_map, (hnum r).seq]
    exact h jobId hmember r hr

/-- Runs are updated, and the jobs left alone. -/
theorem Spares.update {p : JobRunRow → Bool} {set : JobRunRow → JobRunRow}
    (hnum : ∀ r, SameNumber r (set r))
    (hput : ∀ r ∈ s.runs, p r = true → s.IsMember batchId r.jobId → StaysPut P r (set r)) :
    Spares P batchId s { s with runs := Sql.update p set s.runs } := by
  have h := @Spares.mapRows s batchId P (fun r ↦ if p r then set r else r) id
    (fun r ↦ by
      split
      · exact hnum r
      · exact ⟨rfl, rfl, rfl⟩)
    (fun r hr hmember ↦ by
      split
      · exact hput r hr ‹_› hmember
      · exact StaysPut.refl P r)
    JobKept.refl
  rw [map_id] at h
  exact h

/-- A run added to a job is numbered without a gap. -/
theorem NoGaps.addRun (hnum : Numbered s) {job : JobRow} {r : JobRunRow} (hjob : job ∈ s.jobs)
    (hof : r.jobId = job.id) (hseq : r.seq = job.runCount + 1) (h : s.NoGaps batchId) :
    NoGaps { s with
      runs := s.runs ++ [r]
      jobs := s.jobs.map (latestSet r.jobId (some r.id) r.seq) } batchId := by
  intro jobId hmember r' hr'
  rw [isMember_mapRows (jobKept_latestSet r.jobId (some r.id) r.seq)] at hmember
  have hle := h jobId hmember
  rw [runsOf_append] at hr' ⊢
  rw [length_append]
  rcases mem_append.mp hr' with hr' | hr'
  · exact (hle r' hr').trans (Nat.le_add_right _ _)
  · split at hr'
    · rename_i hid
      obtain rfl := mem_singleton.mp hr'
      have hcount := hnum.counted job hjob
      have hlen : (s.runsOf jobId).length = job.runCount := by rw [hcount, ← hof, hid]
      rw [if_pos hid, hlen, hseq, length_singleton]
    · cases hr'

/-- A run that belongs to no repetition of the batch is added. -/
theorem Spares.addRun (hnum : Numbered s) {job : JobRow} {r : JobRunRow}
    (hjob : job ∈ s.jobs) (hof : r.jobId = job.id) (hseq : r.seq = job.runCount + 1)
    (hno : s.IsMember batchId r.jobId → r.batchRepeat = none) :
    Spares P batchId s { s with
      runs := s.runs ++ [r]
      jobs := s.jobs.map (latestSet r.jobId (some r.id) r.seq) } := by
  have hkept := jobKept_latestSet r.jobId (some r.id) r.seq
  refine ⟨fun jobId ↦ (isMember_mapRows hkept _ jobId).mpr, fun r' hr' ↦ ?_, fun r' hr' ↦ ?_,
    NoGaps.addRun hnum hjob hof hseq⟩
  · obtain ⟨hmem, hsome, hmember⟩ := mem_repetitions.mp hr'
    rw [isMember_mapRows hkept] at hmember
    rcases mem_append.mp hmem with hmem | hmem
    · exact ⟨r', mem_repetitions.mpr ⟨hmem, hsome, hmember⟩, StaysPut.refl P r'⟩
    · obtain rfl := mem_singleton.mp hmem
      rw [hno hmember] at hsome
      cases hsome
  · obtain ⟨hmem, hsome, hmember⟩ := mem_repetitions.mp hr'
    refine ⟨r', mem_repetitions.mpr ⟨mem_append_left _ hmem, hsome, ?_⟩, StaysPut.refl P r'⟩
    rwa [isMember_mapRows hkept]

/-- Runs are deleted, none of them a member's. -/
theorem Spares.filterRuns {keep : JobRunRow → Bool} {g : JobRow → JobRow}
    (hkeep : ∀ r ∈ s.runs, s.IsMember batchId r.jobId → keep r = true) (hg : ∀ j, JobKept j (g j)) :
    Spares P batchId s { s with runs := s.runs.filter keep, jobs := s.jobs.map g } := by
  refine ⟨fun jobId ↦ (isMember_mapRows hg _ jobId).mpr, fun r hr ↦ ?_, fun r hr ↦ ?_,
    fun h jobId hmember r hr ↦ ?_⟩
  · obtain ⟨hmem, hsome, hmember⟩ := mem_repetitions.mp hr
    rw [isMember_mapRows hg] at hmember
    exact ⟨r, mem_repetitions.mpr ⟨mem_of_mem_filter hmem, hsome, hmember⟩, StaysPut.refl P r⟩
  · obtain ⟨hmem, hsome, hmember⟩ := mem_repetitions.mp hr
    refine ⟨r, mem_repetitions.mpr ⟨mem_filter.mpr ⟨hmem, hkeep r hmem hmember⟩, hsome, ?_⟩,
      StaysPut.refl P r⟩
    rwa [isMember_mapRows hg]
  · rw [isMember_mapRows hg] at hmember
    have hall : (s.runsOf jobId).filter keep = s.runsOf jobId := by
      rw [filter_eq_self]
      intro r' hr'
      obtain ⟨hmem, hof⟩ := mem_runsOf.mp hr'
      exact hkeep r' hmem (hof ▸ hmember)
    rw [runsOf_filter, hall] at hr ⊢
    exact h jobId hmember r hr

/-- A job is added: it has no runs. -/
theorem Spares.addJob (hk : Keys s) {j : JobRow} (hid : ∀ j' ∈ s.jobs, j'.id ≠ j.id) :
    Spares P batchId s { s with jobs := s.jobs ++ [j] } := by
  have hforth : ∀ jobId, s.IsMember batchId jobId →
      IsMember { s with jobs := s.jobs ++ [j] } batchId jobId := by
    rintro jobId ⟨j', hj', h⟩
    exact ⟨j', mem_append_left _ hj', h⟩
  have hback : ∀ r ∈ s.runs, IsMember { s with jobs := s.jobs ++ [j] } batchId r.jobId →
      s.IsMember batchId r.jobId := by
    rintro r hr ⟨j', hj', hj'id, hb⟩
    rcases mem_append.mp hj' with hj' | hj'
    · exact ⟨j', hj', hj'id, hb⟩
    · obtain rfl := mem_singleton.mp hj'
      obtain ⟨j₀, hj₀, hj₀id⟩ := hk.run_job r hr
      exact absurd (hj₀id.trans hj'id.symm) (hid j₀ hj₀)
  refine ⟨hforth, fun r hr ↦ ?_, fun r hr ↦ ?_, fun h jobId hmember r hr ↦ ?_⟩
  · obtain ⟨hmem, hsome, hmember⟩ := mem_repetitions.mp hr
    exact ⟨r, mem_repetitions.mpr ⟨hmem, hsome, hback r hmem hmember⟩, StaysPut.refl P r⟩
  · obtain ⟨hmem, hsome, hmember⟩ := mem_repetitions.mp hr
    exact ⟨r, mem_repetitions.mpr ⟨hmem, hsome, hforth _ hmember⟩, StaysPut.refl P r⟩
  · obtain ⟨hmem, hof⟩ := mem_runsOf.mp hr
    exact h jobId (hof ▸ hback r hmem (hof ▸ hmember)) r hr

/-- An `addRun` on a member succeeds, as long as its UUID is fresh. -/
theorem addRun_member (hk : Keys s) (hnum : Numbered s) (hgaps : s.NoGaps batchId) {jobId : String}
    (hmember : s.IsMember batchId jobId) {env : Ambient} (hfresh : ∀ r ∈ s.runs, r.id ≠ env.uuid)
    (input : AddRunInput) :
    ∃ job ∈ s.jobs, job.id = jobId ∧
      (∀ r' ∈ s.runs, r'.jobId = job.id → r'.seq ≠ job.runCount + 1) ∧
      s.addRun env jobId input = .ok (s.newRun env job input, { s with
        runs := s.runs ++ [s.newRun env job input]
        jobs := s.jobs.map (latestSet job.id (some env.uuid) (job.runCount + 1)) }) := by
  obtain ⟨job, hjob, rfl, hb⟩ := hmember
  have hfind : s.job? job.id = some job := by
    cases hf : s.job? job.id with
    | none => simpa using find?_eq_none.mp hf job hjob
    | some j =>
      obtain ⟨hj, hid⟩ := job?_some hf
      rw [hk.job_eq hj hjob hid]
  have hcount := hnum.counted job hjob
  have hseq : ∀ r' ∈ s.runs, r'.jobId = job.id → r'.seq ≠ job.runCount + 1 := by
    intro r' hr' hof
    have hle := hgaps job.id ⟨job, hjob, rfl, hb⟩ r' (mem_runsOf.mpr ⟨hr', hof⟩)
    omega
  obtain ⟨s', hs'⟩ := addRun_eq_ok input hfind hfresh hseq
  obtain ⟨job', hjob', -, -, -, rfl⟩ := addRun_ok hs'
  cases hfind.symm.trans hjob'
  rw [setLatest_eq] at hs'
  exact ⟨job, hjob, rfl, hseq, hs'⟩

end Shapes

/-! ## Queries -/

section Queries

variable {s : Store} {batchId : String}

theorem mem_membersOf {j : JobRow} :
    j ∈ s.membersOf batchId ↔ j ∈ s.jobs ∧ j.batchId = some batchId := by
  simp [membersOf, mem_insertionSort]

theorem mem_runsNewestFirst {jobId : String} {r : JobRunRow} :
    r ∈ s.runsNewestFirst jobId ↔ r ∈ s.runs ∧ r.jobId = jobId := by
  simp [runsNewestFirst, mem_insertionSort, mem_runsOf]

theorem nodup_membersOf (hk : Keys s) (batchId : String) : ((s.membersOf batchId).map (·.id)).Nodup := by
  have hperm := (perm_insertionSort (fun a b : JobRow ↦
    compareBatchSeq a.batchSeq b.batchSeq ≠ .gt)
      (s.jobs.filter fun j ↦ j.batchId = some batchId)).map (·.id)
  exact hperm.nodup_iff.mpr (hk.job_ids.sublist (filter_sublist.map _))

end Queries

/-! ## The calls -/

/-- A call that keeps off the batch's repetitions: it paces and deletes no run of a member, and a
run it adds to one is a manual rerun, without a `batch_repeat`. -/
def KeepsOff (s : Store) (batchId : String) : Op → Prop
  | .addRun _ jobId input => s.IsMember batchId jobId → input.batchRepeat = none
  | .paceRun runId _ => ∀ r ∈ s.runs, r.id = runId → ¬ s.IsMember batchId r.jobId
  | .deleteRuns runIds => ∀ r ∈ s.runs, r.id ∈ runIds → ¬ s.IsMember batchId r.jobId
  | _ => True

instance (s : Store) (batchId : String) : DecidablePred (s.KeepsOff batchId)
  | .addRun _ jobId input => inferInstanceAs
      (Decidable (s.IsMember batchId jobId → input.batchRepeat = none))
  | .paceRun runId _ => inferInstanceAs
      (Decidable (∀ r ∈ s.runs, r.id = runId → ¬ s.IsMember batchId r.jobId))
  | .deleteRuns runIds => inferInstanceAs
      (Decidable (∀ r ∈ s.runs, r.id ∈ runIds → ¬ s.IsMember batchId r.jobId))
  | .createJob _ | .claimNext .. | .renewHeartbeat .. | .settle .. | .cancelQueuedRun ..
  | .expireQueued _ | .failOrphanRunning _ | .requeueForRebind .. | .putDevice _ | .insertBatch _ =>
    inferInstanceAs (Decidable True)

theorem Keys.run_eq {s : Store} (h : Keys s) {r r' : JobRunRow} (hr : r ∈ s.runs) (hr' : r' ∈ s.runs)
    (hid : r.id = r'.id) : r = r' :=
  inj_on_of_nodup_map h.run_ids hr hr' hid

/-- A run that was going may go on, and one that ends is settled. -/
theorem StaysPut.of_going {P : JobRunRow → Prop} {r r' : JobRunRow} (hid : r'.id = r.id) (hjob : r'.jobId = r.jobId)
    (hrepeat : r'.batchRepeat = r.batchRepeat) (hwave : r'.batchWave = r.batchWave)
    (hgoing : r.going = true) : StaysPut P r r' := by
  refine ⟨hid, hjob, hrepeat, hwave, fun h ↦ ?_, fun _ ↦ .inl hgoing⟩
  rw [JobRunRow.going_eq_false_of_terminal h] at hgoing
  cases hgoing

/-- A run that is settled stays where it stands. -/
theorem StaysPut.of_terminal {P : JobRunRow → Prop} {r r' : JobRunRow} (hid : r'.id = r.id) (hjob : r'.jobId = r.jobId)
    (hrepeat : r'.batchRepeat = r.batchRepeat) (hwave : r'.batchWave = r.batchWave)
    (hterminal : r'.status.terminal = true) : StaysPut P r r' := by
  refine ⟨hid, hjob, hrepeat, hwave, fun _ ↦ hterminal, fun h ↦ ?_⟩
  rw [JobRunRow.going_eq_false_of_terminal hterminal] at h
  cases h

theorem going_of_running {r : JobRunRow} (h : r.status = .running) : r.going = true := by
  rw [JobRunRow.going, h]
  rfl

/-- **What the calls beside the pacer leave of a batch.** -/
theorem spares_of_exec {s s' : Store} {batchId : String} {op : Op} (hk : Keys s) (hn : Numbered s)
    (hoff : s.KeepsOff batchId op) (h : s.exec op = some s') : Spares Nothing batchId s s' := by
  cases op with
  | createJob call =>
    cases h
    cases hc : s.createJob call.env call.input with
    | error e => exact Spares.refl Nothing batchId s
    | ok p =>
      obtain ⟨j, s₁⟩ := p
      obtain ⟨-, hid, rfl⟩ := createJob_ok hc
      exact Spares.addJob hk hid
  | addRun env jobId input =>
    cases h
    cases hc : s.addRun env jobId input with
    | error e => exact Spares.refl Nothing batchId s
    | ok p =>
      obtain ⟨r, s₁⟩ := p
      obtain ⟨job, hjob, rfl, -, -, rfl⟩ := addRun_ok hc
      obtain ⟨hmem, rfl⟩ := job?_some hjob
      rw [commit, setLatest_eq]
      exact @Spares.addRun s batchId Nothing hn job (s.newRun env job input) hmem rfl rfl hoff
  | claimNext now jobTtlSec excludeDeviceIds c =>
    rw [exec] at h
    split at h
    · rename_i hc
      cases h
      have hclaimed := claimed_of_mem_claimable hc.1
      refine Spares.update (fun r ↦ ⟨rfl, rfl, rfl⟩) fun r hr hid _ ↦ ?_
      -- the claimed row was queued and not held
      obtain rfl := hk.run_eq hr hclaimed.run_mem (of_decide_eq_true hid)
      refine StaysPut.of_going rfl rfl rfl rfl ?_
      rw [JobRunRow.going, hclaimed.queued, hclaimed.not_held]
      rfl
    · cases h
  | renewHeartbeat now runId ttlSec =>
    cases h
    exact Spares.update (fun r ↦ ⟨rfl, rfl, rfl⟩) fun r _ _ _ ↦
      ⟨rfl, rfl, rfl, rfl, fun h ↦ h, .inl⟩
  | settle now runId input =>
    cases h
    rw [settle]
    split
    · exact Spares.refl Nothing batchId s
    · exact Spares.update (fun r ↦ ⟨rfl, rfl, rfl⟩) fun r _ _ _ ↦
        StaysPut.of_terminal rfl rfl rfl rfl input.status.terminal_toRunStatus
  | cancelQueuedRun now runId =>
    cases h
    rw [cancelQueuedRun]
    split
    · exact Spares.refl Nothing batchId s
    · exact Spares.update (fun r ↦ ⟨rfl, rfl, rfl⟩) fun r _ _ _ ↦
        StaysPut.of_terminal rfl rfl rfl rfl rfl
  | expireQueued now | failOrphanRunning now =>
    cases h
    exact Spares.update (fun r ↦ ⟨rfl, rfl, rfl⟩) fun r _ _ _ ↦
      StaysPut.of_terminal rfl rfl rfl rfl rfl
  | requeueForRebind runId newDeviceId =>
    cases h
    rw [requeueForRebind]
    split
    · exact Spares.refl Nothing batchId s
    · rename_i before hb
      obtain ⟨hbefore, hid, hrunning⟩ := runIn?_some hb
      refine Spares.mapRows (fun r ↦ ?_) (fun r hr _ ↦ ?_) fun j ↦ ?_
      · split <;> exact ⟨rfl, rfl, rfl⟩
      · split
        · rename_i hr'
          -- the requeued row was running
          obtain rfl := hk.run_eq hr hbefore ((of_decide_eq_true hr').trans hid.symm)
          exact StaysPut.of_going rfl rfl rfl rfl (going_of_running hrunning)
        · exact StaysPut.refl Nothing r
      · split
        · exact ⟨rfl, rfl, rfl⟩
        · exact JobKept.refl j
  | paceRun runId p =>
    cases h
    exact Spares.update (fun r ↦ ⟨rfl, rfl, rfl⟩) fun r hr hid hmember ↦
      absurd hmember (hoff r hr (of_decide_eq_true hid))
  | deleteRuns runIds =>
    cases h
    rw [deleteRuns, foldl_recount_eq]
    refine Spares.filterRuns (fun r hr hmember ↦ ?_) (jobKept_recounted _ _)
    by_contra hkeep
    exact hoff r hr (by simpa using hkeep) hmember
  | putDevice d =>
    cases h
    exact Spares.of_rows rfl rfl
  | insertBatch b =>
    cases h
    rw [insertBatch]
    split <;> exact Spares.of_rows rfl rfl

end Store

end Enkaku
