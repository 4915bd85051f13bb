import Enkaku.Queue.Exclusive

/-!
# Concurrency caps

A batch with a positive concurrency never has more of its members' runs running than that, and a
script whose runs all carry one positive `maxConcurrent` never has more runs running than that.

Both caps are a `COUNT(*)` in the claim and nothing else; what keeps them true between claims is
that no other call makes a run running.  The invariant `Capped` says a little more than the caps, to
be inductive: a batch id no row of `batches` carries has no running member at all (its gate is a
comparison with the `NULL`s of the `LEFT JOIN`, which is never true), and a script's cap is counted
over the runs that carry it.
-/

set_option autoImplicit false

namespace Enkaku.Store

/-- Whether a job is a member of a batch. -/
def isMember (s : Store) (batchId jobId : String) : Bool :=
  s.jobs.any fun j ↦ decide (j.id = jobId) && decide (j.batchId = some batchId)

/-- Whether a row is a running run of a batch's member. -/
def runsInBatch (s : Store) (batchId : String) (r : JobRunRow) : Bool :=
  decide (r.status = .running) && s.isMember batchId r.jobId

/-- Whether a row is a running run of a script. -/
def runsScript (scriptName : String) (r : JobRunRow) : Bool :=
  decide (r.status = .running) && decide (r.scriptName = some scriptName)

/-- Whether a row is a running run of a script that carries this cap. -/
def runsScriptCapped (scriptName : String) (m : Int) (r : JobRunRow) : Bool :=
  runsScript scriptName r && decide (r.maxConcurrent = some m)

/-- How many runs of a batch's members are running. -/
def runningInBatch (s : Store) (batchId : String) : Nat := s.runs.countP (s.runsInBatch batchId)

/-- How many runs of a script are running. -/
def runningScript (s : Store) (scriptName : String) : Nat := s.runs.countP (runsScript scriptName)

/-- The invariant behind the caps. -/
structure Capped (s : Store) : Prop where
  batch : ∀ b ∈ s.batches, 0 < b.concurrency → (s.runningInBatch b.id : Int) ≤ b.concurrency
  noRow : ∀ batchId, (∀ b ∈ s.batches, b.id ≠ batchId) → s.runningInBatch batchId = 0
  script : ∀ scriptName m, 0 < m → (s.runs.countP (runsScriptCapped scriptName m) : Int) ≤ m

section Lemmas

variable {s : Store} {r r' : JobRunRow} {batchId scriptName jobId : String} {m : Int}

theorem isMember_iff :
    s.isMember batchId jobId = true ↔ ∃ j ∈ s.jobs, j.id = jobId ∧ j.batchId = some batchId := by
  simp [isMember]

theorem runsInBatch_iff :
    s.runsInBatch batchId r = true ↔ r.status = .running ∧ s.isMember batchId r.jobId = true := by
  simp [runsInBatch]

theorem runsScript_iff :
    runsScript scriptName r = true ↔ r.status = .running ∧ r.scriptName = some scriptName := by
  simp [runsScript]

theorem runsScriptCapped_iff : runsScriptCapped scriptName m r = true ↔
    r.status = .running ∧ r.scriptName = some scriptName ∧ r.maxConcurrent = some m := by
  simp [runsScriptCapped, runsScript, and_assoc]

/-- Jobs keep their ids and their batches, so members stay members. -/
theorem isMember_map {g : JobRow → JobRow} (hg : ∀ j, JobKept j (g j)) (s : Store)
    (runs : List JobRunRow) (batchId jobId : String) :
    isMember { s with runs := runs, jobs := s.jobs.map g } batchId jobId =
      s.isMember batchId jobId := by
  rw [isMember, List.any_map, isMember]
  simp [Function.comp_def, (hg _).id, (hg _).batchId]

theorem runsInBatch_map {g : JobRow → JobRow} (hg : ∀ j, JobKept j (g j)) (s : Store)
    (runs : List JobRunRow) (batchId : String) :
    runsInBatch { s with runs := runs, jobs := s.jobs.map g } batchId = s.runsInBatch batchId := by
  funext r
  rw [runsInBatch, isMember_map hg s runs batchId r.jobId, runsInBatch]

/-- A run that is running after a rewrite counted before it. -/
theorem RunKept.runsScriptCapped (h : RunKept r r')
    (hr : Store.runsScriptCapped scriptName m r' = true) :
    Store.runsScriptCapped scriptName m r = true := by
  obtain ⟨hrun, hname, hmax⟩ := runsScriptCapped_iff.mp hr
  exact runsScriptCapped_iff.mpr ⟨(h.running hrun).1, h.scriptName ▸ hname, h.maxConcurrent ▸ hmax⟩

/-- The claim counts at least the members' running runs. -/
theorem runningInBatch_le (s : Store) (batchId : String) :
    s.runningInBatch batchId ≤ s.countBatchRunning (some batchId) := by
  refine Sql.countP_le_countP_join fun r _ hr ↦ ?_
  obtain ⟨hrun, hmem⟩ := runsInBatch_iff.mp hr
  obtain ⟨j, hj, hid, hb⟩ := isMember_iff.mp hmem
  exact ⟨j, hj, decide_eq_true hid, by simp [hrun, hb]⟩

theorem countScriptRunning_some (s : Store) (scriptName : String) :
    s.countScriptRunning (some scriptName) = s.runningScript scriptName := by
  refine List.countP_congr fun r _ ↦ ?_
  simp only [Bool.and_eq_true, Sql.isTrue_eq, decide_eq_true_eq, runsScript_iff]
  exact and_comm

theorem countP_capped_le (s : Store) (scriptName : String) (m : Int) :
    s.runs.countP (runsScriptCapped scriptName m) ≤ s.runningScript scriptName := by
  refine List.countP_mono_left fun r _ hr ↦ ?_
  obtain ⟨hrun, hname, -⟩ := runsScriptCapped_iff.mp hr
  exact runsScript_iff.mpr ⟨hrun, hname⟩

end Lemmas

/-! ## The claim -/

section Claim

variable {s : Store} {now jobTtlSec : Int} {excludeDeviceIds : List String} {c : Candidate}

/-- A count the claimed row does not enter is not raised by the claim. -/
theorem Keys.countP_claimRow_le (hk : Keys s) (hc : Claimed s now excludeDeviceIds c)
    {q : JobRunRow → Bool} (hq : q (claimPatch now jobTtlSec c.run) = false) :
    (s.claimRow now jobTtlSec c).runs.countP q ≤ s.runs.countP q := by
  refine Sql.countP_map_le fun r hr h ↦ ?_
  by_cases hid : r.id = c.run.id
  · rw [if_pos (decide_eq_true hid), hk.eq_claimed hc hr hid, hq] at h
    cases h
  · rwa [if_neg (by simpa using hid)] at h

/-- A count is raised by a claim by at most one. -/
theorem Keys.countP_claimRow_le_succ (hk : Keys s) (now jobTtlSec : Int) (c : Candidate)
    (q : JobRunRow → Bool) : (s.claimRow now jobTtlSec c).runs.countP q ≤ s.runs.countP q + 1 :=
  Sql.countP_update_le_succ hk.run_ids c.run.id (claimPatch now jobTtlSec) q

/-- The claimed run is a member's exactly when its own job is in the batch. -/
theorem Keys.isMember_claimed (hk : Keys s) (hc : Claimed s now excludeDeviceIds c) (batchId : String) :
    s.isMember batchId c.run.jobId = true ↔ c.job.batchId = some batchId := by
  rw [isMember_iff]
  constructor
  · rintro ⟨j, hj, hid, hb⟩
    exact hk.job_eq hj hc.job_mem (hid.trans hc.job_id.symm) ▸ hb
  · exact fun hb ↦ ⟨c.job, hc.job_mem, hc.job_id, hb⟩

/-- **A claim finds room in its batch**, and a batch the claimed run belongs to exists. -/
theorem Claimed.batch (hc : Claimed s now excludeDeviceIds c)
    {batchId : String} (hb : c.job.batchId = some batchId) :
    ∃ b ∈ s.batches, b.id = batchId ∧
      (b.concurrency = 0 ∨ (s.runningInBatch batchId : Int) < b.concurrency) := by
  rcases hc.batch_room with hnone | ⟨b, hcb, hroom⟩
  · simp [hnone] at hb
  · obtain ⟨hmem, hid⟩ := hc.batch_mem b hcb
    refine ⟨b, hmem, Option.some.inj (hid.trans hb), ?_⟩
    rw [hb] at hroom
    have hle := runningInBatch_le s batchId
    exact hroom.imp_right fun h ↦ by omega

/-- Claiming keeps the caps. -/
theorem Capped.claim (h : Capped s) (hk : Keys s) (hc : Claimed s now excludeDeviceIds c) :
    Capped (s.claimRow now jobTtlSec c) := by
  have hin : ∀ batchId, (s.claimRow now jobTtlSec c).runsInBatch batchId = s.runsInBatch batchId :=
    fun _ ↦ rfl
  have hout : ∀ batchId, c.job.batchId ≠ some batchId →
      (s.claimRow now jobTtlSec c).runningInBatch batchId ≤ s.runningInBatch batchId := by
    intro batchId hne
    rw [runningInBatch, hin]
    refine hk.countP_claimRow_le hc ?_
    rw [← Bool.not_eq_true, runsInBatch_iff]
    exact fun hr ↦ hne ((hk.isMember_claimed hc batchId).mp hr.2)
  refine ⟨fun b hb hpos ↦ ?_, fun batchId hno ↦ ?_, fun name m hpos ↦ ?_⟩
  · by_cases hmem : c.job.batchId = some b.id
    · obtain ⟨b', hb', hid, hroom⟩ := hc.batch hmem
      obtain rfl := hk.batch_eq hb' hb hid
      have hsucc := hk.countP_claimRow_le_succ now jobTtlSec c (s.runsInBatch b'.id)
      rw [runningInBatch, hin]
      rw [runningInBatch] at hroom
      omega
    · have hle := hout b.id hmem
      have hcap := h.batch b hb hpos
      omega
  · by_cases hmem : c.job.batchId = some batchId
    · obtain ⟨b, hb, hid, -⟩ := hc.batch hmem
      exact absurd hid (hno b hb)
    · have hle := hout batchId hmem
      have hzero := h.noRow batchId hno
      omega
  · by_cases hrun : c.run.scriptName = some name ∧ c.run.maxConcurrent = some m
    · obtain ⟨hname, hmax⟩ := hrun
      have hroom : (s.countScriptRunning c.run.scriptName : Int) < m := by
        rcases hc.script_room with hnone | hzero | ⟨m', hm', hroom⟩
        · simp [hnone] at hmax
        · obtain rfl : m = 0 := Option.some.inj (hmax.symm.trans hzero)
          omega
        · obtain rfl : m = m' := Option.some.inj (hmax.symm.trans hm')
          exact hroom
      rw [hname, countScriptRunning_some] at hroom
      have hle := countP_capped_le s name m
      have hsucc := hk.countP_claimRow_le_succ now jobTtlSec c (runsScriptCapped name m)
      omega
    · have hnot : runsScriptCapped name m (claimPatch now jobTtlSec c.run) = false := by
        rw [← Bool.not_eq_true, runsScriptCapped_iff]
        exact fun hr ↦ hrun hr.2
      have hle := hk.countP_claimRow_le hc hnot
      have hcap := h.script name m hpos
      omega

end Claim

/-! ## Every call -/

/-- When no count rises and the batches stay, the caps stay. -/
theorem Capped.of_counts {s s' : Store} (h : Capped s) (hbatches : s'.batches = s.batches)
    (hin : ∀ batchId, s'.runningInBatch batchId ≤ s.runningInBatch batchId)
    (hscript : ∀ name m, s'.runs.countP (runsScriptCapped name m) ≤
      s.runs.countP (runsScriptCapped name m)) : Capped s' := by
  refine ⟨fun b hb hpos ↦ ?_, fun batchId hno ↦ ?_, fun name m hpos ↦ ?_⟩
  · have hle := hin b.id
    have hcap := h.batch b (hbatches ▸ hb) hpos
    omega
  · have hle := hin batchId
    have hzero := h.noRow batchId (hbatches ▸ hno)
    omega
  · have hle := hscript name m
    have hcap := h.script name m hpos
    omega

/-- **Every call keeps the caps.** -/
theorem Capped.change {s s' : Store} {op : Op} (hk : Keys s) (h : Capped s)
    (hc : Change s op s') : Capped s' := by
  cases hc with
  | rewrite hf hg =>
    refine h.of_counts rfl (fun batchId ↦ ?_) fun name m ↦ ?_
    · rw [runningInBatch, runsInBatch_map fun j ↦ (hg j).toJobKept]
      refine Sql.countP_map_le fun r _ hr ↦ ?_
      obtain ⟨hrun, hm⟩ := runsInBatch_iff.mp hr
      rw [(hf r).jobId] at hm
      exact runsInBatch_iff.mpr ⟨((hf r).running hrun).1, hm⟩
    · exact Sql.countP_map_le fun r _ hr ↦ (hf r).runsScriptCapped hr
  | claim hc => exact h.claim hk hc
  | @addRun _ _ _ r _ _ _ _ _ hq =>
    have hnot : r.status ≠ .running := by simp [hq]
    refine h.of_counts rfl (fun batchId ↦ ?_) fun name m ↦ ?_
    · rw [runningInBatch, runsInBatch_map (jobKept_latestSet _ _ _), List.countP_append]
      simp [runningInBatch, runsInBatch, hnot]
    · rw [List.countP_append]
      simp [runsScriptCapped, runsScript, hnot]
  | @createJob _ j hid =>
    refine h.of_counts rfl (fun batchId ↦ ?_) fun name m ↦ le_rfl
    refine List.countP_mono_left fun r hr hin ↦ ?_
    obtain ⟨hrun, hm⟩ := runsInBatch_iff.mp hin
    obtain ⟨j', hj', hidr, hb⟩ := isMember_iff.mp hm
    refine runsInBatch_iff.mpr ⟨hrun, isMember_iff.mpr ⟨j', ?_, hidr, hb⟩⟩
    rcases List.mem_append.mp hj' with hj' | hj'
    · exact hj'
    · -- the new job has no run yet
      obtain rfl := List.mem_singleton.mp hj'
      obtain ⟨j₀, hj₀, hid₀⟩ := hk.run_job r hr
      exact absurd (hid₀.trans hidr.symm) (hid j₀ hj₀)
  | deleteRuns _ =>
    refine h.of_counts rfl (fun batchId ↦ ?_) fun name m ↦ ?_
    · rw [runningInBatch, runsInBatch_map (jobKept_recounted _ _)]
      exact List.Sublist.countP_le List.filter_sublist
    · exact List.Sublist.countP_le List.filter_sublist
  | devices _ => exact h.of_counts rfl (fun _ ↦ le_rfl) fun _ _ ↦ le_rfl
  | @insertBatch _ b hid =>
    refine ⟨fun b' hb' hpos ↦ ?_, fun batchId hno ↦ ?_, h.script⟩
    · rcases List.mem_append.mp hb' with hb' | hb'
      · exact h.batch b' hb' hpos
      · obtain rfl := List.mem_singleton.mp hb'
        have hzero : s.runningInBatch b'.id = 0 := h.noRow b'.id hid
        have hcount : ({ s with batches := s.batches ++ [b'] } : Store).runningInBatch b'.id = 0 :=
          hzero
        rw [hcount]
        omega
    · exact h.noRow batchId fun b' hb' ↦ hno b' (List.mem_append_left _ hb')

theorem Reachable.capped {s : Store} (h : Reachable s) : Capped s := by
  refine h.invariant ⟨by simp [empty], by simp [runningInBatch, empty], ?_⟩
    fun _ _ _ hk hi hc ↦ hi.change hk hc
  intro name m hpos
  rw [empty, List.countP_nil]
  omega

/-- **Concurrency caps.**  In every reachable state a batch of positive concurrency `c` has at most
`c` runs of its members running; a script all of whose runs carry one positive `maxConcurrent` has
at most that many running; and no row a claim may return is held, not yet due, excluded, or on a
device that is not online. -/
theorem caps_hold {s : Store} (h : Reachable s) :
    (∀ b ∈ s.batches, 0 < b.concurrency → (s.runningInBatch b.id : Int) ≤ b.concurrency) ∧
    (∀ name m, 0 < m → (∀ r ∈ s.runs, r.scriptName = some name → r.maxConcurrent = some m) →
      (s.runningScript name : Int) ≤ m) ∧
    ∀ now excludeDeviceIds c, s.ClaimsRow now excludeDeviceIds c →
      c.run.held = false ∧ (∀ t, c.run.notBefore = some t → t ≤ now) ∧
        c.device ∈ s.devices ∧ c.device.id = c.run.deviceId ∧ c.device.status = "online" ∧
        c.run.deviceId ∉ excludeDeviceIds := by
  have hcap := h.capped
  refine ⟨hcap.batch, fun name m hpos hall ↦ ?_, fun now ex c hc ↦ ?_⟩
  · have hle : s.runningScript name ≤ s.runs.countP (runsScriptCapped name m) := by
      refine List.countP_mono_left fun r hr hrun ↦ ?_
      obtain ⟨hrun, hname⟩ := runsScript_iff.mp hrun
      exact runsScriptCapped_iff.mpr ⟨hrun, hname, hall r hr hname⟩
    have hscript := hcap.script name m hpos
    omega
  · have hcl := claimed_of_mem_claimable hc.1
    exact ⟨hcl.not_held, hcl.due, hcl.device_mem, hcl.device_id, hcl.online, hcl.not_excluded⟩

/-- Two phones, a batch that runs one member at a time, and a member on each phone; the script
caps itself at one as well. -/
def wave : List Op :=
  let member (deviceId : String) : CreateJobInput :=
    { kind := .script, deviceId := deviceId, params := .null, scriptName := some "warmup",
      batchId := some "wave" }
  [.putDevice ⟨"left", "online"⟩,
    .putDevice ⟨"right", "online"⟩,
    .insertBatch ⟨"wave", 1⟩,
    .createJob ⟨⟨0, "left-job", 1⟩, member "left", by decide⟩,
    .createJob ⟨⟨0, "right-job", 1⟩, member "right", by decide⟩,
    .addRun ⟨0, "left-run", 1⟩ "left-job" { trigger := .batch, maxConcurrent := some 1 },
    .addRun ⟨0, "right-run", 1⟩ "right-job" { trigger := .batch, maxConcurrent := some 1 }]

/-- The state after two claims, of which the second found nothing. -/
def waveRunning : Store :=
  ((((wave.foldlM exec empty).getD empty).claimNext 0 60 []).2.claimNext 0 60 []).2

/-- The caps are met: one of the two members runs. -/
theorem caps_hold_wave :
    waveRunning.runningInBatch "wave" = 1 ∧ waveRunning.runningScript "warmup" = 1 ∧
    (∀ b ∈ waveRunning.batches, 0 < b.concurrency →
      (waveRunning.runningInBatch b.id : Int) ≤ b.concurrency) ∧
    (∀ name m, 0 < m →
      (∀ r ∈ waveRunning.runs, r.scriptName = some name → r.maxConcurrent = some m) →
      (waveRunning.runningScript name : Int) ≤ m) ∧
    ∀ now excludeDeviceIds c, waveRunning.ClaimsRow now excludeDeviceIds c →
      c.run.held = false ∧ (∀ t, c.run.notBefore = some t → t ≤ now) ∧
        c.device ∈ waveRunning.devices ∧ c.device.id = c.run.deviceId ∧
        c.device.status = "online" ∧ c.run.deviceId ∉ excludeDeviceIds :=
  ⟨by decide +kernel, by decide +kernel,
    caps_hold (((reachable_of_foldlM wave rfl).claimNext 0 60 []).claimNext 0 60 [])⟩

end Enkaku.Store
