import Enkaku.Lib.Throwing
import Enkaku.Queue.Ops
import Mathlib

/-!
# Trigger chains

`createJobTrigger`: a running script enqueues another job and keeps going.  The new job is of the
chain of the job that triggers it, one deeper, and carries a key that is unique in the chain.

`Chained` is what the budgets promise of the jobs table.  Three counters go up by one when a trigger
inserts its job, each of them checked in the same transaction; what has been triggered once is found
again by its chain and key before anything else is looked at (`Keyed.trigger_again`).
-/

set_option autoImplicit false

namespace Enkaku

open List

/-! ## The call -/

/-- What a script declares about its own execution, as far as a trigger reads it. -/
structure RuntimeEnvelope where
  sdk : Option Int
  maxConcurrent : Option Int
  deriving DecidableEq, Repr

def scriptRuntimeMajor : Int := 1

def scriptRuntimeMinMajor : Int := 1

/-- `checkRuntimeMajor`: the error a bundle built against an unsupported SDK is refused with. -/
def checkRuntimeMajor (sdk : Option Int) : Option StoreError :=
  let major := sdk.getD scriptRuntimeMajor
  if scriptRuntimeMinMajor ≤ major ∧ major ≤ scriptRuntimeMajor then none
  else
    let range :=
      if scriptRuntimeMinMajor = scriptRuntimeMajor then toString scriptRuntimeMajor
      else toString scriptRuntimeMinMajor ++ "–" ++ toString scriptRuntimeMajor
    some (.enkaku "E_RUNTIME_UNSUPPORTED" ("this script declares runtime.sdk " ++ toString major ++
      ", which this core does not support (supported: " ++ range ++
      ") — publish a new version targeting a supported SDK major"))

/-- `resolveRuntime`, its `maxConcurrent`, which has no farm layer. -/
def resolvedMaxConcurrent (script override : Option RuntimeEnvelope) : Int :=
  ((override.bind (·.maxConcurrent)) <|> (script.bind (·.maxConcurrent))).getD 0

/-- A script as the registry resolves it, as far as a trigger reads the entry. -/
structure TriggeredScript where
  id : String
  name : String
  version : String
  runtime : Option RuntimeEnvelope
  deriving DecidableEq, Repr

/-- What a script asks for; an omitted field is `none`. -/
structure TriggerInput where
  script : String
  params : Option Value := none
  deviceId : Option String := none
  priority : Option Int := none
  key : String
  /-- Omitted inherits the triggering job's; `null` means no expiry. -/
  expiresAt : Option (Option Int) := none

structure TriggerResult where
  jobId : String
  deduped : Bool
  deriving DecidableEq, Repr

structure TriggerBudgets where
  maxDepth : Nat
  maxPerChain : Nat
  maxPerJob : Nat
  deriving DecidableEq, Repr

/-- What a trigger reads besides the tables of the queue, and what the two inserts draw. -/
structure TriggerHost where
  /-- `registry.resolve`, as the registry stands. -/
  resolve : String → Except StoreError TriggeredScript
  /-- `devices.label`. -/
  deviceLabel : String → String
  budgets : TriggerBudgets
  job : Ambient
  run : Ambient

/-- The root of the chain a job is in, or would start. -/
def JobRow.chain (j : JobRow) : String := j.rootJobId.getD j.id

namespace Store

/-- The job of a chain that carries a key. -/
def triggered? (s : Store) (rootJobId key : String) : Option JobRow :=
  s.jobs.find? fun j ↦ j.rootJobId = some rootJobId && j.triggerKey = some key

/-- How many jobs a chain has produced; its root does not count. -/
def chainSize (s : Store) (rootJobId : String) : Nat :=
  s.jobs.countP fun j ↦ j.rootJobId = some rootJobId

/-- How many jobs a job has triggered. -/
def triggeredBy (s : Store) (jobId : String) : Nat :=
  s.jobs.countP fun j ↦ j.triggeredByJobId = some jobId

/-- The job a trigger inserts. -/
def triggerJob (from' : JobRow) (input : TriggerInput) (entry : TriggeredScript)
    (targetDeviceId : String) : CreateJobInput where
  kind := .script
  scriptId := some entry.id
  deviceId := targetDeviceId
  params := input.params.getD .null
  scriptName := some entry.name
  scriptVersion := some entry.version
  triggeredByJobId := some from'.id
  rootJobId := some from'.chain
  depth := some (from'.depth + 1)
  triggerKey := some input.key

/-- The run a trigger inserts. -/
def triggerRun (s : Store) (from' : JobRow) (input : TriggerInput) (entry : TriggeredScript) :
    AddRunInput where
  trigger := .manual
  priority := some (input.priority.getD 0)
  expiresAt := input.expiresAt.getD ((s.latestRun from'.id).bind (·.expiresAt))
  maxConcurrent := some (resolvedMaxConcurrent entry.runtime none)
  runtimeOverride := some .null

/-- The target device of a trigger must exist, and not be quarantined. -/
def checkTarget (s : Store) (host : TriggerHost) (targetDeviceId : String) :
    Except StoreError Unit :=
  match s.devices.find? fun d ↦ d.id = targetDeviceId with
  | none => .error (.enkaku "device_not_found" ("no such device: " ++ targetDeviceId))
  | some device =>
    if device.status = "quarantined" then
      .error (.enkaku "device_unavailable"
        ("device " ++ host.deviceLabel targetDeviceId ++ " is quarantined"))
    else .ok ()

/-- The three budgets of a trigger, in the order they are checked. -/
def checkBudgets (s : Store) (limits : TriggerBudgets) (from' : JobRow) : Except StoreError Unit :=
  let rootJobId := from'.chain
  let depth := from'.depth + 1
  if limits.maxDepth < depth then
    .error (.enkaku "E_TRIGGER_TOO_DEEP" ("trigger refused: this chain would reach depth " ++
      toString depth ++ ", past the farm's jobs.trigger.maxDepth (" ++ toString limits.maxDepth ++
      ")"))
  else if limits.maxPerChain ≤ s.chainSize rootJobId then
    .error (.enkaku "E_TRIGGER_CHAIN_FULL" ("trigger refused: chain " ++ rootJobId ++
      " already has " ++ toString (s.chainSize rootJobId) ++
      " jobs, at the farm's jobs.trigger.maxPerChain (" ++ toString limits.maxPerChain ++ ")"))
  else if limits.maxPerJob ≤ s.triggeredBy from'.id then
    .error (.enkaku "E_TRIGGER_FAN_OUT" ("trigger refused: this job has already triggered " ++
      toString (s.triggeredBy from'.id) ++ " jobs, at the farm's jobs.trigger.maxPerJob (" ++
      toString limits.maxPerJob ++ ")"))
  else .ok ()

/-- `trigger`, one transaction.  A key that is taken in the chain is answered before the script is
resolved, the device looked at, or a budget checked. -/
def trigger (s : Store) (host : TriggerHost) (from' : JobRow) (input : TriggerInput) :
    Except StoreError (TriggerResult × Store) :=
  match s.triggered? from'.chain input.key with
  | some existing => .ok (⟨existing.id, true⟩, s)
  | none => do
    let entry ← host.resolve input.script
    match checkRuntimeMajor (entry.runtime.bind (·.sdk)) with
    | some versionCheck => throw versionCheck
    | none =>
      let targetDeviceId := input.deviceId.getD from'.deviceId
      s.checkTarget host targetDeviceId
      s.checkBudgets host.budgets from'
      let (job, s₁) ← s.createJob host.job (triggerJob from' input entry targetDeviceId)
      let (_, s₂) ← s₁.addRun host.run job.id (s.triggerRun from' input entry)
      return (⟨job.id, false⟩, s₂)

end Store

/-- The call leaves the columns of a trigger empty in a job it creates: only a trigger fills
them. -/
def Op.Untriggered : Op → Prop
  | .createJob call => call.input.triggeredByJobId = none ∧ call.input.rootJobId = none ∧
      call.input.depth = none ∧ call.input.triggerKey = none
  | _ => True

instance : DecidablePred Op.Untriggered
  | .createJob call => inferInstanceAs (Decidable (call.input.triggeredByJobId = none ∧
      call.input.rootJobId = none ∧ call.input.depth = none ∧ call.input.triggerKey = none))
  | .addRun .. | .claimNext .. | .renewHeartbeat .. | .settle .. | .cancelQueuedRun ..
  | .expireQueued _ | .failOrphanRunning _ | .requeueForRebind .. | .paceRun .. | .deleteRuns _
  | .putDevice _ | .insertBatch _ => inferInstanceAs (Decidable True)

/-- One thing that happens to the jobs table. -/
inductive TriggerEvent where
  /-- A running script of a job triggers. -/
  | trigger (host : TriggerHost) (jobId : String) (input : TriggerInput)
  /-- Any other call on the tables. -/
  | other (op : Op)

namespace Store

/-- What an event does; `none` when it cannot happen.  A trigger reads its job's row first, and one
that throws is rolled back. -/
def triggerExec (s : Store) : TriggerEvent → Option Store
  | .trigger host jobId input =>
    match s.job? jobId with
    | none => some s
    | some from' => some (s.commit (s.trigger host from' input))
  | .other op => if op.Untriggered then s.exec op else none

/-! ## What a trigger does -/

/-- The columns that say where a job stands in its chain. -/
structure LineageKept (j j' : JobRow) : Prop where
  id : j'.id = j.id
  triggeredByJobId : j'.triggeredByJobId = j.triggeredByJobId
  rootJobId : j'.rootJobId = j.rootJobId
  depth : j'.depth = j.depth
  triggerKey : j'.triggerKey = j.triggerKey

theorem LineageKept.refl (j : JobRow) : LineageKept j j := ⟨rfl, rfl, rfl, rfl, rfl⟩

theorem LineageKept.chain {j j' : JobRow} (h : LineageKept j j') : j'.chain = j.chain := by
  rw [JobRow.chain, JobRow.chain, h.rootJobId, h.id]

theorem lineageKept_latestSet (jobId : String) (latestRunId : Option String) (n : Nat)
    (j : JobRow) : LineageKept j (latestSet jobId latestRunId n j) := by
  rw [latestSet]
  split
  · exact ⟨rfl, rfl, rfl, rfl, rfl⟩
  · exact LineageKept.refl j

theorem lineageKept_recounted (runs : List JobRunRow) (jobIds : List String) (j : JobRow) :
    LineageKept j (recounted runs jobIds j) := by
  rw [recounted]
  split
  · exact ⟨rfl, rfl, rfl, rfl, rfl⟩
  · exact LineageKept.refl j

/-- A job a trigger of `from'` with `key` may insert. -/
structure TriggeredBy (from' : JobRow) (key : String) (j : JobRow) : Prop where
  triggeredByJobId : j.triggeredByJobId = some from'.id
  rootJobId : j.rootJobId = some from'.chain
  depth : j.depth = from'.depth + 1
  triggerKey : j.triggerKey = some key

/-- All three budgets leave room for another job. -/
structure HasRoom (s : Store) (limits : TriggerBudgets) (from' : JobRow) : Prop where
  depth : from'.depth + 1 ≤ limits.maxDepth
  chain : s.chainSize from'.chain < limits.maxPerChain
  fanOut : s.triggeredBy from'.id < limits.maxPerJob

variable {s : Store} {limits : TriggerBudgets} {from' : JobRow}

theorem checkBudgets_ok (h : s.checkBudgets limits from' = .ok ()) : s.HasRoom limits from' := by
  rw [checkBudgets] at h
  split_ifs at h with hdepth hchain hfan
  exact ⟨by omega, by omega, by omega⟩

variable {result : TriggerResult} {input : TriggerInput} {host : TriggerHost} {s' : Store}

/-- **What a trigger that succeeds did**: it found the job of its key, or inserted one. -/
theorem trigger_ok (h : s.trigger host from' input = .ok (result, s')) :
    (∃ j, s.triggered? from'.chain input.key = some j ∧ result = ⟨j.id, true⟩ ∧ s' = s) ∨
      s.triggered? from'.chain input.key = none ∧ s.HasRoom host.budgets from' ∧
        ∃ j, TriggeredBy from' input.key j ∧ (∀ j' ∈ s.jobs, j'.id ≠ j.id) ∧
          result = ⟨j.id, false⟩ ∧
          ∃ g, (∀ j, LineageKept j (g j)) ∧ s'.jobs = (s.jobs ++ [j]).map g := by
  rw [trigger] at h
  cases hfound : s.triggered? from'.chain input.key with
  | some j =>
    rw [hfound] at h
    cases h
    exact .inl ⟨j, rfl, rfl, rfl⟩
  | none =>
    rw [hfound] at h
    refine .inr ⟨rfl, ?_⟩
    obtain ⟨entry, -, h⟩ := Throwing.exists_of_bind_eq_ok h
    cases hversion : checkRuntimeMajor (entry.runtime.bind (·.sdk)) with
    | some e =>
      rw [hversion] at h
      exact nomatch h
    | none =>
      rw [hversion] at h
      obtain ⟨-, -, h⟩ := Throwing.exists_of_bind_eq_ok h
      obtain ⟨⟨⟩, hbudgets, h⟩ := Throwing.exists_of_bind_eq_ok h
      obtain ⟨⟨job, s₁⟩, hcreate, h⟩ := Throwing.exists_of_bind_eq_ok h
      obtain ⟨⟨run, s₂⟩, hadd, h⟩ := Throwing.exists_of_bind_eq_ok h
      obtain ⟨rfl, hid, rfl⟩ := createJob_ok hcreate
      obtain ⟨job', -, -, -, -, rfl⟩ := addRun_ok hadd
      cases h
      refine ⟨checkBudgets_ok hbudgets, _, ⟨rfl, rfl, rfl, rfl⟩, hid, rfl,
        latestSet job'.id (some run.id) run.seq, lineageKept_latestSet _ _ _, ?_⟩
      rw [setLatest_eq]

/-- What any other call leaves of the jobs: it keeps where they stand, and a job it adds stands in
no chain. -/
theorem jobs_of_exec {op : Op} (hop : op.Untriggered) (h : s.exec op = some s') :
    ∃ g new, (∀ j, LineageKept j (g j)) ∧ s'.jobs = s.jobs.map g ++ new ∧
      ∀ j ∈ new, j.triggeredByJobId = none ∧ j.rootJobId = none := by
  have hsame : ∃ g new, (∀ j, LineageKept j (g j)) ∧ s.jobs = s.jobs.map g ++ new ∧
      ∀ j ∈ new, j.triggeredByJobId = none ∧ j.rootJobId = none :=
    ⟨id, [], LineageKept.refl, by simp, by simp⟩
  cases op with
  | createJob call =>
    cases h
    obtain ⟨hby, hroot, -, -⟩ := hop
    cases hc : s.createJob call.env call.input with
    | error e => exact hsame
    | ok p =>
      obtain ⟨j, s₁⟩ := p
      obtain ⟨rfl, -, rfl⟩ := createJob_ok hc
      refine ⟨id, [newJob call.env call.input], LineageKept.refl, by rw [map_id]; rfl,
        fun j hj ↦ ?_⟩
      obtain rfl := mem_singleton.mp hj
      exact ⟨hby, hroot⟩
  | addRun env jobId input =>
    cases h
    cases hc : s.addRun env jobId input with
    | error e => exact hsame
    | ok p =>
      obtain ⟨r, s₁⟩ := p
      obtain ⟨job, -, -, -, -, rfl⟩ := addRun_ok hc
      rw [commit, setLatest_eq]
      exact ⟨_, [], lineageKept_latestSet job.id (some r.id) r.seq, by simp, by simp⟩
  | claimNext now jobTtlSec excludeDeviceIds c =>
    rw [exec] at h
    split at h
    · cases h
      exact hsame
    · cases h
  | renewHeartbeat now runId ttlSec =>
    cases h
    exact hsame
  | settle now runId input =>
    cases h
    rw [settle]
    split <;> exact hsame
  | cancelQueuedRun now runId =>
    cases h
    rw [cancelQueuedRun]
    split <;> exact hsame
  | expireQueued now =>
    cases h
    exact hsame
  | failOrphanRunning now =>
    cases h
    exact hsame
  | requeueForRebind runId newDeviceId =>
    cases h
    rw [requeueForRebind]
    split
    · exact hsame
    · rename_i before _
      refine ⟨fun j ↦ if decide (j.id = before.jobId) then { j with deviceId := newDeviceId } else j,
        [], fun j ↦ ?_, by rw [append_nil]; rfl, by simp⟩
      dsimp only
      split
      · exact ⟨rfl, rfl, rfl, rfl, rfl⟩
      · exact LineageKept.refl j
  | paceRun runId p =>
    cases h
    exact hsame
  | deleteRuns runIds =>
    cases h
    rw [deleteRuns, foldl_recount_eq]
    exact ⟨_, [], lineageKept_recounted _ _, by rw [append_nil], by simp⟩
  | putDevice d =>
    cases h
    exact hsame
  | insertBatch b =>
    cases h
    rw [insertBatch]
    split <;> exact hsame

/-- What a call adds to the jobs: jobs of no chain, or the one a trigger inserts. -/
inductive Inserted (s : Store) (limits : TriggerBudgets) : List JobRow → Prop
  | untriggered {new : List JobRow}
      (h : ∀ j ∈ new, j.triggeredByJobId = none ∧ j.rootJobId = none) : Inserted s limits new
  | triggered {from' j : JobRow} {key : String} (hfrom : from' ∈ s.jobs)
      (hby : TriggeredBy from' key j) (hroom : s.HasRoom limits from')
      (hfree : s.triggered? from'.chain key = none) : Inserted s limits [j]

/-- The jobs after a call: those from before, where they stood, and what the call adds. -/
def Extends (s : Store) (limits : TriggerBudgets) (s' : Store) : Prop :=
  ∃ g new, (∀ j, LineageKept j (g j)) ∧ s'.jobs = s.jobs.map g ++ new ∧ s.Inserted limits new

theorem Extends.refl (s : Store) (limits : TriggerBudgets) : s.Extends limits s :=
  ⟨id, [], LineageKept.refl, by simp, .untriggered (by simp)⟩

theorem extends_of_trigger (hfrom : from' ∈ s.jobs)
    (h : s.trigger host from' input = .ok (result, s')) : s.Extends host.budgets s' := by
  rcases trigger_ok h with ⟨_, -, -, rfl⟩ | ⟨hfree, hroom, j, hby, -, -, g, hg, hjobs⟩
  · exact Extends.refl _ _
  · refine ⟨g, [g j], hg, by rw [hjobs, map_append, map_singleton], ?_⟩
    refine .triggered hfrom ⟨?_, ?_, ?_, ?_⟩ hroom hfree
    · rw [(hg j).triggeredByJobId, hby.triggeredByJobId]
    · rw [(hg j).rootJobId, hby.rootJobId]
    · rw [(hg j).depth, hby.depth]
    · rw [(hg j).triggerKey, hby.triggerKey]

/-- The trigger of an event, if it is one, is checked against these budgets. -/
def Within (limits : TriggerBudgets) (_ : Store) : TriggerEvent → Prop
  | .trigger host _ _ => host.budgets = limits
  | .other _ => True

instance (limits : TriggerBudgets) (s : Store) : DecidablePred (Within limits s)
  | .trigger host _ _ => inferInstanceAs (Decidable (host.budgets = limits))
  | .other _ => inferInstanceAs (Decidable True)

theorem extends_of_triggerExec {e : TriggerEvent} (hwithin : Within limits s e)
    (h : s.triggerExec e = some s') : s.Extends limits s' := by
  cases e with
  | trigger host jobId input =>
    obtain rfl : host.budgets = limits := hwithin
    rw [triggerExec] at h
    cases hfrom : s.job? jobId with
    | none =>
      rw [hfrom] at h
      cases h
      exact Extends.refl s _
    | some from' =>
      rw [hfrom] at h
      cases h
      cases ht : s.trigger host from' input with
      | error e => exact Extends.refl s _
      | ok p => exact extends_of_trigger (job?_some hfrom).1 ht
  | other op =>
    rw [triggerExec] at h
    split at h
    · rename_i hop
      obtain ⟨g, new, hg, hjobs, hnew⟩ := jobs_of_exec hop h
      exact ⟨g, new, hg, hjobs, .untriggered hnew⟩
    · cases h

/-- Some budgets every event is within. -/
theorem exists_within (s : Store) (e : TriggerEvent) : ∃ limits, Within limits s e := by
  cases e with
  | trigger host _ _ => exact ⟨host.budgets, rfl⟩
  | other _ => exact ⟨⟨0, 0, 0⟩, trivial⟩

/-! ## Counting -/

/-- A property of jobs that reads only where they stand in their chain. -/
def OfLineage (p : JobRow → Bool) : Prop := ∀ j j', LineageKept j j' → p j' = p j

theorem ofLineage_chain (rootJobId : String) : OfLineage fun j ↦ j.rootJobId = some rootJobId :=
  fun _ _ h ↦ by simp only [h.rootJobId]

theorem ofLineage_triggeredBy (jobId : String) : OfLineage fun j ↦ j.triggeredByJobId = some jobId :=
  fun _ _ h ↦ by simp only [h.triggeredByJobId]

theorem ofLineage_key (rootJobId key : String) :
    OfLineage fun j ↦ j.rootJobId = some rootJobId && j.triggerKey = some key :=
  fun _ _ h ↦ by simp only [h.rootJobId, h.triggerKey]

/-- **A counter that a trigger checks stays within its bound**: a job of no chain is not counted,
and one a trigger inserts is counted only where there was room. -/
theorem Extends.countP_le (h : s.Extends limits s') {p : JobRow → Bool} (hp : OfLineage p)
    {n : Nat} (hn : s.jobs.countP p ≤ n)
    (hno : ∀ j, j.triggeredByJobId = none → j.rootJobId = none → p j = false)
    (hroom : ∀ from' ∈ s.jobs, ∀ key j, TriggeredBy from' key j → s.HasRoom limits from' →
      s.triggered? from'.chain key = none → p j = true → s.jobs.countP p < n) :
    s'.jobs.countP p ≤ n := by
  obtain ⟨g, new, hg, hjobs, hnew⟩ := h
  have hkept : (s.jobs.map g).countP p = s.jobs.countP p := by
    rw [countP_map]
    refine countP_congr fun j _ ↦ ?_
    rw [Function.comp_apply, hp j (g j) (hg j)]
  rw [hjobs, countP_append, hkept]
  cases hnew with
  | untriggered hnone =>
    have hzero : new.countP p = 0 := by
      refine countP_eq_zero.mpr fun j hj ↦ ?_
      rw [hno j (hnone j hj).1 (hnone j hj).2]
      decide
    rwa [hzero, Nat.add_zero]
  | @triggered from' j key hfrom hby hlimits hfree =>
    rw [countP_singleton]
    split
    · exact hroom from' hfrom key j hby hlimits hfree ‹_›
    · rwa [Nat.add_zero]

/-! ## Keys -/

/-- No two jobs of a chain carry one key. -/
def Keyed (s : Store) : Prop := ∀ rootJobId key,
  s.jobs.countP (fun j ↦ j.rootJobId = some rootJobId && j.triggerKey = some key) ≤ 1

/-- The job of a chain that carries a key is in the table under this id. -/
def HasKey (s : Store) (rootJobId key jobId : String) : Prop :=
  ∃ j ∈ s.jobs, j.rootJobId = some rootJobId ∧ j.triggerKey = some key ∧ j.id = jobId

theorem Keyed.extends (h : s.Keyed) (he : s.Extends limits s') : s'.Keyed := by
  intro rootJobId key
  refine he.countP_le (ofLineage_key rootJobId key) (h rootJobId key) ?_ ?_
  · intro j _ hroot
    simp [hroot]
  · intro from' _ key' j hby _ hfree hj
    have hj' : j.rootJobId = some rootJobId ∧ j.triggerKey = some key := by simpa using hj
    cases hby.rootJobId.symm.trans hj'.1
    cases hby.triggerKey.symm.trans hj'.2
    refine Nat.lt_one_iff.mpr (countP_eq_zero.mpr fun j' hj' ↦ ?_)
    exact find?_eq_none.mp hfree j' hj'

theorem HasKey.extends {rootJobId key jobId : String} (h : s.HasKey rootJobId key jobId)
    (he : s.Extends limits s') : s'.HasKey rootJobId key jobId := by
  obtain ⟨j, hj, hroot, hkey, hid⟩ := h
  obtain ⟨g, new, hg, hjobs, -⟩ := he
  refine ⟨g j, ?_, (hg j).rootJobId.trans hroot, (hg j).triggerKey.trans hkey, (hg j).id.trans hid⟩
  rw [hjobs]
  exact mem_append_left _ (mem_map_of_mem hj)

/-- What was triggered stands under its chain and key. -/
theorem hasKey_of_trigger (h : s.trigger host from' input = .ok (result, s')) :
    s'.HasKey from'.chain input.key result.jobId := by
  rcases trigger_ok h with ⟨j, hj, rfl, rfl⟩ | ⟨-, -, j, hby, -, rfl, g, hg, hjobs⟩
  · have hkey : j.rootJobId = some from'.chain ∧ j.triggerKey = some input.key := by
      simpa using find?_some hj
    exact ⟨j, mem_of_find?_eq_some hj, hkey.1, hkey.2, rfl⟩
  · refine ⟨g j, ?_, (hg j).rootJobId.trans hby.rootJobId, (hg j).triggerKey.trans hby.triggerKey,
      (hg j).id⟩
    rw [hjobs]
    exact mem_map_of_mem (mem_append_right _ (mem_singleton.mpr rfl))

theorem Keyed.triggered?_eq (h : s.Keyed) {rootJobId key jobId : String}
    (hkey : s.HasKey rootJobId key jobId) : ∃ j, s.triggered? rootJobId key = some j ∧ j.id = jobId := by
  obtain ⟨j, hj, hroot, hjkey, hid⟩ := hkey
  cases hfound : s.triggered? rootJobId key with
  | none => simpa [hroot, hjkey] using find?_eq_none.mp hfound j hj
  | some j' =>
    refine ⟨j', rfl, ?_⟩
    have hone := h rootJobId key
    rw [countP_eq_length_filter] at hone
    have hin : j ∈ s.jobs.filter fun j ↦ j.rootJobId = some rootJobId && j.triggerKey = some key :=
      mem_filter.mpr ⟨hj, by simp [hroot, hjkey]⟩
    have hin' := mem_filter.mpr ⟨mem_of_find?_eq_some hfound, find?_some hfound⟩
    obtain ⟨a, ha⟩ := length_eq_one_iff.mp
      (le_antisymm hone (length_pos_of_mem hin))
    rw [ha, mem_singleton] at hin hin'
    rw [hin', ← hin, hid]

/-- **A key that is taken is answered with its job**, whatever the host says by then. -/
theorem Keyed.trigger_again (h : s.Keyed) {jobId : String}
    (hkey : s.HasKey from'.chain input.key jobId) (host : TriggerHost) :
    s.trigger host from' input = .ok (⟨jobId, true⟩, s) := by
  obtain ⟨j, hj, rfl⟩ := h.triggered?_eq hkey
  rw [trigger, hj]

/-! ## Budgets -/

/-- What the budgets and the keys promise of the jobs table. -/
structure Chained (limits : TriggerBudgets) (s : Store) : Prop where
  chain : ∀ rootJobId, s.chainSize rootJobId ≤ limits.maxPerChain
  fanOut : ∀ jobId, s.triggeredBy jobId ≤ limits.maxPerJob
  /-- A triggered job is of the chain of the job that triggered it, one deeper. -/
  lineage : ∀ j ∈ s.jobs, ∀ id, j.triggeredByJobId = some id → ∃ by' ∈ s.jobs, by'.id = id ∧
    j.rootJobId = some by'.chain ∧ j.depth = by'.depth + 1 ∧ j.depth ≤ limits.maxDepth
  keyed : s.Keyed

theorem Chained.empty (limits : TriggerBudgets) : Chained limits Store.empty where
  chain _ := Nat.zero_le _
  fanOut _ := Nat.zero_le _
  lineage _ hj := nomatch hj
  keyed _ _ := Nat.zero_le _

theorem Chained.extends (h : Chained limits s) (he : s.Extends limits s') : Chained limits s' := by
  refine ⟨fun rootJobId ↦ ?_, fun jobId ↦ ?_, ?_, h.keyed.extends he⟩
  · refine he.countP_le (ofLineage_chain rootJobId) (h.chain rootJobId) ?_ ?_
    · intro j _ hroot
      simp [hroot]
    · intro from' _ key j hby hroom _ hj
      cases hby.rootJobId.symm.trans (of_decide_eq_true hj)
      exact hroom.chain
  · refine he.countP_le (ofLineage_triggeredBy jobId) (h.fanOut jobId) ?_ ?_
    · intro j hnone _
      simp [hnone]
    · intro from' _ key j hby hroom _ hj
      cases hby.triggeredByJobId.symm.trans (of_decide_eq_true hj)
      exact hroom.fanOut
  · obtain ⟨g, new, hg, hjobs, hnew⟩ := he
    -- the job that triggered is found again where it stood
    have hback : ∀ p ∈ s.jobs, g p ∈ s'.jobs := by
      intro p hp
      rw [hjobs]
      exact mem_append_left _ (mem_map_of_mem hp)
    intro j' hj' id hid
    rw [hjobs] at hj'
    rcases mem_append.mp hj' with hj' | hj'
    · obtain ⟨j, hj, rfl⟩ := mem_map.mp hj'
      rw [(hg j).triggeredByJobId] at hid
      obtain ⟨p, hp, hpid, hroot, hdepth, hmax⟩ := h.lineage j hj id hid
      refine ⟨g p, hback p hp, (hg p).id.trans hpid, ?_, ?_, ?_⟩
      · rw [(hg j).rootJobId, hroot, (hg p).chain]
      · rw [(hg j).depth, hdepth, (hg p).depth]
      · rwa [(hg j).depth]
    · cases hnew with
      | untriggered hnone =>
        rw [(hnone j' hj').1] at hid
        cases hid
      | @triggered from' j key hfrom hby hroom _ =>
        obtain rfl := mem_singleton.mp hj'
        cases hby.triggeredByJobId.symm.trans hid
        refine ⟨g from', hback from' hfrom, (hg from').id, ?_, ?_, ?_⟩
        · rw [hby.rootJobId, (hg from').chain]
        · rw [hby.depth, (hg from').depth]
        · rw [hby.depth]
          exact hroom.depth

/-- **Trigger chains.**  In every run from an empty table whose triggers are checked against the same
budgets, `Chained` holds throughout; a trigger that is refused leaves the tables as they are; and one
that succeeded is answered, whenever it is repeated after any further events, with the same job and
without a write. -/
theorem trigger_chains {limits : TriggerBudgets} {es : List TriggerEvent} {s : Store}
    (h : Steps.Guarded (Steps.By triggerExec) (Within limits) empty es s) :
    Chained limits s ∧ ∀ host from' input, from' ∈ s.jobs →
      (∀ e, s.trigger host from' input = .error e → s.commit (s.trigger host from' input) = s) ∧
      ∀ result s₁, s.trigger host from' input = .ok (result, s₁) →
        ∀ es' s', Steps (Steps.By triggerExec) s₁ es' s' →
          ∀ host' from'' input', from''.chain = from'.chain → input'.key = input.key →
            s'.trigger host' from'' input' = .ok (⟨result.jobId, true⟩, s') := by
  have hchained : Chained limits s :=
    Steps.invariant_of_guarded h (Chained.empty limits) fun _ _ _ hi he hw ↦
      hi.extends (extends_of_triggerExec hw he)
  refine ⟨hchained, fun host from' input hfrom ↦ ⟨fun e he ↦ by rw [he]; rfl, ?_⟩⟩
  intro result s₁ ht es' s' hrun host' from'' input' hchain hkey
  have hlater : s'.Keyed ∧ s'.HasKey from'.chain input.key result.jobId := by
    refine hrun.invariant (I := fun s ↦ s.Keyed ∧ s.HasKey from'.chain input.key result.jobId)
      ⟨hchained.keyed.extends (extends_of_trigger hfrom ht), hasKey_of_trigger ht⟩ ?_
    intro s e t hi he
    obtain ⟨limits', hw⟩ := exists_within s e
    have hext := extends_of_triggerExec hw he
    exact ⟨hi.1.extends hext, hi.2.extends hext⟩
  refine hlater.1.trigger_again ?_ host'
  rw [hchain, hkey]
  exact hlater.2

/-! ## A trigger made twice -/

section Twice

/-- A farm with one script, which draws `uuid` for a new job and `runUuid` for its run. -/
def oneScript (limits : TriggerBudgets) (uuid runUuid : String) : TriggerHost where
  resolve ref :=
    if ref = "warmup@1.0.0" then .ok ⟨"script", "warmup", "1.0.0", none⟩
    else .error (.enkaku "script_not_found" ("no script named \"" ++ ref ++ "\""))
  deviceLabel id := id
  budgets := limits
  job := ⟨1, uuid, 0⟩
  run := ⟨1, runUuid, 0⟩

def warmup : TriggerInput where
  script := "warmup@1.0.0"
  key := "warmup"

theorem none_ne_uuid (uuid : String) : (none : Option String) ≠ some uuid :=
  (Option.some_ne_none uuid).symm

/-- A phone with a running script. -/
def triggering : List TriggerEvent :=
  [.other (.putDevice ⟨"phone", "online"⟩),
    .other (.createJob ⟨⟨0, "job", 1⟩, { kind := .script, deviceId := "phone", params := .null },
      none_ne_uuid "job"⟩),
    .other (.addRun ⟨0, "run", 1⟩ "job" { trigger := .manual }),
    .trigger (oneScript ⟨2, 2, 2⟩ "first" "first-run") "job" warmup]

def triggeringEnd : Store := (triggering.foldlM triggerExec empty).getD empty

/-- The second trigger of the key is answered with the first one's job, though the farm has lowered
its budgets to nothing and the phone is quarantined by then. -/
theorem trigger_chains_twice : Chained ⟨2, 2, 2⟩ triggeringEnd ∧
    triggeringEnd.jobs.map (fun j ↦ (j.id, j.rootJobId, j.depth)) =
      [("job", none, 0), ("first", some "job", 1)] ∧
    ∀ from' ∈ triggeringEnd.jobs, from'.id = "job" →
      (triggeringEnd.putDevice ⟨"phone", "quarantined"⟩).trigger
          (oneScript ⟨0, 0, 0⟩ "second" "second-run") from' warmup =
        .ok (⟨"first", true⟩, triggeringEnd.putDevice ⟨"phone", "quarantined"⟩) := by
  have hrun := @trigger_chains ⟨2, 2, 2⟩ triggering triggeringEnd
    (Steps.guarded_by_iff.mpr (by decide +kernel))
  refine ⟨hrun.1, by decide +kernel, fun from' hfrom hid ↦ ?_⟩
  -- the key is taken already, so triggering once more is the first trigger of the two
  have hfirst : ∃ j, triggeringEnd.triggered? from'.chain "warmup" = some j ∧ j.id = "first" := by
    have hall : ∀ p ∈ triggeringEnd.jobs, p.id = "job" →
        ∃ j ∈ triggeringEnd.jobs, triggeringEnd.triggered? p.chain "warmup" = some j ∧
          j.id = "first" := by decide +kernel
    obtain ⟨j, -, h⟩ := hall from' hfrom hid
    exact ⟨j, h⟩
  obtain ⟨j, hj, hjid⟩ := hfirst
  have honce : triggeringEnd.trigger (oneScript ⟨2, 2, 2⟩ "first" "first-run") from' warmup =
      .ok (⟨j.id, true⟩, triggeringEnd) := by
    rw [trigger, show warmup.key = "warmup" from rfl, hj]
  rw [← hjid]
  refine (hrun.2 _ from' warmup hfrom).2 _ _ honce
    [.other (.putDevice ⟨"phone", "quarantined"⟩)] _ ?_ _ from' warmup rfl rfl
  exact Steps.single rfl

end Twice

end Store

end Enkaku
