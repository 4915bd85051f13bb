import Enkaku.Jobs.HostIsolation

/-!
# Cancels

An abort asks an executor to stop; the run is settled by whatever ends first — its promise, the
reaper, or the force-stop timers the abort armed.  Whether a failing settle requeues the run depends
on how the failure is classified, on the batch, the settings and the cap, and not on the abort.
`cancel_final_iff` says what that leaves: the aborted run only ever leaves `running` for a terminal
status if and only if, while it is running, nothing settles it as a failure of the farm.
-/

set_option autoImplicit false

namespace Enkaku

open Option

namespace Store

/-! ## A run that is not in the queue -/

/-- The run exists and is not queued. -/
structure NotQueued (runId : String) (s : Store) : Prop where
  exists_row : ∃ r ∈ s.runs, r.id = runId
  not_queued : ∀ r ∈ s.runs, r.id = runId → r.status ≠ .queued

namespace NotQueued

variable {runId : String} {s : Store}

section

variable (h : NotQueued runId s)
include h

/-- Rewriting rows in place puts no run in the queue if no row is rewritten to `queued`. -/
theorem mapRuns {f : JobRunRow → JobRunRow} (hid : ∀ r, (f r).id = r.id)
    (hstatus : ∀ r ∈ s.runs, r.id = runId → (f r).status = .queued → r.status = .queued)
    (jobs : List JobRow) : NotQueued runId { s with runs := s.runs.map f, jobs := jobs } := by
  refine ⟨?_, fun r' hr' hid' hq ↦ ?_⟩
  · obtain ⟨r, hr, hrid⟩ := h.exists_row
    exact ⟨f r, List.mem_map_of_mem hr, (hid r).trans hrid⟩
  · obtain ⟨r, hr, rfl⟩ := List.mem_map.mp hr'
    have hrid := (hid r).symm.trans hid'
    exact h.not_queued r hr hrid (hstatus r hr hrid hq)

/-- An update whose rows are not left queued. -/
theorem update {p : JobRunRow → Bool} {set : JobRunRow → JobRunRow}
    (hid : ∀ r, (set r).id = r.id) (hstatus : ∀ r, (set r).status = .queued → r.status = .queued) :
    NotQueued runId { s with runs := Sql.update p set s.runs } := by
  refine h.mapRuns (fun r ↦ ?_) (fun r _ _ hq ↦ ?_) s.jobs
  · split
    · exact hid r
    · rfl
  · split at hq
    · exact hstatus r hq
    · exact hq

theorem settle (now : Int) (id : String) (input : SettleRunInput) :
    NotQueued runId (s.settle now id input).2 := by
  rw [Store.settle]
  split
  · exact h
  · refine h.update (fun _ ↦ rfl) fun r hq ↦ ?_
    have hterminal := input.status.terminal_toRunStatus
    rw [show input.status.toRunStatus = .queued from hq] at hterminal
    cases hterminal

theorem claimRow (now jobTtlSec : Int) (c : Candidate) : NotQueued runId (s.claimRow now jobTtlSec c) :=
  h.update (fun _ ↦ rfl) fun r hq ↦ by cases hq

/-- A rebind of another run, or of this one when it is not running, leaves this one out of the
queue. -/
theorem requeueForRebind {id : String} (newDeviceId : String)
    (hid : id = runId → s.runIn? runId .running = none) :
    NotQueued runId (s.requeueForRebind id newDeviceId).2 := by
  rw [Store.requeueForRebind]
  split
  · exact h
  · rename_i before hb
    refine h.mapRuns (fun r ↦ ?_) (fun r hr hrid hq ↦ ?_) _
    · split <;> rfl
    · by_cases hr' : r.id = id
      · have hnone := hid (hr'.symm.trans hrid)
        rw [← hrid, hr', hb] at hnone
        cases hnone
      · rwa [if_neg (by simpa using hr')] at hq

/-- No call made beside the host puts an existing run in the queue. -/
theorem exec {s' : Store} {op : Op} (hop : op.isBeside = true)
    (hexec : s.exec op = some s') : NotQueued runId s' := by
  cases op with
  | createJob call =>
    cases hexec
    cases hc : s.createJob call.env call.input with
    | error e => exact h
    | ok p =>
      obtain ⟨j, s₁⟩ := p
      obtain ⟨-, -, rfl⟩ := createJob_ok hc
      exact ⟨h.exists_row, h.not_queued⟩
  | addRun env jobId input =>
    cases hexec
    cases hc : s.addRun env jobId input with
    | error e => exact h
    | ok p =>
      obtain ⟨r, s₁⟩ := p
      obtain ⟨job, -, rfl, hid, -, rfl⟩ := addRun_ok hc
      obtain ⟨r₀, hr₀, hid₀⟩ := h.exists_row
      refine ⟨⟨r₀, List.mem_append_left _ hr₀, hid₀⟩, fun r' hr' hid' ↦ ?_⟩
      rcases List.mem_append.mp hr' with hr' | hr'
      · exact h.not_queued r' hr' hid'
      · rw [List.mem_singleton.mp hr'] at hid'
        exact absurd (hid₀.trans hid'.symm) (hid r₀ hr₀)
  | cancelQueuedRun now id =>
    cases hexec
    rw [Store.cancelQueuedRun]
    split
    · exact h
    · exact h.update (fun _ ↦ rfl) fun r hq ↦ by cases hq
  | expireQueued now =>
    cases hexec
    exact h.update (fun _ ↦ rfl) fun r hq ↦ by cases hq
  | paceRun id p =>
    cases hexec
    exact h.update (fun _ ↦ rfl) fun r hq ↦ hq
  | putDevice d =>
    cases hexec
    exact ⟨h.exists_row, h.not_queued⟩
  | insertBatch b =>
    cases hexec
    rw [Store.insertBatch]
    split
    · exact h
    · exact ⟨h.exists_row, h.not_queued⟩
  | _ => cases hop

end

end NotQueued

end Store

namespace Host

variable {deps : HostDeps} {h h' : Host} {runId : String}

/-! ## Which settles requeue -/

section Settle

variable {now : Int} {job : JobRow} {run : JobRunRow} {status : SettleStatus} {data : SettleData}

theorem settle_store_of_rebinds (deps : HostDeps) (now : Int)
    (hr : rebinds h.settings job run status data = true) : ∃ newDeviceId,
      (h.settle deps now job run status data).store =
        (h.store.requeueForRebind run.id newDeviceId).2 := by
  rw [settle, if_pos hr, requeueForRebind, dropEntry_store]
  exact ⟨_, rfl⟩

theorem settle_store_of_not_rebinds (hr : rebinds h.settings job run status data = false) :
    (h.settle deps now job run status data).store =
      (h.store.settle now run.id (settleInput deps h.settings job run status data)).2 := by
  rw [settle, if_neg (by simp [hr]), dropEntry_store]

/-- Only a failure is ever rebound. -/
theorem rebinds_eq_false (settings : HostSettings) (hs : status ≠ .failed) :
    rebinds settings job run status data = false := by
  simp [rebinds, hs]

/-- A settle keeps a run out of the queue unless it rebinds it while it is running. -/
theorem notQueued_settle (hq : h.store.NotQueued runId)
    (hr : rebinds h.settings job run status data = true → run.id = runId →
      h.store.runIn? runId .running = none) :
    (h.settle deps now job run status data).store.NotQueued runId := by
  cases hb : rebinds h.settings job run status data with
  | true =>
    obtain ⟨newDeviceId, hs⟩ := settle_store_of_rebinds deps now hb
    rw [hs]
    exact hq.requeueForRebind newDeviceId (hr hb)
  | false =>
    rw [settle_store_of_not_rebinds hb]
    exact hq.settle now run.id _

end Settle

/-- The event settles the run as a failure of the farm that is rebound: a rejection of one of its
attempts while an entry is registered, or an external finish. -/
def SettlesAsInfra (runId : String) (h : Host) : HostEvent → Prop
  | .reject _ i err => ∃ a, h.attempts[i]? = some a ∧ a.run.id = runId ∧
      (h.running runId).isSome = true ∧
      rebinds h.settings a.job a.run (thrownStatus err) (thrownData a err) = true
  | .finishExternally _ id status error code => ∃ run job,
      ((h.entry? id).map (·.run)).or (h.store.run? id) = some run ∧ run.id = runId ∧
      h.store.job? run.jobId = some job ∧
      rebinds h.settings job run status { error := some error, code := code } = true
  | _ => False

/-- While the run is running, the event does not settle it as a failure of the farm. -/
def NoInfraSettle (runId : String) (h : Host) (e : HostEvent) : Prop :=
  (h.store.runIn? runId .running).isSome = true → ¬ h.SettlesAsInfra runId e

/-- The event leaves the run running or in a terminal status, and does not claim it. -/
def StaysOut (deps : HostDeps) (runId : String) (h : Host) (e : HostEvent) : Prop :=
  (∀ h', h.step deps e = some h' → ∀ r ∈ h'.store.runs, r.id = runId →
    r.status = .running ∨ r.status.terminal = true) ∧
  ∀ now excludeDeviceIds c, e = .claim now excludeDeviceIds c → c.run.id ≠ runId

/-! ## One event -/

/-- **Out of the queue stays out of the queue**, when the event is not a failure of the farm. -/
theorem notQueued_step {e : HostEvent} (hq : h.store.NotQueued runId)
    (hno : h.NoInfraSettle runId e) (hstep : h.step deps e = some h') : h'.store.NotQueued runId := by
  have hnone : h.SettlesAsInfra runId e → h.store.runIn? runId .running = none := by
    intro hs
    by_contra hrun
    exact hno (isSome_iff_ne_none.mpr hrun) hs
  cases e with
  | claim now ex c =>
    rw [step, ite_none_right_eq_some] at hstep
    obtain ⟨hrow, hret⟩ := hstep
    cases hret
    have hc := Store.claimed_of_mem_claimable hrow.1
    have hne : c.run.id ≠ runId := fun hid ↦ hq.not_queued c.run hc.run_mem hid hc.queued
    have hclaim := hq.claimRow now deps.jobTtlSec c
    rw [claim, start]
    split
    · exact hclaim
    · exact notQueued_settle (h := { h with store := h.store.claimRow now deps.jobTtlSec c })
        hclaim fun _ hid ↦ absurd hid hne
  | resolve now i result =>
    simp only [step, bind_eq_bind, bind_eq_some_iff, ite_none_right_eq_some] at hstep
    obtain ⟨a, -, -, hret⟩ := hstep
    cases hret
    rw [onResolved]
    split
    · exact notQueued_settle hq fun hr ↦ by simp [rebinds_eq_false] at hr
    · exact hq
  | reject now i err =>
    simp only [step, bind_eq_bind, bind_eq_some_iff, ite_none_right_eq_some] at hstep
    obtain ⟨a, ha, -, hret⟩ := hstep
    cases hret
    rw [onRejected]
    split
    · rename_i hsome
      exact notQueued_settle hq fun hr hid ↦ hnone ⟨a, ha, hid, hid ▸ hsome, hr⟩
    · exact hq
  | budgetTimer now i error =>
    simp only [step, bind_eq_bind, bind_eq_some_iff, ite_none_right_eq_some] at hstep
    obtain ⟨a, -, -, hret⟩ := hstep
    cases hret
    rw [onBudgetTimer]
    split
    · exact notQueued_settle hq fun hr ↦ by simp [rebinds_eq_false] at hr
    · exact hq
  | finishExternally now id status error code =>
    cases hstep
    rw [finishExternally]
    split
    · exact hq
    · rename_i run hrun
      split
      · exact hq
      · rename_i job hjob
        have hset : ∀ h₁ : Host, h₁.store = h.store → h₁.settings = h.settings →
            (h₁.settle deps now job run status
              { error := some error, code := code }).store.NotQueued runId := by
          intro h₁ hstore hsettings
          refine notQueued_settle (hstore ▸ hq) fun hr hid ↦ ?_
          rw [hstore]
          exact hnone ⟨run, job, hrun, hid, hjob, hsettings ▸ hr⟩
        cases h.running id with
        | none => exact hset h rfl rfl
        | some i => exact hset _ rfl rfl
  | abort id =>
    cases hstep
    rw [abort]
    cases h.running id with
    | none => exact hq
    | some i => exact hq
  | heartbeat now i =>
    simp only [step, bind_eq_bind, bind_eq_some_iff] at hstep
    obtain ⟨a, -, hret⟩ := hstep
    cases hret
    exact hq.update (fun _ ↦ rfl) fun r hs ↦ hs
  | heartbeatTick now i =>
    simp only [step, bind_eq_bind, bind_eq_some_iff, ite_none_right_eq_some] at hstep
    obtain ⟨a, -, -, hret⟩ := hstep
    cases hret
    exact hq.update (fun _ ↦ rfl) fun r hs ↦ hs
  | beside op =>
    rw [step, ite_none_right_eq_some, map_eq_some_iff] at hstep
    obtain ⟨hop, s, hs, rfl⟩ := hstep
    exact hq.exec hop hs
  | readiness i held | killTimer i =>
    simp only [step, bind_eq_bind, bind_eq_some_iff, ite_none_right_eq_some] at hstep
    obtain ⟨a, -, -, hret⟩ := hstep
    cases hret
    exact hq
  | onCrash i | onForceKill i =>
    simp only [step, bind_eq_bind, bind_eq_some_iff] at hstep
    obtain ⟨a, -, hret⟩ := hstep
    cases hret
    exact hq
  | _ =>
    cases hstep
    exact hq

/-- A failure of the farm puts a running run back in the queue. -/
theorem queued_of_settlesAsInfra {e : HostEvent} (hrun : (h.store.runIn? runId .running).isSome)
    (hinfra : h.SettlesAsInfra runId e) (hstep : h.step deps e = some h') :
    ∃ r ∈ h'.store.runs, r.id = runId ∧ r.status = .queued := by
  obtain ⟨before, hbefore⟩ := isSome_iff_exists.mp hrun
  have hrequeue : ∀ newDeviceId, ∃ r ∈ (h.store.requeueForRebind runId newDeviceId).2.runs,
      r.id = runId ∧ r.status = .queued := by
    intro newDeviceId
    obtain ⟨hmem, hid, -⟩ := Store.runIn?_some hbefore
    rw [Store.requeueForRebind, hbefore]
    refine ⟨Store.rebindPatch newDeviceId before, ?_, hid, rfl⟩
    exact List.mem_map.mpr ⟨before, hmem, by simp [hid]⟩
  cases e with
  | reject now i err =>
    obtain ⟨a, ha, rfl, hsome, hr⟩ := hinfra
    simp only [step, bind_eq_bind, bind_eq_some_iff, ite_none_right_eq_some] at hstep
    obtain ⟨a', ha', -, hret⟩ := hstep
    obtain rfl : a' = a := Option.some.inj (ha'.symm.trans ha)
    cases hret
    obtain ⟨newDeviceId, hs⟩ := settle_store_of_rebinds (h := h.answered i) deps now hr
    rw [onRejected, answered_running, if_pos hsome, hs]
    exact hrequeue newDeviceId
  | finishExternally now id status error code =>
    obtain ⟨run, job, hfound, rfl, hjob, hr⟩ := hinfra
    cases hstep
    have hset : ∀ h₁ : Host, h₁.store = h.store → h₁.settings = h.settings →
        ∃ r ∈ (h₁.settle deps now job run status
          { error := some error, code := code }).store.runs, r.id = run.id ∧ r.status = .queued := by
      intro h₁ hstore hsettings
      obtain ⟨newDeviceId, hs⟩ := settle_store_of_rebinds (h := h₁) deps now (hsettings ▸ hr)
      rw [hs, hstore]
      exact hrequeue newDeviceId
    rw [finishExternally]
    simp only [hfound, hjob]
    cases h.running id with
    | none => exact hset h rfl rfl
    | some i => exact hset _ rfl rfl
  | _ => exact absurd hinfra id

/-! ## Whole runs -/

/-- **When a cancel is final.**  Take a running run for which `abort` has returned true.  In what
follows, every event leaves it running or terminal and none claims it again, if and only if none
settles it as a failure of the farm while it is running. -/
theorem cancel_final_iff {h₀ h₁ : Host} {events : List HostEvent}
    (hkeys : h₀.store.Keys) (hrun : (h₀.store.runIn? runId .running).isSome)
    (habort : h₀.abort runId = (true, h₁)) :
    Steps.Guarded (Steps.By (step deps)) (StaysOut deps runId) h₁ events h ↔
      Steps.Guarded (Steps.By (step deps)) (NoInfraSettle runId) h₁ events h := by
  have hstore : h₁.store = h₀.store := by
    rw [abort] at habort
    cases hr : h₀.running runId with
    | none => rw [hr] at habort; cases habort
    | some i =>
      rw [hr] at habort
      cases habort
      rfl
  have hstart : h₁.store.NotQueued runId := by
    obtain ⟨row, hrow⟩ := isSome_iff_exists.mp hrun
    obtain ⟨hmem, hid, hstatus⟩ := Store.runIn?_some hrow
    rw [hstore]
    refine ⟨⟨row, hmem, hid⟩, fun r hr hrid hq ↦ ?_⟩
    obtain rfl := List.inj_on_of_nodup_map hkeys.run_ids hr hmem (hrid.trans hid.symm)
    rw [hstatus] at hq
    cases hq
  constructor
  · intro hout
    refine hout.imp (I := fun _ ↦ True) trivial (fun _ _ _ _ _ _ ↦ trivial) ?_
    intro h e h' _ hstep hs hrun hinfra
    obtain ⟨r, hr, hid, hq⟩ := queued_of_settlesAsInfra hrun hinfra hstep
    rcases hs.1 h' hstep r hr hid with hbad | hbad
    · rw [hq] at hbad
      cases hbad
    · rw [hq] at hbad
      cases hbad
  · intro hno
    refine hno.imp (I := fun h ↦ h.store.NotQueued runId) hstart
      (fun h e h' hq hstep hn ↦ notQueued_step hq hn hstep) ?_
    intro h e h' hq hstep hn
    refine ⟨fun h'' hstep' r hr hid ↦ ?_, ?_⟩
    · have hnot := (notQueued_step hq hn hstep').not_queued r hr hid
      cases hs : r.status <;> simp [hs, RunStatus.terminal] at hnot ⊢
    · rintro now ex c rfl hid
      rw [Steps.By, step, ite_none_right_eq_some] at hstep
      have hc := Store.claimed_of_mem_claimable hstep.1.1
      exact hq.not_queued c.run hc.run_mem hid hc.queued

end Host

namespace OneMember

/-! ## An aborted run that is executed again -/

/-- The member's run is claimed and its executor started. -/
def started : List HostEvent := [.claim 0 [] (row memberRun), .readiness 0 true]

def executing : Host := (started.foldlM (Host.step deps) host).getD host

/-- After the abort. -/
def aborted : Host := (executing.abort "run").2

/-- The aborted executor ends with the loss of its device. -/
def lost : HostEvent :=
  .reject 1 0 { message := "device went away", code := some "DEVICE_DISCONNECTED" }

/-- The reaper finds the aborted run's heartbeat expired. -/
def expired : HostEvent :=
  .finishExternally 61 "run" .failed "heartbeat expired" (some "HEARTBEAT_EXPIRED")

/-- The abort returned true, and still either end puts the run back in the queue, from where it is
claimed again. -/
theorem aborted_run_requeued :
    Steps (Steps.By (Host.step deps)) host started executing ∧
    executing.abort "run" = (true, aborted) ∧
    (executing.store.run? "run").map (·.status) = some .running ∧
    ((aborted.step deps lost).bind (·.store.run? "run")).map (·.status) = some .queued ∧
    ((aborted.step deps expired).bind (·.store.run? "run")).map (·.status) = some .queued ∧
    (((aborted.step deps lost).bind (·.step deps (.claim 2 []
      (row (Store.rebindPatch "phone" (Store.claimPatch 0 60 memberRun)))))).bind
        (·.store.run? "run")).map (·.status) = some .running ∧
    ¬ Host.StaysOut deps "run" aborted lost ∧ ¬ Host.StaysOut deps "run" aborted expired := by
  refine ⟨Steps.steps_by_iff.mpr (by rfl), by rfl, by rfl, by rfl, by rfl, by rfl, ?_, ?_⟩
  · intro hs
    have hbad := hs.1 _ (some_get (by rfl)).symm _ (List.mem_singleton.mpr rfl) rfl
    revert hbad
    decide
  · intro hs
    have hbad := hs.1 _ (some_get (by rfl)).symm _ (List.mem_singleton.mpr rfl) rfl
    revert hbad
    decide

/-- The aborted executor stops as it was asked to. -/
def stopped : HostEvent :=
  .reject 1 0 { message := "the job was cancelled", code := some "job_cancelled" }

/-- An executor that stops when asked leaves the run cancelled for good. -/
theorem cancel_final_stopped :
    Steps.Guarded (Steps.By (Host.step deps)) (Host.StaysOut deps "run") aborted [stopped]
      ((aborted.step deps stopped).getD aborted) := by
  have hreach : Store.Reachable executing.store :=
    @Store.Reachable.exec tables _ (.claimNext 0 60 [] (row memberRun)) tables_reachable (by rfl)
  have habort : executing.abort "run" = (true, aborted) := by rfl
  refine (Host.cancel_final_iff hreach.keys (by rfl) habort).mpr (Steps.single ⟨by rfl, ?_⟩)
  rintro - ⟨a, ha, -, -, hr⟩
  cases ha
  revert hr
  decide

end OneMember

end Enkaku
