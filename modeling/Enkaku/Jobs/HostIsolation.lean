import Enkaku.Jobs.ExecutorHost

/-!
# Attempt isolation

A rebound run is started again under the id it had, so two attempts can share one run id.  The
force-stop timers check that the entry registered for the run is still their own; the promise
handlers check only that *some* entry is.  `outcomes_isolated_iff` draws the line: the outcomes of a
run of the host each stay with their own attempt if and only if none of them arrives while another
attempt of the same run is registered.
-/

set_option autoImplicit false

namespace Enkaku

/-- The attempt whose promise the event is an outcome of. -/
def HostEvent.outcomeOf : HostEvent → Option Nat
  | .resolve _ i _ => some i
  | .reject _ i _ => some i
  | _ => none

namespace Store

/-! ## Rows of other runs -/

theorem run?_updateRun_ne {s : Store} {runId r : String} {set : JobRunRow → JobRunRow}
    (hset : ∀ x, (set x).id = x.id) (hne : r ≠ runId) : (s.updateRun runId set).run? r = s.run? r := by
  rw [run?, updateRun, Sql.update, List.find?_map, run?]
  have hid : ((fun x ↦ decide (x.id = r)) ∘ fun x ↦
      if decide (x.id = runId) = true then set x else x) = fun x : JobRunRow ↦ decide (x.id = r) := by
    funext x
    by_cases hx : x.id = runId <;> simp [hx, hset]
  rw [hid]
  cases hf : s.runs.find? fun x ↦ decide (x.id = r) with
  | none => rfl
  | some x =>
    have hx : x.id = r := by simpa using List.find?_some hf
    simp [hx, hne]

theorem run?_settle_ne {s : Store} {now : Int} {runId r : String} {input : SettleRunInput}
    (hne : r ≠ runId) : (s.settle now runId input).2.run? r = s.run? r := by
  rw [settle]
  split
  · rfl
  · exact run?_updateRun_ne (fun _ ↦ rfl) hne

theorem run?_requeueForRebind_ne {s : Store} {runId newDeviceId r : String} (hne : r ≠ runId) :
    (s.requeueForRebind runId newDeviceId).2.run? r = s.run? r := by
  rw [requeueForRebind]
  split
  · rfl
  · exact run?_updateRun_ne (s := s) (fun _ ↦ rfl) hne

end Store

namespace Host

variable {deps : HostDeps} {h h' : Host}

/-! ## What a settle touches -/

theorem dropEntry_store (runId : String) : (h.dropEntry runId).store = h.store := by
  rw [dropEntry]
  cases h.running runId <;> rfl

theorem dropEntry_running (runId : String) :
    (h.dropEntry runId).running = Function.update h.running runId none := by
  rw [dropEntry]
  cases hr : h.running runId with
  | none => exact (Function.update_eq_self_iff.mpr hr.symm).symm
  | some i => rfl

theorem dropEntry_attempts_ne {runId : String} {j : Nat} (hj : h.running runId ≠ some j) :
    (h.dropEntry runId).attempts[j]? = h.attempts[j]? := by
  rw [dropEntry]
  cases hr : h.running runId with
  | none => rfl
  | some i =>
    have hij : i ≠ j := fun hij ↦ hj (hij ▸ hr)
    exact List.getElem?_modify_ne _ _ hij

section Settle

variable {now : Int} {job : JobRow} {run : JobRunRow} {status : SettleStatus} {data : SettleData}

theorem settle_running :
    (h.settle deps now job run status data).running = Function.update h.running run.id none := by
  rw [settle]
  split
  · exact dropEntry_running run.id
  · exact dropEntry_running run.id

theorem settle_attempts_ne {j : Nat} (hj : h.running run.id ≠ some j) :
    (h.settle deps now job run status data).attempts[j]? = h.attempts[j]? := by
  rw [settle]
  split
  · exact dropEntry_attempts_ne hj
  · exact dropEntry_attempts_ne hj

theorem settle_run?_ne {r : String} (hne : r ≠ run.id) :
    (h.settle deps now job run status data).store.run? r = h.store.run? r := by
  rw [settle]
  split
  · rw [requeueForRebind, Store.run?_requeueForRebind_ne hne, dropEntry_store]
  · rw [Store.run?_settle_ne hne, dropEntry_store]

end Settle

theorem answered_running (i : Nat) : (h.answered i).running = h.running := rfl

/-- **What an outcome does**: nothing but mark the promise, when no entry is registered for the
attempt's run, and settle the run on the attempt's behalf when one is. -/
theorem step_outcome {e : HostEvent} {i : Nat} (he : e.outcomeOf = some i)
    (hstep : h.step deps e = some h') :
    ∃ a, h.attempts[i]? = some a ∧
      ((h.running a.run.id = none ∧ h' = h.answered i) ∨
        ∃ j now status data, h.running a.run.id = some j ∧
          h' = (h.answered i).settle deps now a.job a.run status data) := by
  cases e with
  | resolve now i' result =>
    obtain rfl : i' = i := Option.some.inj he
    simp only [step, Option.bind_eq_bind, Option.bind_eq_some_iff,
      Option.ite_none_right_eq_some] at hstep
    obtain ⟨a, ha, -, hret⟩ := hstep
    cases hret
    refine ⟨a, ha, ?_⟩
    rw [onResolved]
    cases hr : h.running a.run.id with
    | none => exact .inl ⟨rfl, by simp [answered_running, hr]⟩
    | some j => exact .inr ⟨j, now, _, _, rfl, if_pos (by simp [answered_running, hr])⟩
  | reject now i' err =>
    obtain rfl : i' = i := Option.some.inj he
    simp only [step, Option.bind_eq_bind, Option.bind_eq_some_iff,
      Option.ite_none_right_eq_some] at hstep
    obtain ⟨a, ha, -, hret⟩ := hstep
    cases hret
    refine ⟨a, ha, ?_⟩
    rw [onRejected]
    cases hr : h.running a.run.id with
    | none => exact .inl ⟨rfl, by simp [answered_running, hr]⟩
    | some j => exact .inr ⟨j, now, _, _, rfl, if_pos (by simp [answered_running, hr])⟩
  | _ => cases he

/-! ## Isolation -/

/-- The step leaves everything alone that attempt `i` is not in charge of: the other attempts with
their heartbeats, holds and timers, and the entries and rows of every run `i` is not registered
for.  For an attempt that was settled or requeued that is every entry and every row. -/
structure OutcomeStays (i : Nat) (h h' : Host) : Prop where
  attempts : ∀ j, j ≠ i → h'.attempts[j]? = h.attempts[j]?
  entries : ∀ runId, h.running runId ≠ some i → h'.running runId = h.running runId
  rows : ∀ runId, h.running runId ≠ some i → h'.store.run? runId = h.store.run? runId

/-- If the event is the outcome of an attempt's promise, it stays with that attempt. -/
def Isolated (deps : HostDeps) (h : Host) (e : HostEvent) : Prop :=
  ∀ i, e.outcomeOf = some i → ∀ h', h.step deps e = some h' → OutcomeStays i h h'

/-- If the event is the outcome of an attempt's promise, no other attempt of the same run is
registered. -/
def NoOtherAttempt (h : Host) (e : HostEvent) : Prop :=
  ∀ i ∈ e.outcomeOf, ∀ a ∈ h.attempts[i]?, ∀ j ∈ h.running a.run.id, j = i

instance (h : Host) (e : HostEvent) : Decidable (h.NoOtherAttempt e) :=
  inferInstanceAs (Decidable (∀ i ∈ e.outcomeOf, ∀ a ∈ h.attempts[i]?, ∀ j ∈ h.running a.run.id, j = i))

theorem answered_attempts_ne {i j : Nat} (hne : j ≠ i) : (h.answered i).attempts[j]? = h.attempts[j]? :=
  List.getElem?_modify_ne _ _ hne.symm

/-- One outcome stays with its attempt exactly when no other attempt of the run is registered. -/
theorem isolated_iff {e : HostEvent} (hstep : h.step deps e = some h') :
    h.Isolated deps e ↔ h.NoOtherAttempt e := by
  constructor
  · intro hiso i hi a ha j hj
    obtain ⟨a', ha', hcase⟩ := step_outcome hi hstep
    obtain rfl : a' = a := Option.some.inj (ha'.symm.trans ha)
    by_contra hne
    have hstays := hiso i hi h' hstep
    have hentry := hstays.entries a'.run.id fun hr ↦
      hne (Option.some.inj ((Option.mem_def.mp hj).symm.trans hr))
    rcases hcase with ⟨hr, -⟩ | ⟨j', now, status, data, -, rfl⟩
    · rw [hr] at hj
      cases hj
    · -- the settle dropped the entry of the other attempt
      rw [settle_running, Function.update_self] at hentry
      rw [← hentry] at hj
      cases hj
  · intro hno i hi h'' hstep'
    obtain rfl : h' = h'' := Option.some.inj (hstep.symm.trans hstep')
    obtain ⟨a, ha, hcase⟩ := step_outcome hi hstep
    rcases hcase with ⟨-, rfl⟩ | ⟨j, now, status, data, hr, rfl⟩
    · exact ⟨fun j hj ↦ answered_attempts_ne hj, fun _ _ ↦ rfl, fun _ _ ↦ rfl⟩
    · obtain rfl := hno i hi a ha j hr
      have hrun : ∀ runId, h.running runId ≠ some j → runId ≠ a.run.id := by
        rintro runId hne rfl
        exact hne hr
      refine ⟨fun k hk ↦ ?_, fun runId hne ↦ ?_, fun runId hne ↦ ?_⟩
      · have hk' : (h.answered j).running a.run.id ≠ some k := by
          intro hk'
          exact hk (Option.some.inj (hk'.symm.trans hr))
        rw [settle_attempts_ne hk', answered_attempts_ne hk]
      · rw [settle_running, Function.update_of_ne (hrun runId hne)]
        rfl
      · rw [settle_run?_ne (hrun runId hne)]
        rfl

/-- **Attempt isolation.**  In a run of the host every outcome of an attempt's promise stays with
that attempt if and only if none arrives while another attempt of the same run is registered. -/
theorem outcomes_isolated_iff {h₀ : Host} {events : List HostEvent} :
    Steps.Guarded (Steps.By (step deps)) (Isolated deps) h₀ events h ↔
      Steps.Guarded (Steps.By (step deps)) NoOtherAttempt h₀ events h := by
  constructor
  · intro hiso
    exact hiso.imp (I := fun _ ↦ True) trivial (fun _ _ _ _ _ _ ↦ trivial)
      fun _ _ _ _ hstep hi ↦ (isolated_iff hstep).mp hi
  · intro hno
    exact hno.imp (I := fun _ ↦ True) trivial (fun _ _ _ _ _ _ ↦ trivial)
      fun _ _ _ _ hstep hn ↦ (isolated_iff hstep).mpr hn

end Host

/-! ## A rejection that comes late -/

namespace OneMember

/-- A batch member on one phone, queued. -/
def member : JobRow :=
  { Store.newJob ⟨0, "job", 1⟩
      { kind := .script, scriptId := some "tap", deviceId := "phone", params := .null,
        batchId := some "batch" } with
    latestRunId := some "run"
    runCount := 1 }

def memberRun : JobRunRow :=
  Store.newRun Store.empty ⟨0, "run", 1⟩ { member with latestRunId := none, runCount := 0 }
    { trigger := .batch }

def tables : Store := ⟨[member], [memberRun], [⟨"phone", "online"⟩], [⟨"batch", 0⟩]⟩

/-- The claim of the member's run as it stands in the tables. -/
def row (run : JobRunRow) : Store.Candidate :=
  ⟨run, member, ⟨"phone", "online"⟩, some ⟨"batch", 0⟩⟩

def deps : HostDeps where
  jobTtlSec := 60
  hasExecutor _ := true
  pickRebindDevice _ _ := none
  recordResult _ _ _ _ := none

def host : Host := .boot tables ⟨false, true, 3⟩

/-- The first attempt loses its heartbeat, the run is requeued and started again. -/
def secondAttempt : List HostEvent :=
  [.claim 0 [] (row memberRun), .readiness 0 true,
    .finishExternally 61 "run" .failed "heartbeat expired" (some "HEARTBEAT_EXPIRED"),
    .claim 62 [] (row (Store.rebindPatch "phone" (Store.claimPatch 0 60 memberRun))),
    .readiness 1 true]

/-- The aborted executor of the first attempt gives up. -/
def late : HostEvent :=
  .reject 63 0 { message := "the job was cancelled", code := some "job_cancelled" }

/-- The tables are the work of the stores. -/
theorem tables_reachable : Store.Reachable tables :=
  Store.reachable_of_foldlM
    [.putDevice ⟨"phone", "online"⟩, .insertBatch ⟨"batch", 0⟩,
      .createJob ⟨⟨0, "job", 1⟩,
        { kind := .script, scriptId := some "tap", deviceId := "phone", params := .null,
          batchId := some "batch" }, by decide⟩,
      .addRun ⟨0, "run", 1⟩ "job" { trigger := .batch }] rfl

/-- The host while the second attempt executes. -/
def rebound : Host := (secondAttempt.foldlM (Host.step deps) host).getD host

/-- The host after the late rejection. -/
def afterLate : Host := (rebound.step deps late).getD rebound

/-- The late rejection of attempt 0 settles the run that attempt 1 is executing: the row becomes
`cancelled`, the entry is gone, and so are attempt 1's heartbeat and hold. -/
theorem late_rejection_not_isolated : Steps (Steps.By (Host.step deps)) host secondAttempt rebound ∧
    rebound.step deps late = some afterLate ∧
    rebound.running "run" = some 1 ∧ afterLate.running "run" = none ∧
    (rebound.store.run? "run").map (·.status) = some .running ∧
    (afterLate.store.run? "run").map (·.status) = some .cancelled ∧
    rebound.attempts[1]?.map (fun a ↦ (a.heartbeat, a.hold)) = some (true, true) ∧
    afterLate.attempts[1]?.map (fun a ↦ (a.heartbeat, a.hold)) = some (false, false) ∧
    ¬ rebound.Isolated deps late := by
  have hrunning : rebound.running "run" = some 1 := by rfl
  have hlate : rebound.step deps late = some afterLate := by rfl
  refine ⟨Steps.steps_by_iff.mpr (by rfl), hlate, hrunning, by rfl, by rfl, by rfl, by rfl, by rfl,
    fun hiso ↦ ?_⟩
  have hentry := (hiso 0 rfl afterLate hlate).entries "run" (by rw [hrunning]; decide)
  rw [hrunning] at hentry
  cases hentry

end OneMember

end Enkaku
