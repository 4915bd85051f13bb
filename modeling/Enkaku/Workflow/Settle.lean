import Enkaku.Workflow.Attempts

/-!
# The way to the end costs no step

`start`, `finish` and a node that is switched off cost no step, but the loop checks the step budget
before it looks at what the node is.  `Settles` is the way such nodes lead from the cursor to an end;
`settles_ends_iff` says of a run that has executed `k` counted steps and has only this way before it
exactly when it ends there.
-/

set_option autoImplicit false

namespace Enkaku

/-- A turn in which the run is neither cancelled nor out of time. -/
structure Tick.Calm (deps : OrchestratorDeps) (t : Tick) : Prop where
  before : t.abortedBefore = false
  during : t.abortedDuring = false
  inTime : t.elapsedMs ≤ deps.maxTotalMs

namespace Walk

variable {deps : OrchestratorDeps} {w : WorkflowRun} {x : Walk} {t : Tick} {ts : List Tick}

/-! ## The way -/

/-- From the cursor, nodes that cost no step lead to an end of this status: `off` of them are switched
off, and there are `n` in all. -/
inductive Settles (w : WorkflowRun) : Option String → Nat → Nat → FinishStatus → Prop
  | dangling : Settles w none 0 0 .succeed
  | finish {c : String} {node : WorkflowNode} {status : FinishStatus} {message : String}
      (h : w.doc.node? c = some node) (hb : node.body = .finish status message) :
      Settles w (some c) 0 1 status
  | start {c : String} {node : WorkflowNode} {next : Option String} {off n : Nat}
      {status : FinishStatus} (h : w.doc.node? c = some node) (hb : node.body = .start next)
      (hs : Settles w next off n status) : Settles w (some c) off (n + 1) status
  | disabled {c : String} {node : WorkflowNode} {n' : StepNode} {off n : Nat}
      {status : FinishStatus} (h : w.doc.node? c = some node) (hb : node.body = .step n')
      (hoff : node.enabled = false) (hs : Settles w (w.doc.advance node .next) off n status) :
      Settles w (some c) (off + 1) (n + 1) status

/-- The loop has ended as a finish node of this status ends it. -/
def EndsBy (y : Walk) (status : FinishStatus) : Prop :=
  y.running = false ∧ y.threw = false ∧
    match status with
    | .succeed => y.finalStatus = .success
    | .fail => y.finalStatus = .failed ∧ y.finalErrorCode = some "E_WORKFLOW_FINISH_FAILED"

instance (y : Walk) (status : FinishStatus) : Decidable (y.EndsBy status) := by
  unfold EndsBy
  cases status <;> infer_instance

/-- The run goes on, and has not failed. -/
structure Going (x : Walk) : Prop where
  threw : x.threw = false
  status : x.finalStatus = .success

/-- There is room for the way: another node may be looked at, and the rows that the nodes switched off
are logged by have numbers nobody has. -/
def HasRoom (w : WorkflowRun) (x : Walk) (off : Nat) : Prop :=
  x.step < w.doc.maxSteps ∧ ∀ i < off, (w.run.id, x.seq + i) ∉ x.rows.map StepTable.key

/-! ## One node of it -/

theorem iterates_cons : x.iterates deps w (t :: ts) = (x.iterate deps w t).iterates deps w ts := rfl

theorem iterates_of_not_running (h : x.running = false) : x.iterates deps w ts = x :=
  @iterates_invariant deps w x ts (fun y ↦ y = x) rfl fun y t hy ↦ by
    rw [hy]
    exact iterate_of_not_running h

/-- Leaving writes rows, and no more. -/
theorem leave_endsBy (deps : OrchestratorDeps) (w : WorkflowRun) (y : Walk) (now : Int)
    (child : ChildOutcome) (status : FinishStatus) :
    (y.leave deps w now child).EndsBy status ↔ y.EndsBy status := by
  have hsame : ∃ rows e, y.leave deps w now child = { y with rows := rows, dbError := e } := by
    rw [leave, insertAll_unreached]
    dsimp only
    unfold cleanup
    split
    · dsimp only
      split
      · split
        · exact ⟨_, _, rfl⟩
        · split <;> exact ⟨_, _, rfl⟩
      · exact ⟨_, _, rfl⟩
    · exact ⟨_, _, rfl⟩
  obtain ⟨rows, e, heq⟩ := hsame
  rw [heq]
  rfl

section Node

variable {c : String} {node : WorkflowNode}

/-- The loop is at the node its cursor names, when the budget is not spent. -/
theorem at_of_going (hx : x.Going) (hc : x.cursor = some c) (hnode : w.doc.node? c = some node)
    (hbudget : x.step < w.doc.maxSteps) : x.At w node := by
  have hid := WorkflowDoc.id_of_node? hnode
  exact ⟨hx.threw, by rw [hc, hid], by rw [hid, hnode], hbudget⟩

/-- Where the budget is spent, the run fails whatever the node is. -/
theorem iterate_spent (hx : x.Going) (hc : x.cursor = some c) (ht : t.Calm deps)
    (hspent : w.doc.maxSteps ≤ x.step) : x.iterate deps w t =
      x.fail "E_WORKFLOW_STEP_BUDGET" (x.stepBudgetMessage w.doc.maxSteps c) := by
  rw [iterate, hc, hx.threw]
  dsimp only
  rw [ht.before, if_neg (by simp), if_neg (Int.not_lt.mpr ht.inTime), if_pos hspent]

theorem iterate_finish {status : FinishStatus} {message : String} (hat : x.At w node)
    (hb : node.body = .finish status message) (ht : t.Calm deps) :
    x.iterate deps w t = x.finish node status message := by
  rw [iterate_at hat ht.before ht.inTime, reach, hb]

theorem iterate_start {next : Option String} (hat : x.At w node) (hb : node.body = .start next)
    (ht : t.Calm deps) : x.iterate deps w t = { x with cursor := next } := by
  rw [iterate_at hat ht.before ht.inTime, reach, hb]

theorem iterate_disabled {n : StepNode} (hat : x.At w node) (hb : node.body = .step n)
    (hoff : node.enabled = false) (ht : t.Calm deps) : x.iterate deps w t = x.skip w node n t := by
  rw [iterate_at hat ht.before ht.inTime, reach, hb]
  dsimp only
  rw [hoff, if_neg (by simp)]

end Node

/-- A node that is switched off leaves room for the rest exactly if there was room for the whole. -/
theorem hasRoom_passOver {node : WorkflowNode} {n : StepNode} {off : Nat}
    (hkey : (w.run.id, x.seq) ∉ x.rows.map StepTable.key) :
    HasRoom w (x.passOver w node n t (x.rows ++ [x.passedRow w node n t])) off ↔
      HasRoom w x (off + 1) := by
  refine and_congr_right fun _ ↦ ?_
  have hseq : (x.passOver w node n t (x.rows ++ [x.passedRow w node n t])).seq = x.seq + 1 :=
    (Nat.add_assoc ..).symm
  have hrows : (x.passOver w node n t (x.rows ++ [x.passedRow w node n t])).rows.map StepTable.key =
      x.rows.map StepTable.key ++ [(w.run.id, x.seq)] := List.map_append ..
  rw [hseq, hrows]
  constructor
  · intro h i hi
    cases i with
    | zero => exact hkey
    | succ i =>
      have hfree := h i (by omega)
      rw [List.mem_append, not_or] at hfree
      rw [Nat.add_comm i 1, ← Nat.add_assoc]
      exact hfree.1
  · intro h i hi hmem
    rcases List.mem_append.mp hmem with hmem | hmem
    · refine h (i + 1) (by omega) ?_
      rwa [Nat.add_comm i 1, ← Nat.add_assoc]
    · have heq := congrArg Prod.snd (List.mem_singleton.mp hmem)
      omega

/-! ## The whole way -/

variable {cursor : Option String} {off n : Nat} {status : FinishStatus}

/-- With room for it, the way is walked to its end. -/
theorem Settles.ends (h : Settles w cursor off n status) :
    ∀ {x : Walk} {ts : List Tick}, x.Going → x.cursor = cursor → (∀ t ∈ ts, t.Calm deps) →
      n ≤ ts.length → (cursor = none ∨ HasRoom w x off) → (x.iterates deps w ts).EndsBy status := by
  induction h with
  | dangling =>
    intro x ts hx hc _ _ _
    have hstop : x.running = false := by
      rw [running, hc]
      rfl
    rw [iterates_of_not_running hstop]
    exact ⟨hstop, hx.threw, hx.status⟩
  | @finish c node status message hnode hb =>
    intro x ts hx hc hcalm hlen hroom
    obtain ⟨t, ts, rfl⟩ := List.exists_cons_of_length_pos hlen
    have hroom' := hroom.resolve_left (by simp)
    have ht := hcalm t (.head _)
    rw [iterates_cons, iterate_finish (at_of_going hx hc hnode hroom'.1) hb ht]
    have hstop : (x.finish node status message).running = false := by cases status <;> rfl
    rw [iterates_of_not_running hstop]
    cases status with
    | succeed => exact ⟨hstop, hx.threw, hx.status⟩
    | fail => exact ⟨hstop, hx.threw, rfl, rfl⟩
  | @start c node next off n status hnode hb hs ih =>
    intro x ts hx hc hcalm hlen hroom
    obtain ⟨t, ts, rfl⟩ := List.exists_cons_of_length_pos (Nat.lt_of_lt_of_le (Nat.succ_pos _) hlen)
    have hroom' := hroom.resolve_left (by simp)
    have ht := hcalm t (.head _)
    rw [iterates_cons, iterate_start (at_of_going hx hc hnode hroom'.1) hb ht]
    exact ih ⟨hx.threw, hx.status⟩ rfl (fun t ht ↦ hcalm t (.tail _ ht))
      (Nat.le_of_succ_le_succ hlen) (.inr hroom')
  | @disabled c node n' off n status hnode hb hoff hs ih =>
    intro x ts hx hc hcalm hlen hroom
    obtain ⟨t, ts, rfl⟩ := List.exists_cons_of_length_pos (Nat.lt_of_lt_of_le (Nat.succ_pos _) hlen)
    have hroom' := hroom.resolve_left (by simp)
    have ht := hcalm t (.head _)
    have hkey : (w.run.id, x.seq) ∉ x.rows.map StepTable.key := hroom'.2 0 (Nat.succ_pos _)
    rw [iterates_cons, iterate_disabled (at_of_going hx hc hnode hroom'.1) hb hoff ht,
      skip_of_fresh hkey]
    exact ih ⟨hx.threw, hx.status⟩ rfl (fun t ht ↦ hcalm t (.tail _ ht))
      (Nat.le_of_succ_le_succ hlen) (.inr ((hasRoom_passOver hkey).mpr hroom'))

theorem Settles.of_none (h : Settles w none off n status) : off = 0 := by
  cases h
  rfl

/-- Where the budget is spent, a run that is at a node does not end by it. -/
theorem not_endsBy_of_spent {c : String} (hx : x.Going) (hc : x.cursor = some c)
    (ht : t.Calm deps) (hspent : w.doc.maxSteps ≤ x.step) :
    ¬ (x.iterates deps w (t :: ts)).EndsBy status := by
  rw [iterates_cons, iterate_spent hx hc ht hspent, iterates_of_not_running rfl]
  rintro ⟨-, -, hend⟩
  cases status with
  | succeed => cases hend
  | fail =>
    have hcode : some "E_WORKFLOW_STEP_BUDGET" = some "E_WORKFLOW_FINISH_FAILED" := hend.2
    exact nomatch hcode

/-- Without room for it, the run does not end there. -/
theorem Settles.not_ends (h : Settles w cursor off n status) :
    ∀ {x : Walk} {ts : List Tick}, x.Going → x.cursor = cursor → (∀ t ∈ ts, t.Calm deps) →
      n ≤ ts.length → cursor ≠ none → ¬ HasRoom w x off → ¬ (x.iterates deps w ts).EndsBy status := by
  induction h with
  | dangling =>
    intro x ts _ _ _ _ hsome
    exact absurd rfl hsome
  | @finish c node status message hnode hb =>
    intro x ts hx hc hcalm hlen _ hroom
    obtain ⟨t, ts, rfl⟩ := List.exists_cons_of_length_pos hlen
    refine not_endsBy_of_spent hx hc (hcalm t (.head _)) (Nat.le_of_not_lt fun hbudget ↦ ?_)
    exact hroom ⟨hbudget, fun i hi ↦ absurd hi (Nat.not_lt_zero i)⟩
  | @start c node next off n status hnode hb hs ih =>
    intro x ts hx hc hcalm hlen _ hroom
    obtain ⟨t, ts, rfl⟩ := List.exists_cons_of_length_pos (Nat.lt_of_lt_of_le (Nat.succ_pos _) hlen)
    have ht := hcalm t (.head _)
    by_cases hbudget : x.step < w.doc.maxSteps
    · rw [iterates_cons, iterate_start (at_of_going hx hc hnode hbudget) hb ht]
      refine ih ⟨hx.threw, hx.status⟩ rfl (fun t ht ↦ hcalm t (.tail _ ht))
        (Nat.le_of_succ_le_succ hlen) ?_ hroom
      rintro rfl
      rw [hs.of_none] at hroom
      exact hroom ⟨hbudget, fun i hi ↦ absurd hi (Nat.not_lt_zero i)⟩
    · exact not_endsBy_of_spent hx hc ht (Nat.le_of_not_lt hbudget)
  | @disabled c node n' off n status hnode hb hoff hs ih =>
    intro x ts hx hc hcalm hlen _ hroom
    obtain ⟨t, ts, rfl⟩ := List.exists_cons_of_length_pos (Nat.lt_of_lt_of_le (Nat.succ_pos _) hlen)
    have ht := hcalm t (.head _)
    by_cases hbudget : x.step < w.doc.maxSteps
    · have hat := at_of_going hx hc hnode hbudget
      rw [iterates_cons, iterate_disabled hat hb hoff ht]
      by_cases hkey : (w.run.id, x.seq) ∈ x.rows.map StepTable.key
      · -- The row of the node is refused, and the run is thrown out.
        have hins : StepTable.insert x.rows (x.passedRow w node n' t) = .error StepTable.refused :=
          StepTable.insert_eq_error_iff.mpr ⟨hkey, rfl⟩
        have hskip : x.skip w node n' t = x.insertRefused t StepTable.refused := by
          rw [passedRow] at hins
          rw [skip, hins]
        have hstop : (x.insertRefused t StepTable.refused).running = false := Bool.and_false _
        rw [hskip, iterates_of_not_running hstop]
        rintro ⟨-, hthrew, -⟩
        have htrue : true = false := hthrew
        cases htrue
      · rw [skip_of_fresh hkey]
        have hroom' : ¬ HasRoom w (x.passOver w node n' t (x.rows ++ [x.passedRow w node n' t])) off :=
          fun h ↦ hroom ((hasRoom_passOver hkey).mp h)
        refine ih ⟨hx.threw, hx.status⟩ rfl (fun t ht ↦ hcalm t (.tail _ ht))
          (Nat.le_of_succ_le_succ hlen) ?_ hroom'
        intro hnone
        rw [hnone] at hs
        rw [hs.of_none] at hroom'
        exact hroom' ⟨hbudget, fun i hi ↦ absurd hi (Nat.not_lt_zero i)⟩
    · exact not_endsBy_of_spent hx hc ht (Nat.le_of_not_lt hbudget)

/-- The state of a run after some turns. -/
def after (deps : OrchestratorDeps) (w : WorkflowRun) (now : Int) (rows : List StepRow)
    (ts : List Tick) : Walk := (w.setup now rows).iterates deps w ts

/-- **The way to the end costs a step of the budget.**  Take any run after any turns, as long as it
has not failed, and let nodes that cost no step lead from its cursor to a finish node, or to an edge
that leads nowhere.  It ends by it, without being cancelled and in time, if and only if it is
already at the end, or it has counted fewer than `maxSteps` steps and the nodes on the way that
are switched off find their row numbers free. -/
theorem settles_ends_iff (deps : OrchestratorDeps) (w : WorkflowRun) (now : Int)
    (rows : List StepRow) (before : List Tick) (hgoing : (after deps w now rows before).Going)
    (hs : Settles w (after deps w now rows before).cursor off n status) :
    (∃ m, ∀ ts : List Tick, (∀ t ∈ ts, t.Calm deps) → m ≤ ts.length → ∀ (later : Int)
        (child : ChildOutcome),
        (((after deps w now rows before).iterates deps w ts).leave deps w later child).EndsBy status) ↔
      (after deps w now rows before).cursor = none ∨ HasRoom w (after deps w now rows before) off := by
  simp only [leave_endsBy]
  constructor
  · rintro ⟨m, hm⟩
    by_contra hnot
    rw [not_or] at hnot
    let calm : Tick := ⟨false, false, ⟨"", none, none, none⟩, deps.maxTotalMs, 0, 0,
      .threw ⟨"", none, none, none⟩⟩
    have hcalm : ∀ t ∈ List.replicate (max m n) calm, t.Calm deps := by
      intro t ht
      obtain rfl := List.eq_of_mem_replicate ht
      exact ⟨rfl, rfl, le_rfl⟩
    have hlen : (List.replicate (max m n) calm).length = max m n := List.length_replicate
    exact hs.not_ends hgoing rfl hcalm ((le_max_right m n).trans hlen.ge) hnot.1 hnot.2
      (hm _ hcalm ((le_max_left m n).trans hlen.ge) 0 (.threw ⟨"", none, none, none⟩))
  · exact fun hroom ↦ ⟨n, fun ts hcalm hlen _ _ ↦ hs.ends hgoing rfl hcalm hlen hroom⟩

end Walk

/-! ## One step before the end -/

namespace OneWait

def wait : StepNode := .delay ⟨.const (.num 10), 1000, some "done"⟩

/-- A delay, and a `finish` that fails. -/
def doc (maxSteps : Nat) : WorkflowDoc where
  name := "flow"
  params := []
  entry := "start"
  nodes :=
    [⟨"start", true, .start (some "wait")⟩, ⟨"wait", true, .step wait⟩,
      ⟨"done", true, .finish .fail "not today"⟩]
  maxSteps := maxSteps
  onFail := none

def run (maxSteps : Nat) : WorkflowRun :=
  Bare.workflow (doc maxSteps) (Bare.run "run" { trigger := .manual, seed := some 7 })

/-- The run after the start and the delay. -/
def waited (maxSteps : Nat) : Walk :=
  Walk.after Bare.deps (run maxSteps) 0 [] [Bare.tick .null, Bare.tick .null]

theorem settles_waited (maxSteps : Nat) : Walk.Settles (run maxSteps) (some "done") 0 1 .fail :=
  .finish (show (run maxSteps).doc.node? "done" = some ⟨"done", true, .finish .fail "not today"⟩
    from rfl) rfl

/-- With a step to spare the run ends by its `finish` node. -/
theorem settles_ends_iff_spare :
    (∃ m, ∀ ts : List Tick, (∀ t ∈ ts, t.Calm Bare.deps) → m ≤ ts.length → ∀ (later : Int)
        (child : ChildOutcome),
        (((waited 2).iterates Bare.deps (run 2) ts).leave Bare.deps (run 2) later child).EndsBy .fail) ↔
      (waited 2).cursor = none ∨ Walk.HasRoom (run 2) (waited 2) 0 :=
  Walk.settles_ends_iff Bare.deps (run 2) 0 [] [Bare.tick .null, Bare.tick .null] ⟨rfl, rfl⟩
    (settles_waited 2)

/-- With `maxSteps` steps counted, the `finish` node is never looked at. -/
theorem finish_past_budget :
    (waited 1).step = (doc 1).maxSteps ∧ (waited 1).Going ∧
      Walk.Settles (run 1) (waited 1).cursor 0 1 .fail ∧
      ((waited 1).iterates Bare.deps (run 1) [Bare.tick .null]).finalErrorCode =
        some "E_WORKFLOW_STEP_BUDGET" :=
  ⟨rfl, ⟨rfl, rfl⟩, settles_waited 1, rfl⟩

end OneWait

end Enkaku
