import Enkaku.Lib.Lockstep
import Enkaku.Workflow.Loop
import Enkaku.Workflow.Simulate

/-!
# When a simulation shows what a run does

The simulator and the executor walk a document with two loops.  A `Comparison` asks both for the
same document, parameters and seed; its `Premises` are those under which the two are meant to agree:
no pin is substituted, nothing is aborted or out of time, every child job succeeds with the value
the simulator uses, and nothing is over the size cap.  They `Agree` when both end, after the same
visits, with the same outputs recorded and the same status.

They do not always.  A gate, a switch or a delay is recorded in `outputs` by the simulator and not
by the executor; a disabled node is an entry of the executor's summary and not of the simulator's,
and counts against the simulator's step budget only; a disabled `finish` ends a run and is passed
over by a simulation.  `simulation_agrees_iff` is the exact condition: turn after turn, none of this
shows.
-/

set_option autoImplicit false

namespace Enkaku

open List

open Simulation Walk

/-! ## Inputs and the size cap -/

@[simp] theorem nullish_nullish (v : Value) : nullish (nullish v) = nullish v := by
  cases v <;> rfl

theorem nullish_of_ne {v : Value} (h : v ≠ .undefined) : nullish v = v := by
  cases v with
  | undefined => exact absurd rfl h
  | _ => rfl

theorem capOutput_of_fits {deps : OrchestratorDeps} {v : Value}
    (h : deps.jsonBytes (nullish v) ≤ maxNodeOutputBytes) : capOutput deps v = (nullish v, none) := by
  rw [capOutput]
  exact if_pos h

namespace Walk

@[simp] theorem currentInputValue_append (summary : List RunSummaryEntry) (e : RunSummaryEntry) :
    currentInputValue (summary ++ [e]) = nullish e.output := by
  simp [currentInputValue]

@[simp] theorem nullish_currentInputValue (summary : List RunSummaryEntry) :
    nullish (currentInputValue summary) = currentInputValue summary := by
  rw [currentInputValue]
  cases summary.getLast? with
  | none => rfl
  | some e => exact nullish_nullish e.output

/-- The last entry of the summary is that of a node passed over. -/
def skippedLast (x : Walk) : Bool := x.summary.getLast?.any fun e ↦ e.status == .skipped

end Walk

/-! ## The two loops -/

/-- What the two loops are run on. -/
structure Comparison where
  deps : OrchestratorDeps
  sampleFromSchema : Value → Value
  /-- The run, on the executor's side. -/
  w : WorkflowRun
  mocks : List (String × Value)
  /-- `$now`, on the simulator's side. -/
  simNow : Int
  /-- The instant of the run's setup, and the table it finds. -/
  now : Int
  rows : List StepRow
  /-- What each turn of the executor meets. -/
  ticks : ℕ → Tick

namespace Comparison

variable (c : Comparison)

/-- The simulator reads the same registry and pins, and evaluates the same expressions. -/
def sdeps : SimulateDeps where
  evaluate := c.deps.evaluate
  readPins := c.deps.readPins
  resolve := c.deps.resolve
  sampleFromSchema := c.sampleFromSchema

/-- The simulator is asked for the run's document, parameters and seed. -/
def req : SimulateRequest where
  doc := c.w.doc
  params := c.w.supplied
  mocks := c.mocks
  now := c.simNow
  seed := c.w.run.seed

/-- The executor after a number of turns. -/
def exec : ℕ → Walk
  | 0 => c.w.setup c.now c.rows
  | i + 1 => (exec i).iterate c.deps c.w (c.ticks i)

/-- The simulator after a number of turns. -/
def sim (i : ℕ) : Simulation := Simulation.after c.sdeps c.req i

/-- What the comparison is made under. -/
structure Premises : Prop where
  noPins : c.w.activePins c.deps = []
  /-- The run starts at the entry of its document, and its id is new to the table. -/
  fromEntry : c.w.run.trigger ≠ .resume ∧ c.w.run.trigger ≠ .nodeTest
  newRun : ∀ r ∈ c.rows, r.runId ≠ c.w.run.id
  calm : ∀ i, (c.ticks i).abortedBefore = false ∧ (c.ticks i).abortedDuring = false ∧
    (c.ticks i).elapsedMs ≤ c.deps.maxTotalMs
  /-- The child of a script node succeeds with the value the simulator uses. -/
  scripts : ∀ i node n, (c.exec i).At c.w node → node.body = .step (.script n) →
    ∃ v source run scriptRef, scriptNodeValue c.sdeps c.req node.id n = .ok (v, source) ∧
      runScriptStep c.deps node.id n (scopeAt c.deps c.w (c.exec i) (c.ticks i) (c.exec i).seq)
        (c.ticks i).child = .ok (.ok run scriptRef) ∧
      run.result = v ∧ v ≠ .undefined ∧ c.deps.jsonBytes v ≤ maxNodeOutputBytes
  /-- The values of the other steps are within the size cap too. -/
  inputsFit : ∀ i, c.deps.jsonBytes (Walk.currentInputValue (c.exec i).summary) ≤ maxNodeOutputBytes
  setsFit : ∀ i node n v, (c.exec i).At c.w node → node.body = .step (.set n) →
    computeSetStep c.deps.evaluate n (scopeAt c.deps c.w (c.exec i) (c.ticks i) (c.exec i).seq)
      (Walk.currentInputValue (c.exec i).summary) = .ok v → c.deps.jsonBytes v ≤ maxNodeOutputBytes

/-- **The two loops agree**: both end, after the same visits — node, edge, draw, `$input`, output
and what was recorded — with the same outputs and the same status. -/
def Agree : Prop :=
  ∃ i j, (c.exec i).running = false ∧ (c.sim j).cursor = none ∧ (c.sim j).stopped = none ∧
    (c.exec i).visits = (c.sim j).visits ∧ (c.exec i).outputs = (c.sim j).outputs ∧
    (c.exec i).finalStatus = (c.sim j).status

/-! ## The condition -/

/-- What a kind of step needs to be the same in both loops: gates, switches and delays never are, an
assignment and the wait of a shuffle have to come to the same in the two scopes. -/
def KindInStep (node : WorkflowNode) (x : Walk) (m : Simulation) (t : Tick) : StepNode → Prop
  | .gate _ | .switch _ | .delay _ => False
  | .script _ => True
  | .set n =>
    (computeSetStep c.deps.evaluate n (scopeAt c.deps c.w x t x.seq)
      (Walk.currentInputValue x.summary)).toOption =
    (computeSetStep c.deps.evaluate n (m.scope c.req)
      (Walk.currentInputValue m.summary)).toOption
  | .shuffle n =>
    let done := Walk.done x.shuffleDone node.id
    n.remaining done c.w.doc.isEnabled ≠ [] →
      computeBetweenMs c.deps.evaluate n done.isEmpty (scopeAt c.deps c.w x t x.seq) =
        computeBetweenMs c.deps.evaluate n done.isEmpty (m.scope c.req)

/-- What a node needs: a `finish` is enabled; a step that is taken does not follow a node passed
over, unless what came before that was `null`. -/
def NodeInStep (node : WorkflowNode) (x : Walk) (m : Simulation) (t : Tick) : Prop :=
  match node.body with
  | .start _ => True
  | .finish _ _ => node.enabled = true
  | .step n =>
    node.enabled = true →
      (x.skippedLast = true → Walk.currentInputValue m.summary = .null) ∧ c.KindInStep node x m t n

/-- The condition on one turn: at a node, the simulator's step budget is not used up before the
executor's, and the node is in step. -/
def StaysInStep (x : Walk) (m : Simulation) (t : Tick) : Prop :=
  ∀ node, x.At c.w node → m.seq < c.w.doc.maxSteps ∧ c.NodeInStep node x m t

/-- From here a run ends failed without another step: along `start` nodes to a `finish` that fails,
or to an id that names no node. -/
inductive FailsWithoutStep (doc : WorkflowDoc) : String → Prop
  | missing {id : String} (h : doc.node? id = none) : FailsWithoutStep doc id
  | finish {id message : String} {node : WorkflowNode} (h : doc.node? id = some node)
      (hb : node.body = .finish .fail message) : FailsWithoutStep doc id
  | start {id next : String} {node : WorkflowNode} (h : doc.node? id = some node)
      (hb : node.body = .start (some next)) (hnext : FailsWithoutStep doc next) :
      FailsWithoutStep doc id

/-- The simulator has used its budget up where the run is about to fail anyway. -/
def PartsAtFailure (x : Walk) (m : Simulation) : Prop :=
  c.w.doc.maxSteps ≤ m.seq ∧ ∃ cursor, x.cursor = some cursor ∧ FailsWithoutStep c.w.doc cursor

/-! ## The relation kept -/

/-- What holds of the two states while the executor is still going. -/
structure Live (x : Walk) (m : Simulation) : Prop where
  seq : m.seq = x.seq
  shuffleDone : m.shuffleDone = x.shuffleDone
  status : x.finalStatus = .success
  numbered : x.Numbered c.w
  input : x.skippedLast = false →
    Walk.currentInputValue m.summary = Walk.currentInputValue x.summary
  skipped : x.skippedLast = true → Walk.currentInputValue x.summary = .null

/-- The two loops are in lockstep. -/
structure InStep (x : Walk) (m : Simulation) : Prop where
  cursor : m.cursor = x.cursor
  visits : m.visits = x.visits
  outputs : m.outputs = x.outputs
  status : m.status = x.finalStatus
  threw : x.threw = false
  stopped : m.stopped = none
  live : x.running = true → c.Live x m

variable {c} {x : Walk} {m : Simulation} {t : Tick} {i j : ℕ}

theorem exec_zero (hp : c.Premises) : c.exec 0 = { rows := c.rows, cursor := some c.w.doc.entry } := by
  have hres : c.w.resumeFrom? = none := by
    rw [WorkflowRun.resumeFrom?, if_neg hp.fromEntry.1]
  have hseed : c.w.seeded c.now = ([], []) := by
    rw [WorkflowRun.seeded]
    split
    next h _ => exact absurd h hp.fromEntry.2
    next => rfl
  rw [exec, WorkflowRun.setup, hseed, hres]

theorem inStep_start (hp : c.Premises) : c.InStep (c.exec 0) (c.sim 0) := by
  rw [exec_zero hp]
  refine ⟨rfl, rfl, rfl, rfl, rfl, rfl, fun _ ↦ ⟨rfl, rfl, rfl, ?_, fun _ ↦ rfl, fun _ ↦ rfl⟩⟩
  intro r hr
  obtain ⟨hr, hrun⟩ := StepTable.mem_rowsOf.mp hr
  exact absurd hrun (hp.newRun r hr)

/-! ## What one step does in the two loops -/

/-- The effect of a step is the same in both loops. -/
structure SameEffect (c : Comparison) (node : WorkflowNode) (hd : Handled) (r : Simulated) :
    Prop where
  status : hd.status = .success
  takenEdge : hd.takenEdge = some r.takenEdge
  output : hd.output = r.output
  recorded : hd.recorded = r.recorded
  shuffled : ∀ done, Walk.markShuffled done node.id hd.shuffled =
    Walk.markShuffled done node.id (some r.takenEdge)
  goto : hd.goto = c.w.doc.advance node r.takenEdge
  ending : hd.ending = none
  summaryOutput : nullish hd.summaryOutput = nullish r.output

/-- The visit the executor makes of a step it has handled. -/
def execVisit (c : Comparison) (x : Walk) (node : WorkflowNode) (hd : Handled) : Visit where
  nodeId := node.id
  takenEdge := hd.takenEdge
  draw := some (deriveRandom c.w.run.seed x.seq)
  input := (capOutput c.deps (Walk.currentInputValue x.summary)).1
  output := hd.output
  recorded := hd.recorded

/-- The visit the simulator makes of a step. -/
def simVisit (c : Comparison) (m : Simulation) (node : WorkflowNode) (r : Simulated) : Visit where
  nodeId := node.id
  takenEdge := some r.takenEdge
  draw := some (deriveRandom c.w.run.seed m.seq)
  input := Walk.currentInputValue m.summary
  output := r.output
  recorded := r.recorded

theorem executed_visits (c : Comparison) (x : Walk) (node : WorkflowNode) (n : StepNode) (t : Tick)
    (hd : Handled) :
    (x.executed c.deps c.w node n t hd).visits = x.visits ++ [c.execVisit x node hd] := rfl

theorem record_visits (c : Comparison) (m : Simulation) (node : WorkflowNode) (n : StepNode)
    (r : Simulated) : (m.record c.req node n r).visits = m.visits ++ [c.simVisit m node r] := rfl

/-- A step with the same effect and the same `$input` keeps the loops in lockstep. -/
theorem InStep.executed (h : c.InStep x m) {node : WorkflowNode} {n : StepNode}
    (hat : x.At c.w node) {hd : Handled} {r : Simulated} (hs : c.SameEffect node hd r)
    (hin : (capOutput c.deps (currentInputValue x.summary)).1 =
      currentInputValue m.summary) :
    c.InStep (x.executed c.deps c.w node n t hd) (m.record c.req node n r) := by
  have hl := h.live hat.running
  have hvisit : c.simVisit m node r = c.execVisit x node hd := by
    rw [simVisit, execVisit, hs.takenEdge, hs.output, hs.recorded, hin, hl.seq]
  refine ⟨hs.goto.symm, ?_, ?_, ?_, h.threw, h.stopped, fun _ ↦ ⟨?_, ?_, ?_, ?_, ?_, ?_⟩⟩
  · rw [executed_visits, record_visits, h.visits, hvisit]
  · show (r.recorded.map fun v ↦ OrdMap.set node.id v m.outputs).getD m.outputs =
      (hd.recorded.map fun v ↦ OrdMap.set node.id v x.outputs).getD x.outputs
    rw [hs.recorded, h.outputs]
  · show m.status = if hd.ending.isSome = true then .failed else x.finalStatus
    rw [hs.ending]
    exact h.status
  · show m.seq + 1 = x.step + 1 + x.seqOffset
    rw [hl.seq, Walk.seq]
    omega
  · show markShuffled m.shuffleDone node.id (some r.takenEdge) =
      markShuffled x.shuffleDone node.id hd.shuffled
    rw [hs.shuffled, hl.shuffleDone]
  · show (if hd.ending.isSome = true then .failed else x.finalStatus) = FinalStatus.success
    rw [hs.ending]
    exact hl.status
  · refine hl.numbered.append rfl rfl ?_
    show x.step + 1 + x.seqOffset = x.step + x.seqOffset + 1
    omega
  · intro _
    show currentInputValue (m.summary ++ [_]) = currentInputValue (x.summary ++ [_])
    rw [currentInputValue_append, currentInputValue_append]
    exact hs.summaryOutput.symm
  · intro hskip
    have hlast : (x.executed c.deps c.w node n t hd).skippedLast = false := by
      simp [Walk.skippedLast, Walk.executed, Walk.record, Walk.handledEntry, Walk.count, hs.status]
    exact absurd (hlast.symm.trans hskip) (by simp)

/-- The `$input` of a step is the same in both loops exactly when the step does not follow a node
passed over, or what came before that was `null`. -/
theorem Live.input_iff (hl : c.Live x m) (hfit : c.deps.jsonBytes
      (currentInputValue x.summary) ≤ maxNodeOutputBytes) :
    (capOutput c.deps (currentInputValue x.summary)).1 = currentInputValue m.summary ↔
      (x.skippedLast = true → currentInputValue m.summary = .null) := by
  have hcap : (capOutput c.deps (currentInputValue x.summary)).1 =
      currentInputValue x.summary := by
    rw [capOutput_of_fits (by rwa [nullish_currentInputValue]), nullish_currentInputValue]
  rw [hcap]
  cases hskip : x.skippedLast with
  | false => simp [hl.input hskip]
  | true => simp [hl.skipped hskip, eq_comm]

/-! ### Kind by kind -/

theorem handle_of_noPins (hp : c.Premises) (x : Walk) (node : WorkflowNode) (n : StepNode)
    (t : Tick) : handle c.deps c.w x node n t =
      match n with
      | .shuffle n => handleShuffle c.deps c.w node n (Walk.done x.shuffleDone node.id)
          (scopeAt c.deps c.w x t x.seq) t
      | .gate n => .ok (handleGate c.deps c.w node n (scopeAt c.deps c.w x t x.seq))
      | .switch n => .ok (handleSwitch c.deps c.w node n (scopeAt c.deps c.w x t x.seq))
      | .delay n => handleDelay c.deps c.w node n (scopeAt c.deps c.w x t x.seq) t
      | .set n => .ok (handleSet c.deps c.w node n (scopeAt c.deps c.w x t x.seq)
          (currentInputValue x.summary))
      | .script n => handleScript c.deps c.w node n (scopeAt c.deps c.w x t x.seq) t.child := by
  unfold handle
  rw [hp.noPins]
  rfl

/-- What is to be known of a step that is taken: both loops make one visit of it; the visits differ
when the step is not in step, and the loops stay in lockstep when it is and its `$input` is the
same. -/
def StepSpec (c : Comparison) (x : Walk) (m : Simulation) (t : Tick) (node : WorkflowNode)
    (n : StepNode) : Prop :=
  ∃ hd v, handle c.deps c.w x node n t = .ok hd ∧
    (m.simulate c.sdeps c.req node n).visits = m.visits ++ [v] ∧
    v.input = Walk.currentInputValue m.summary ∧
    (c.KindInStep node x m t n →
      (capOutput c.deps (Walk.currentInputValue x.summary)).1 = Walk.currentInputValue m.summary →
      c.InStep (x.executed c.deps c.w node n t hd) (m.simulate c.sdeps c.req node n)) ∧
    (¬ c.KindInStep node x m t n → c.execVisit x node hd ≠ v)

variable {node : WorkflowNode} {n : StepNode}

/-- The specification of a step both loops record. -/
theorem stepSpec_of_record (h : c.InStep x m) (hat : x.At c.w node) {hd : Handled} {r : Simulated}
    (hh : handle c.deps c.w x node n t = .ok hd)
    (hsim : m.simulate c.sdeps c.req node n = m.record c.req node n r)
    (hsame : c.KindInStep node x m t n → c.SameEffect node hd r)
    (hdiff : ¬ c.KindInStep node x m t n → c.execVisit x node hd ≠ c.simVisit m node r) :
    c.StepSpec x m t node n := by
  refine ⟨hd, c.simVisit m node r, hh, ?_, rfl, fun hk hin ↦ ?_, hdiff⟩
  · rw [hsim]
    rfl
  · rw [hsim]
    exact h.executed hat (hsame hk) hin

/-- A step the simulator records an output of, and the executor does not, is never in step. -/
theorem execVisit_ne_simVisit {hd : Handled} {r : Simulated} (hexec : hd.recorded = none)
    (hsim : r.recorded.isSome = true) : c.execVisit x node hd ≠ c.simVisit m node r := by
  intro he
  have hrec : hd.recorded = r.recorded := congrArg Visit.recorded he
  rw [← hrec, hexec] at hsim
  exact nomatch hsim

theorem stepSpec_gate (hp : c.Premises) (h : c.InStep x m) {n : GateNode} (hat : x.At c.w node) :
    c.StepSpec x m t node (.gate n) :=
  stepSpec_of_record (r := m.simulateGate c.sdeps c.req n) h hat (handle_of_noPins hp x node _ t)
    rfl (fun hk ↦ absurd hk id) fun _ ↦ execVisit_ne_simVisit rfl rfl

theorem stepSpec_switch (hp : c.Premises) (h : c.InStep x m) {n : SwitchNode}
    (hat : x.At c.w node) : c.StepSpec x m t node (.switch n) :=
  stepSpec_of_record (r := m.simulateSwitch c.sdeps c.req n) h hat (handle_of_noPins hp x node _ t)
    rfl (fun hk ↦ absurd hk id) fun _ ↦ execVisit_ne_simVisit rfl rfl

theorem stepSpec_delay (hp : c.Premises) (h : c.InStep x m) {n : DelayNode} (hat : x.At c.w node)
    (hcalm : t.abortedDuring = false) : c.StepSpec x m t node (.delay n) := by
  have hh : handle c.deps c.w x node (.delay n) t = .ok (controlStep c.w node .next
      (.obj [("ms", .num (computeDelayMs c.deps.evaluate n (scopeAt c.deps c.w x t x.seq)))])) := by
    rw [handle_of_noPins hp]
    show handleDelay c.deps c.w node n _ t = _
    rw [handleDelay, hcalm]
    rfl
  exact stepSpec_of_record (r := m.simulateDelay c.sdeps c.req n) h hat hh rfl
    (fun hk ↦ absurd hk id) fun _ ↦ execVisit_ne_simVisit rfl rfl

/-- A shuffle's record shows how long it waited. -/
theorem output_inj {r : ShuffleStepResult} {a b : ℚ} (h : r.output a = r.output b) : a = b := by
  simpa [ShuffleStepResult.output] using h

theorem stepSpec_shuffle (hp : c.Premises) (h : c.InStep x m) {n : ShuffleNode}
    (hat : x.At c.w node) (hcalm : t.abortedDuring = false) : c.StepSpec x m t node (.shuffle n) := by
  have hl := h.live hat.running
  let done := Walk.done x.shuffleDone node.id
  let result := computeShuffleStep n done (deriveRandom c.w.run.seed x.seq) c.w.doc.isEnabled
  let waited (scope : ResolveScope) : ℚ :=
    if result.chosen.isSome then computeBetweenMs c.deps.evaluate n done.isEmpty scope else 0
  let hd (wait : ℚ) : Handled :=
    { controlStep c.w node result.takenEdge (result.output wait) with
      shuffled := some result.takenEdge }
  let r (wait : ℚ) : Simulated :=
    { output := result.output wait, takenEdge := result.takenEdge, recorded := none,
      skippedMs := if 0 < wait then some wait else none }
  have hh : handle c.deps c.w x node (.shuffle n) t =
      .ok (hd (waited (scopeAt c.deps c.w x t x.seq))) := by
    rw [handle_of_noPins hp]
    show (if 0 < waited _ ∧ t.abortedDuring = true then _ else _) = _
    rw [hcalm, if_neg (by simp)]
    rfl
  have hsim : m.simulate c.sdeps c.req node (.shuffle n) =
      m.record c.req node (.shuffle n) (r (waited (m.scope c.req))) := by
    have hr : m.simulateShuffle c.sdeps c.req node n = r (waited (m.scope c.req)) := by
      show m.simulateShuffle c.sdeps c.req node n = r (if (computeShuffleStep n
        (Walk.done x.shuffleDone node.id) (deriveRandom c.w.run.seed x.seq)
        c.w.doc.isEnabled).chosen.isSome = true then computeBetweenMs c.deps.evaluate n
        (Walk.done x.shuffleDone node.id).isEmpty (m.scope c.req) else 0)
      rw [simulateShuffle]
      simp only [r, result, done, ← hl.shuffleDone, ← hl.seq]
      rfl
    show m.record c.req node _ (m.simulateShuffle c.sdeps c.req node n) = _
    rw [hr]
  have hwait : c.KindInStep node x m t (.shuffle n) ↔
      waited (scopeAt c.deps c.w x t x.seq) = waited (m.scope c.req) := by
    show (n.remaining done c.w.doc.isEnabled ≠ [] → computeBetweenMs c.deps.evaluate n done.isEmpty _ =
      computeBetweenMs c.deps.evaluate n done.isEmpty _) ↔ (if result.chosen.isSome = true then _ else _) =
      (if result.chosen.isSome = true then _ else _)
    by_cases hsome : result.chosen.isSome = true
    · have hne : n.remaining done c.w.doc.isEnabled ≠ [] := by
        intro hnil
        rw [chosen_eq_none_iff.mpr hnil] at hsome
        exact nomatch hsome
      simp only [hsome, if_true, hne, ne_eq, not_false_eq_true, forall_const]
    · have hnil : n.remaining done c.w.doc.isEnabled = [] :=
        chosen_eq_none_iff.mp (by simpa using hsome)
      simp only [hsome, hnil]
      simp
  refine stepSpec_of_record h hat hh hsim (fun hk ↦ ?_) fun hk he ↦ ?_
  · rw [hwait.mp hk]
    exact ⟨rfl, rfl, rfl, rfl, fun _ ↦ rfl, rfl, rfl, rfl⟩
  · exact hk (hwait.mpr (output_inj (congrArg Visit.output he)))

theorem stepSpec_script (hp : c.Premises) (h : c.InStep (c.exec i) m) {n : ScriptNode}
    (hat : (c.exec i).At c.w node) (hb : node.body = .step (.script n)) :
    c.StepSpec (c.exec i) m (c.ticks i) node (.script n) := by
  obtain ⟨v, source, run, scriptRef, hvalue, hrun, hresult, hne, hfit⟩ := hp.scripts i node n hat hb
  have hnull : nullish v = v := nullish_of_ne hne
  have hcap : capOutput c.deps run.result = (v, none) := by
    rw [hresult, capOutput_of_fits (by rwa [hnull]), hnull]
  have hh : handle c.deps c.w (c.exec i) node (.script n) (c.ticks i) =
      .ok (handleScriptOk c.deps c.w node run scriptRef) := by
    rw [handle_of_noPins hp]
    show handleScript c.deps c.w node n _ _ = _
    rw [handleScript, hrun]
  have hsim : m.simulate c.sdeps c.req node (.script n) =
      m.record c.req node (.script n) (simulateScript n v source) := by
    rw [simulate, hvalue]
  refine stepSpec_of_record h hat hh hsim (fun _ ↦ ?_) fun hk ↦ absurd trivial hk
  refine ⟨rfl, rfl, ?_, ?_, fun _ ↦ rfl, rfl, rfl, ?_⟩
  · show (capOutput c.deps run.result).1 = v
    rw [hcap]
  · show some run.result = some v
    rw [hresult]
  · show nullish (nullish run.result) = nullish v
    rw [hresult, nullish_nullish]

/-- What a `set` node outputs is an object. -/
theorem ne_undefined_of_computeSetStep {ev : Evaluator} {n : SetNode} {scope : ResolveScope}
    {input v : Value} (h : computeSetStep ev n scope input = .ok v) : v ≠ .undefined := by
  unfold computeSetStep at h
  dsimp only at h
  split at h
  next => exact absurd h (by simp)
  next fields _ =>
    obtain rfl : .obj fields = v := by simpa using h
    simp

/-- A `set` node in the simulator, whose fields come out. -/
theorem simulate_set_ok {n : SetNode} {v : Value}
    (hs : computeSetStep c.deps.evaluate n (m.scope c.req) (currentInputValue m.summary) = .ok v) :
    m.simulate c.sdeps c.req node (.set n) = m.record c.req node (.set n)
      { output := v, takenEdge := .next, recorded := some v } := by
  rw [simulate, show computeSetStep c.sdeps.evaluate n (m.scope c.req) (currentInputValue m.summary) =
    .ok v from hs]

/-- A `set` node in the simulator, one of whose fields fails. -/
theorem simulate_set_error {n : SetNode} {error : String}
    (hs : computeSetStep c.deps.evaluate n (m.scope c.req) (currentInputValue m.summary) =
      .error error) : m.simulate c.sdeps c.req node (.set n) = m.failSet c.req node error := by
  rw [simulate, show computeSetStep c.sdeps.evaluate n (m.scope c.req) (currentInputValue m.summary) =
    .error error from hs]

theorem stepSpec_set (hp : c.Premises) (h : c.InStep (c.exec i) m) {n : SetNode}
    (hat : (c.exec i).At c.w node) (hb : node.body = .step (.set n)) :
    c.StepSpec (c.exec i) m (c.ticks i) node (.set n) := by
  have hl := h.live hat.running
  have hh : handle c.deps c.w (c.exec i) node (.set n) (c.ticks i) =
      .ok (handleSet c.deps c.w node n (scopeAt c.deps c.w (c.exec i) (c.ticks i) (c.exec i).seq)
        (currentInputValue (c.exec i).summary)) := handle_of_noPins hp _ _ _ _
  have hkind : c.KindInStep node (c.exec i) m (c.ticks i) (.set n) ↔
      (computeSetStep c.deps.evaluate n
        (scopeAt c.deps c.w (c.exec i) (c.ticks i) (c.exec i).seq)
        (currentInputValue (c.exec i).summary)).toOption =
      (computeSetStep c.deps.evaluate n (m.scope c.req)
        (currentInputValue m.summary)).toOption := Iff.rfl
  rw [handleSet] at hh
  cases hexec : computeSetStep c.deps.evaluate n
      (scopeAt c.deps c.w (c.exec i) (c.ticks i) (c.exec i).seq)
      (currentInputValue (c.exec i).summary) with
  | ok v =>
    have hnull : nullish v = v := nullish_of_ne (ne_undefined_of_computeSetStep hexec)
    have hcap : capOutput c.deps v = (v, none) := by
      rw [capOutput_of_fits (by rw [hnull]; exact hp.setsFit i node n v hat hb hexec), hnull]
    rw [hexec] at hh hkind
    simp only [hcap] at hh
    cases hs : computeSetStep c.deps.evaluate n (m.scope c.req)
        (currentInputValue m.summary) with
    | ok v' =>
      rw [hs] at hkind
      refine stepSpec_of_record h hat hh (simulate_set_ok hs) (fun hk ↦ ?_) fun hk he ↦ ?_
      · obtain rfl : v = v' := Option.some.inj (hkind.mp hk)
        exact ⟨rfl, rfl, rfl, rfl, fun _ ↦ rfl, rfl, rfl, rfl⟩
      · have hout : v = v' := congrArg Visit.output he
        exact hk (hkind.mpr (congrArg some hout))
    | error error =>
      rw [hs] at hkind
      have hsim : m.simulate c.sdeps c.req node (.set n) = m.failSet c.req node _ :=
        simulate_set_error hs
      refine ⟨_, _, hh, by rw [hsim]; rfl, rfl, fun hk ↦ ?_, fun _ he ↦ ?_⟩
      · exact absurd (hkind.mp hk) (by simp [Except.toOption])
      · have hedge : some Edge.next = none := congrArg Visit.takenEdge he
        cases hedge
  | error error =>
    rw [hexec] at hh hkind
    cases hs : computeSetStep c.deps.evaluate n (m.scope c.req)
        (currentInputValue m.summary) with
    | ok v' =>
      rw [hs] at hkind
      refine stepSpec_of_record h hat hh (simulate_set_ok hs) (fun hk ↦ ?_) fun _ he ↦ ?_
      · exact absurd (hkind.mp hk) (by simp [Except.toOption])
      · have hedge : none = some Edge.next := congrArg Visit.takenEdge he
        cases hedge
    | error error' =>
      rw [hs] at hkind
      have hsim : m.simulate c.sdeps c.req node (.set n) = m.failSet c.req node _ :=
        simulate_set_error hs
      refine ⟨_, _, hh, by rw [hsim]; rfl, rfl, fun _ hin ↦ ?_, fun hk ↦ absurd (hkind.mpr rfl) hk⟩
      -- Both loops end here, failed.
      rw [hsim]
      refine ⟨rfl, ?_, h.outputs, rfl, h.threw, h.stopped, fun hrun ↦ absurd hrun (by simp [Walk.running, Walk.executed, Walk.record])⟩
      rw [executed_visits, execVisit, hin, ← hl.seq]
      show m.visits ++ _ = _
      rw [h.visits]
      rfl

/-- Every kind of step meets its specification. -/
theorem stepSpec (hp : c.Premises) (h : c.InStep (c.exec i) m) (hat : (c.exec i).At c.w node)
    (hb : node.body = .step n) : c.StepSpec (c.exec i) m (c.ticks i) node n := by
  have hcalm := (hp.calm i).2.1
  cases n with
  | script n => exact stepSpec_script hp h hat hb
  | gate n => exact stepSpec_gate hp h hat
  | switch n => exact stepSpec_switch hp h hat
  | delay n => exact stepSpec_delay hp h hat hcalm
  | set n => exact stepSpec_set hp h hat hb
  | shuffle n => exact stepSpec_shuffle hp h hat hcalm

/-! ## What one turn does in the two loops -/

theorem exec_succ_at (hp : c.Premises) (hat : (c.exec i).At c.w node) :
    c.exec (i + 1) = (c.exec i).reach c.deps c.w node (c.ticks i) :=
  iterate_at hat (hp.calm i).1 (hp.calm i).2.2

theorem sim_succ_at (h : c.InStep x (c.sim i)) (hat : x.At c.w node)
    (hseq : (c.sim i).seq < c.w.doc.maxSteps) : c.sim (i + 1) = (c.sim i).reach c.sdeps c.req node := by
  show (c.sim i).turn c.sdeps c.req = _
  rw [Simulation.turn, h.cursor, hat.cursor]
  have hnode : c.req.doc.node? node.id = some node := hat.node
  have hbudget : (c.sim i).seq < c.req.doc.maxSteps := hseq
  dsimp only
  rw [if_neg (Nat.not_le.mpr hbudget), hnode]

variable {cursor : String}

/-- The simulator ends failed where its budget is used up, or where the cursor names no node. -/
theorem sim_succ_failed (hc : m.cursor = some cursor)
    (hwhy : c.w.doc.maxSteps ≤ m.seq ∨ c.w.doc.node? cursor = none) :
    (m.turn c.sdeps c.req).cursor = none ∧ (m.turn c.sdeps c.req).status = .failed ∧
      (m.turn c.sdeps c.req).visits = m.visits ∧ (m.turn c.sdeps c.req).outputs = m.outputs ∧
      (m.turn c.sdeps c.req).stopped = m.stopped := by
  rw [Simulation.turn, hc]
  show _ ∧ _
  by_cases hseq : c.w.doc.maxSteps ≤ m.seq
  · simp only [req, hseq, if_true, and_self]
  · have hnone := hwhy.resolve_left hseq
    simp only [req, hseq, if_false, hnone, and_self]

/-- The executor ends failed where it is still going and at no node. -/
theorem exec_succ_failed (hp : c.Premises) (hrun : (c.exec i).running = true)
    (hno : ∀ node, ¬ (c.exec i).At c.w node) :
    ∃ code message, c.exec (i + 1) = (c.exec i).fail code message := by
  have hturn := turn_iterate c.deps c.w (c.exec i) (c.ticks i)
  show ∃ code message, (c.exec i).iterate c.deps c.w (c.ticks i) = _
  generalize (c.exec i).iterate c.deps c.w (c.ticks i) = y at hturn ⊢
  cases hturn with
  | idle h => exact absurd (h.symm.trans hrun) (by simp)
  | caught _ hab => exact absurd ((hp.calm i).1.symm.trans hab) (by simp)
  | failed _ code message => exact ⟨code, message, rfl⟩
  | passed h => exact absurd h (hno _)
  | finished h => exact absurd h (hno _)
  | refused h => exact absurd h (hno _)
  | skipped h => exact absurd h (hno _)
  | threw h => exact absurd h (hno _)
  | executed h => exact absurd h (hno _)

/-- A running loop is at a cursor, and at a node unless the budget is used up or the cursor names
none. -/
theorem at_or_failed (hthrew : x.threw = false) (hrun : x.running = true) :
    ∃ cursor, x.cursor = some cursor ∧ ((∃ node, x.At c.w node ∧ node.id = cursor) ∨
      c.w.doc.maxSteps ≤ x.step ∨ c.w.doc.node? cursor = none) := by
  rw [running, hthrew, Bool.not_false, Bool.and_true] at hrun
  obtain ⟨cursor, hc⟩ := Option.isSome_iff_exists.mp hrun
  refine ⟨cursor, hc, ?_⟩
  by_cases hstep : x.step < c.w.doc.maxSteps
  · cases hnode : c.w.doc.node? cursor with
    | none => exact .inr (.inr rfl)
    | some node =>
      have hid := WorkflowDoc.id_of_node? hnode
      exact .inl ⟨node, ⟨hthrew, by rw [hc, hid], by rw [hid, hnode], hstep⟩, hid⟩
  · exact .inr (.inl (Nat.le_of_not_lt hstep))

/-- **A turn that is in step keeps the loops in lockstep.** -/
theorem inStep_succ (hp : c.Premises) (h : c.InStep (c.exec i) (c.sim i))
    (hrun : (c.exec i).running = true) (hs : c.StaysInStep (c.exec i) (c.sim i) (c.ticks i)) :
    c.InStep (c.exec (i + 1)) (c.sim (i + 1)) := by
  have hl := h.live hrun
  by_cases hat : ∃ node, (c.exec i).At c.w node
  · obtain ⟨node, hat⟩ := hat
    obtain ⟨hseq, hnode⟩ := hs node hat
    rw [exec_succ_at hp hat, sim_succ_at h hat hseq, Walk.reach, Simulation.reach]
    rw [NodeInStep] at hnode
    rcases hb : node.body with next | ⟨status, message⟩ | n <;> rw [hb] at hnode
    · exact ⟨rfl, h.visits, h.outputs, h.status, h.threw, h.stopped, fun _ ↦
        ⟨hl.seq, hl.shuffleDone, hl.status, hl.numbered, hl.input, hl.skipped⟩⟩
    · simp only [show node.enabled = true from hnode, if_true]
      cases status with
      | succeed =>
        exact ⟨rfl, h.visits, h.outputs, h.status, h.threw, h.stopped, fun hrun ↦ by cases hrun⟩
      | fail => exact ⟨rfl, h.visits, h.outputs, rfl, h.threw, h.stopped, fun hrun ↦ by cases hrun⟩
    · show c.InStep (if node.enabled = true then _ else _) (if node.enabled = true then _ else _)
      by_cases hon : node.enabled = true
      · obtain ⟨hskip, hkind⟩ := hnode hon
        obtain ⟨hd, v, hh, -, -, hin, -⟩ := stepSpec hp h hat hb
        rw [if_pos hon, if_pos hon, execute_of_handled hl.numbered.fresh hh]
        exact hin hkind ((hl.input_iff (hp.inputsFit i)).mpr hskip)
      · rw [if_neg hon, if_neg hon, skip_of_fresh hl.numbered.fresh]
        refine ⟨rfl, ?_, h.outputs, h.status, h.threw, h.stopped, fun _ ↦
          ⟨?_, hl.shuffleDone, hl.status, ?_, fun hlast ↦ ?_, fun _ ↦ ?_⟩⟩
        · show (c.sim i).visits ++ _ = (c.exec i).visits ++ _
          rw [h.visits]
        · show (c.sim i).seq + 1 = (c.exec i).step + ((c.exec i).seqOffset + 1)
          rw [hl.seq, Walk.seq]
          omega
        · refine hl.numbered.append rfl rfl ?_
          show (c.exec i).step + ((c.exec i).seqOffset + 1) = (c.exec i).step + (c.exec i).seqOffset + 1
          omega
        · simp [skippedLast, passOver] at hlast
        · show currentInputValue ((c.exec i).summary ++ [_]) = _
          rw [currentInputValue_append]
          rfl
  · have hno : ∀ node, ¬ (c.exec i).At c.w node := fun node hat' ↦ hat ⟨node, hat'⟩
    obtain ⟨code, message, hexec⟩ := exec_succ_failed hp hrun hno
    obtain ⟨cursor, hc, hwhy⟩ := at_or_failed (c := c) h.threw hrun
    have hwhy' : c.w.doc.maxSteps ≤ (c.sim i).seq ∨ c.w.doc.node? cursor = none := by
      rcases hwhy with ⟨node, hat', -⟩ | hstep | hnone
      · exact absurd ⟨node, hat'⟩ hat
      · left
        rw [hl.seq, Walk.seq]
        omega
      · exact .inr hnone
    obtain ⟨hcur, hstat, hvis, hout, hstop⟩ := sim_succ_failed (h.cursor.trans hc) hwhy'
    rw [hexec]
    refine ⟨hcur, hvis.trans h.visits, hout.trans h.outputs, hstat, h.threw, hstop.trans h.stopped,
      fun hrun ↦ by cases hrun⟩

/-! ## The end of the two loops -/

theorem exec_stops (h : (c.exec i).running = false) : c.exec (i + 1) = c.exec i :=
  iterate_of_not_running h

theorem exec_grows (c : Comparison) (i : ℕ) : (c.exec i).visits <+: (c.exec (i + 1)).visits :=
  (turn_iterate c.deps c.w (c.exec i) (c.ticks i)).visits

theorem sim_stops (h : (c.sim i).cursor = none) : c.sim (i + 1) = c.sim i := by
  show (c.sim i).turn c.sdeps c.req = _
  rw [Simulation.turn, h]

/-- A turn of the simulator only adds to its visits. -/
theorem visits_simulate (deps : SimulateDeps) (req : SimulateRequest) (m : Simulation)
    (node : WorkflowNode) (n : StepNode) : m.visits <+: (m.simulate deps req node n).visits := by
  unfold simulate
  split
  · exact prefix_append ..
  · exact prefix_append ..
  · exact prefix_append ..
  · exact prefix_append ..
  · split <;> exact prefix_append ..
  · split
    · exact prefix_rfl
    · exact prefix_append ..

theorem sim_grows (c : Comparison) (i : ℕ) : (c.sim i).visits <+: (c.sim (i + 1)).visits := by
  show _ <+: ((c.sim i).turn c.sdeps c.req).visits
  unfold Simulation.turn
  split
  next => exact prefix_rfl
  next cursor _ =>
    dsimp only
    split
    · exact prefix_rfl
    · split
      · exact prefix_rfl
      · unfold Simulation.reach
        split
        · exact prefix_rfl
        · split
          · rename_i status _ _ _
            cases status <;> exact prefix_rfl
          · exact prefix_append ..
        · split
          · exact visits_simulate ..
          · exact prefix_append ..

/-- Loops that agree have a common record, which every state of either is on the way to and every
state the executor has ended in has reached. -/
theorem Agree.record (h : c.Agree) : ∃ v, (∀ i, (c.exec i).visits <+: v) ∧
    (∀ j, (c.sim j).visits <+: v) ∧
    (∀ i, (c.exec i).running = false → (c.exec i).visits = v) ∧
    ∀ j, (c.sim j).cursor = none → (c.sim j).visits = v ∧
      ∃ i, (c.exec i).running = false ∧ (c.exec i).finalStatus = (c.sim j).status := by
  obtain ⟨i, j, hi, hj, -, hvisits, -, hstatus⟩ := h
  refine ⟨(c.exec i).visits, fun k ↦ ?_, fun k ↦ ?_, fun k hk ↦ ?_, fun k hk ↦ ?_⟩
  · exact Lockstep.prefix_of_ended (p := fun x ↦ x.running = false) (fun _ ↦ exec_stops)
      (exec_grows c) hi
  · rw [hvisits]
    exact Lockstep.prefix_of_ended (p := fun m ↦ m.cursor = none) (fun _ ↦ sim_stops)
      (sim_grows c) hj
  · have he : c.exec k = c.exec i := Lockstep.eq_of_ended_of_ended
      (p := fun x ↦ x.running = false) (fun _ ↦ exec_stops) hk hi
    rw [he]
  · have he : c.sim k = c.sim j := Lockstep.eq_of_ended_of_ended
      (p := fun m ↦ m.cursor = none) (fun _ ↦ sim_stops) hk hj
    rw [he]
    exact ⟨hvisits.symm, i, hi, hstatus⟩

/-! ### Failing without another step -/

/-- Under the premises handling a step never throws. -/
theorem exists_handled (hp : c.Premises) (hat : (c.exec i).At c.w node) (hb : node.body = .step n) :
    ∃ hd, handle c.deps c.w (c.exec i) node n (c.ticks i) = .ok hd := by
  have hcalm := (hp.calm i).2.1
  rw [handle_of_noPins hp]
  cases n with
  | script n =>
    obtain ⟨v, source, run, scriptRef, -, hrun, -⟩ := hp.scripts i node n hat hb
    refine ⟨handleScriptOk c.deps c.w node run scriptRef, ?_⟩
    show handleScript c.deps c.w node n _ _ = _
    rw [handleScript, hrun]
  | gate n => exact ⟨_, rfl⟩
  | switch n => exact ⟨_, rfl⟩
  | delay n =>
    show ∃ hd, handleDelay c.deps c.w node n _ _ = .ok hd
    rw [handleDelay, hcalm]
    exact ⟨_, rfl⟩
  | set n => exact ⟨_, rfl⟩
  | shuffle n =>
    show ∃ hd, handleShuffle c.deps c.w node n _ _ _ = .ok hd
    rw [handleShuffle]
    exact ⟨_, if_neg fun h ↦ absurd (hcalm.symm.trans h.2) (by simp)⟩

/-- At a step node a turn of the executor adds a visit. -/
theorem exec_succ_visits (hp : c.Premises) (hn : (c.exec i).Numbered c.w)
    (hat : (c.exec i).At c.w node) (hb : node.body = .step n) :
    ∃ v, (c.exec (i + 1)).visits = (c.exec i).visits ++ [v] := by
  rw [exec_succ_at hp hat, Walk.reach, hb]
  dsimp only
  by_cases hon : node.enabled = true
  · obtain ⟨hd, hh⟩ := exists_handled hp hat hb
    rw [if_pos hon, execute_of_handled hn.fresh hh]
    exact ⟨_, rfl⟩
  · rw [if_neg hon, skip_of_fresh hn.fresh]
    exact ⟨_, rfl⟩

theorem running_of_cursor (hc : (c.exec i).cursor = some cursor) (hthrew : (c.exec i).threw = false) :
    (c.exec i).running = true := by
  rw [running, hc, hthrew]
  rfl

theorem exec_of_stopped (hstop : (c.exec i).running = false) (hle : i ≤ j) : c.exec j = c.exec i :=
  Lockstep.eq_of_ended (p := fun x ↦ x.running = false) (fun _ ↦ exec_stops) hstop hle

/-- A run that ends failed and makes no more visits is on its way to a failure. -/
theorem failsWithoutStep_of_visits (hp : c.Premises) (k : ℕ) {i : ℕ}
    (hc : (c.exec i).cursor = some cursor) (hthrew : (c.exec i).threw = false)
    (hn : (c.exec i).Numbered c.w) (hbudget : (c.exec i).step < c.w.doc.maxSteps)
    (hstatus : (c.exec i).finalStatus = .success) (hend : (c.exec (i + k)).running = false)
    (hfail : (c.exec (i + k)).finalStatus = .failed)
    (hvisits : (c.exec (i + k)).visits = (c.exec i).visits) : FailsWithoutStep c.w.doc cursor := by
  induction k generalizing i cursor with
  | zero => exact absurd (hstatus.symm.trans hfail) (by simp)
  | succ k ih =>
    obtain ⟨cursor', hc', hat⟩ := at_or_failed (c := c) hthrew (running_of_cursor hc hthrew)
    obtain rfl : cursor = cursor' := Option.some.inj (hc.symm.trans hc')
    have hassoc : i + (k + 1) = i + 1 + k := by omega
    rw [hassoc] at hend hfail hvisits
    rcases hat with ⟨node, hat, rfl⟩ | hstep | hnone
    · have hsucc := exec_succ_at hp hat
      rw [Walk.reach] at hsucc
      split at hsucc
      next next hb =>
        cases next with
        | none =>
          have hstop : (c.exec (i + 1)).running = false := by
            rw [hsucc]
            rfl
          rw [exec_of_stopped hstop (Nat.le_add_right _ _), hsucc] at hfail
          exact absurd (hstatus.symm.trans hfail) (by simp)
        | some next =>
          refine .start hat.node hb (ih (i := i + 1) ?_ ?_ ?_ ?_ ?_ hend hfail ?_)
          · rw [hsucc]
          · rw [hsucc]
            exact hthrew
          · rw [hsucc]
            exact hn
          · rw [hsucc]
            exact hbudget
          · rw [hsucc]
            exact hstatus
          · rw [hvisits, hsucc]
      next status message hb =>
        cases status with
        | succeed =>
          have hstop : (c.exec (i + 1)).running = false := by
            rw [hsucc]
            rfl
          rw [exec_of_stopped hstop (Nat.le_add_right _ _), hsucc] at hfail
          exact absurd (hstatus.symm.trans hfail) (by simp)
        | fail => exact .finish hat.node hb
      next n hb =>
        obtain ⟨v, hv⟩ := exec_succ_visits hp hn hat hb
        have hpre := Lockstep.prefix_of_le (l := fun j ↦ (c.exec j).visits) (exec_grows c)
          (Nat.le_add_right (i + 1) k)
        rw [hvisits] at hpre
        have hle := hpre.length_le
        rw [hv, length_append] at hle
        simp at hle
    · omega
    · exact .missing hnone

/-- A run on its way to a failure ends failed, with the visits and outputs it has. -/
theorem exists_failed_of_failsWithoutStep (hp : c.Premises)
    (hfails : FailsWithoutStep c.w.doc cursor) {i : ℕ} (hc : (c.exec i).cursor = some cursor)
    (hthrew : (c.exec i).threw = false) :
    ∃ j, (c.exec j).running = false ∧ (c.exec j).finalStatus = .failed ∧
      (c.exec j).visits = (c.exec i).visits ∧ (c.exec j).outputs = (c.exec i).outputs := by
  have hfailed : ∀ {cursor : String} {i : ℕ}, (c.exec i).cursor = some cursor → (c.exec i).threw = false →
      (∀ node, ¬ (c.exec i).At c.w node) → ∃ j, (c.exec j).running = false ∧
        (c.exec j).finalStatus = .failed ∧ (c.exec j).visits = (c.exec i).visits ∧
          (c.exec j).outputs = (c.exec i).outputs := fun {_ i} hc hthrew hno ↦ by
    obtain ⟨code, message, hexec⟩ := exec_succ_failed hp (running_of_cursor hc hthrew) hno
    exact ⟨i + 1, by rw [hexec]; rfl, by rw [hexec]; rfl, by rw [hexec]; rfl, by rw [hexec]; rfl⟩
  induction hfails generalizing i with
  | missing hnone =>
    refine hfailed hc hthrew fun node hat ↦ ?_
    cases hc.symm.trans hat.cursor
    exact absurd (hnone.symm.trans hat.node) (by simp)
  | @finish id message node hnode hb =>
    by_cases hbudget : (c.exec i).step < c.w.doc.maxSteps
    · have hid := WorkflowDoc.id_of_node? hnode
      have hat : (c.exec i).At c.w node := ⟨hthrew, by rw [hc, hid], by rw [hid, hnode], hbudget⟩
      have hsucc := exec_succ_at hp hat
      rw [Walk.reach, hb] at hsucc
      exact ⟨i + 1, by rw [hsucc]; rfl, by rw [hsucc]; rfl, by rw [hsucc]; rfl, by rw [hsucc]; rfl⟩
    · exact hfailed hc hthrew fun node hat ↦ hbudget hat.budget
  | @start id next node hnode hb _ ih =>
    by_cases hbudget : (c.exec i).step < c.w.doc.maxSteps
    · have hid := WorkflowDoc.id_of_node? hnode
      have hat : (c.exec i).At c.w node := ⟨hthrew, by rw [hc, hid], by rw [hid, hnode], hbudget⟩
      have hsucc := exec_succ_at hp hat
      rw [Walk.reach, hb] at hsucc
      obtain ⟨j, hend, hfail, hvisits, houtputs⟩ := ih (i := i + 1) (by rw [hsucc])
        (by rw [hsucc]; exact hthrew)
      exact ⟨j, hend, hfail, by rw [hvisits, hsucc], by rw [houtputs, hsucc]⟩
    · exact hfailed hc hthrew fun node hat ↦ hbudget hat.budget

/-! ## The comparison -/

/-- A turn that is out of step shows in the end, unless the run fails there anyway. -/
theorem partsAtFailure_of_agree (hp : c.Premises) (h : c.InStep (c.exec i) (c.sim i))
    (hs : ¬ c.StaysInStep (c.exec i) (c.sim i) (c.ticks i)) (hagree : c.Agree) :
    c.PartsAtFailure (c.exec i) (c.sim i) := by
  obtain ⟨v, hexec, hsim, hend, hfinal⟩ := hagree.record
  rw [StaysInStep] at hs
  push Not at hs
  obtain ⟨node, hat, hs⟩ := hs
  have hl := h.live hat.running
  by_cases hseq : (c.sim i).seq < c.w.doc.maxSteps
  · exfalso
    have hout := hs hseq
    have hsuccE := exec_succ_at hp hat
    have hsuccS := sim_succ_at h hat hseq
    rw [NodeInStep] at hout
    split at hout
    next => exact hout trivial
    next status message hb =>
      -- A disabled `finish` ends the run; the simulation goes on past it.
      rw [Walk.reach, hb] at hsuccE
      rw [Simulation.reach, hb] at hsuccS
      dsimp only at hsuccE hsuccS
      rw [if_neg hout] at hsuccS
      have hstop : (c.exec (i + 1)).running = false ∧
          (c.exec (i + 1)).visits = (c.exec i).visits := by
        rw [hsuccE]
        cases status <;> exact ⟨rfl, rfl⟩
      have hlen := (hsim (i + 1)).length_le
      rw [← hend (i + 1) hstop.1, hstop.2, hsuccS] at hlen
      simp [Simulation.skip, h.visits] at hlen
    next n hb =>
      obtain ⟨hon, hout⟩ := Classical.not_imp.mp hout
      obtain ⟨hd, v', hh, hvs, hvin, -, hdiff⟩ := stepSpec hp h hat hb
      have hE : (c.exec (i + 1)).visits = (c.exec i).visits ++ [c.execVisit (c.exec i) node hd] := by
        rw [hsuccE, Walk.reach, hb]
        dsimp only
        rw [if_pos hon, execute_of_handled hl.numbered.fresh hh, executed_visits]
      have hS : (c.sim (i + 1)).visits = (c.exec i).visits ++ [v'] := by
        rw [hsuccS, Simulation.reach, hb]
        dsimp only
        rw [if_pos hon, hvs, h.visits]
      have hEv := hexec (i + 1)
      have hSv := hsim (i + 1)
      rw [hE] at hEv
      rw [hS] at hSv
      have he : c.execVisit (c.exec i) node hd = v' := Lockstep.eq_of_prefix hEv hSv
      by_cases hkind : c.KindInStep node (c.exec i) (c.sim i) (c.ticks i) n
      · refine hout ⟨(hl.input_iff (hp.inputsFit i)).mp ?_, hkind⟩
        rw [← hvin, ← he]
        rfl
      · exact hdiff hkind he
  · have hge := Nat.le_of_not_lt hseq
    obtain ⟨hcur, hstat, hvis, -, -⟩ :=
      sim_succ_failed (c := c) (h.cursor.trans hat.cursor) (.inl hge)
    obtain ⟨hv, j, hj, hstatus⟩ := hfinal (i + 1) hcur
    have hvi : (c.exec j).visits = (c.exec i).visits := by
      rw [hend j hj, ← hv, ← h.visits]
      exact hvis
    have hij : i ≤ j := by
      by_contra hlt
      rw [← exec_of_stopped hj (Nat.le_of_not_le hlt), hat.running] at hj
      cases hj
    obtain ⟨k, rfl⟩ := Nat.exists_eq_add_of_le hij
    exact ⟨hge, node.id, hat.cursor, failsWithoutStep_of_visits hp k hat.cursor h.threw hl.numbered
      hat.budget hl.status hj (hstatus.trans hstat) hvi⟩

/-- Loops that part where the run is about to fail anyway agree. -/
theorem agree_of_partsAtFailure (hp : c.Premises) (h : c.InStep (c.exec i) (c.sim i))
    (hparts : c.PartsAtFailure (c.exec i) (c.sim i)) : c.Agree := by
  obtain ⟨hge, cursor, hc, hfails⟩ := hparts
  obtain ⟨hcur, hstat, hvis, hout, hstop⟩ :=
    sim_succ_failed (c := c) (h.cursor.trans hc) (.inl hge)
  obtain ⟨j, hj, hfail, hvisits, houtputs⟩ :=
    exists_failed_of_failsWithoutStep hp hfails hc h.threw
  refine ⟨j, i + 1, hj, hcur, hstop.trans h.stopped, ?_, ?_, hfail.trans hstat.symm⟩
  · rw [hvisits, ← h.visits]
    exact hvis.symm
  · rw [houtputs, ← h.outputs]
    exact hout.symm

/-- Loops in lockstep whose executor has ended agree. -/
theorem agree_of_ended (h : c.InStep (c.exec i) (c.sim i)) (hend : (c.exec i).running = false) :
    c.Agree := by
  have hnone : (c.sim i).cursor = none := by
    rw [h.cursor]
    rw [running, h.threw, Bool.not_false, Bool.and_true] at hend
    simpa using hend
  exact ⟨i, i, hend, hnone, h.stopped, h.visits.symm, h.outputs.symm, h.status.symm⟩

/-- **When a simulation agrees with the run.**  Under the premises the two loops agree exactly when
every turn is in step, until the executor has ended or the simulator's budget is used up where the
run is about to fail. -/
theorem simulation_agrees_iff (hp : c.Premises) :
    c.Agree ↔ ∃ n, (∀ i < n, c.StaysInStep (c.exec i) (c.sim i) (c.ticks i)) ∧
      ((c.exec n).running = true → c.PartsAtFailure (c.exec n) (c.sim n)) := by
  refine Lockstep.lockstep_iff (f := c.exec) (g := c.sim) (R := c.InStep)
    (r := fun x ↦ x.running = true)
    (G := fun i ↦ c.StaysInStep (c.exec i) (c.sim i) (c.ticks i))
    (E := fun i ↦ c.PartsAtFailure (c.exec i) (c.sim i)) (inStep_start hp) ?_ ?_ ?_ ?_ ?_
  · exact fun i h hrun hs ↦ inStep_succ hp h hrun hs
  · exact fun i h _ hs hagree ↦ partsAtFailure_of_agree hp h hs hagree
  · exact fun i h _ hparts ↦ agree_of_partsAtFailure hp h hparts
  · exact fun i h hend ↦ agree_of_ended h (by simpa using hend)
  · rintro ⟨i, j, hi, -⟩
    exact ⟨i, by simp [hi]⟩

/-! ## Two documents -/

/-- What holds of the first states of an ended run holds of all. -/
theorem forall_exec {P : ℕ → Walk → Prop} {n : ℕ} (hend : (c.exec n).running = false)
    (hstart : ∀ i < n, P i (c.exec i)) (hrest : ∀ i, P i (c.exec n)) (i : ℕ) : P i (c.exec i) := by
  rcases Nat.lt_or_ge i n with hlt | hge
  · exact hstart i hlt
  · rw [exec_of_stopped hend hge]
    exact hrest i

end Comparison

/-! A gate that asks whether the gate before it left an output. -/

namespace GateAfterGate

def doc : WorkflowDoc where
  name := "flow"
  params := []
  entry := "start"
  nodes :=
    [⟨"start", true, .start (some "first")⟩,
      ⟨"first", true, .step (.gate ⟨.leaf (.const (.bool true)) .exists_ none, some "second", none⟩)⟩,
      ⟨"second", true,
        .step (.gate ⟨.leaf (.fromNode "first" none false .undefined) .exists_ none, none, none⟩)⟩]
  maxSteps := 50
  onFail := none

def comparison : Comparison where
  deps := Bare.deps
  sampleFromSchema v := v
  w := Bare.workflow doc (Bare.run "run" { trigger := .schedule, seed := some 7 })
  mocks := []
  simNow := 0
  now := 0
  rows := []
  ticks _ := Bare.tick .null

theorem premises : comparison.Premises where
  noPins := rfl
  fromEntry := ⟨by decide, by decide⟩
  newRun r hr := nomatch hr
  calm _ := ⟨rfl, rfl, show (0 : Int) ≤ 21600000 by decide⟩
  scripts i node n hat hb := by
    have hmem : node ∈ doc.nodes := WorkflowDoc.mem_of_node? hat.node
    simp only [doc, mem_cons, not_mem_nil, or_false] at hmem
    rcases hmem with rfl | rfl | rfl <;> exact nomatch hb
  inputsFit i := by
    refine Comparison.forall_exec (c := comparison) (n := 3)
      (P := fun _ x ↦ Bare.jsonLength (currentInputValue x.summary) ≤ maxNodeOutputBytes)
      rfl ?_ ?_ i
    · decide
    · exact fun _ ↦ by decide
  setsFit i node n v hat hb := by
    have hmem : node ∈ doc.nodes := WorkflowDoc.mem_of_node? hat.node
    simp only [doc, mem_cons, not_mem_nil, or_false] at hmem
    rcases hmem with rfl | rfl | rfl <;> exact nomatch hb

/-- **A simulation that is wrong about a branch**: the second gate finds the first one's output in
the simulation, and not in the run. -/
theorem gate_after_gate_disagrees : comparison.Premises ∧ ¬ comparison.Agree := by
  refine ⟨premises, fun h ↦ ?_⟩
  obtain ⟨v, -, -, hexec, hsim⟩ := h.record
  have hrun := hexec 3 rfl
  obtain ⟨hsimulated, -⟩ := hsim 3 rfl
  have hedges : (comparison.exec 3).visits.map (·.takenEdge) =
      (comparison.sim 3).visits.map (·.takenEdge) := by rw [hrun, hsimulated]
  have hexecEdges : (comparison.exec 3).visits.map (·.takenEdge) = [some .then_, some .else_] := rfl
  have hsimEdges : (comparison.sim 3).visits.map (·.takenEdge) = [some .then_, some .then_] := rfl
  rw [hexecEdges, hsimEdges] at hedges
  exact nomatch hedges

end GateAfterGate

/-! One script between the start and the end. -/

namespace OneScript

def doc : WorkflowDoc where
  name := "flow"
  params := []
  entry := "start"
  nodes :=
    [⟨"start", true, .start (some "tap")⟩,
      ⟨"tap", true, .step (.script ⟨"tap@1", [], some "end", none⟩)⟩,
      ⟨"end", true, .finish .succeed ""⟩]
  maxSteps := 50
  onFail := none

def comparison : Comparison where
  deps := Bare.deps
  sampleFromSchema v := v
  w := Bare.workflow doc (Bare.run "run" { trigger := .schedule, seed := some 7 })
  mocks := [("tap", .str "ok")]
  simNow := 0
  now := 0
  rows := []
  ticks _ := Bare.tick (.str "ok")

theorem premises : comparison.Premises where
  noPins := rfl
  fromEntry := ⟨by decide, by decide⟩
  newRun r hr := nomatch hr
  calm _ := ⟨rfl, rfl, show (0 : Int) ≤ 21600000 by decide⟩
  scripts i node n hat hb := by
    have hmem : node ∈ doc.nodes := WorkflowDoc.mem_of_node? hat.node
    simp only [doc, mem_cons, not_mem_nil, or_false] at hmem
    rcases hmem with rfl | rfl | rfl
    · exact nomatch hb
    · obtain rfl : ⟨"tap@1", [], some "end", none⟩ = n := by simpa using hb
      exact ⟨.str "ok", .mock, _, _, rfl, rfl, rfl, by decide, by decide⟩
    · exact nomatch hb
  inputsFit i := by
    refine Comparison.forall_exec (c := comparison) (n := 3)
      (P := fun _ x ↦ Bare.jsonLength (currentInputValue x.summary) ≤ maxNodeOutputBytes)
      rfl ?_ ?_ i
    · decide
    · exact fun _ ↦ by decide
  setsFit i node n v hat hb := by
    have hmem : node ∈ doc.nodes := WorkflowDoc.mem_of_node? hat.node
    simp only [doc, mem_cons, not_mem_nil, or_false] at hmem
    rcases hmem with rfl | rfl | rfl <;> exact nomatch hb

theorem node_of_at (id : String) {x : Walk} {node : WorkflowNode} (hc : x.cursor = some id)
    (hat : x.At comparison.w node) : doc.node? id = some node := by
  have hid : node.id = id := Option.some.inj (hat.cursor.symm.trans hc)
  rw [← hid]
  exact hat.node

/-- Every turn of the run is in step. -/
theorem stays (i : ℕ) (hi : i < 3) :
    comparison.StaysInStep (comparison.exec i) (comparison.sim i) (comparison.ticks i) := by
  intro node hat
  rcases i with _ | _ | _ | i
  · obtain rfl := Option.some.inj (node_of_at "start" rfl hat)
    exact ⟨by decide, trivial⟩
  · obtain rfl := Option.some.inj (node_of_at "tap" rfl hat)
    exact ⟨by decide, fun _ ↦ ⟨fun h ↦ (nomatch h), trivial⟩⟩
  · obtain rfl := Option.some.inj (node_of_at "end" rfl hat)
    exact ⟨by decide, rfl⟩
  · omega

/-- The simulation of it agrees with its run. -/
theorem simulation_agrees_oneScript : comparison.Agree :=
  (Comparison.simulation_agrees_iff premises).mpr
    ⟨3, stays, nofun⟩

end OneScript
end Enkaku
