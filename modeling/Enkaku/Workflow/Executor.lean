import Enkaku.Jobs.ExecutorHost
import Enkaku.Workflow.StepTable

/-!
# The workflow orchestrator

`createWorkflowOrchestrator`: one attempt at one workflow run.  `setup` is what comes before the
loop, which on a resume copies rows of the resumed run; `iterate` is one turn of the cursor loop;
`leave` is the `finally` block.  Everything the attempt keeps in memory is the state `Walk`, with the table
`workflow_steps` it writes to.

What one turn meets in the world — the clock, an abort, how the child job of a script step ended —
is its `Tick`.  The script registry, the parameter schemas, the pins, the device's facts, the
expression language and the length of a value's JSON text are parameters.  Logging, and the priority
and numbering an enqueued child job is given, are left out.
-/

set_option autoImplicit false

namespace Enkaku

/-! ## What an attempt is given -/

/-- A published script, as a step and the simulator read it. -/
structure ScriptEntry where
  id : String
  name : String
  version : String
  paramsSchema : Value
  /-- `null` when the script declares no result. -/
  resultSchema : Value
  deriving DecidableEq, Repr

namespace ScriptEntry

/-- The label of a script in a summary entry. -/
def label (e : ScriptEntry) : String :=
  let name := e.name
  let version := e.version
  s!"{name}@{version}"

end ScriptEntry

structure OrchestratorDeps where
  evaluate : Evaluator
  /-- `registry.resolve`: the script a reference names, or what it throws. -/
  resolve : String → Except Thrown ScriptEntry
  /-- `applySchemaDefaults`, for the schema of a script. -/
  applySchemaDefaults : Value → List (String × Value) → List (String × Value)
  /-- `validateAgainstSchema`: `none`, or the issues joined with `'; '`. -/
  validateAgainstSchema : Value → List (String × Value) → Option String
  /-- `pins.readPins`. -/
  readPins : String → List (String × Value)
  /-- `SELECT count(*) FROM jobs WHERE batch_id = …`. -/
  batchSize : String → Int
  readDeviceFacts : String → Option ExprDevice
  /-- `settings().maxTotalMs`. -/
  maxTotalMs : Int
  /-- The UTF-8 length of `JSON.stringify(value)`. -/
  jsonBytes : Value → Nat

/-- What one call of `run` is given: the document of the job, the job and its run. -/
structure WorkflowRun where
  doc : WorkflowDoc
  job : JobRow
  run : JobRunRow

/-- `PIN_AWARE_TRIGGERS`. -/
def pinAwareTriggers : List RunTrigger := [.manual, .rerun, .nodeTest]

/-- `value ?? null`. -/
def nullish : Value → Value
  | .undefined => .null
  | v => v

/-- `WORKFLOW_LIMITS.maxNodeOutputBytes`. -/
def maxNodeOutputBytes : Nat := 256 * 1024

/-- `capOutput`: the value, or `null` and the reason when its JSON is too long. -/
def capOutput (deps : OrchestratorDeps) (value : Value) : Value × Option String :=
  let bytes := deps.jsonBytes (nullish value)
  if bytes ≤ maxNodeOutputBytes then (nullish value, none)
  else
    (.null, some s!"output was {bytes} bytes, over the {maxNodeOutputBytes}-byte cap (WORKFLOW_LIMITS.maxNodeOutputBytes) — dropped")

namespace WorkflowRun

variable (w : WorkflowRun) (deps : OrchestratorDeps)

/-- `job.params` when it is an object, else nothing. -/
def rawParams : List (String × Value) :=
  match w.job.params with
  | .obj fields => fields
  | _ => []

/-- `__nodeTest`: the predecessor a node test is seeded with, and its value. -/
def nodeTestSeed : Option (String × Value) :=
  match OrdMap.get? "__nodeTest" w.rawParams with
  | some (.obj fields) =>
    match OrdMap.get? "predecessorId" fields with
    | some (.str predecessorId) =>
      some (predecessorId, (OrdMap.get? "value" fields).getD .undefined)
    | _ => none
  | _ => none

/-- The parameters the caller sent. -/
def supplied : List (String × Value) := w.rawParams.filter fun p ↦ p.1 ≠ "__nodeTest"

/-- The document's own defaults. -/
def declaredDefaults : List (String × Value) :=
  w.doc.params.foldl (fun acc p ↦
    if p.default = .undefined then acc else OrdMap.set p.name p.default acc) []

/-- `{ ...declaredDefaults, ...supplied }`. -/
def params : List (String × Value) := OrdMap.merge w.declaredDefaults w.supplied

def pinsAllowed : Bool := pinAwareTriggers.contains w.run.trigger

/-- `activePins`. -/
def activePins : List (String × Value) :=
  if w.pinsAllowed then (w.job.workflowName.map deps.readPins).getD [] else []

end WorkflowRun

/-! ## The state of an attempt -/

/-- One step of a walk: the node, the edge it was left by, the draw it was given (a node passed
over is given none), its `$input`, its output, and what it put into `outputs`.  The walk keeps
these in order; nothing in it reads them. -/
structure Visit where
  nodeId : String
  takenEdge : Option Edge
  draw : Option ℚ
  input : Value
  output : Value
  recorded : Option Value
  deriving DecidableEq, Repr

inductive FinalStatus where
  | success | failed
  deriving DecidableEq, Repr

/-- The memory of one attempt, with the table it writes to. -/
structure Walk where
  rows : List StepRow
  cursor : Option String
  step : Nat := 0
  seqOffset : Nat := 0
  outputs : List (String × Value) := []
  summary : List RunSummaryEntry := []
  runCounts : List (String × Nat) := []
  carriedOverIds : List String := []
  shuffleDone : List (String × List String) := []
  finalStatus : FinalStatus := .success
  finalErrorCode : Option String := none
  finalErrorMessage : Option String := none
  cancelled : Bool := false
  /-- The loop was left by an exception. -/
  threw : Bool := false
  /-- The first insert the database refused. -/
  dbError : Option StoreError := none
  visits : List Visit := []

/-- How the child job of a script step ended: its settled run, or what enqueueing it or waiting for
it threw. -/
inductive ChildOutcome where
  | settled (run : JobRunRow)
  | threw (err : Thrown)

/-- What one turn of the loop meets.  Instants and spans are milliseconds. -/
structure Tick where
  /-- The signal is aborted when the turn begins. -/
  abortedBefore : Bool
  /-- The signal aborts during the turn, while it waits. -/
  abortedDuring : Bool
  /-- The signal's reason. -/
  reason : Thrown
  elapsedMs : Int
  startedAt : Int
  finishedAt : Int
  child : ChildOutcome

/-- `toSec`. -/
def toSec (ms : Int) : Int := ms / 1000

namespace Walk

/-- The loop goes round again. -/
def running (x : Walk) : Bool := x.cursor.isSome && !x.threw

/-- The number of the next row. -/
def seq (x : Walk) : Nat := x.step + x.seqOffset

/-- `currentInputValue`: the previous step's own output, or `null` for the first. -/
def currentInputValue (summary : List RunSummaryEntry) : Value :=
  (summary.getLast?.map fun e ↦ nullish e.output).getD .null

/-- `shuffleDone.get`, with the empty set for a shuffle not visited yet. -/
def done (shuffleDone : List (String × List String)) (shuffleId : String) : List String :=
  (OrdMap.get? shuffleId shuffleDone).getD []

/-- `markShuffled`: a visit that dispatched a member marks it. -/
def markShuffled (shuffleDone : List (String × List String)) (shuffleId : String)
    (takenEdge : Option Edge) : List (String × List String) :=
  match takenEdge.bind Edge.member? with
  | none => shuffleDone
  | some member =>
    let set := done shuffleDone shuffleId
    OrdMap.set shuffleId (if set.contains member then set else set ++ [member]) shuffleDone

/-- The cursor is dropped and the run has failed. -/
def fail (x : Walk) (code message : String) : Walk :=
  { x with
    cursor := none
    finalStatus := .failed
    finalErrorCode := some code
    finalErrorMessage := some message }

/-- The `catch` block. -/
def caught (x : Walk) (t : Tick) (err : Thrown) : Walk :=
  let aborted := t.abortedBefore || t.abortedDuring
  let cancelled := aborted &&
    (err.code.isNone || err.code == some "E_CANCELLED" || err.code == some "job_cancelled")
  { x with
    threw := true
    finalStatus := .failed
    cancelled := cancelled
    finalErrorCode := some (if cancelled then "job_cancelled"
      else err.code.getD "E_WORKFLOW_INTERNAL")
    finalErrorMessage := some err.message }

/-- What an insert throws when the unique index refuses it. -/
def uniqueViolation : Thrown where
  message := "UNIQUE constraint failed: workflow_steps.run_id, workflow_steps.seq"

/-- An insert inside the loop was refused. -/
def insertRefused (x : Walk) (t : Tick) (e : StoreError) : Walk :=
  { x.caught t uniqueViolation with dbError := some e }

end Walk

/-! ## Setup -/

namespace WorkflowRun

variable (w : WorkflowRun)

/-- What a node test starts with: the predecessor's output, and its entry in the summary. -/
def seeded (now : Int) : List (String × Value) × List RunSummaryEntry :=
  match w.run.trigger, w.nodeTestSeed with
  | .nodeTest, some (predecessorId, value) =>
    ([(predecessorId, value)],
      [{ nodeId := predecessorId
         script := none
         status := .success
         startedAt := toSec now
         finishedAt := toSec now
         durationMs := 0
         output := value }])
  | _, _ => ([], [])

/-- The rows of a run in the order of `seq`. -/
def priorSteps (rows : List StepRow) (runId : String) : List StepRow :=
  (StepTable.rowsOf rows runId).insertionSort fun a b ↦ a.seq ≤ b.seq

/-- A row a resume carries over. -/
def carries (r : StepRow) : Bool := r.status == .success || r.status == .carriedOver

/-- The rows of `priorSteps` a resume from step `k` carries over. -/
def keptSteps (rows : List StepRow) (runId : String) (k : Nat) : List StepRow :=
  ((priorSteps rows runId).takeWhile fun r ↦ r.seq < k).filter carries

/-- The row a carried step is copied to. -/
def carriedRow (runId : String) (seq : Nat) (r : StepRow) : StepRow :=
  { r with runId := runId, seq := seq, status := .carriedOver, error := none, errorCode := none }

/-- The run a resume continues, and the step it restarts at. -/
def resumeFrom? : Option (String × Nat) :=
  if w.run.trigger = .resume then
    w.run.resumedFromRunId.map fun priorRunId ↦ (priorRunId, w.run.resumedFromStep.getD 0)
  else none

/-- The resume branch: the kept rows are copied under this run, numbered from zero, and their
outputs and shuffle marks are taken over; the cursor is the step at `k`. -/
def resume (x : Walk) (priorRunId : String) (k : Nat) : Walk :=
  let kept := keptSteps x.rows priorRunId k
  let copies := kept.zipIdx.map fun p ↦ carriedRow w.run.id p.2 p.1
  let (rows, refused) := StepTable.insertAll x.rows copies
  { x with
    rows := rows
    dbError := refused
    outputs := kept.foldl (fun acc r ↦ OrdMap.set r.stepId r.output acc) x.outputs
    carriedOverIds := kept.map (·.stepId)
    shuffleDone := kept.foldl (fun acc r ↦
      if r.kind = .shuffle then Walk.markShuffled acc r.stepId r.takenEdge else acc) x.shuffleDone
    seqOffset := kept.length
    cursor := some ((((priorSteps x.rows priorRunId).find? fun r ↦ r.seq = k).map
      (·.stepId)).getD w.doc.entry) }

/-- The setup of an attempt.  It stands before the `try`: an insert refused here ends the attempt
without its `finally`. -/
def setup (now : Int) (rows : List StepRow) : Walk :=
  let (outputs, summary) := w.seeded now
  let x : Walk := { rows := rows, cursor := some w.doc.entry, outputs := outputs, summary := summary }
  match w.resumeFrom? with
  | none => x
  | some (priorRunId, k) => w.resume x priorRunId k

end WorkflowRun

/-! ## One step -/

/-- Why a step ends the run: the final error, and whether it counts as a cancellation. -/
structure Ending where
  cancelled : Bool
  code : String
  message : String
  deriving DecidableEq, Repr

/-- What handling a node came to: the columns its row is updated with, its summary entry, what it
puts into `outputs`, and where control goes. -/
structure Handled where
  status : StepStatus := .success
  output : Value
  outputTruncated : Option String := none
  takenEdge : Option Edge
  pinned : Bool := false
  verdict : Option PredicateTrace := none
  jobId : Option String := none
  jobRunId : Option String := none
  error : Option String := none
  errorCode : Option String := none
  script : Option String := none
  summaryOutput : Value
  recorded : Option Value := none
  /-- The edge a shuffle's visit is marked with. -/
  shuffled : Option Edge := none
  goto : Option String
  ending : Option Ending := none

/-- How a script step came out, before it is recorded. -/
inductive ScriptOutcome where
  | ok (run : JobRunRow) (scriptRef : ScriptEntry)
  | failed (code message : String) (run : Option JobRunRow) (scriptRef : Option ScriptEntry)

section Handle

variable (deps : OrchestratorDeps) (w : WorkflowRun)

/-- The bindings of a script step, in order; the first that does not resolve ends them. -/
def bindParams (scope : ResolveScope) : List (String × ValueExpr) → List (String × Value) →
    StateM Nat (Except (String × ResolveOutcome) (List (String × Value)))
  | [], acc => return .ok acc
  | (key, expr) :: params, acc => do
    match ← resolveValue deps.evaluate scope expr with
    | .ok value => bindParams scope params (OrdMap.set key value acc)
    | outcome => return .error (key, outcome)

/-- `runScriptStep`: resolve the script, bind and check its parameters, and wait for the child job.
It throws when the wait, or enqueueing the job, does. -/
def runScriptStep (nodeId : String) (n : ScriptNode) (scope : ResolveScope) (child : ChildOutcome) :
    Except Thrown ScriptOutcome :=
  match deps.resolve n.script with
  | .error err =>
    .ok (.failed (err.code.getD "E_WORKFLOW_SCRIPT_UNRESOLVED") err.message none none)
  | .ok entry =>
    match (bindParams deps scope n.params [] 0).1 with
    | .error (key, outcome) =>
      let seen := match outcome.sawKeys? with
        | some keys => " — available: " ++ ", ".intercalate keys
        | none => ""
      let detail := outcome.detail?.getD ""
      .ok (.failed "E_WORKFLOW_BINDING_UNRESOLVED"
        s!"step \"{nodeId}\" parameter \"{key}\": {detail}{seen}" none (some entry))
    | .ok resolved =>
      let withDefaults := deps.applySchemaDefaults entry.paramsSchema resolved
      match deps.validateAgainstSchema entry.paramsSchema withDefaults with
      | some issues =>
        .ok (.failed "invalid_job_params" s!"step \"{nodeId}\": {issues}" none (some entry))
      | none =>
        match child with
        | .threw err => .error err
        | .settled run =>
          if run.status = .success then .ok (.ok run entry)
          else .ok (.failed (run.failureClass.getD "SCRIPT_FAILED")
            (run.error.getD "the step failed") (some run) (some entry))

/-- A pinned node is not executed: its pin stands for its output. -/
def handlePinned (node : WorkflowNode) (n : StepNode) (pinned : Value) : Handled :=
  { output := pinned
    takenEdge := some (defaultEdgeFor n)
    pinned := true
    script := n.script?.map fun s ↦ s!"{s} (pinned)"
    summaryOutput := pinned
    recorded := some pinned
    goto := w.doc.advance node (defaultEdgeFor n) }

/-- A step that neither fails nor records an output. -/
def controlStep (node : WorkflowNode) (takenEdge : Edge) (output : Value) : Handled :=
  { output := output
    takenEdge := some takenEdge
    summaryOutput := output
    goto := w.doc.advance node takenEdge }

/-- One visit to a shuffle: one member dispatched, or the visit that leaves. -/
def handleShuffle (node : WorkflowNode) (n : ShuffleNode) (done : List String)
    (scope : ResolveScope) (t : Tick) : Except Thrown Handled :=
  let result := computeShuffleStep n done scope.randomSeed w.doc.isEnabled
  let betweenMs :=
    if result.chosen.isSome then computeBetweenMs deps.evaluate n done.isEmpty scope else 0
  if 0 < betweenMs ∧ t.abortedDuring then .error t.reason
  else
    .ok { controlStep w node result.takenEdge (result.output betweenMs) with
      shuffled := some result.takenEdge }

def handleGate (node : WorkflowNode) (n : GateNode) (scope : ResolveScope) : Handled :=
  let result := computeGateStep deps.evaluate n scope
  { controlStep w node result.takenEdge result.output with verdict := some result.trace }

def handleSwitch (node : WorkflowNode) (n : SwitchNode) (scope : ResolveScope) : Handled :=
  let result := computeSwitchStep deps.evaluate n scope
  controlStep w node result.takenEdge result.output

/-- A delay always waits, if only for no time, so an abort always reaches it. -/
def handleDelay (node : WorkflowNode) (n : DelayNode) (scope : ResolveScope) (t : Tick) :
    Except Thrown Handled :=
  if t.abortedDuring then .error t.reason
  else
    let waitMs := computeDelayMs deps.evaluate n scope
    .ok (controlStep w node .next (.obj [("ms", .num waitMs)]))

def handleSet (node : WorkflowNode) (n : SetNode) (scope : ResolveScope) (input : Value) : Handled :=
  match computeSetStep deps.evaluate n scope input with
  | .error error =>
    let id := node.id
    { status := .failed
      output := .null
      takenEdge := none
      error := some error
      errorCode := some "E_WORKFLOW_SET_FAILED"
      summaryOutput := .null
      goto := none
      ending := some ⟨false, "E_WORKFLOW_SET_FAILED", s!"step \"{id}\" failed: {error}"⟩ }
  | .ok result =>
    let (output, truncated) := capOutput deps result
    { output := output
      outputTruncated := truncated
      takenEdge := some .next
      summaryOutput := output
      recorded := some output
      goto := w.doc.advance node .next }

/-- A script step whose child succeeded. -/
def handleScriptOk (node : WorkflowNode) (run : JobRunRow) (scriptRef : ScriptEntry) : Handled :=
  let (output, truncated) := capOutput deps run.result
  { output := output
    outputTruncated := truncated
    takenEdge := some .next
    jobId := some run.jobId
    jobRunId := some run.id
    script := some scriptRef.label
    summaryOutput := nullish run.result
    recorded := some run.result
    goto := w.doc.advance node .next }

/-- The child of a script step was cancelled. -/
def wasCancelled (code : String) (run : Option JobRunRow) : Bool :=
  (run.any fun r ↦ r.status = .cancelled) || code == "job_cancelled"

/-- Where control goes after a script step failed for good: along `onFailure`; else back to a
shuffle that survives its members; else the run ends. -/
def afterFailure (node : WorkflowNode) (n : ScriptNode) (code message : String) :
    Option String × Option Ending :=
  match n.onFailure, w.doc.survivesFailure node.id with
  | some target, _ => (some target, none)
  | none, some owner => (some owner, none)
  | none, none =>
    let id := node.id
    (none, some ⟨false, code, s!"step \"{id}\" failed: {message}"⟩)

/-- A script step that failed. -/
def handleScriptFailed (node : WorkflowNode) (n : ScriptNode) (code message : String)
    (run : Option JobRunRow) (scriptRef : Option ScriptEntry) : Handled :=
  let cancelled := wasCancelled code run
  let after := if cancelled then (none, some ⟨true, "job_cancelled", message⟩)
    else afterFailure w node n code message
  { status := if run.any fun r ↦ r.status = .cancelled then .cancelled else .failed
    output := .null
    takenEdge := if cancelled then none else some .onFailure
    jobId := run.map (·.jobId)
    jobRunId := run.map (·.id)
    error := some message
    errorCode := some code
    script := some ((scriptRef.map (·.label)).getD n.script)
    summaryOutput := .null
    goto := after.1
    ending := after.2 }

def handleScript (node : WorkflowNode) (n : ScriptNode) (scope : ResolveScope)
    (child : ChildOutcome) : Except Thrown Handled :=
  match runScriptStep deps node.id n scope child with
  | .error err => .error err
  | .ok (.ok run scriptRef) => .ok (handleScriptOk deps w node run scriptRef)
  | .ok (.failed code message run scriptRef) =>
    .ok (handleScriptFailed w node n code message run scriptRef)

/-- The scope a step is evaluated in, at row `seq`. -/
def scopeAt (x : Walk) (t : Tick) (seq : Nat) : ResolveScope where
  params := w.params
  outputs := x.outputs
  summary := x.summary
  runIndex := some (w.job.batchSeq.getD 0)
  runCount := some ((w.job.batchId.map deps.batchSize).getD 1)
  runRepeat := some (w.run.batchRepeat.getD 0)
  device := deps.readDeviceFacts w.job.deviceId
  now := t.startedAt
  randomSeed := deriveRandom w.run.seed seq

/-- The dispatch of the loop on a node that is enabled: its pin first, then by its kind. -/
def handle (x : Walk) (node : WorkflowNode) (n : StepNode) (t : Tick) : Except Thrown Handled :=
  let scope := scopeAt deps w x t x.seq
  match OrdMap.get? node.id (w.activePins deps) with
  | some pinned => .ok (handlePinned w node n (nullish pinned))
  | none =>
    match n with
    | .shuffle n => handleShuffle deps w node n (Walk.done x.shuffleDone node.id) scope t
    | .gate n => .ok (handleGate deps w node n scope)
    | .switch n => .ok (handleSwitch deps w node n scope)
    | .delay n => handleDelay deps w node n scope t
    | .set n => .ok (handleSet deps w node n scope (Walk.currentInputValue x.summary))
    | .script n => handleScript deps w node n scope t.child

end Handle

/-! ## The cursor loop -/

namespace Walk

variable (deps : OrchestratorDeps) (w : WorkflowRun)

/-- The row a step is logged with before it is handled. -/
def runningRow (x : Walk) (node : WorkflowNode) (n : StepNode) (t : Tick) : StepRow where
  runId := w.run.id
  seq := x.seq
  stepId := node.id
  kind := n.kind
  status := .running
  startedAt := some (toSec t.startedAt)
  finishedAt := none
  input := (capOutput deps (currentInputValue x.summary)).1

/-- The columns a handled step's row is updated with. -/
def handledRow (h : Handled) (t : Tick) (r : StepRow) : StepRow :=
  { r with
    status := h.status
    finishedAt := some (toSec t.finishedAt)
    output := h.output
    outputTruncated := h.outputTruncated
    takenEdge := h.takenEdge
    pinned := h.pinned
    verdict := h.verdict
    jobId := h.jobId
    jobRunId := h.jobRunId
    error := h.error
    errorCode := h.errorCode }

/-- The summary entry of a handled step. -/
def handledEntry (h : Handled) (node : WorkflowNode) (t : Tick) : RunSummaryEntry where
  nodeId := node.id
  script := h.script
  status := if h.status = .success then .success else .failed
  startedAt := toSec t.startedAt
  finishedAt := toSec t.finishedAt
  durationMs := t.finishedAt - t.startedAt
  output := h.summaryOutput

/-- The visit of a handled step. -/
def handledVisit (h : Handled) (x : Walk) (node : WorkflowNode) : Visit where
  nodeId := node.id
  takenEdge := h.takenEdge
  draw := some (deriveRandom w.run.seed x.seq)
  input := (capOutput deps (currentInputValue x.summary)).1
  output := h.output
  recorded := h.recorded

/-- Recording a handled step: its row, `outputs`, the summary, the counter, the cursor. -/
def record (x : Walk) (node : WorkflowNode) (t : Tick) (h : Handled) : Walk :=
  { x with
    rows := StepTable.update x.rows w.run.id x.seq (handledRow h t)
    outputs := (h.recorded.map fun v ↦ OrdMap.set node.id v x.outputs).getD x.outputs
    summary := x.summary ++ [handledEntry h node t]
    shuffleDone := markShuffled x.shuffleDone node.id h.shuffled
    step := x.step + 1
    cursor := h.goto
    finalStatus := if h.ending.isSome then .failed else x.finalStatus
    finalErrorCode := (h.ending.map (·.code)) <|> x.finalErrorCode
    finalErrorMessage := (h.ending.map (·.message)) <|> x.finalErrorMessage
    cancelled := (h.ending.map (·.cancelled)).getD x.cancelled
    visits := x.visits ++ [handledVisit deps w h x node] }

/-- The counter of a node's executions is raised. -/
def count (x : Walk) (nodeId : String) : Walk :=
  { x with
    runCounts := OrdMap.set nodeId ((OrdMap.get? nodeId x.runCounts).getD 0 + 1) x.runCounts }

/-- An enabled node is reached: it is counted and logged, then handled. -/
def execute (x : Walk) (node : WorkflowNode) (n : StepNode) (t : Tick) : Walk :=
  match StepTable.insert x.rows (runningRow deps w x node n t) with
  | .error e => (x.count node.id).insertRefused t e
  | .ok rows =>
    let x := { x.count node.id with rows := rows }
    match handle deps w x node n t with
    | .error err => x.caught t err
    | .ok h => x.record deps w node t h

/-- The row of a node that was passed over. -/
def skippedRow (runId : String) (seq : Nat) (node : WorkflowNode) (n : StepNode)
    (at_ : Option Int) (takenEdge : Option Edge) : StepRow where
  runId := runId
  seq := seq
  stepId := node.id
  kind := n.kind
  status := .skipped
  startedAt := at_
  finishedAt := at_
  takenEdge := takenEdge

/-- What passing over a node leaves, once its row is in: no step is counted. -/
def passOver (x : Walk) (node : WorkflowNode) (n : StepNode) (t : Tick) (rows : List StepRow) :
    Walk :=
  { x with
    rows := rows
    seqOffset := x.seqOffset + 1
    summary := x.summary ++
      [{ nodeId := node.id
         script := n.script?
         status := .skipped
         startedAt := toSec t.startedAt
         finishedAt := toSec t.startedAt
         durationMs := 0
         output := .null }]
    cursor := w.doc.advance node .next
    visits := x.visits ++ [⟨node.id, some .next, none, .null, .null, none⟩] }

/-- A node the author switched off is reached: it is logged as skipped and costs no step. -/
def skip (x : Walk) (node : WorkflowNode) (n : StepNode) (t : Tick) : Walk :=
  match StepTable.insert x.rows
      (skippedRow w.run.id x.seq node n (some (toSec t.startedAt)) (some .next)) with
  | .error e => x.insertRefused t e
  | .ok rows => x.passOver w node n t rows

/-- A `finish` node ends the run and costs no step. -/
def finish (x : Walk) (node : WorkflowNode) (status : FinishStatus) (message : String) : Walk :=
  let id := node.id
  match status with
  | .succeed => { x with cursor := none }
  | .fail => x.fail "E_WORKFLOW_FINISH_FAILED"
      (if message = "" then s!"workflow ended at finish node \"{id}\" — failed" else message)

/-- The text of the step budget's error. -/
def stepBudgetMessage (x : Walk) (maxSteps : Nat) (cursor : String) : String :=
  let counts := ", ".intercalate (x.runCounts.map fun p ↦ let id := p.1; let n := p.2; s!"{id}×{n}")
  s!"the workflow's step budget (maxSteps: {maxSteps}) was exceeded on step \"{cursor}\" — executions so far: {counts}"

/-- The text of the total budget's error. -/
def totalBudgetMessage (maxTotalMs elapsedMs : Int) (cursor : String) : String :=
  s!"the workflow's {maxTotalMs}ms total budget (workflow.maxTotalMs) was exceeded while step \"{cursor}\" was in flight ({elapsedMs}ms elapsed)"

/-- A node is reached. -/
def reach (x : Walk) (node : WorkflowNode) (t : Tick) : Walk :=
  match node.body with
  | .start next => { x with cursor := next }
  | .finish status message => x.finish node status message
  | .step n => if node.enabled then x.execute deps w node n t else x.skip w node n t

/-- One turn of the loop. -/
def iterate (x : Walk) (t : Tick) : Walk :=
  match x.cursor, x.threw with
  | some cursor, false =>
    if t.abortedBefore then x.caught t t.reason
    else if deps.maxTotalMs < t.elapsedMs then
      x.fail "E_WORKFLOW_BUDGET_EXCEEDED" (totalBudgetMessage deps.maxTotalMs t.elapsedMs cursor)
    else if w.doc.maxSteps ≤ x.step then
      x.fail "E_WORKFLOW_STEP_BUDGET" (x.stepBudgetMessage w.doc.maxSteps cursor)
    else
      match w.doc.node? cursor with
      | none => x.fail "E_WORKFLOW_INVALID"
          s!"step \"{cursor}\" does not exist in this workflow's document"
      | some node => x.reach deps w node t
  | _, _ => x

/-- Turn after turn. -/
def iterates (x : Walk) (ts : List Tick) : Walk := ts.foldl (iterate deps w) x

/-! ## Leaving -/

/-- The nodes the cursor never reached. -/
def unreached (x : Walk) : List (WorkflowNode × StepNode) :=
  w.doc.nodes.filterMap fun node ↦ node.step?.bind fun n ↦
    if (OrdMap.get? node.id x.runCounts).isSome || x.carriedOverIds.contains node.id then none
    else some (node, n)

/-- `Math.max(step + seqOffset, (highestWritten?.seq ?? -1) + 1)`. -/
def skipSeq (x : Walk) : Nat := max x.seq (StepTable.nextSeq x.rows w.run.id)

/-- The rows of the nodes never reached. -/
def unreachedRows (x : Walk) : List StepRow :=
  (x.unreached w).zipIdx.map fun p ↦
    skippedRow w.run.id (x.skipSeq w + p.2) p.1.1 p.1.2 none none

/-- `ON_FAIL_STEP_ID`. -/
def onFailStepId : String := "_on_fail"

/-- The row of the cleanup script, from its settled child. -/
def cleanupRow (runId : String) (seq : Nat) (now : Int) (child : JobRunRow) : StepRow where
  runId := runId
  seq := seq
  stepId := onFailStepId
  kind := .script
  jobId := some child.jobId
  jobRunId := some child.id
  status := if child.status = .success then .success else .failed
  startedAt := some (toSec now)
  finishedAt := some (toSec now)
  error := if child.status = .success then none else some (child.error.getD "onFail cleanup failed")
  errorCode := if child.status = .success then none
    else some (child.failureClass.getD "CLEANUP_FAILED")

/-- The cleanup of a run that ended failed and was not cancelled.  Its scope has no device, and
whatever goes wrong in it is tolerated.  Nothing aborts its wait, so only enqueueing its child can
throw. -/
def cleanup (x : Walk) (now : Int) (child : ChildOutcome) (skipSeq : Nat) : Walk :=
  match x.finalStatus, x.cancelled, w.doc.onFail with
  | .failed, false, some onFail =>
    let t : Tick := ⟨false, false, ⟨"", none, none, none⟩, 0, now, now, child⟩
    let scope := { scopeAt deps w x t skipSeq with device := none }
    match deps.resolve onFail.script, (bindParams deps scope onFail.params [] 0).1, child with
    | .ok entry, .ok resolved, .settled run =>
      let withDefaults := deps.applySchemaDefaults entry.paramsSchema resolved
      match deps.validateAgainstSchema entry.paramsSchema withDefaults with
      | some _ => x
      | none =>
        match StepTable.insert x.rows (cleanupRow w.run.id skipSeq now run) with
        | .error e => { x with dbError := some e }
        | .ok rows => { x with rows := rows }
    | _, _, _ => x
  | _, _, _ => x

/-- The `finally` block: every step the cursor never reached is written down, after the highest
number this run wrote; then the cleanup. -/
def leave (x : Walk) (now : Int) (child : ChildOutcome) : Walk :=
  let unreached := x.unreachedRows w
  match StepTable.insertAll x.rows unreached with
  | (rows, some e) => { x with rows := rows, dbError := some e }
  | (rows, none) =>
    { x with rows := rows }.cleanup deps w now child (x.skipSeq w + unreached.length)

/-- What `run` returns, or throws. -/
def result (x : Walk) : Except Thrown Value :=
  match x.finalStatus with
  | .failed =>
    .error { message := x.finalErrorMessage.getD "the workflow failed",
             code := some (x.finalErrorCode.getD "E_WORKFLOW_FAILED") }
  | .success => .ok (.arr (x.summary.map (·.toValue)))

end Walk

end Enkaku
