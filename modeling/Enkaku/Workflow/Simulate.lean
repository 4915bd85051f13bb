import Enkaku.Workflow.Executor

/-!
# The simulator

`simulateWorkflow`: a whole workflow with no device attached.  It has a loop of its own over the
same nodes; gates, switches, assignments, waits and shuffles are decided by the functions of
`Enkaku.Workflow.StepCompute`, and a script node is given a value instead of being run.

The loop is `Simulation.turn`, taken until the cursor is gone.  `$now` and the seed are fixed by the
request, so nothing else enters it.
-/

set_option autoImplicit false

namespace Enkaku

structure SimulateRequest where
  doc : WorkflowDoc
  params : List (String × Value)
  mocks : List (String × Value)
  now : Int
  seed : Int

structure SimulateDeps where
  evaluate : Evaluator
  readPins : String → List (String × Value)
  resolve : String → Except Thrown ScriptEntry
  sampleFromSchema : Value → Value

/-- Where a simulated value came from. -/
inductive SimulatedValueSource where
  | pin | mock | sample | computed
  deriving DecidableEq, Repr

namespace SimulatedValueSource

def toString : SimulatedValueSource → String
  | pin => "pin"
  | mock => "mock"
  | sample => "sample"
  | computed => "computed"

end SimulatedValueSource

structure SimulatedStep where
  seq : Nat
  nodeId : String
  kind : StepKind
  input : Value
  output : Value
  source : SimulatedValueSource
  takenEdge : Option Edge
  skippedMs : Option ℚ := none
  deriving DecidableEq, Repr

/-- The state of the simulator's loop. -/
structure Simulation where
  cursor : Option String
  seq : Nat := 0
  status : FinalStatus := .success
  error : Option String := none
  outputs : List (String × Value) := []
  summary : List RunSummaryEntry := []
  shuffleDone : List (String × List String) := []
  steps : List SimulatedStep := []
  /-- The node the simulation stopped at for want of a value, and why. -/
  stopped : Option (String × String) := none
  visits : List Visit := []

/-- `scriptNodeValue`: a mock, else a pin, else a sample of the declared result. -/
def scriptNodeValue (deps : SimulateDeps) (req : SimulateRequest) (id : String) (n : ScriptNode) :
    Except String (Value × SimulatedValueSource) :=
  match OrdMap.get? id req.mocks, OrdMap.get? id (deps.readPins req.doc.name) with
  | some value, _ => .ok (value, .mock)
  | none, some value => .ok (nullish value, .pin)
  | none, none =>
    let script := n.script
    match deps.resolve script with
    | .error err =>
      let message := err.message
      .error s!"script \"{script}\" could not be resolved: {message} — pin a value to simulate past it"
    | .ok entry =>
      if nullish entry.resultSchema = .null then
        .error s!"\"{id}\" ({script}) declares no result shape — pin a value to simulate past it"
      else .ok (deps.sampleFromSchema entry.resultSchema, .sample)

/-- What the simulator makes of a node it does not skip. -/
structure Simulated where
  output : Value
  takenEdge : Edge
  recorded : Option Value
  script : Option String := none
  source : SimulatedValueSource := .computed
  skippedMs : Option ℚ := none

namespace Simulation

variable (deps : SimulateDeps) (req : SimulateRequest)

/-- The scope a step is evaluated in. -/
def scope (s : Simulation) : ResolveScope where
  params := req.params
  outputs := s.outputs
  summary := s.summary
  runIndex := none
  runCount := none
  runRepeat := none
  device := none
  now := req.now
  randomSeed := deriveRandom req.seed s.seq

/-- A visit to a shuffle.  Its wait is reported and not honoured. -/
def simulateShuffle (s : Simulation) (node : WorkflowNode) (n : ShuffleNode) : Simulated :=
  let done := Walk.done s.shuffleDone node.id
  let result := computeShuffleStep n done (s.scope req).randomSeed req.doc.isEnabled
  let waitedMs :=
    if result.chosen.isSome then computeBetweenMs deps.evaluate n done.isEmpty (s.scope req) else 0
  { output := result.output waitedMs
    takenEdge := result.takenEdge
    recorded := none
    skippedMs := if 0 < waitedMs then some waitedMs else none }

def simulateGate (s : Simulation) (n : GateNode) : Simulated :=
  let result := computeGateStep deps.evaluate n (s.scope req)
  { output := result.output, takenEdge := result.takenEdge, recorded := some result.output }

def simulateSwitch (s : Simulation) (n : SwitchNode) : Simulated :=
  let result := computeSwitchStep deps.evaluate n (s.scope req)
  { output := result.output, takenEdge := result.takenEdge, recorded := some result.output }

/-- A delay resolves instantly and says so. -/
def simulateDelay (s : Simulation) (n : DelayNode) : Simulated :=
  let waitMs := computeDelayMs deps.evaluate n (s.scope req)
  { output := .obj [("ms", .num waitMs)]
    takenEdge := .next
    recorded := some (.obj [("ms", .num waitMs)])
    skippedMs := some waitMs }

/-- A script node, with the value it is given. -/
def simulateScript (n : ScriptNode) (value : Value) (source : SimulatedValueSource) : Simulated :=
  let script := n.script
  let origin := source.toString
  { output := value
    takenEdge := .next
    recorded := some value
    script := some s!"{script} ({origin})"
    source := source }

/-- Recording a step: `outputs`, the summary, the step, the counter, the cursor. -/
def record (s : Simulation) (node : WorkflowNode) (n : StepNode) (r : Simulated) : Simulation :=
  { s with
    outputs := (r.recorded.map fun v ↦ OrdMap.set node.id v s.outputs).getD s.outputs
    summary := s.summary ++
      [{ nodeId := node.id
         script := r.script
         status := .success
         startedAt := toSec req.now
         finishedAt := toSec req.now
         durationMs := 0
         output := r.output }]
    shuffleDone := Walk.markShuffled s.shuffleDone node.id (some r.takenEdge)
    steps := s.steps ++
      [{ seq := s.seq
         nodeId := node.id
         kind := n.kind
         input := Walk.currentInputValue s.summary
         output := r.output
         source := r.source
         takenEdge := some r.takenEdge
         skippedMs := r.skippedMs }]
    seq := s.seq + 1
    cursor := req.doc.advance node r.takenEdge
    visits := s.visits ++
      [{ nodeId := node.id
         takenEdge := some r.takenEdge
         draw := some (deriveRandom req.seed s.seq)
         input := Walk.currentInputValue s.summary
         output := r.output
         recorded := r.recorded }] }

/-- A `set` node whose assignments fail ends the simulation; it is pushed as a step, with no summary
entry. -/
def failSet (s : Simulation) (node : WorkflowNode) (error : String) : Simulation :=
  let id := node.id
  { s with
    steps := s.steps ++
      [{ seq := s.seq
         nodeId := node.id
         kind := .set
         input := Walk.currentInputValue s.summary
         output := .null
         source := .computed
         takenEdge := none }]
    status := .failed
    error := some s!"step \"{id}\" failed: {error}"
    cursor := none
    visits := s.visits ++
      [⟨node.id, none, some (deriveRandom req.seed s.seq), Walk.currentInputValue s.summary, .null,
        none⟩] }

/-- A node that is enabled and costs a step. -/
def simulate (s : Simulation) (node : WorkflowNode) (n : StepNode) : Simulation :=
  match n with
  | .shuffle m => s.record req node n (s.simulateShuffle deps req node m)
  | .gate m => s.record req node n (s.simulateGate deps req m)
  | .switch m => s.record req node n (s.simulateSwitch deps req m)
  | .delay m => s.record req node n (s.simulateDelay deps req m)
  | .set m =>
    match computeSetStep deps.evaluate m (s.scope req) (Walk.currentInputValue s.summary) with
    | .error error => s.failSet req node error
    | .ok result =>
      s.record req node n { output := result, takenEdge := .next, recorded := some result }
  | .script m =>
    match scriptNodeValue deps req node.id m with
    | .error reason => { s with cursor := none, stopped := some (node.id, reason) }
    | .ok (value, source) => s.record req node n (simulateScript m value source)

/-- A node the author switched off, a `finish` included: it is pushed as a step, and nothing of it
is in the summary. -/
def skip (s : Simulation) (node : WorkflowNode) : Simulation :=
  { s with
    steps := s.steps ++
      [{ seq := s.seq
         nodeId := node.id
         kind := (node.step?.map StepNode.kind).getD .set
         input := .null
         output := .null
         source := .computed
         takenEdge := some .next }]
    seq := s.seq + 1
    cursor := req.doc.advance node .next
    visits := s.visits ++ [⟨node.id, some .next, none, .null, .null, none⟩] }

/-- A `finish` node. -/
def finish (s : Simulation) (node : WorkflowNode) (status : FinishStatus) (message : String) :
    Simulation :=
  let id := node.id
  match status with
  | .succeed => { s with cursor := none }
  | .fail =>
    { s with
      cursor := none
      status := .failed
      error := some
        (if message = "" then s!"workflow ended at finish node \"{id}\" — failed" else message) }

/-- A node is reached. -/
def reach (s : Simulation) (node : WorkflowNode) : Simulation :=
  match node.body with
  | .start next => { s with cursor := next }
  | .finish status message =>
    if node.enabled then s.finish node status message else s.skip req node
  | .step n => if node.enabled then s.simulate deps req node n else s.skip req node

/-- One turn of the loop. -/
def turn (s : Simulation) : Simulation :=
  match s.cursor with
  | none => s
  | some cursor =>
    let maxSteps := req.doc.maxSteps
    if maxSteps ≤ s.seq then
      { s with
        cursor := none
        status := .failed
        error := some
          s!"the workflow's step budget (maxSteps: {maxSteps}) was exceeded on step \"{cursor}\"" }
    else
      match req.doc.node? cursor with
      | none =>
        { s with
          cursor := none
          status := .failed
          error := some s!"step \"{cursor}\" does not exist in this workflow's document" }
      | some node => s.reach deps req node

/-- The state the loop starts in. -/
def start : Simulation := { cursor := some req.doc.entry }

/-- The state after a number of turns. -/
def after : Nat → Simulation
  | 0 => start req
  | n + 1 => (after n).turn deps req

end Simulation

end Enkaku
