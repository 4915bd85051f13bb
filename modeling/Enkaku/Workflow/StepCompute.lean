import Enkaku.Workflow.Resolve

/-!
# The pure half of the workflow engine

`step-compute.ts`: which edge a node takes and what it outputs, decided from the node and its scope
alone.  The executor and the simulator both call these functions, so this module is the one place
the decision is made.
-/

set_option autoImplicit false

namespace Enkaku

/-! ## Edges -/

/-- `defaultEdgeFor`: the edge a pinned node takes. -/
def defaultEdgeFor : StepNode → Edge
  | .gate n => if n.then_.isSome then .then_ else .else_
  | .switch n =>
    match n.cases.findIdx? fun c ↦ c.to_.isSome with
    | none => .default
    | some i => .case i
  | .script _ | .delay _ | .set _ => .next
  | .shuffle n =>
    match n.members with
    | [] => .next
    | member :: _ => .member member

namespace StepNode

/-- `successorOf` for a node that is a step. -/
def successorOf : StepNode → Edge → Option String
  | gate n, edge => if edge = .then_ then n.then_ else n.else_
  | switch n, edge =>
    if edge = .default then n.default
    else edge.caseIndex?.bind fun i ↦ (n.cases[i]?).bind (·.to_)
  | script n, _ => n.next
  | delay n, _ => n.next
  | set n, _ => n.next
  | shuffle n, edge =>
    match edge.member? with
    | some member => if n.members.contains member then some member else none
    | none => n.next

end StepNode

/-- `successorOf`: the node an edge points at, `none` when it dangles. -/
def successorOf (node : WorkflowNode) (edge : Edge) : Option String :=
  node.step?.bind fun n ↦ n.successorOf edge

/-- `advance`: `successorOf`, and a dangling `next` of a shuffle's member leads back to the
shuffle. -/
def WorkflowDoc.advance (doc : WorkflowDoc) (node : WorkflowNode) (edge : Edge) : Option String :=
  match successorOf node edge with
  | some target => some target
  | none =>
    if edge = .next ∧ node.shuffle?.isNone then doc.shuffleOwner node.id else none

/-! ## Gates and switches -/

/-- `branch ?? null`, as a value. -/
def branchValue (target : Option String) : Value := (target.map Value.str).getD .null

structure GateStepResult where
  value : Bool
  trace : PredicateTrace
  takenEdge : Edge
  output : Value

/-- `computeGateStep`. -/
def computeGateStep (ev : Evaluator) (node : GateNode) (scope : ResolveScope) : GateStepResult :=
  let (value, trace) := (evaluatePredicate ev scope node.when_ 0).1
  { value := value
    trace := trace
    takenEdge := if value then .then_ else .else_
    output := .obj [("value", .bool value),
      ("branch", branchValue (if value then node.then_ else node.else_))] }

structure SwitchStepResult where
  takenEdge : Edge
  output : Value
  deriving DecidableEq, Repr

/-- The case a draw fires in weighted mode: the first at which what remains of the draw is used
up. -/
def weightedCase : List SwitchCase → ℚ → Option Nat
  | [], _ => none
  | c :: cases, remaining =>
    if remaining - c.weight.getD 0 ≤ 0 then some 0
    else (weightedCase cases (remaining - c.weight.getD 0)).map (· + 1)

/-- The case that fires in predicate mode: the first whose predicate holds. -/
def predicateCase (ev : Evaluator) (scope : ResolveScope) :
    List SwitchCase → StateM Nat (Option Nat)
  | [] => return none
  | c :: cases =>
    match c.when_ with
    | none => do return (← predicateCase ev scope cases).map (· + 1)
    | some pred => do
      let (value, _) ← evaluatePredicate ev scope pred
      if value then return some 0
      else return (← predicateCase ev scope cases).map (· + 1)

/-- The index of the case that fires, `none` for the default. -/
def firedIndex (ev : Evaluator) (node : SwitchNode) (scope : ResolveScope) : Option Nat :=
  match node.mode with
  | .weighted =>
    let total := (node.cases.map fun c ↦ c.weight.getD 0).sum
    -- A draw that landed past the last weight falls to the last case.
    some ((weightedCase node.cases (scope.randomSeed * total)).getD (node.cases.length - 1))
  | .predicate => (predicateCase ev scope node.cases 0).1

/-- `computeSwitchStep`. -/
def computeSwitchStep (ev : Evaluator) (node : SwitchNode) (scope : ResolveScope) :
    SwitchStepResult :=
  match firedIndex ev node scope with
  | none =>
    { takenEdge := .default
      output := .obj [("case", .null), ("branch", branchValue node.default)] }
  | some i =>
    { takenEdge := .case i
      output := .obj [("case", .num i),
        ("branch", branchValue ((node.cases[i]?).bind (·.to_)))] }

/-! ## `set` -/

/-- `typeof`. -/
def typeofValue : Value → String
  | .undefined => "undefined"
  | .null | .arr _ | .obj _ => "object"
  | .bool _ => "boolean"
  | .num _ => "number"
  | .str _ => "string"

/-- One assignment of a `set` node, or the text of its error. -/
def computeAssignment (ev : Evaluator) (scope : ResolveScope) (base : List (String × Value))
    (a : SetAssignment) : StateM Nat (Except String (List (String × Value))) := do
  match ← resolveValue ev scope a.name with
  | .unresolved detail _ | .noSuchNode detail => return .error s!"an assignment's name: {detail}"
  | .ok (.str name) =>
    if name.isEmpty then
      return .error "an assignment's name resolved to an empty string, not a non-empty string"
    match ← resolveValue ev scope a.value with
    | .unresolved detail _ | .noSuchNode detail => return .error s!"assignment \"{name}\": {detail}"
    | .ok value => return setPath base name value
  | .ok v =>
    let type := typeofValue v
    return .error s!"an assignment's name resolved to {type}, not a non-empty string"

/-- The assignments of a `set` node, in order, the first error ending them. -/
def computeAssignments (ev : Evaluator) (scope : ResolveScope) :
    List SetAssignment → List (String × Value) → StateM Nat (Except String (List (String × Value)))
  | [], base => return .ok base
  | a :: assignments, base => do
    match ← computeAssignment ev scope base a with
    | .error e => return .error e
    | .ok base => computeAssignments ev scope assignments base

/-- `computeSetStep`: the output of a `set` node, or the text of its error. -/
def computeSetStep (ev : Evaluator) (node : SetNode) (scope : ResolveScope) (inputForBase : Value) :
    Except String Value :=
  let base := match node.keepOnlySet, inputForBase with
    | false, .obj fields => fields
    | _, _ => []
  match (computeAssignments ev scope node.assignments base 0).1 with
  | .error e => .error e
  | .ok fields => .ok (.obj fields)

/-! ## Waits -/

/-- A wait in milliseconds: what the expression came to when it is a number, else 0, within
`[0, maxMs]`. -/
def clampMs (ev : Evaluator) (ms : ValueExpr) (maxMs : Nat) (scope : ResolveScope) : ℚ :=
  let raw := match (resolveValue ev scope ms 0).1 with
    | .ok (.num n) => n
    | _ => 0
  max 0 (min raw maxMs)

/-- `computeDelayMs`. -/
def computeDelayMs (ev : Evaluator) (node : DelayNode) (scope : ResolveScope) : ℚ :=
  clampMs ev node.ms node.maxMs scope

/-- `computeBetweenMs`: the wait before one shuffled member, none before the first. -/
def computeBetweenMs (ev : Evaluator) (node : ShuffleNode) (isFirst : Bool) (scope : ResolveScope) :
    ℚ :=
  if isFirst then 0 else clampMs ev node.between node.betweenMaxMs scope

/-! ## `shuffle` -/

/-- One visit of a shuffle: the member it dispatches to, `none` on the visit that leaves, and the
bookkeeping record it outputs. -/
structure ShuffleStepResult where
  chosen : Option String
  done : List String
  remaining : Nat
  deriving DecidableEq, Repr

namespace ShuffleStepResult

/-- The edge a visit takes. -/
def takenEdge (r : ShuffleStepResult) : Edge :=
  match r.chosen with
  | some member => .member member
  | none => .next

/-- `{ ...output, waitedMs }`. -/
def output (r : ShuffleStepResult) (waitedMs : ℚ) : Value :=
  .obj [("chosen", branchValue r.chosen), ("done", .arr (r.done.map Value.str)),
    ("remaining", .num r.remaining), ("waitedMs", .num waitedMs)]

end ShuffleStepResult

/-- The members a shuffle can still draw. -/
def ShuffleNode.remaining (node : ShuffleNode) (done : List String) (isEnabled : String → Bool) :
    List String :=
  node.members.filter fun m ↦ !done.contains m && isEnabled m

/-- `computeShuffleStep`: draws from the members that have not run and are enabled, by an index
into them in document order; once there are none, leaves. -/
def computeShuffleStep (node : ShuffleNode) (done : List String) (randomSeed : ℚ)
    (isEnabled : String → Bool) : ShuffleStepResult :=
  let remaining := node.remaining done isEnabled
  let doneList := node.members.filter done.contains
  match remaining with
  | [] => { chosen := none, done := doneList, remaining := 0 }
  | m :: rest =>
    let index := min (randomSeed * remaining.length).floor.toNat rest.length
    { chosen := some ((m :: rest).getD index m), done := doneList, remaining := rest.length }

variable {node : ShuffleNode} {done : List String} {isEnabled : String → Bool}

/-- A visit that dispatches draws a member of the shuffle that is enabled and has not run. -/
theorem mem_remaining_of_chosen {randomSeed : ℚ} {m : String}
    (h : (computeShuffleStep node done randomSeed isEnabled).chosen = some m) :
    m ∈ node.remaining done isEnabled := by
  rw [computeShuffleStep] at h
  split at h
  next => simp at h
  next m' rest heq =>
    rw [heq]
    cases h
    rw [List.getD_eq_getElem?_getD]
    cases hg : (m' :: rest)[min (randomSeed * (node.remaining done isEnabled).length).floor.toNat
        rest.length]? with
    | none => simp
    | some x => simpa using List.mem_of_getElem? hg

theorem mem_remaining {m : String} :
    m ∈ node.remaining done isEnabled ↔ m ∈ node.members ∧ m ∉ done ∧ isEnabled m = true := by
  simp [ShuffleNode.remaining]

/-- A visit leaves exactly when nothing remains. -/
theorem chosen_eq_none_iff {randomSeed : ℚ} :
    (computeShuffleStep node done randomSeed isEnabled).chosen = none ↔
      node.remaining done isEnabled = [] := by
  rw [computeShuffleStep]
  split
  next h => simp [h]
  next h => simp [h]

end Enkaku
