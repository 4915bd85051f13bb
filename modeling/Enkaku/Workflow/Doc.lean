import Enkaku.Value

/-!
# Workflow documents

The document a workflow job carries: nodes with explicit edges, a `start` node named by `entry`,
and the parameters it declares.  A document is what `WorkflowDocSchema` has parsed, so every field
with a default has a value, and an optional field that is absent is `none`.

What only the editor reads (titles, canvas points, labels, the declared types of the parameters)
is left out.
-/

set_option autoImplicit false

namespace Enkaku

/-! ## Values and predicates -/

/-- What a node parameter, an assignment or a gate operand is given by. -/
inductive ValueExpr where
  | const (value : Value)
  | param (name : String)
  /-- An earlier node's output, whole or one path into it; an absent `default` is `undefined`. -/
  | fromNode (node : String) (path : Option String) (optional : Bool) (default : Value)
  /-- `{ run: 'summary' }`. -/
  | run
  | expr (source : String)
  deriving DecidableEq, Repr, Inhabited

/-- `GATE_OPS`. -/
inductive GateOp where
  | eq | ne | lt | lte | gt | gte | contains | notContains | startsWith | endsWith | exists_
  | notExists | isEmpty | notEmpty | length
  deriving DecidableEq, Repr

/-- A closed predicate, expressed as data. -/
inductive Predicate where
  | leaf (left : ValueExpr) (op : GateOp) (right : Option ValueExpr)
  | all (preds : List Predicate)
  | any (preds : List Predicate)
  | not (pred : Predicate)
  deriving Repr, Inhabited

/-! ## Nodes -/

/-- A node that runs a published script as a child job. -/
structure ScriptNode where
  script : String
  params : List (String × ValueExpr)
  next : Option String
  onFailure : Option String
  deriving DecidableEq, Repr

structure GateNode where
  when_ : Predicate
  then_ : Option String
  else_ : Option String
  deriving Repr

inductive SwitchMode where
  | predicate | weighted
  deriving DecidableEq, Repr

structure SwitchCase where
  when_ : Option Predicate
  weight : Option ℚ
  to_ : Option String
  deriving Repr

structure SwitchNode where
  mode : SwitchMode
  cases : List SwitchCase
  default : Option String
  deriving Repr

structure DelayNode where
  ms : ValueExpr
  maxMs : Nat
  next : Option String
  deriving DecidableEq, Repr

structure SetAssignment where
  name : ValueExpr
  value : ValueExpr
  deriving DecidableEq, Repr

structure SetNode where
  assignments : List SetAssignment
  keepOnlySet : Bool
  next : Option String
  deriving DecidableEq, Repr

/-- A dispatcher: it lists its members, and control comes back to it after each of them. -/
structure ShuffleNode where
  members : List String
  between : ValueExpr
  betweenMaxMs : Nat
  continueOnMemberFailure : Bool
  next : Option String
  deriving DecidableEq, Repr

inductive FinishStatus where
  | succeed | fail
  deriving DecidableEq, Repr

/-- The kinds of node that cost a step and are logged in `workflow_steps`. -/
inductive StepNode where
  | script (n : ScriptNode)
  | gate (n : GateNode)
  | switch (n : SwitchNode)
  | delay (n : DelayNode)
  | set (n : SetNode)
  | shuffle (n : ShuffleNode)
  deriving Repr

/-- What a node is, by its `kind`: the two that cost no step, and the others. -/
inductive NodeBody where
  | start (next : Option String)
  | finish (status : FinishStatus) (message : String)
  | step (n : StepNode)
  deriving Repr

/-- `workflow_steps.kind`. -/
inductive StepKind where
  | script | gate | switch | delay | set | shuffle
  deriving DecidableEq, Repr

namespace StepNode

/-- The discriminator of a step node. -/
def kind : StepNode → StepKind
  | script _ => .script
  | gate _ => .gate
  | switch _ => .switch
  | delay _ => .delay
  | set _ => .set
  | shuffle _ => .shuffle

/-- The `script` field of a script node, which a summary entry names. -/
def script? : StepNode → Option String
  | script n => some n.script
  | _ => none

end StepNode

structure WorkflowNode where
  id : String
  enabled : Bool
  body : NodeBody
  deriving Repr

namespace WorkflowNode

def isStart (n : WorkflowNode) : Bool :=
  match n.body with
  | .start _ => true
  | _ => false

/-- The node as a shuffle, when it is one. -/
def shuffle? (n : WorkflowNode) : Option ShuffleNode :=
  match n.body with
  | .step (.shuffle s) => some s
  | _ => none

/-- The node as one that is logged as a step, when it is one. -/
def step? (n : WorkflowNode) : Option StepNode :=
  match n.body with
  | .step s => some s
  | _ => none

end WorkflowNode

/-! ## Documents -/

/-- A declared parameter; an absent `default` is `undefined`. -/
structure WorkflowParam where
  name : String
  default : Value
  deriving DecidableEq, Repr

/-- The cleanup script of a document. -/
structure OnFail where
  script : String
  params : List (String × ValueExpr)
  deriving DecidableEq, Repr

structure WorkflowDoc where
  name : String
  params : List WorkflowParam
  entry : String
  nodes : List WorkflowNode
  maxSteps : Nat
  onFail : Option OnFail
  deriving Repr

namespace WorkflowDoc

variable (doc : WorkflowDoc)

/-- `nodesById.get`: a map built from the nodes in order, so a later node of the same id wins. -/
def node? (id : String) : Option WorkflowNode := doc.nodes.reverse.find? fun n ↦ n.id = id

theorem id_of_node? {doc : WorkflowDoc} {id : String} {n : WorkflowNode}
    (h : doc.node? id = some n) : n.id = id := by
  simpa using List.find?_some h

theorem mem_of_node? {doc : WorkflowDoc} {id : String} {n : WorkflowNode}
    (h : doc.node? id = some n) : n ∈ doc.nodes := by
  simpa using List.mem_of_find?_eq_some h

/-- `isEnabled`: an id that names no node counts as enabled. -/
def isEnabled (id : String) : Bool := ((doc.node? id).map (·.enabled)).getD true

/-- `shuffleOwner.get`: the shuffle a member returns to, the last that lists it. -/
def shuffleOwner (member : String) : Option String :=
  (doc.nodes.reverse.find? fun n ↦ n.shuffle?.any fun s ↦ s.members.contains member).map (·.id)

/-- `shuffleKeepsGoing.has`: the shuffles that survive a failing member. -/
def shuffleKeepsGoing (id : String) : Bool :=
  doc.nodes.any fun n ↦ decide (n.id = id) && n.shuffle?.any (·.continueOnMemberFailure)

/-- `survivesFailure`: the shuffle to hand a failing member back to, or `none` when the failure is
the run's to carry. -/
def survivesFailure (id : String) : Option String :=
  (doc.shuffleOwner id).filter doc.shuffleKeepsGoing

end WorkflowDoc

/-! ## Edges -/

/-- The edge a node is left by: `'next'`, `'then'`, `'else'`, `'onFailure'`, `'default'`,
`'case:<i>'` or `'member:<id>'`. -/
inductive Edge where
  | next
  | then_
  | else_
  | onFailure
  | default
  | case (index : Nat)
  | member (id : String)
  deriving DecidableEq, Repr

namespace Edge

/-- The member a shuffle's edge hands control to. -/
def member? : Edge → Option String
  | member id => some id
  | _ => none

/-- `Number(edge.slice('case:'.length))`, where it is an index.  An edge of at most five letters
leaves the empty string, which is `0`; of the longer ones only a case's is a number. -/
def caseIndex? : Edge → Option Nat
  | next | then_ | else_ => some 0
  | onFailure | default | member _ => none
  | case i => some i

end Edge

end Enkaku
