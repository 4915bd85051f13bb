import Mathlib.Data.Rat.Floor
import Enkaku.Lib.OrdMap
import Enkaku.Workflow.Doc

/-!
# Resolving values

`workflow-resolve.ts` and `workflow-set.ts`: what a `ValueExpr` and a predicate come to in the
scope of one step, and the dotted write of a `set` node; and `deriveRandom`, the draw a step is
given.  Nothing here throws and nothing reads a clock.

The expression language is a parameter.  An evaluator takes the expression scope of the step, the
number of `rand()` draws the step has made so far and the source text, and gives the value or the
text of the error, with the new number of draws.  The counter belongs to the step: the scope is
built once and shared by every binding the step resolves, which is the state threaded below.
-/

set_option autoImplicit false

namespace Enkaku

/-! ## `$random` -/

/-- The word one `mulberry32` step comes to, from a 32-bit state: the numerator of its result. -/
def mulberry32Word (state : BitVec 32) : BitVec 32 :=
  let t := state + 0x6d2b79f5#32
  let t := (t ^^^ (t >>> 15)) * (t ||| 1#32)
  let t := t ^^^ (t + (t ^^^ (t >>> 7)) * (t ||| 61#32))
  t ^^^ (t >>> 14)

/-- One `mulberry32` step: `(… >>> 0) / 4294967296`. -/
def mulberry32 (state : BitVec 32) : ℚ := ((mulberry32Word state).toNat : ℚ) / 4294967296

/-- `$random` for step `seq` of a run with this seed. -/
def deriveRandom (seed : Int) (seq : Nat) : ℚ :=
  mulberry32 (BitVec.ofInt 32 seed * 0x9e3779b1#32 ^^^ BitVec.ofNat 32 seq)

theorem mulberry32_nonneg (state : BitVec 32) : 0 ≤ mulberry32 state := by
  rw [mulberry32]
  positivity

theorem mulberry32_lt_one (state : BitVec 32) : mulberry32 state < 1 := by
  rw [mulberry32, div_lt_one (by norm_num)]
  exact_mod_cast BitVec.isLt _

/-- Draws are the same when their words are. -/
theorem mulberry32_inj {a b : BitVec 32} :
    mulberry32 a = mulberry32 b ↔ mulberry32Word a = mulberry32Word b := by
  rw [mulberry32, mulberry32, div_left_inj' (by norm_num), Nat.cast_inj, BitVec.toNat_inj]

/-- A draw lies in `[0, 1)`. -/
theorem deriveRandom_mem (seed : Int) (seq : Nat) :
    0 ≤ deriveRandom seed seq ∧ deriveRandom seed seq < 1 :=
  ⟨mulberry32_nonneg _, mulberry32_lt_one _⟩

/-! ## Scopes -/

/-- The statuses of a recorded step. -/
inductive StepStatus where
  | running | success | failed | skipped | carriedOver | cancelled
  deriving DecidableEq, Repr

namespace StepStatus

/-- The text of a status. -/
def toString : StepStatus → String
  | running => "running"
  | success => "success"
  | failed => "failed"
  | skipped => "skipped"
  | carriedOver => "carried-over"
  | cancelled => "cancelled"

end StepStatus

/-- One completed node in `{ run: 'summary' }`.  Instants are epoch seconds. -/
structure RunSummaryEntry where
  nodeId : String
  script : Option String
  status : StepStatus
  startedAt : Int
  finishedAt : Int
  durationMs : Int
  output : Value
  deriving DecidableEq, Repr

namespace RunSummaryEntry

/-- The entry as the object it is. -/
def toValue (e : RunSummaryEntry) : Value :=
  .obj [("nodeId", .str e.nodeId),
    ("script", match e.script with
      | some s => .str s
      | none => .null),
    ("status", .str e.status.toString), ("startedAt", .num e.startedAt),
    ("finishedAt", .num e.finishedAt), ("durationMs", .num e.durationMs), ("output", e.output)]

end RunSummaryEntry

/-- The facts of a phone an expression may read. -/
structure ExprDevice where
  number : Option Int
  stableId : Option String
  label : Option String
  group : Option String
  labels : List String
  deriving DecidableEq, Repr

/-- Everything `resolveValue` and `evaluatePredicate` may read. -/
structure ResolveScope where
  params : List (String × Value)
  /-- The output of each node's last completed run. -/
  outputs : List (String × Value)
  summary : List RunSummaryEntry
  runIndex : Option Int
  runCount : Option Int
  runRepeat : Option Int
  device : Option ExprDevice
  now : Int
  randomSeed : ℚ
  deriving DecidableEq, Repr

/-- The scope an expression is evaluated in. -/
structure ExprScope where
  params : List (String × Value)
  nodes : List (String × Value)
  input : Value
  summary : List RunSummaryEntry
  index : Int
  count : Int
  repeat_ : Int
  device : ExprDevice
  now : Int
  random : ℚ
  deriving DecidableEq, Repr

/-- `buildExprScope`. -/
def buildExprScope (scope : ResolveScope) : ExprScope where
  params := scope.params
  nodes := scope.outputs
  input := (scope.summary.getLast?.map (·.output)).getD .undefined
  summary := scope.summary
  index := scope.runIndex.getD 0
  count := scope.runCount.getD 1
  repeat_ := scope.runRepeat.getD 0
  device := scope.device.getD ⟨none, none, none, none, []⟩
  now := scope.now
  random := scope.randomSeed

/-- The expression language: the value of a source text, or the error it fails with. -/
abbrev Evaluator := ExprScope → Nat → String → Except String Value × Nat

/-! ## `resolveValue` -/

/-- `WORKFLOW_LIMITS.maxSawKeys`. -/
def maxSawKeys : Nat := 20

/-- What one `ValueExpr` came to. -/
inductive ResolveOutcome where
  | ok (value : Value)
  | unresolved (detail : String) (sawKeys : Option (List String))
  | noSuchNode (detail : String)
  deriving DecidableEq, Repr, Inhabited

namespace ResolveOutcome

def value? : ResolveOutcome → Option Value
  | ok v => some v
  | _ => none

def detail? : ResolveOutcome → Option String
  | ok _ => none
  | unresolved d _ | noSuchNode d => some d

def sawKeys? : ResolveOutcome → Option (List String)
  | unresolved _ keys => keys
  | _ => none

end ResolveOutcome

/-- `topLevelKeys`: the keys, or the indices, a value exposes. -/
def topLevelKeys : Value → Option (List String)
  | .arr items => some (((List.range items.length).map fun i ↦ s!"{i}").take maxSawKeys)
  | .obj fields => some ((fields.map (·.1)).take maxSawKeys)
  | _ => none

/-- `/^\d+$/`. -/
def isDigitsOnlySegment (segment : String) : Bool :=
  !segment.isEmpty && segment.toList.all Char.isDigit

/-- The walk of `resolvePath` along the segments of a path. -/
def resolveSegments : Value → List String → Option Value
  | v, [] => some v
  | .arr items, segment :: rest =>
    if isDigitsOnlySegment segment then
      (segment.toNat?.bind (items[·]?)).bind fun v ↦ resolveSegments v rest
    else none
  | .obj fields, segment :: rest =>
    (OrdMap.get? segment fields).bind fun v ↦ resolveSegments v rest
  | _, _ :: _ => none

/-- `resolvePath`. -/
def resolvePath (root : Value) : Option String → Option Value
  | none => some root
  | some path => if path.isEmpty then some root else resolveSegments root (path.splitOn ".")

/-- `resolveValue`.  The state is the step's count of `rand()` draws. -/
def resolveValue (ev : Evaluator) (scope : ResolveScope) : ValueExpr → StateM Nat ResolveOutcome
  | .const value => pure (.ok value)
  | .run => pure (.ok (.arr (scope.summary.map (·.toValue))))
  | .expr source => fun draws ↦
    match ev (buildExprScope scope) draws source with
    | (.ok value, draws) => (.ok value, draws)
    | (.error detail, draws) =>
      (.unresolved s!"expression \"{source}\" failed: {detail}" none, draws)
  | .param name =>
    match OrdMap.get? name scope.params with
    | some value => pure (.ok value)
    | none => pure (.unresolved s!"workflow parameter \"{name}\" was not supplied" none)
  | .fromNode node path optional default =>
    match OrdMap.get? node scope.outputs with
    | none =>
      if optional then pure (.ok default)
      else pure (.noSuchNode
        s!"node \"{node}\" has not run — there is no recorded output for it in this workflow")
    | some output =>
      match resolvePath output path with
      | some value => pure (.ok value)
      | none =>
        if optional then pure (.ok default)
        else
          let walked := path.getD ""
          pure (.unresolved s!"path \"{walked}\" did not resolve on node \"{node}\"'s output"
            (topLevelKeys output))

/-! ## Predicates -/

/-- `existsAsValue`. -/
def existsAsValue : ResolveOutcome → Bool
  | .ok .undefined | .ok .null => false
  | .ok _ => true
  | _ => false

/-- `isEmptyValue`. -/
def isEmptyValue : Value → Bool
  | .undefined | .null => true
  | .str s => s.isEmpty
  | .arr items => items.isEmpty
  | .obj fields => fields.isEmpty
  | .bool _ | .num _ => false

/-- `deepEqual` with the levels it may still go down; the source starts with 65.  Two arrays or
objects are never the same reference here, so the walk is the whole test for them. -/
def deepEqual : Nat → Value → Value → Bool
  | 0, _, _ => false
  | _ + 1, .undefined, .undefined => true
  | _ + 1, .null, .null => true
  | _ + 1, .bool a, .bool b => a == b
  | _ + 1, .num a, .num b => a == b
  | _ + 1, .str a, .str b => a == b
  | depth + 1, .arr a, .arr b =>
    a.length == b.length && (a.zip b).all fun p ↦ deepEqual depth p.1 p.2
  | depth + 1, .obj a, .obj b =>
    a.length == b.length && a.all fun p ↦ (OrdMap.get? p.1 b).any fun w ↦ deepEqual depth p.2 w
  | _ + 1, _, _ => false

/-- `containsValue`. -/
def containsValue : Value → Value → Bool
  | .str left, .str right => left.toList.tails.any right.toList.isPrefixOf
  | .str _, _ => false
  | .arr items, right => items.any fun item ↦ deepEqual 65 item right
  | _, _ => false

/-- The length of a JavaScript string: its UTF-16 code units. -/
def utf16Length (s : String) : Nat :=
  (s.toList.map fun c ↦ if c.val > 0xFFFF then 2 else 1).sum

/-- `lengthEquals`. -/
def lengthEquals : Value → Value → Bool
  | .str s, .num n => (utf16Length s : ℚ) == n
  | .arr items, .num n => (items.length : ℚ) == n
  | _, _ => false

/-- `numericCompare`, for one of its four comparisons. -/
def numericCompare (cmp : ℚ → ℚ → Bool) : Value → Value → Bool
  | .num a, .num b => cmp a b
  | _, _ => false

/-- A test on two strings, false on anything else. -/
def textCompare (cmp : List Char → List Char → Bool) : Value → Value → Bool
  | .str a, .str b => cmp a.toList b.toList
  | _, _ => false

/-- What a predicate looked at and decided. -/
inductive PredicateTrace where
  | leaf (op : GateOp) (left right : Value) (leftUnresolved rightUnresolved : Option String)
      (value : Bool)
  | all (value : Bool) (children : List PredicateTrace)
  | any (value : Bool) (children : List PredicateTrace)
  | not (value : Bool) (child : PredicateTrace)
  deriving Repr, Inhabited

/-- The verdict of one operator on its operands; an absent right operand reads `undefined`. -/
def leafValue (op : GateOp) (left : ResolveOutcome) (right : Option ResolveOutcome) : Bool :=
  let l := left.value?.getD .undefined
  let r := (right.bind (·.value?)).getD .undefined
  let bothOk := left.value?.isSome && right.all fun o ↦ o.value?.isSome
  match op with
  | .exists_ => existsAsValue left
  | .notExists => !existsAsValue left
  | .isEmpty => !left.value?.isSome || isEmptyValue l
  | .notEmpty => left.value?.isSome && !isEmptyValue l
  | .eq => bothOk && deepEqual 65 l r
  | .ne => bothOk && !deepEqual 65 l r
  | .lt => bothOk && numericCompare (fun a b ↦ decide (a < b)) l r
  | .lte => bothOk && numericCompare (fun a b ↦ decide (a ≤ b)) l r
  | .gt => bothOk && numericCompare (fun a b ↦ decide (b < a)) l r
  | .gte => bothOk && numericCompare (fun a b ↦ decide (b ≤ a)) l r
  | .contains => bothOk && containsValue l r
  | .notContains => bothOk && !containsValue l r
  | .startsWith => bothOk && textCompare (fun a b ↦ b.isPrefixOf a) l r
  | .endsWith => bothOk && textCompare (fun a b ↦ b.isSuffixOf a) l r
  | .length => bothOk && lengthEquals l r

/-- `evaluateLeaf`. -/
def evaluateLeaf (ev : Evaluator) (scope : ResolveScope) (left : ValueExpr) (op : GateOp)
    (right : Option ValueExpr) : StateM Nat (Bool × PredicateTrace) := do
  let leftOutcome ← resolveValue ev scope left
  let rightOutcome ← right.mapM (resolveValue ev scope)
  let value := leafValue op leftOutcome rightOutcome
  return (value, .leaf op (leftOutcome.value?.getD .undefined)
    ((rightOutcome.bind (·.value?)).getD .undefined) leftOutcome.detail?
    (rightOutcome.bind (·.detail?)) value)

mutual

/-- `evaluatePredicate`: the verdict and the trace.  A compound evaluates every child. -/
def evaluatePredicate (ev : Evaluator) (scope : ResolveScope) :
    Predicate → StateM Nat (Bool × PredicateTrace)
  | .leaf left op right => evaluateLeaf ev scope left op right
  | .all preds => do
    let results ← evaluatePredicates ev scope preds
    let value := results.all (·.1)
    return (value, .all value (results.map (·.2)))
  | .any preds => do
    let results ← evaluatePredicates ev scope preds
    let value := results.any (·.1)
    return (value, .any value (results.map (·.2)))
  | .not pred => do
    let result ← evaluatePredicate ev scope pred
    return (!result.1, .not (!result.1) result.2)

/-- The children of a compound, in order. -/
def evaluatePredicates (ev : Evaluator) (scope : ResolveScope) :
    List Predicate → StateM Nat (List (Bool × PredicateTrace))
  | [] => return []
  | pred :: preds => do
    let result ← evaluatePredicate ev scope pred
    let results ← evaluatePredicates ev scope preds
    return result :: results

end

/-! ## `setPath` -/

/-- A segment that writes the prototype: `__proto__`, on an object that has no property of its own
of that name. -/
def writesPrototype (segment : String) (fields : List (String × Value)) : Bool :=
  segment = "__proto__" && (OrdMap.get? segment fields).isNone

/-- The write along the segments of a name.  The prototype is no property of the object, so nothing
that is written below it is seen again. -/
def setSegments : List String → Value → List (String × Value) → List (String × Value)
  | [], _, fields => fields
  | [segment], value, fields =>
    if writesPrototype segment fields then fields else OrdMap.set segment value fields
  | segment :: rest, value, fields =>
    if writesPrototype segment fields then fields
    else
      let existing := match OrdMap.get? segment fields with
        | some (.obj inner) => inner
        | _ => []
      OrdMap.set segment (.obj (setSegments rest value existing)) fields

/-- `setPath`, with the text of the error it throws. -/
def setPath (base : List (String × Value)) (name : String) (value : Value) :
    Except String (List (String × Value)) :=
  let segments := name.splitOn "."
  match segments.find? fun s ↦ s.isEmpty || isDigitsOnlySegment s with
  | some segment =>
    if segment.isEmpty then
      .error s!"\"{name}\" has an empty segment — dot notation needs a name on both sides of every \".\""
    else
      .error s!"\"{name}\": the segment \"{segment}\" is only digits — dot notation builds nested objects, never an array index (plan 312 §3.4)"
  | none => .ok (setSegments segments value base)

end Enkaku
