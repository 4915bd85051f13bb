import Enkaku.Expr.Ast
import Enkaku.Workflow.Resolve

/-!
# `filterWhere` and the operators of a gate

`filterWhere(array, path, op, value)` keeps the elements whose path satisfies an operator.  The
operators are those of a gate, but the expression package cannot import the workflow's, so it has
its own walk, its own deep equality and its own comparison.  This module is that second copy, and
`verdict_agrees_iff` compares it with the first.

The elements are the values a scope holds.  The functions of the table that `filterWhere` does not
use are left out.
-/

set_option autoImplicit false

namespace Enkaku

/-! ## The second copy -/

def typeError {α : Type} (message : String) : Fueled α := fun _ ↦ .error ⟨.type, message⟩

def limitError {α : Type} (message : String) : Fueled α := fun _ ↦ .error ⟨.limit, message⟩

namespace GateOp

/-- The name of an operator in `GATE_OPS`. -/
def toString : GateOp → String
  | eq => "eq"
  | ne => "ne"
  | lt => "lt"
  | lte => "lte"
  | gt => "gt"
  | gte => "gte"
  | contains => "contains"
  | notContains => "notContains"
  | startsWith => "startsWith"
  | endsWith => "endsWith"
  | exists_ => "exists"
  | notExists => "notExists"
  | isEmpty => "isEmpty"
  | notEmpty => "notEmpty"
  | length => "length"

/-- `GATE_OPS`. -/
def all : List GateOp :=
  [eq, ne, lt, lte, gt, gte, contains, notContains, startsWith, endsWith, exists_, notExists,
    isEmpty, notEmpty, length]

/-- The operator of a name, when it is in the vocabulary. -/
def ofString? (name : String) : Option GateOp := all.find? fun op ↦ op.toString = name

theorem ofString?_toString (op : GateOp) : ofString? op.toString = some op := by
  cases op <;> decide

end GateOp

/-- `gateDeepEqual` with the levels it may still go down; the source starts with 21. -/
def gateDeepEqual : Nat → Value → Value → Bool
  | 0, _, _ => false
  | _ + 1, .undefined, .undefined => true
  | _ + 1, .null, .null => true
  | _ + 1, .bool a, .bool b => a == b
  | _ + 1, .num a, .num b => a == b
  | _ + 1, .str a, .str b => a == b
  | depth + 1, .arr a, .arr b =>
    a.length == b.length && (a.zip b).all fun p ↦ gateDeepEqual depth p.1 p.2
  | depth + 1, .obj a, .obj b =>
    a.length == b.length && a.all fun p ↦ (OrdMap.get? p.1 b).any fun w ↦ gateDeepEqual depth p.2 w
  | _ + 1, _, _ => false

/-- `gateDeepEqual(a, b)`. -/
def gateEqual (a b : Value) : Bool := gateDeepEqual (exprLimits.maxDepth + 1) a b

/-- What `pathWalk` returns. -/
structure Walked where
  found : Bool
  value : Value
  deriving DecidableEq, Repr

namespace Walked

/-- `{ found: false, value: undefined }`. -/
def missing : Walked := ⟨false, .undefined⟩

end Walked

/-- The walk of `pathWalk` along the segments of a path, one unit of fuel for each. -/
def walkSegments : Value → List String → Fueled Walked
  | cur, [] => return ⟨true, cur⟩
  | cur, segment :: rest => do
    spend
    match cur with
    | .arr items =>
      if isDigitsOnlySegment segment then
        match segment.toNat?.bind (items[·]?) with
        | some v => walkSegments v rest
        | none => return .missing
      else return .missing
    | .obj fields =>
      match OrdMap.get? segment fields with
      | some v => walkSegments v rest
      | none => return .missing
    | _ => return .missing

/-- `pathWalk`: the empty path names the value itself. -/
def pathWalk (root : Value) (path : String) : Fueled Walked :=
  if path.isEmpty then return ⟨true, root⟩ else walkSegments root (path.splitOn ".")

/-- `left !== null && left !== undefined`. -/
def notNullish : Value → Bool
  | .undefined | .null => false
  | _ => true

/-- One operator, as `gateCompare` decides it. -/
def gateCompare (op : GateOp) (found : Bool) (left right : Value) : Bool :=
  let exists_ := found && notNullish left
  let contains := found && match left, right with
    | .str l, .str r => l.toList.tails.any r.toList.isPrefixOf
    | .arr items, r => items.any fun x ↦ gateEqual x r
    | _, _ => false
  let compare (cmp : ℚ → ℚ → Bool) := found && match left, right with
    | .num l, .num r => cmp l r
    | _, _ => false
  match op with
  | .exists_ => exists_
  | .notExists => !exists_
  | .isEmpty => !found || isEmptyValue left
  | .notEmpty => found && !isEmptyValue left
  | .eq => found && gateEqual left right
  | .ne => found && !gateEqual left right
  | .lt => compare fun a b ↦ decide (a < b)
  | .lte => compare fun a b ↦ decide (a ≤ b)
  | .gt => compare fun a b ↦ decide (b < a)
  | .gte => compare fun a b ↦ decide (b ≤ a)
  | .contains => contains
  | .notContains => !contains
  | .startsWith => found && match left, right with
    | .str l, .str r => r.toList.isPrefixOf l.toList
    | _, _ => false
  | .endsWith => found && match left, right with
    | .str l, .str r => r.toList.isSuffixOf l.toList
    | _, _ => false
  | .length => found && match left, right with
    | .str l, .num n => (utf16Length l : ℚ) == n
    | .arr items, .num n => (items.length : ℚ) == n
    | _, _ => false

/-- The verdict on one element: the unit of fuel of the filter, the walk, the comparison. -/
def whereVerdict (path : String) (op : GateOp) (value el : Value) : Fueled Bool := do
  spend
  let walked ← pathWalk el path
  return gateCompare op walked.found walked.value value

/-- `array.filter`, in order. -/
def filterElements (keep : Value → Fueled Bool) : List Value → Fueled (List Value)
  | [] => return []
  | el :: rest => do
    let kept ← keep el
    let others ← filterElements keep rest
    return if kept then el :: others else others

/-- `str`, for the arguments of `filterWhere`. -/
def strArg : Value → Fueled String
  | .str s => return s
  | _ => typeError "filterWhere() requires a string"

/-- `arr`, for its array. -/
def arrArg : Value → Fueled (List Value)
  | .arr items => return items
  | _ => typeError "filterWhere() requires an array"

def boundArray (items : List Value) : Fueled (List Value) :=
  if exprLimits.maxArrayLength < items.length then limitError "array result exceeds the size limit"
  else return items

/-- `filterWhere`; an argument left out reads `undefined`. -/
def filterWhere (v path op value : Value) : Fueled (List Value) := do
  let items ← boundArray (← arrArg v)
  let p ← strArg path
  let opName ← strArg op
  match GateOp.ofString? opName with
  | none =>
    let names := ", ".intercalate (GateOp.all.map (·.toString))
    typeError s!"filterWhere() op must be one of: {names} — got \"{opName}\""
  | some op => boundArray (← filterElements (whereVerdict p op value) items)

/-! ## Where the two copies agree -/

namespace Value

/-- Arrays and objects are nested at most this deep. -/
def nestsWithin : Nat → Value → Bool
  | 0, .arr _ | 0, .obj _ => false
  | n + 1, .arr items => items.all (nestsWithin n)
  | n + 1, .obj fields => fields.all fun p ↦ nestsWithin n p.2
  | _, _ => true

end Value

/-- The two deep equalities differ only in how deep they go. -/
theorem gateDeepEqual_eq (levels : Nat) (a b : Value) :
    gateDeepEqual levels a b = deepEqual levels a b := by
  induction levels generalizing a b with
  | zero => simp [gateDeepEqual, deepEqual]
  | succ levels ih =>
    cases a <;> cases b <;> simp [gateDeepEqual, deepEqual, ih]

/-- How deep an equality may go does not matter beyond the nesting of its right operand. -/
theorem deepEqual_levels {n : Nat} {b : Value} (hb : b.nestsWithin n = true) {i j : Nat}
    (hi : n < i) (hj : n < j) (a : Value) : deepEqual i a b = deepEqual j a b := by
  induction n generalizing a b i j with
  | zero =>
    obtain ⟨i, rfl⟩ := Nat.exists_eq_succ_of_ne_zero (Nat.ne_of_gt hi)
    obtain ⟨j, rfl⟩ := Nat.exists_eq_succ_of_ne_zero (Nat.ne_of_gt hj)
    cases b with
    | arr | obj => simp [Value.nestsWithin] at hb
    | _ => cases a <;> simp [deepEqual]
  | succ n ih =>
    obtain ⟨i, rfl⟩ := Nat.exists_eq_succ_of_ne_zero (Nat.ne_of_gt (Nat.zero_lt_of_lt hi))
    obtain ⟨j, rfl⟩ := Nat.exists_eq_succ_of_ne_zero (Nat.ne_of_gt (Nat.zero_lt_of_lt hj))
    have hi' : n < i := by omega
    have hj' : n < j := by omega
    cases b with
    | arr items =>
      rw [Value.nestsWithin, List.all_eq_true] at hb
      cases a with
      | arr items' =>
        simp only [deepEqual]
        congr 1
        rw [Bool.eq_iff_iff, List.all_eq_true, List.all_eq_true]
        refine forall₂_congr fun p hp ↦ ?_
        rw [ih (hb p.2 (List.of_mem_zip hp).2) hi' hj' p.1]
      | _ => simp [deepEqual]
    | obj fields =>
      rw [Value.nestsWithin, List.all_eq_true] at hb
      cases a with
      | obj fields' =>
        simp only [deepEqual]
        congr 1
        rw [Bool.eq_iff_iff, List.all_eq_true, List.all_eq_true]
        refine forall₂_congr fun p _ ↦ ?_
        cases hget : OrdMap.get? p.1 fields with
        | none => rfl
        | some w =>
          rw [Option.any_some, Option.any_some, ih (hb (p.1, w) (OrdMap.mem_of_get? hget)) hi' hj' p.2]
      | _ => simp [deepEqual]
    | _ => cases a <;> simp [deepEqual]

/-- On operands nested at most `maxDepth` deep the two deep equalities are one. -/
theorem gateEqual_eq {b : Value} (hb : b.nestsWithin exprLimits.maxDepth = true) (a : Value) :
    gateEqual a b = deepEqual 65 a b := by
  rw [gateEqual, gateDeepEqual_eq]
  exact deepEqual_levels hb (Nat.lt_succ_self _) (by decide) a

/-- One segment of a path, as both walks take it. -/
def child : Value → String → Option Value
  | .arr items, segment =>
    if isDigitsOnlySegment segment then segment.toNat?.bind (items[·]?) else none
  | .obj fields, segment => OrdMap.get? segment fields
  | _, _ => none

theorem resolveSegments_cons (v : Value) (segment : String) (rest : List String) :
    resolveSegments v (segment :: rest) = (child v segment).bind fun w ↦ resolveSegments w rest := by
  cases v with
  | arr items =>
    rw [resolveSegments, child]
    split_ifs <;> rfl
  | _ => rfl

theorem walkSegments_cons (v : Value) (segment : String) (rest : List String) (fuel : Nat) :
    walkSegments v (segment :: rest) (fuel + 1) =
      match child v segment with
      | some w => walkSegments w rest fuel
      | none => .ok (.missing, fuel) := by
  cases v with
  | arr items =>
    rw [walkSegments, child]
    show (if isDigitsOnlySegment segment = true then _ else _ : Fueled Walked) fuel = _
    split_ifs with hdigits
    · cases segment.toNat?.bind (items[·]?) <;> rfl
    · rfl
  | obj fields =>
    rw [walkSegments, child]
    show (match OrdMap.get? segment fields with
      | some v => walkSegments v rest
      | none => return .missing : Fueled Walked) fuel = _
    cases OrdMap.get? segment fields <;> rfl
  | _ => rfl

variable {fuel fuel' : Nat}

/-- The two walks come to the same, as long as there is fuel. -/
theorem walkSegments_ok {segments : List String} {v : Value} {walked : Walked}
    (h : walkSegments v segments fuel = .ok (walked, fuel')) :
    walked = ((resolveSegments v segments).map (Walked.mk true)).getD .missing := by
  induction segments generalizing v fuel with
  | nil =>
    cases h
    cases v <;> rfl
  | cons segment rest ih =>
    cases fuel with
    | zero => exact nomatch h
    | succ fuel =>
      rw [walkSegments_cons] at h
      rw [resolveSegments_cons]
      cases hchild : child v segment with
      | none =>
        rw [hchild] at h
        cases h
        rfl
      | some w =>
        rw [hchild] at h
        exact ih h

variable {path : String}

theorem pathWalk_ok {v : Value} {walked : Walked} (h : pathWalk v path fuel = .ok (walked, fuel')) :
    walked = ((resolvePath v (some path)).map (Walked.mk true)).getD .missing := by
  rw [pathWalk] at h
  rw [resolvePath]
  split_ifs at h ⊢ with hempty
  · cases h
    rfl
  · exact walkSegments_ok h

variable {right : Value}

/-- On a left operand that resolved, the two comparisons are one. -/
theorem gateCompare_found (op : GateOp) (left : Value)
    (hright : right.nestsWithin exprLimits.maxDepth = true) :
    gateCompare op true left right = leafValue op (.ok left) (some (.ok right)) := by
  have hequal : ∀ a, gateEqual a right = deepEqual 65 a right := gateEqual_eq hright
  cases op with
  | eq | ne => simp [gateCompare, leafValue, ResolveOutcome.value?, hequal]
  | exists_ | notExists | isEmpty | notEmpty => cases left <;> rfl
  | contains | notContains =>
    cases left with
    | str l => cases right <;> rfl
    | arr items =>
      simp [gateCompare, leafValue, ResolveOutcome.value?, containsValue, hequal]
    | _ => rfl
  | lt | lte | gt | gte | startsWith | endsWith | length =>
    cases left <;> rfl

/-- On one that did not, they part at `notContains`. -/
theorem gateCompare_missing (op : GateOp) (right : Value) (detail : String)
    (sawKeys : Option (List String)) :
    gateCompare op false .undefined right =
        leafValue op (.unresolved detail sawKeys) (some (.ok right)) ↔ op ≠ .notContains := by
  cases op <;> simp [gateCompare, leafValue, ResolveOutcome.value?, existsAsValue]

/-- The verdict of a gate on an operator, the path into a node's output and a constant. -/
def gateVerdict (ev : Evaluator) (scope : ResolveScope) (draws : Nat) (node path : String)
    (default : Value) (op : GateOp) (right : Value) : Bool :=
  (evaluateLeaf ev scope (.fromNode node (some path) false default) op (some (.const right))
    draws).1.1

theorem gateVerdict_eq {ev : Evaluator} {scope : ResolveScope} {draws : Nat} {node : String}
    {default el : Value} (hnode : OrdMap.get? node scope.outputs = some el) (op : GateOp)
    (right : Value) :
    gateVerdict ev scope draws node path default op right =
      leafValue op (match resolvePath el (some path) with
        | some value => .ok value
        | none => .unresolved s!"path \"{path}\" did not resolve on node \"{node}\"'s output"
            (topLevelKeys el)) (some (.ok right)) := by
  have hleft : resolveValue ev scope (.fromNode node (some path) false default) draws =
      ((match resolvePath el (some path) with
        | some value => .ok value
        | none => .unresolved s!"path \"{path}\" did not resolve on node \"{node}\"'s output"
            (topLevelKeys el)), draws) := by
    rw [resolveValue, hnode]
    dsimp only
    cases resolvePath el (some path) <;> rfl
  show leafValue op (resolveValue ev scope (.fromNode node (some path) false default) draws).1 _ = _
  rw [hleft]

variable {op : GateOp}

theorem whereVerdict_ok {value el : Value} {verdict : Bool}
    (h : whereVerdict path op value el fuel = .ok (verdict, fuel')) :
    verdict = match resolvePath el (some path) with
      | some left => gateCompare op true left value
      | none => gateCompare op false .undefined value := by
  obtain ⟨-, fuel, -, hrest⟩ := Throwing.ok_of_bind h
  obtain ⟨walked, fuel, hwalk, hverdict⟩ := Throwing.ok_of_bind hrest
  obtain ⟨rfl, -⟩ := Throwing.pure_ok_iff.mp hverdict
  rw [pathWalk_ok hwalk]
  cases resolvePath el (some path) <;> rfl

/-- **Where the two copies of an operator agree.**  For a right operand nested at most `maxDepth`
deep, the verdict of `filterWhere` on an element is the gate's verdict on a node with that output,
the same path, operator and constant — except that for `notContains`, where the path does not
resolve, the one is `true` and the other `false`. -/
theorem verdict_agrees_iff {ev : Evaluator} {scope : ResolveScope} {draws : Nat}
    {node path : String} {default el right : Value} {op : GateOp} {fuel fuel' : Nat}
    {verdict : Bool} (hright : right.nestsWithin exprLimits.maxDepth = true)
    (hnode : OrdMap.get? node scope.outputs = some el)
    (hwhere : whereVerdict path op right el fuel = .ok (verdict, fuel')) :
    verdict = gateVerdict ev scope draws node path default op right ↔
      ¬ (op = .notContains ∧ resolvePath el (some path) = none) := by
  rw [whereVerdict_ok hwhere, gateVerdict_eq hnode]
  cases resolvePath el (some path) with
  | some left => simp [gateCompare_found op left hright]
  | none => simp [gateCompare_missing]

variable {items : List Value}

/-- A filter whose verdicts are those of a test keeps what passes it. -/
theorem filterElements_ok {keep : Value → Fueled Bool} {p : Value → Bool} {kept : List Value}
    (hkeep : ∀ el ∈ items, ∀ fuel fuel' verdict, keep el fuel = .ok (verdict, fuel') →
      verdict = p el) (h : filterElements keep items fuel = .ok (kept, fuel')) :
    kept = items.filter p := by
  induction items generalizing kept fuel fuel' with
  | nil =>
    cases h
    rfl
  | cons el rest ih =>
    obtain ⟨verdict, fuel₁, hel, hothers⟩ := Throwing.ok_of_bind h
    obtain ⟨others, fuel₂, hrest, hkept⟩ := Throwing.ok_of_bind hothers
    obtain ⟨rfl, -⟩ := Throwing.pure_ok_iff.mp hkept
    rw [ih (fun el hel ↦ hkeep el (.tail _ hel)) hrest, List.filter_cons,
      ← hkeep el (.head _) fuel fuel₁ verdict hel]

theorem boundArray_ok {items' : List Value} (h : boundArray items fuel = .ok (items', fuel')) :
    items' = items ∧ fuel' = fuel := by
  rw [boundArray] at h
  split_ifs at h
  · exact nomatch h
  · obtain ⟨rfl, rfl⟩ := Throwing.pure_ok_iff.mp h
    exact ⟨rfl, rfl⟩

theorem filterWhere_ok {kept : List Value}
    (h : filterWhere (.arr items) (.str path) (.str op.toString) right fuel = .ok (kept, fuel')) :
    filterElements (whereVerdict path op right) items fuel = .ok (kept, fuel') := by
  simp only [filterWhere, arrArg, pure_bind] at h
  obtain ⟨bounded, fuel₁, hbound, hrest⟩ := Throwing.ok_of_bind h
  obtain ⟨rfl, rfl⟩ := boundArray_ok hbound
  simp only [strArg, pure_bind, GateOp.ofString?_toString] at hrest
  obtain ⟨all, fuel₂, hall, hrest⟩ := Throwing.ok_of_bind hrest
  obtain ⟨rfl, rfl⟩ := boundArray_ok hrest
  exact hall

/-- **A filter keeps what a gate lets pass**: under every operator but `notContains`, the elements
`filterWhere` keeps are those that hold under the gate's operator. -/
theorem filterWhere_eq_filter {kept : List Value} (hop : op ≠ .notContains)
    (hright : right.nestsWithin exprLimits.maxDepth = true)
    (h : filterWhere (.arr items) (.str path) (.str op.toString) right fuel = .ok (kept, fuel')) :
    kept = items.filter fun el ↦ leafValue op (match resolvePath el (some path) with
      | some value => .ok value
      | none => .unresolved "" none) (some (.ok right)) := by
  refine filterElements_ok (fun el _ fuel fuel' verdict hwhere ↦ ?_) (filterWhere_ok h)
  rw [whereVerdict_ok hwhere]
  cases resolvePath el (some path) with
  | some left => exact gateCompare_found op left hright
  | none => exact (gateCompare_missing op right "" none).mpr hop

theorem filterWhere_eq_filter_gt : ∃ p : Value → Bool,
    filterWhere (.arr [.num 1, .num 2]) (.str "") (.str "gt") (.num 1) 2 = .ok ([.num 2], 0) ∧
      [.num 2] = [.num 1, .num 2].filter p := by
  have h : filterWhere (.arr [.num 1, .num 2]) (.str "") (.str GateOp.gt.toString) (.num 1) 2 =
      .ok ([.num 2], 0) := by decide +kernel
  exact ⟨_, h, filterWhere_eq_filter (by decide) rfl h⟩

/-! ## A list without tags -/

namespace Untagged

def noExpressions : Evaluator := fun _ draws _ ↦ (.error "no expressions", draws)

def post : Value := .obj [("likes", .num 3)]

/-- The post is the output of the node `read`. -/
def scope : ResolveScope where
  params := []
  outputs := [("read", post)]
  summary := []
  runIndex := none
  runCount := none
  runRepeat := none
  device := none
  now := 0
  randomSeed := 0

theorem splitOn_tags : "tags".splitOn "." = ["tags"] := by
  rw [String.splitOn, if_neg (by decide)]
  iterate 4 rw [String.splitOnAux, if_neg (by decide), if_neg (by decide)]
  rw [String.splitOnAux, if_pos (by decide)]
  decide

theorem resolvePath_tags : resolvePath post (some "tags") = none := by
  rw [resolvePath, if_neg (by decide), splitOn_tags]
  rfl

theorem pathWalk_tags (fuel : Nat) : pathWalk post "tags" (fuel + 1) = .ok (.missing, fuel) := by
  rw [pathWalk, if_neg (by decide), splitOn_tags, walkSegments_cons]
  rfl

theorem whereVerdict_tags (op : GateOp) (value : Value) (fuel : Nat) :
    whereVerdict "tags" op value post (fuel + 2) =
      .ok (gateCompare op false .undefined value, fuel) := by
  show (pathWalk post "tags" (fuel + 1) >>= fun p ↦
    (.ok (gateCompare op p.1.found p.1.value value, p.2) : Except ExprEvalError (Bool × Nat))) = _
  rw [pathWalk_tags]
  rfl

/-- **A verdict that differs**: a post without tags passes `notContains` in a filter, and fails it
in a gate. -/
theorem notContains_disagrees : (Value.str "ad").nestsWithin exprLimits.maxDepth = true ∧
    OrdMap.get? "read" scope.outputs = some post ∧
    whereVerdict "tags" .notContains (.str "ad") post 2 = .ok (true, 0) ∧
    gateVerdict noExpressions scope 0 "read" "tags" .undefined .notContains (.str "ad") = false := by
  refine ⟨rfl, rfl, whereVerdict_tags _ _ _, ?_⟩
  rw [gateVerdict_eq (show OrdMap.get? "read" scope.outputs = some post from rfl), resolvePath_tags]
  rfl

/-- For the other operators the two agree on the post. -/
theorem notExists_agrees :
    true = gateVerdict noExpressions scope 0 "read" "tags" .undefined .notExists .null ↔
      ¬ (GateOp.notExists = .notContains ∧ resolvePath post (some "tags") = none) :=
  verdict_agrees_iff rfl rfl (whereVerdict_tags .notExists .null 0)

end Untagged

end Enkaku
