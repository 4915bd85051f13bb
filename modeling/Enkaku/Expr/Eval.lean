import Enkaku.Expr.Functions

/-!
# The evaluator

`eval.ts`: `evaluate` walks the tree of an expression over a scope, and spends fuel on every node,
every call and every pair of values it compares.
-/

set_option autoImplicit false

namespace Enkaku.Evaluator

open Throwing

open Js (Data Text text)

/-- The code units of a string of characters. -/
def codeUnitsOf (s : String) : Text := (s.toList.flatMap Utf16.units).map UInt16.ofNat

section Eval

variable {number : Type} (nm : Numbers number)

/-- `ExprScope`; `draws` is what its counter has reached. -/
structure ExprScope (number : Type) where
  params : Data number
  nodes : Data number
  input : Data number
  run : Data number
  now : number
  random : number
  device : Data number
  draws : Nat := 0

namespace ExprScope

/-- `scope[name]`. -/
def root (scope : ExprScope number) : RootName → Data number
  | .params => scope.params
  | .nodes => scope.nodes
  | .input => scope.input
  | .run => scope.run
  | .now => .num scope.now
  | .random => .num scope.random
  | .device => scope.device

end ExprScope

/-- The value of a `lit` node. -/
def literalValue : Literal number → Data number
  | .num n => .num n
  | .str s => .str (codeUnitsOf s)
  | .bool b => .bool b
  | .null => .null

/-! ## Operators -/

/-- `Boolean(v)`. -/
def truthy : Data number → Bool
  | .undefined | .null => false
  | .bool b => b
  | .num n => nm.truthy n
  | .str s => !s.isEmpty
  | .arr _ | .obj _ => true

/-- `num(v, op)`. -/
def numberFor (op : BinOp) : Data number → Evaluating number
  | .num n => return n
  | _ => typeError s!"\"{op.text}\" requires a number"

/-- `getMember`.  A key of the grammar is a name, and of those an array has only its length. -/
def getMember (on : Data number) (key : Text) : Data number :=
  match on with
  | .obj fields => (OrdMap.get? key fields).getD .undefined
  | .arr items => if key = text "length" then .num (nm.ofNat items.length) else .undefined
  | _ => .undefined

/-- `getIndex`. -/
def getIndex (on idx : Data number) : Data number :=
  match on, idx with
  | .arr items, .num n => ((nm.index? n).bind (items[·]?)).getD .undefined
  | .obj fields, .str key => getMember nm (.obj fields) key
  | _, _ => .undefined

/-- `add`. -/
def add (l r : Data number) : Evaluating (Data number) :=
  match l, r with
  | .num a, .num b => return .num (nm.add a b)
  | .num a, .str b => boundString (nm.write a ++ b)
  | .str a, .num b => boundString (a ++ nm.write b)
  | .str a, .str b => boundString (a ++ b)
  | _, _ => typeError "\"+\" requires two numbers, or a string with a string or number"

/-- `a === b`; arrays and objects are other ones. -/
def identical (a b : Data number) : Bool :=
  match a, b with
  | .undefined, .undefined => true
  | .null, .null => true
  | .bool a, .bool b => a == b
  | .num a, .num b => nm.same a b
  | .str a, .str b => a == b
  | _, _ => false

mutual

/-- `deepEqual`. -/
def deepEqual (a b : Data number) : Evaluating Bool := do
  spend
  match a with
  | .arr as =>
    match b with
    | .arr bs => if as.length ≠ bs.length then return false else deepEqualItems as bs
    | _ => return false
  | .obj as =>
    match b with
    | .obj bs => if as.length ≠ bs.length then return false else deepEqualFields bs as
    | _ => return false
  | a => return identical nm a b

/-- The loop over the items of two arrays of one length. -/
def deepEqualItems : List (Data number) → List (Data number) → Evaluating Bool
  | a :: as, b :: bs => do if ← deepEqual a b then deepEqualItems as bs else return false
  | _, _ => return true

/-- The loop over the keys of `a`. -/
def deepEqualFields (bs : List (Text × Data number)) :
    List (Text × Data number) → Evaluating Bool
  | [] => return true
  | (k, a) :: as =>
    match OrdMap.get? k bs with
    | none => return false
    | some b => do if ← deepEqual a b then deepEqualFields bs as else return false

end

/-- An operator on two numbers. -/
def onNumbers {α : Type} (op : BinOp) (f : number → number → α) (l r : Data number) :
    Evaluating α := do
  let l ← numberFor op l
  let r ← numberFor op r
  return f l r

/-- `evalBin`.  The two operators that need not evaluate both sides do not come here. -/
def evalBin (op : BinOp) (l r : Data number) : Evaluating (Data number) :=
  match op with
  | .add => add nm l r
  | .sub => .num <$> onNumbers op nm.sub l r
  | .mul => .num <$> onNumbers op nm.mul l r
  | .div => .num <$> onNumbers op nm.div l r
  | .mod => .num <$> onNumbers op nm.mod l r
  | .lt => .bool <$> onNumbers op nm.lt l r
  | .le => .bool <$> onNumbers op nm.le l r
  | .gt => .bool <$> onNumbers op (fun l r ↦ nm.lt r l) l r
  | .ge => .bool <$> onNumbers op (fun l r ↦ nm.le r l) l r
  | .eq => .bool <$> deepEqual nm l r
  | .ne => (fun same ↦ .bool !same) <$> deepEqual nm l r
  | .and | .or => typeError s!"unsupported operator '{op.text}'"

/-! ## The walk -/

variable (others : String → Option (ExprFn number)) (scope : ExprScope number)

/-- A call, when its arguments have been evaluated. -/
def applyFunction (fn : String) (args : List (Data number)) : Evaluating (Data number) :=
  match scopeFunctions nm scope.random scope.now fn with
  | some f => f args
  | none =>
    match functions nm others fn with
    | some f => f args
    | none => typeError s!"unknown function '{fn}'"

mutual

/-- `evalNode`. -/
def evalNode (node : Expr number) : Evaluating (Data number) := do
  spend
  match node with
  | .lit v => return literalValue v
  | .root name => return scope.root name
  | .member on key => return getMember nm (← evalNode on) (codeUnitsOf key)
  | .index on idx =>
    let on ← evalNode on
    let idx ← evalNode idx
    return getIndex nm on idx
  | .unary .not on => return .bool !truthy nm (← evalNode on)
  | .unary .neg on => return .num (nm.neg (← numberFor .sub (← evalNode on)))
  | .bin .and l r =>
    let l ← evalNode l
    if truthy nm l then evalNode r else return l
  | .bin .or l r =>
    let l ← evalNode l
    if truthy nm l then return l else evalNode r
  | .bin op l r =>
    let l ← evalNode l
    let r ← evalNode r
    evalBin nm op l r
  | .cond c a b => if truthy nm (← evalNode c) then evalNode a else evalNode b
  | .call fn args =>
    let args ← evalArgs args
    spend
    applyFunction nm others scope fn args

def evalArgs : List (Expr number) → Evaluating (List (Data number))
  | [] => return []
  | e :: es => do
    let v ← evalNode e
    let vs ← evalArgs es
    return v :: vs

end

/-- `evaluate`, with the fuel it is given when it is given none. -/
def evaluate (ast : Expr number) : Except EvalError (Data number) :=
  (evalNode nm others scope ast ⟨exprLimits.maxSteps, scope.draws⟩).map (·.1)

/-! ## One node at a time -/

variable {nm others scope}

theorem evalNode_root (name : RootName) (fuel draws : Nat) :
    evalNode nm others scope (.root name) ⟨fuel + 1, draws⟩ =
      .ok (scope.root name, ⟨fuel, draws⟩) := by
  rw [evalNode, bind_of_ok (spend_run fuel draws)]
  rfl

theorem evalNode_lit (v : Literal number) (fuel draws : Nat) :
    evalNode nm others scope (.lit v) ⟨fuel + 1, draws⟩ = .ok (literalValue v, ⟨fuel, draws⟩) := by
  rw [evalNode, bind_of_ok (spend_run fuel draws)]
  rfl

theorem evalNode_member {on : Expr number} {key : String} {v : Data number} {fuel draws : Nat}
    {s : EvalState} (h : evalNode nm others scope on ⟨fuel, draws⟩ = .ok (v, s)) :
    evalNode nm others scope (.member on key) ⟨fuel + 1, draws⟩ =
      .ok (getMember nm v (codeUnitsOf key), s) := by
  rw [evalNode, bind_of_ok (spend_run fuel draws), bind_of_ok h]
  rfl

/-- An operator that evaluates both sides. -/
theorem evalNode_bin {op : BinOp} {l r : Expr number} {v w : Data number} {fuel draws : Nat}
    {s s' : EvalState} (hand : op ≠ .and) (hor : op ≠ .or)
    (hl : evalNode nm others scope l ⟨fuel, draws⟩ = .ok (v, s))
    (hr : evalNode nm others scope r s = .ok (w, s')) :
    evalNode nm others scope (.bin op l r) ⟨fuel + 1, draws⟩ = evalBin nm op v w s' := by
  rw [evalNode, bind_of_ok (spend_run fuel draws)]
  · rw [bind_of_ok hl, bind_of_ok hr]
  · exact hand
  · exact hor

/-- A call on one argument: a unit for the node, one for the call. -/
theorem evalNode_call {fn : String} {e : Expr number} {v : Data number} {fuel draws fuel' draws' : Nat}
    (h : evalNode nm others scope e ⟨fuel, draws⟩ = .ok (v, ⟨fuel' + 1, draws'⟩)) :
    evalNode nm others scope (.call fn [e]) ⟨fuel + 1, draws⟩ =
      applyFunction nm others scope fn [v] ⟨fuel', draws'⟩ := by
  have hargs : evalArgs nm others scope [e] ⟨fuel, draws⟩ = .ok ([v], ⟨fuel' + 1, draws'⟩) := by
    rw [evalArgs, bind_of_ok h]
    rfl
  rw [evalNode, bind_of_ok (spend_run fuel draws)]
  rw [bind_of_ok hargs, bind_of_ok (spend_run fuel' draws')]

/-- What an argument throws, the call throws. -/
theorem evalNode_call_error {fn : String} {e : Expr number} {error : EvalError} {fuel draws : Nat}
    (h : evalNode nm others scope e ⟨fuel, draws⟩ = .error error) :
    evalNode nm others scope (.call fn [e]) ⟨fuel + 1, draws⟩ = .error error := by
  have hargs : evalArgs nm others scope [e] ⟨fuel, draws⟩ = .error error := by
    rw [evalArgs, bind_of_error h]
  rw [evalNode, bind_of_ok (spend_run fuel draws)]
  rw [bind_of_error hargs]

theorem applyFunction_toText (v : Data number) :
    applyFunction nm others scope "toText" [v] = toText nm v := rfl

theorem applyFunction_toJson (v : Data number) :
    applyFunction nm others scope "toJson" [v] = toJson nm v := rfl

theorem applyFunction_fromJson (v : Data number) :
    applyFunction nm others scope "fromJson" [v] = fromJson nm v := rfl

end Eval

end Enkaku.Evaluator
