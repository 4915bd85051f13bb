import Enkaku.Lib.Throwing
import Mathlib.Data.List.Basic

/-!
# The syntax tree of an expression

`ast.ts`: the closed union an expression is parsed to, its limits, the error an evaluation throws
and its fuel.  `number` says what a number is: the tree carries whatever `Number` makes of the text
of a literal.
-/

set_option autoImplicit false

namespace Enkaku

/-! ## Limits, errors, fuel -/

/-- `EXPR_LIMITS`. -/
structure ExprLimits where
  maxSourceBytes : Nat := 2000
  maxAstNodes : Nat := 200
  maxDepth : Nat := 20
  maxSteps : Nat := 10000
  maxStringBytes : Nat := 64 * 1024
  maxArrayLength : Nat := 10000

def exprLimits : ExprLimits := {}

inductive ExprErrorCode where
  | limit | type
  deriving DecidableEq, Repr

/-- `ExprEvalError`; its offset is always 0. -/
structure ExprEvalError where
  code : ExprErrorCode
  message : String
  deriving DecidableEq, Repr

/-- A computation that spends fuel, and may throw. -/
abbrev Fueled (α : Type) := StateT Nat (Except ExprEvalError) α

/-- `fuel.spend()`. -/
def spend : Fueled Unit := fun fuel ↦
  match fuel with
  | 0 => .error ⟨.limit, "expression exceeded its evaluation fuel"⟩
  | fuel + 1 => .ok ((), fuel)

/-! ## The tree -/

/-- `BinOp`. -/
inductive BinOp where
  | add | sub | mul | div | mod
  | eq | ne | lt | le | gt | ge
  | and | or
  deriving DecidableEq, Repr

/-- The punctuation an operator is written with. -/
def BinOp.text : BinOp → String
  | add => "+"
  | sub => "-"
  | mul => "*"
  | div => "/"
  | mod => "%"
  | eq => "=="
  | ne => "!="
  | lt => "<"
  | le => "<="
  | gt => ">"
  | ge => ">="
  | and => "&&"
  | or => "||"

/-- `RootName`. -/
inductive RootName where
  | params | nodes | input | run | now | random | device
  deriving DecidableEq, Repr

namespace RootName

def text : RootName → String
  | params => "$params"
  | nodes => "$nodes"
  | input => "$input"
  | run => "$run"
  | now => "$now"
  | random => "$random"
  | device => "$device"

/-- `ROOT_NAMES`. -/
def all : List RootName := [params, nodes, input, run, now, random, device]

end RootName

/-- The two prefix operators. -/
inductive UnaryOp where
  | not | neg
  deriving DecidableEq, Repr

def UnaryOp.text : UnaryOp → String
  | not => "!"
  | neg => "-"

/-- The value of a `lit` node. -/
inductive Literal (number : Type) where
  | num (n : number)
  | str (s : String)
  | bool (b : Bool)
  | null
  deriving DecidableEq, Repr

/-- `Expr`. -/
inductive Expr (number : Type) where
  | lit (v : Literal number)
  | root (name : RootName)
  | member (on : Expr number) (key : String)
  | index (on idx : Expr number)
  | unary (op : UnaryOp) (on : Expr number)
  | bin (op : BinOp) (l r : Expr number)
  | cond (c a b : Expr number)
  | call (fn : String) (args : List (Expr number))
  deriving Repr

namespace Expr

variable {number : Type}

mutual

/-- How many nodes a tree has. -/
def size : Expr number → Nat
  | lit _ => 1
  | root _ => 1
  | member on _ => size on + 1
  | index on idx => size on + size idx + 1
  | unary _ on => size on + 1
  | bin _ l r => size l + size r + 1
  | cond c a b => size c + size a + size b + 1
  | call _ args => sizes args + 1

/-- How many nodes the trees of a list have. -/
def sizes : List (Expr number) → Nat
  | [] => 0
  | e :: es => size e + sizes es

end

/-- `idx.t === 'lit' && typeof idx.v === 'string'`. -/
def isStringLiteral : Expr number → Bool
  | lit (.str _) => true
  | _ => false

end Expr

end Enkaku
