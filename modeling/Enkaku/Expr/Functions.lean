import Enkaku.Expr.Ast
import Enkaku.Lib.JsData
import Enkaku.Lib.Utf16

/-!
# The functions an expression can call

`functions.ts`: the closed table, with the three functions between values and text — `toText`,
`toJson` and `fromJson` — and the two that read the scope, `rand` and `now`.  What the rest of the
table does is a parameter.

The values are plain JavaScript data.  They have no identity: of one object held twice a value says
as much as of two equal ones.  Every object of a scope, and every object `fromJson` makes, has no
prototype; only the copies `toJson` is about to write are ordinary objects.
-/

set_option autoImplicit false

namespace Enkaku.Evaluator

open Js (Data Text text)

/-! ## Evaluations -/

/-- What an evaluation throws: an error of the language, or the `TypeError` of an object that does
not convert to a string. -/
inductive EvalError where
  | expr (e : ExprEvalError)
  | conversion
  deriving DecidableEq, Repr

/-- What an evaluation counts: the fuel it has left, and the draws of the step. -/
structure EvalState where
  fuel : Nat
  draws : Nat
  deriving DecidableEq, Repr

/-- An evaluation, or a part of one. -/
abbrev Evaluating (α : Type) := StateT EvalState (Except EvalError) α

variable {α : Type}

/-- `fuel.spend()`. -/
def spend : Evaluating Unit := fun s ↦
  match s.fuel with
  | 0 => .error (.expr ⟨.limit, "expression exceeded its evaluation fuel"⟩)
  | fuel + 1 => .ok ((), { s with fuel := fuel })

def raise (e : EvalError) : Evaluating α := fun _ ↦ .error e

def typeError (message : String) : Evaluating α := raise (.expr ⟨.type, message⟩)

def limitError (message : String) : Evaluating α := raise (.expr ⟨.limit, message⟩)

theorem spend_run (fuel draws : Nat) : spend ⟨fuel + 1, draws⟩ = .ok ((), ⟨fuel, draws⟩) := rfl

/-! ## Numbers and strings -/

/-- Numbers, with what the operators and the functions do to them. -/
structure Numbers (number : Type) extends Js.NumberFormat number where
  ofNat : Nat → number
  add : number → number → number
  sub : number → number → number
  mul : number → number → number
  div : number → number → number
  mod : number → number → number
  neg : number → number
  lt : number → number → Bool
  le : number → number → Bool
  floor : number → number
  /-- `Boolean(n)`. -/
  truthy : number → Bool
  /-- A number that is an integer and not negative, as one. -/
  index? : number → Option Nat
  /-- The arithmetic of `nextDraw`: of the `$random` of a step, and the draws there have been. -/
  draw : number → Nat → number

/-- How many bytes `TextEncoder` makes of a string: a pair of surrogates has four, and one without
its partner is read as U+FFFD. -/
def byteLength : Text → Nat
  | [] => 0
  | [u] => if u < 0x80 then 1 else if u < 0x800 then 2 else 3
  | u :: v :: rest =>
    if Js.isLead u && Js.isTrail v then 4 + byteLength rest
    else (if u < 0x80 then 1 else if u < 0x800 then 2 else 3) + byteLength (v :: rest)

/-- The characters of a string. -/
def characters (s : Text) : String := String.ofList (Utf16.decode (s.map UInt16.toNat))

section Functions

variable {number : Type}

/-- `boundString`. -/
def boundString (s : Text) : Evaluating (Data number) :=
  if exprLimits.maxStringBytes < byteLength s then
    limitError "string result exceeds the size limit"
  else return .str s

/-- `args[i]`. -/
def arg (args : List (Data number)) (i : Nat) : Data number := args.getD i .undefined

variable (nm : Numbers number)

/-! ## Text -/

mutual

/-- `String(v)`; an object without a prototype has no conversion. -/
def toString? : Data number → Option Text
  | .undefined => some (text "undefined")
  | .null => some (text "null")
  | .bool b => some (text (if b then "true" else "false"))
  | .num n => some (nm.write n)
  | .str s => some s
  | .arr items => (itemStrings? items).map Js.joined
  | .obj _ => none

/-- The strings that `join` puts together: `null` and `undefined` have an empty one. -/
def itemStrings? : List (Data number) → Option (List Text)
  | [] => some []
  | v :: items => do
    let s ← match v with
      | .undefined | .null => some []
      | v => toString? v
    let rest ← itemStrings? items
    return s :: rest

end

/-- `toText`. -/
def toText (v : Data number) : Evaluating (Data number) :=
  match v with
  | .undefined | .null => return .str []
  | .str s => return .str s
  | v =>
    match toString? nm v with
    | some s => return .str s
    | none => raise .conversion

/-! ## JSON -/

/-- The key that is no property of an ordinary object, but names its prototype. -/
def protoKey : Text := text "__proto__"

/-- `out[k] = v`, where `out` is an ordinary object: under `__proto__` the assignment sets the
prototype, or does nothing. -/
def assign (k : Text) (v : Data number) (out : List (Text × Data number)) :
    List (Text × Data number) :=
  if k = protoKey then out else OrdMap.set k v out

mutual

/-- `toJsonSafe`. -/
def toJsonSafe (v : Data number) : Evaluating (Data number) := do
  spend
  match v with
  | .undefined | .null => return .null
  | .bool b => return .bool b
  | .num n => return .num n
  | .str s => return .str s
  | .arr items => return .arr (← toJsonSafeItems items)
  | .obj fields => return .obj (← toJsonSafeFields [] fields)

def toJsonSafeItems : List (Data number) → Evaluating (List (Data number))
  | [] => return []
  | v :: items => do
    let v ← toJsonSafe v
    let items ← toJsonSafeItems items
    return v :: items

/-- The loop over the keys of an object. -/
def toJsonSafeFields (out : List (Text × Data number)) :
    List (Text × Data number) → Evaluating (List (Text × Data number))
  | [] => return out
  | (k, v) :: fields => do
    let v ← toJsonSafe v
    toJsonSafeFields (assign k v out) fields

end

mutual

/-- `fromJsonValue`.  The objects it makes have no prototype: there `__proto__` is a key. -/
def fromJsonValue (depth : Nat) (v : Data number) : Data number :=
  if exprLimits.maxDepth < depth then .undefined
  else
    match v with
    | .arr items => .arr ((fromJsonItems (depth + 1) items).take exprLimits.maxArrayLength)
    | .obj fields => .obj (OrdMap.merge [] (fromJsonFields (depth + 1) fields))
    | v => v

def fromJsonItems (depth : Nat) : List (Data number) → List (Data number)
  | [] => []
  | v :: items => fromJsonValue depth v :: fromJsonItems depth items

def fromJsonFields (depth : Nat) : List (Text × Data number) → List (Text × Data number)
  | [] => []
  | (k, v) :: fields => (k, fromJsonValue depth v) :: fromJsonFields depth fields

end

/-- `toJson`.  `JSON.stringify` makes nothing of `undefined`, which is no string to bound. -/
def toJson (v : Data number) : Evaluating (Data number) := do
  let safe ← toJsonSafe v
  match Js.stringify nm.toNumberFormat safe with
  | some s => boundString s
  | none => return .undefined

/-- `fromJson`.  What `str` throws at a value that is no string is caught too. -/
def fromJson (v : Data number) : Evaluating (Data number) :=
  let parsed := match v with
    | .str s => Js.parse nm.toNumberFormat s
    | _ => none
  match parsed with
  | some v => return fromJsonValue 0 v
  | none => typeError "fromJson() could not parse JSON"

/-! ## The tables -/

/-- `ExprFn`. -/
abbrev ExprFn (number : Type) := List (Data number) → Evaluating (Data number)

/-- `FUNCTIONS`, where `others` is the rest of the table. -/
def functions (others : String → Option (ExprFn number)) (fn : String) : Option (ExprFn number) :=
  if fn = "toText" then some fun args ↦ toText nm (arg args 0)
  else if fn = "toJson" then some fun args ↦ toJson nm (arg args 0)
  else if fn = "fromJson" then some fun args ↦ fromJson nm (arg args 0)
  else others fn

/-- `nextDraw`. -/
def nextDraw (random : number) : Evaluating number := fun s ↦
  .ok (nm.draw random s.draws, { s with draws := s.draws + 1 })

/-- `rand()` and `rand(n)`. -/
def rand (random : number) : ExprFn number := fun args ↦ do
  let r ← nextDraw nm random
  match args with
  | [] => return .num r
  | .num n :: _ =>
    if nm.lt (nm.ofNat 0) n then return .num (nm.floor (nm.mul r n))
    else typeError (s!"rand(n) needs a positive count — got " ++ characters (nm.write n))
  | _ => typeError "rand() requires a number"

/-- `SCOPE_FUNCTIONS`, of the `$random` and the `$now` of a scope. -/
def scopeFunctions (random now : number) (fn : String) : Option (ExprFn number) :=
  if fn = "rand" then some (rand nm random)
  else if fn = "now" then some fun _ ↦ return .num now
  else none

end Functions

end Enkaku.Evaluator
