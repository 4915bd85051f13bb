import Enkaku.Expr.Eval
import Enkaku.Expr.Grammar
import Enkaku.Workflow.Resolve

/-!
# The expressions of a step

`resolveValue` has the text of an expression parsed, and evaluated in the scope that `buildExprScope`
makes of the step.  `exprEvaluator` is that part of it, for the evaluator that `Resolve` leaves open:
the copies of `toScopeValue`, the roots, the parser and the evaluator, and the texts of their errors.

A number of a workflow is a rational, so the language runs on rationals here.  Which of them are
numbers, and what the operators do, `Numbers` says; `WholeNumbers` is what JavaScript promises of the
whole ones.  The text of the engine's `TypeError` is a parameter too.
-/

set_option autoImplicit false

namespace Enkaku

open Evaluator (Numbers ExprFn EvalError EvalState codeUnitsOf characters evalNode evalArgs
  applyFunction truthy)
open Js (Data Text text)

/-! ## The scope -/

mutual

/-- `toScopeValue`. -/
def toScopeValue (depth : Nat) (v : Value) : Data ℚ :=
  if exprLimits.maxDepth < depth then .undefined
  else
    match v with
    | .undefined => .undefined
    | .null => .null
    | .bool b => .bool b
    | .num q => .num q
    | .str s => .str (codeUnitsOf s)
    | .arr items => .arr ((toScopeItems (depth + 1) items).take exprLimits.maxArrayLength)
    | .obj fields => .obj (toScopeFields (depth + 1) fields)

def toScopeItems (depth : Nat) : List Value → List (Data ℚ)
  | [] => []
  | v :: items => toScopeValue depth v :: toScopeItems depth items

def toScopeFields (depth : Nat) : List (String × Value) → List (Text × Data ℚ)
  | [] => []
  | (k, v) :: fields => (codeUnitsOf k, toScopeValue depth v) :: toScopeFields depth fields

end

/-- `value ?? null`. -/
def orNull {α : Type} (f : α → Data ℚ) (value : Option α) : Data ℚ := (value.map f).getD .null

/-- The roots of the language, of the scope of a step; `draws` is what its counter has reached. -/
def ExprScope.roots (scope : ExprScope) (draws : Nat) : Evaluator.ExprScope ℚ where
  params := toScopeValue 0 (.obj scope.params)
  nodes := toScopeValue 0 (.obj scope.nodes)
  input := toScopeValue 0 scope.input
  run := .obj [(text "summary", toScopeValue 0 (.arr (scope.summary.map (·.toValue)))),
    (text "index", .num scope.index), (text "count", .num scope.count),
    (text "repeat", .num scope.repeat_)]
  now := scope.now
  random := scope.random
  device := .obj [(text "number", orNull (fun n : Int ↦ .num n) scope.device.number),
    (text "stableId", orNull (.str ∘ codeUnitsOf) scope.device.stableId),
    (text "label", orNull (.str ∘ codeUnitsOf) scope.device.label),
    (text "group", orNull (.str ∘ codeUnitsOf) scope.device.group),
    (text "labels", .arr (scope.device.labels.map (.str ∘ codeUnitsOf)))]
  draws := draws

/-! ## The result -/

mutual

/-- What an evaluation comes to, as a value of the workflow. -/
def valueOf : Data ℚ → Value
  | .undefined => .undefined
  | .null => .null
  | .bool b => .bool b
  | .num q => .num q
  | .str s => .str (characters s)
  | .arr items => .arr (valuesOf items)
  | .obj fields => .obj (fieldsOf fields)

def valuesOf : List (Data ℚ) → List Value
  | [] => []
  | v :: items => valueOf v :: valuesOf items

def fieldsOf : List (Text × Data ℚ) → List (String × Value)
  | [] => []
  | (k, v) :: fields => (characters k, valueOf v) :: fieldsOf fields

end

/-- The text of what was thrown, with the offset when the language threw it. -/
def errorDetail (conversion : String) : EvalError → String
  | .expr e => s!"{e.message} (offset 0)"
  | .conversion => conversion

section Draws

variable (nm : Numbers ℚ) (others : String → Option (ExprFn ℚ)) (scope : Evaluator.ExprScope ℚ)

/-- The draws a function has made when it is over; `rand` draws before it looks at its argument. -/
def callDraws (fn : String) (args : List (Data ℚ)) (s : EvalState) : Nat :=
  match applyFunction nm others scope fn args s with
  | .ok (_, s) => s.draws
  | .error _ => if fn = "rand" then s.draws + 1 else s.draws

mutual

/-- The draws of the step when an evaluation is over.  The counter is an object that the step keeps,
so what was drawn before an error stays drawn. -/
def drawsAfter (node : Expr ℚ) (s : EvalState) : Nat :=
  match s.fuel with
  | 0 => s.draws
  | fuel + 1 =>
    let s := { s with fuel := fuel }
    match node with
    | .lit _ | .root _ => s.draws
    | .member on _ | .unary _ on => drawsAfter on s
    | .index on idx =>
      match evalNode nm others scope on s with
      | .ok (_, s) => drawsAfter idx s
      | .error _ => drawsAfter on s
    | .bin op l r =>
      match evalNode nm others scope l s with
      | .ok (v, s') =>
        if (op = .and && !truthy nm v) || (op = .or && truthy nm v) then s'.draws
        else drawsAfter r s'
      | .error _ => drawsAfter l s
    | .cond c a b =>
      match evalNode nm others scope c s with
      | .ok (v, s) => if truthy nm v then drawsAfter a s else drawsAfter b s
      | .error _ => drawsAfter c s
    | .call fn args =>
      match evalArgs nm others scope args s with
      | .ok (args, s) =>
        match s.fuel with
        | 0 => s.draws
        | fuel + 1 => callDraws nm others scope fn args { s with fuel := fuel }
      | .error _ => argDraws args s

def argDraws (args : List (Expr ℚ)) (s : EvalState) : Nat :=
  match args with
  | [] => s.draws
  | e :: es =>
    match evalNode nm others scope e s with
    | .ok (_, s) => argDraws es s
    | .error _ => drawsAfter e s

end

end Draws

/-! ## The evaluator -/

/-- The `expr` branch of `resolveValue`, up to the text around its error. -/
def exprEvaluator (nm : Numbers ℚ) (toNumber : String → ℚ) (others : String → Option (ExprFn ℚ))
    (conversion : String) : Evaluator := fun scope draws source ↦
  match parse toNumber source with
  | .error e => (.error s!"{e.message} (offset {e.offset})", draws)
  | .ok ast =>
    let start : EvalState := ⟨exprLimits.maxSteps, draws⟩
    match evalNode nm others (scope.roots draws) ast start with
    | .ok (v, s) => (.ok (valueOf v), s.draws)
    | .error e =>
      (.error (errorDetail conversion e), drawsAfter nm others (scope.roots draws) ast start)

/-- A text that is parsed and evaluated has that value. -/
theorem exprEvaluator_of_ok {nm : Numbers ℚ} {toNumber : String → ℚ}
    {others : String → Option (ExprFn ℚ)} {conversion source : String} {scope : ExprScope}
    {draws : Nat} {ast : Expr ℚ} {v : Data ℚ} {s : EvalState} (hparse : parse toNumber source = .ok ast)
    (heval : evalNode nm others (scope.roots draws) ast ⟨exprLimits.maxSteps, draws⟩ = .ok (v, s)) :
    exprEvaluator nm toNumber others conversion scope draws source = (.ok (valueOf v), s.draws) := by
  rw [exprEvaluator, hparse]
  dsimp only
  rw [heval]

/-! ## Whole numbers -/

/-- `Math.trunc`. -/
def truncate (q : ℚ) : ℤ := q.num.tdiv q.den

/-- What JavaScript promises of whole numbers: the safe ones are numbers, `Number` reads the decimals of
one, and `%` is exact. -/
structure WholeNumbers (nm : Numbers ℚ) (toNumber : String → ℚ) : Prop where
  safe : ∀ n : ℕ, n < 2 ^ 53 → nm.finite n = true
  read : ∀ n : ℕ, nm.finite n = true → toNumber (toString n) = n
  mod : ∀ a b : ℚ, nm.finite a = true → nm.finite b = true → b ≠ 0 →
    nm.mod a b = a - b * truncate (a / b)

theorem truncate_div_natCast (a b : ℕ) : truncate ((a : ℚ) / b) = (a / b : ℕ) := by
  have hnonneg : 0 ≤ ((a : ℚ) / b).num := Rat.num_nonneg.mpr (by positivity)
  rw [truncate, Int.tdiv_eq_ediv_of_nonneg hnonneg, ← Rat.floor_def', Rat.floor_natCast_div_natCast]
  rfl

/-- `%` of two whole numbers. -/
theorem WholeNumbers.mod_natCast {nm : Numbers ℚ} {toNumber : String → ℚ}
    (h : WholeNumbers nm toNumber) {a b : ℕ} (ha : nm.finite a = true) (hb : nm.finite b = true)
    (hpos : 0 < b) : nm.mod a b = (a % b : ℕ) := by
  have hne : (b : ℚ) ≠ 0 := Nat.cast_ne_zero.mpr hpos.ne'
  have hsum : ((a % b : ℕ) : ℚ) + b * (a / b : ℕ) = a := by exact_mod_cast Nat.mod_add_div a b
  rw [h.mod _ _ ha hb hne, truncate_div_natCast, Int.cast_natCast]
  exact sub_eq_of_eq_add hsum.symm

namespace Decimal

/-- The code units of the decimals of a number. -/
def digits (n : ℕ) : Text := (Nat.toDigits 10 n).map Js.unit

/-- The number a text of decimals stands for. -/
def number (cs : List Char) : ℚ := (Nat.ofDigitChars 10 cs 0 : ℕ)

theorem toDigits_head {n : ℕ} (h : 0 < n) : ∃ d ds, Nat.toDigits 10 n = d :: ds ∧ d ≠ '0' := by
  induction n using Nat.strongRecOn with
  | ind n ih =>
    by_cases hlt : n < 10
    · refine ⟨_, _, Nat.toDigits_of_lt_base hlt, ?_⟩
      interval_cases n <;> decide
    · obtain ⟨d, ds, heq, hd⟩ := ih (n / 10) (by omega) (by omega)
      refine ⟨d, ds ++ [(n % 10).digitChar], ?_, hd⟩
      rw [Nat.toDigits_of_base_le (by omega) (Nat.not_lt.mp hlt), heq, List.cons_append]

theorem range_of_isDigit {c : Char} (h : c.isDigit = true) : 48 ≤ c.toNat ∧ c.toNat ≤ 57 := by
  rw [Char.isDigit, Bool.and_eq_true, decide_eq_true_eq, decide_eq_true_eq] at h
  exact ⟨h.1, h.2⟩

theorem unit_toNat {c : Char} (h : c.isDigit = true) : (Js.unit c).toNat = c.toNat := by
  have hrange := range_of_isDigit h
  rw [Js.unit, UInt16.toNat_ofNat', Nat.mod_eq_of_lt (by omega)]

theorem isDigit_unit {c : Char} (h : c.isDigit = true) : Js.isDigit (Js.unit c) = true := by
  have hrange := range_of_isDigit h
  rw [Js.isDigit, Bool.and_eq_true, decide_eq_true_eq, decide_eq_true_eq, UInt16.le_iff_toNat_le,
    UInt16.le_iff_toNat_le, unit_toNat h]
  exact hrange

theorem unit_inj {c d : Char} (hc : c.isDigit = true) (hd : d.isDigit = true)
    (h : Js.unit c = Js.unit d) : c = d := by
  have hnat := congrArg UInt16.toNat h
  rw [unit_toNat hc, unit_toNat hd] at hnat
  exact Char.toNat_inj.mp hnat

theorem isDigit_of_mem {n : ℕ} {c : Char} (h : c ∈ Nat.toDigits 10 n) : c.isDigit = true :=
  Nat.isDigit_of_mem_toDigits (by omega) (by omega) h

theorem isJsonNumber_digits (n : ℕ) : Js.IsJsonNumber (digits n) := by
  refine ⟨[], digits n, [], [], by simp, .inl rfl, ?_, .inl rfl, .inl rfl⟩
  rcases Nat.eq_zero_or_pos n with rfl | hpos
  · exact .inl rfl
  · obtain ⟨d, ds, heq, hd⟩ := toDigits_head hpos
    refine .inr ⟨Js.unit d, ds.map Js.unit, by rw [digits, heq, List.map_cons], ?_, fun x hx ↦ ?_⟩
    · intro hzero
      exact hd (unit_inj (isDigit_of_mem (heq ▸ List.mem_cons_self)) (by decide) hzero)
    · rw [← List.map_cons, ← heq] at hx
      obtain ⟨c, hc, rfl⟩ := List.mem_map.mp hx
      exact isDigit_unit (isDigit_of_mem hc)

theorem number_digits (n : ℕ) : number ((digits n).map fun u ↦ Char.ofNat u.toNat) = n := by
  have hback : (digits n).map (fun u ↦ Char.ofNat u.toNat) = Nat.toDigits 10 n := by
    rw [digits, List.map_map]
    refine (List.map_congr_left fun c hc ↦ ?_).trans (List.map_id _)
    rw [Function.comp_apply, unit_toNat (isDigit_of_mem hc), Char.ofNat_toNat, id]
  rw [number, hback, Nat.ofDigitChars_toDigits (by omega) (by omega)]

/-- The natural numbers, in decimals. -/
def numbers : Numbers ℚ where
  finite q := q = (q.num.toNat : ℚ)
  same a b := a == b
  write q := digits q.num.toNat
  read cs := number (cs.map fun u ↦ Char.ofNat u.toNat)
  isJsonNumber _ := isJsonNumber_digits _
  same_read := by
    intro q hq
    rw [number_digits, ← of_decide_eq_true hq, beq_self_eq_true]
  ofNat n := n
  add := (· + ·)
  sub := (· - ·)
  mul := (· * ·)
  div := (· / ·)
  mod a b := a - b * truncate (a / b)
  neg q := -q
  lt a b := a < b
  le a b := a ≤ b
  floor q := ⌊q⌋
  truthy q := q ≠ 0
  index? q := if q = (q.num.toNat : ℚ) then some q.num.toNat else none
  draw q _ := q

theorem wholeNumbers : WholeNumbers numbers fun s ↦ number s.toList where
  safe n _ := by simp [numbers]
  read n _ := by
    rw [number, Nat.toString_eq_repr, Nat.toList_repr, Nat.ofDigitChars_toDigits (by omega) (by omega)]
  mod _ _ _ _ _ := rfl

end Decimal

end Enkaku
