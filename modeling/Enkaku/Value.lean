import Mathlib.Data.Rat.Defs

/-!
# Values

The values a script returns, a job is parametrised with and an expression computes: JSON, plus the
`undefined` that the code keeps apart from `null` (a binding that degrades to no default yields
`undefined`, and the two are not equal to each other).

A number is a rational.  Every finite double is one, so nothing a document can hold is lost; what
the model does not have is rounding, and the code's own arithmetic on these values is exact here.
An object is the list of its own properties in insertion order.
-/

set_option autoImplicit false

namespace Enkaku

/-- A JavaScript value as the core handles it. -/
inductive Value where
  | undefined
  | null
  | bool (b : Bool)
  | num (q : ℚ)
  | str (s : String)
  | arr (items : List Value)
  | obj (fields : List (String × Value))
  deriving Repr, Inhabited

namespace Value

/-! ## Equality

`deriving DecidableEq` does not reach through the two lists, so the test is written out.  It is
structural equality, not the code's `deepEqual`. -/

mutual

/-- The test for two values. -/
def beq : Value → Value → Bool
  | .undefined, .undefined => true
  | .null, .null => true
  | .bool a, .bool b => a == b
  | .num a, .num b => a == b
  | .str a, .str b => a == b
  | .arr a, .arr b => beqItems a b
  | .obj a, .obj b => beqFields a b
  | _, _ => false

/-- The test for the items of two arrays. -/
def beqItems : List Value → List Value → Bool
  | [], [] => true
  | a :: as, b :: bs => beq a b && beqItems as bs
  | _, _ => false

/-- The test for the properties of two objects. -/
def beqFields : List (String × Value) → List (String × Value) → Bool
  | [], [] => true
  | (k, a) :: as, (l, b) :: bs => k == l && beq a b && beqFields as bs
  | _, _ => false

end

mutual

theorem beq_iff : ∀ a b : Value, beq a b = true ↔ a = b
  | .undefined, b => by cases b <;> simp [beq]
  | .null, b => by cases b <;> simp [beq]
  | .bool a, b => by cases b <;> simp [beq]
  | .num a, b => by cases b <;> simp [beq]
  | .str a, b => by cases b <;> simp [beq]
  | .arr a, b => by
    cases b with
    | arr b => simp [beq, beqItems_iff a b]
    | _ => simp [beq]
  | .obj a, b => by
    cases b with
    | obj b => simp [beq, beqFields_iff a b]
    | _ => simp [beq]

theorem beqItems_iff : ∀ a b : List Value, beqItems a b = true ↔ a = b
  | [], b => by cases b <;> simp [beqItems]
  | x :: xs, [] => by simp [beqItems]
  | x :: xs, y :: ys => by simp [beqItems, beq_iff x y, beqItems_iff xs ys]

theorem beqFields_iff : ∀ a b : List (String × Value), beqFields a b = true ↔ a = b
  | [], b => by cases b <;> simp [beqFields]
  | x :: xs, [] => by simp [beqFields]
  | (k, x) :: xs, (l, y) :: ys => by
    simp [beqFields, beq_iff x y, beqFields_iff xs ys, and_assoc]

end

instance : DecidableEq Value := fun a b ↦ decidable_of_iff _ (beq_iff a b)

end Value

end Enkaku
