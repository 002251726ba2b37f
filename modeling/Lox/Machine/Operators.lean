import Lox.Fault
import Lox.Value

/-!
Contract: what operators do to values.

Arithmetic and comparison take numbers and follow IEEE 754, so that a division
by zero has a result. Addition also joins two strings. Equality takes any two
values.
-/

namespace Lox

/-- Applies a prefix operator. -/
def UnaryOperator.apply : UnaryOperator → Value → Except Fault.Violation Value
  | .negate, .number value => .ok (.number (-value))
  | .negate, _ => .error .operandNotNumber
  | .not, value => .ok (.boolean (!value.isTruthy))

/-- Applies an operation on numbers to values that must be such. -/
def onNumbers (operation : Float → Float → Value) :
    Value → Value → Except Fault.Violation Value
  | .number left, .number right => .ok (operation left right)
  | _, _ => .error .operandsNotNumbers

/-- Adds two numbers or joins two strings. -/
def addValues : Value → Value → Except Fault.Violation Value
  | .number left, .number right => .ok (.number (left + right))
  | .string left, .string right => .ok (.string (left ++ right))
  | _, _ => .error .operandsNotAddable

/-- Applies an operator to two evaluated operands. -/
def BinaryOperator.apply (operator : BinaryOperator) (left right : Value) :
    Except Fault.Violation Value :=
  match operator with
  | .add => addValues left right
  | .subtract => onNumbers (fun x y => .number (x - y)) left right
  | .multiply => onNumbers (fun x y => .number (x * y)) left right
  | .divide => onNumbers (fun x y => .number (x / y)) left right
  | .greater => onNumbers (fun x y => .boolean (decide (y < x))) left right
  | .greaterEqual => onNumbers (fun x y => .boolean (decide (y ≤ x))) left right
  | .less => onNumbers (fun x y => .boolean (decide (x < y))) left right
  | .lessEqual => onNumbers (fun x y => .boolean (decide (x ≤ y))) left right
  | .equal => .ok (.boolean (left.equal right))
  | .notEqual => .ok (.boolean (!left.equal right))

/-- Whether the left operand alone decides the operation; it is then the result. -/
def LogicalOperator.isDecidedBy : LogicalOperator → Value → Bool
  | .or, value => value.isTruthy
  | .and, value => !value.isTruthy

end Lox
