import BoxedLet.Boxing

/-!
# BoxedLet.Strategy

The **strategy table** for plain variable targets. The family of the destination, the shape of the
source and the operator together select how the assignment is carried out; a triple without a
strategy is an unsupported operator.
-/

namespace BoxedLet

/-- How an assignment to a plain variable is carried out. -/
inductive Strategy
  /-- `x OP 0;` -/
  | nativeZero
  /-- `x OP c;` -/
  | nativeDirect
  /-- `x OP (long) (c);` -/
  | nativeCast (kind : NativeCast)
  /-- `x OP b;` with the code of the truth value -/
  | nativeBoolean
  /-- `x OP (c) ? 1 : 0;` -/
  | boolTernary
  /-- Numeric coercion of a box. -/
  | numberCoerce
  /-- Boolean coercion of a box. -/
  | boolCoerce
  | stringLiteral
  | stringBuffer
  | stringChar
  | stringLong
  /-- A box coerced to an integer and written in decimal. -/
  | stringCoerceLong
  | boxNull
  /-- A computed native scalar; its source may read the destination. -/
  | boxValue (kind : BoxKind)
  /-- A native variable. -/
  | boxBinding (kind : BoxKind)
  | boxString
  | boxStringBuffer
  | boxEmptyArray
  /-- Reference-counted copy. -/
  | boxCopy
  /-- In-place arithmetic on the box. -/
  | boxArithmetic
  deriving Repr, DecidableEq, Inhabited

namespace Operator

/-- The operators with a native form. -/
def isNative (op : Operator) : Bool :=
  op.native?.isSome

/-- Plain assignment and addition. -/
def isAssignOrAdd (op : Operator) : Bool :=
  op == assign || op == addAssign

end Operator

namespace Strategy

/-- Strategies for an integer or character destination. -/
def forInteger (shape : Shape) (op : Operator) : Option Strategy :=
  if !op.isNative then none
  else match shape with
    | .value .null => some nativeZero
    | .value .double | .binding .double => some (nativeCast .long)
    | .value .bool => if op.isAssignOrAdd then some nativeBoolean else none
    | .binding .bool => some nativeDirect
    | .binding .dynamic => some numberCoerce
    | .value t | .binding t => if t.isIntegral then some nativeDirect else none

/-- Strategies for a double destination. -/
def forDouble (shape : Shape) (op : Operator) : Option Strategy :=
  if !op.isNative then none
  else match shape with
    | .value .null => some nativeZero
    | .value .double | .binding .double => some nativeDirect
    | .value .bool => some nativeBoolean
    | .binding .bool => some (nativeCast .double)
    | .binding .dynamic => some numberCoerce
    | .value t | .binding t => if t.isIntegral then some (nativeCast .double) else none

/-- Strategies for a boolean destination. -/
def forBool (shape : Shape) (op : Operator) : Option Strategy :=
  match shape with
  | .value .null => if op = .assign then some nativeZero else none
  | .binding .dynamic => if op = .assign then some boolCoerce else none
  | .value .bool => if op.isAssignOrAdd then some nativeBoolean else none
  | .binding .bool => if op.isAssignOrAdd then some nativeDirect else none
  | .value t | .binding t =>
    if op.isAssignOrAdd && (t.isIntegral || t == .double) then some boolTernary else none

/-- Strategies for a native string destination. -/
def forString (shape : Shape) (op : Operator) : Option Strategy :=
  if op = .assign ∨ op = .concatAssign then
    match shape with
    | .value .null | .value .string => some stringLiteral
    | .binding .string => some stringBuffer
    | .binding .dynamic => some stringCoerceLong
    | .value t | .binding t =>
      if t.isChar then some stringChar else if t.isInteger then some stringLong else none
  else none

/-- Strategies for a boxed destination. -/
def forDynamic (shape : Shape) (op : Operator) : Option Strategy :=
  match op, shape with
  | .assign, .binding .dynamic => some boxCopy
  | .addAssign, .binding .dynamic | .subAssign, .binding .dynamic => some boxArithmetic
  | .assign, .value .null => some boxNull
  | .assign, .value .string => some boxString
  | .assign, .value .emptyArray => some boxEmptyArray
  | .assign, .binding .string => some boxStringBuffer
  | .assign, .value t => (BoxKind.ofType? t).map boxValue
  | .assign, .binding t => (BoxKind.ofType? t).map boxBinding
  | _, _ => none

/-- The strategy for a destination family, a shape of source and an operator. -/
def select? (family : Family) (shape : Shape) (op : Operator) : Option Strategy :=
  match family with
  | .integer => forInteger shape op
  | .double => forDouble shape op
  | .bool => forBool shape op
  | .string => forString shape op
  | .dynamic => forDynamic shape op

end Strategy

end BoxedLet
