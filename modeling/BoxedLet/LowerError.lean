import BoxedLet.Assignment
import BoxedLet.Decimal.Binary64
import BoxedLet.StaticType

/-!
# BoxedLet.LowerError

Why an assignment **cannot be lowered**. A `Cause` says what is wrong in terms of names and types;
a `LowerError` carries it together with the location where it arose. `LowerError.message` is the
only place that knows the wording.
-/

namespace BoxedLet

/-- How an undeclared variable was used. -/
inductive Access
  | read
  | mutate
  deriving Repr, DecidableEq, Inhabited

/-- What stands on the value side of an operator that is not supported. -/
inductive ValueSide
  | type (t : StaticType)
  | target (k : TargetKind)
  | none
  deriving Repr, DecidableEq, Inhabited

/-- The uses a value of unsuitable type was put to. -/
inductive ValueUse
  | boxedVariable
  | boxedValue
  | propertyAppend
  | propertyArray
  deriving Repr, DecidableEq, Inhabited

/-- The uses an index of unsuitable type was put to. -/
inductive IndexUse
  | readArray
  | updateArray
  | updatePropertyArray
  deriving Repr, DecidableEq, Inhabited

/-- What is wrong with an expression. -/
inductive ExprFault
  /-- A double without a literal. -/
  | nonFinite (value : Decimal.NonFinite)
  | notReadable (property : String) (t : StaticType)
  | notIndexable (t : StaticType)
  | notCondition (t : StaticType)
  | notObject (name : String) (t : StaticType)
  | noValue (name : String)
  | noBoxedForm (op : BinaryOp)
  deriving Repr, DecidableEq, Inhabited

/-- Why an assignment cannot be lowered. -/
inductive Cause
  | readOnlyWrite (name : String)
  | localOnlyWrite (name : String)
  | unsupportedOperator (op : Operator) (destination : StaticType) (value : ValueSide)
  | unsupportedSource (t : StaticType) (use : ValueUse)
  | unknownDestination (name : String) (t : StaticType)
  | unknownSource (t : StaticType)
  | invalidIndex (t : StaticType) (use : IndexUse)
  /-- The class is absent where there is none. -/
  | undeclaredProperty (property : String) (className : Option String)
  | undeclaredVariable (name : String) (access : Access)
  | invalidExpr (fault : ExprFault)
  deriving Repr, DecidableEq, Inhabited

/-- A cause and where it arose. -/
@[ext]
structure LowerError where
  cause : Cause
  location : Location
  deriving Repr, DecidableEq, Inhabited

/-! ### Wording -/

/-- A text in single quotes. -/
def inQuotes (s : String) : String :=
  "'" ++ s ++ "'"

/-- The word for an access. -/
def Access.text : Access → String
  | read => "read"
  | mutate => "mutate"

/-- The word for a value side. -/
def ValueSide.text : ValueSide → String
  | type t => t.name
  | target k => k.name
  | none => "none"

/-- What a value cannot be. -/
def ValueUse.text : ValueUse → String
  | boxedVariable => "stored in a boxed variable"
  | boxedValue => "stored in a boxed value"
  | propertyAppend => "appended to a property"
  | propertyArray => "stored in a property array"

/-- What an index cannot be used for. -/
def IndexUse.text : IndexUse → String
  | readArray => "to read an array"
  | updateArray => "to update an array"
  | updatePropertyArray => "to update a property array"

/-- The wording of a faulty expression. -/
def ExprFault.text : ExprFault → String
  | nonFinite value => "double literal " ++ value.text ++ " has no native representation"
  | notReadable property t =>
    "cannot read property " ++ inQuotes property ++ " of a value of type " ++ inQuotes t.name
  | notIndexable t => "a value of type " ++ inQuotes t.name ++ " cannot be indexed"
  | notCondition t => "a value of type " ++ inQuotes t.name ++ " cannot be used as a condition"
  | notObject name t =>
    "variable " ++ inQuotes name ++ " of type " ++ inQuotes t.name ++ " cannot be used as object"
  | noValue name => "assignment to " ++ inQuotes name ++ " has no value"
  | noBoxedForm op => "operator " ++ inQuotes op.symbol ++ " has no boxed form"

/-- The wording of a cause. -/
def Cause.text : Cause → String
  | readOnlyWrite name => "Cannot write variable " ++ inQuotes name ++ " because it is read only"
  | localOnlyWrite name => "Cannot write variable " ++ inQuotes name ++ " because it is local only"
  | unsupportedOperator op destination value =>
    "Operator " ++ inQuotes op.name ++ " is not supported for variable type " ++
      inQuotes destination.name ++ " with value type " ++ inQuotes value.text
  | unsupportedSource t use => "Value type " ++ inQuotes t.name ++ " cannot be " ++ use.text
  | unknownDestination name t =>
    "Unknown destination type " ++ inQuotes t.name ++ " for variable " ++ inQuotes name
  | unknownSource t => "Unknown source type " ++ inQuotes t.name
  | invalidIndex t use => "Index of type " ++ inQuotes t.name ++ " cannot be used " ++ use.text
  | undeclaredProperty property className =>
    "Property " ++ inQuotes property ++ " is not defined on class " ++
      inQuotes (className.getD "(none)")
  | undeclaredVariable name access =>
    "Cannot " ++ access.text ++ " variable " ++ inQuotes name ++ " because it wasn't declared"
  | invalidExpr fault => "Invalid expression: " ++ fault.text

/-- The message of an error: its cause and where it arose. -/
def LowerError.message (e : LowerError) : String :=
  e.cause.text ++ " at " ++ e.location.render

end BoxedLet
