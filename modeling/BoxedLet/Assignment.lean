import BoxedLet.Expr
import BoxedLet.Span

/-!
# BoxedLet.Assignment

**Assignments** and the `let` statements that group them.

An assignment `destination OP source` names its destination variable, says which part of it is
written (`Target`), how (`Operator`), from what (`source`) and where it stands in the source file.
The two *step* operators `++` and `--` take no source.
-/

namespace BoxedLet

/-- The assignment operators. -/
inductive Operator
  | assign
  | addAssign
  | subAssign
  | mulAssign
  | concatAssign
  | increment
  | decrement
  deriving Repr, DecidableEq, Inhabited

/-- The operators that a native assignment statement can carry. -/
inductive NativeOp
  | set
  | add
  | sub
  | mul
  deriving Repr, DecidableEq, Inhabited

/-- The token between the two sides of a native assignment. -/
def NativeOp.token : NativeOp → String
  | set => "="
  | add => "+="
  | sub => "-="
  | mul => "*="

namespace Operator

/-- The name an operator has in documents and messages. -/
def name : Operator → String
  | assign => "assign"
  | addAssign => "add-assign"
  | subAssign => "sub-assign"
  | mulAssign => "mul-assign"
  | concatAssign => "concat-assign"
  | increment => "increment"
  | decrement => "decrement"

/-- The native assignment an operator corresponds to, if there is one. -/
def native? : Operator → Option NativeOp
  | assign => some .set
  | addAssign => some .add
  | subAssign => some .sub
  | mulAssign => some .mul
  | concatAssign | increment | decrement => none

/-- Whether the operator takes no source. -/
def isStep : Operator → Bool
  | increment | decrement => true
  | _ => false

end Operator

/-- The six forms of a target. -/
inductive TargetKind
  | whole
  | append
  | element
  | property
  | propertyAppend
  | propertyElement
  deriving Repr, DecidableEq, Inhabited

/-- The name a form of target has in documents and messages. -/
def TargetKind.name : TargetKind → String
  | whole => "variable"
  | append => "variable-append"
  | element => "array-index"
  | property => "object-property"
  | propertyAppend => "object-property-append"
  | propertyElement => "object-property-array-index"

/-- The part of the destination that is written. -/
inductive Target
  /-- `v = x` -/
  | whole
  /-- `v[] = x` -/
  | append
  /-- `v[i] = x` -/
  | element (index : Expr)
  /-- `o.p = x` -/
  | property (name : String)
  /-- `o.p[] = x` -/
  | propertyAppend (name : String)
  /-- `o.p[i] = x` -/
  | propertyElement (name : String) (index : Expr)
  deriving Repr, Inhabited

namespace Target

/-- The form of a target. -/
def kind : Target → TargetKind
  | whole => .whole
  | append => .append
  | element _ => .element
  | property _ => .property
  | propertyAppend _ => .propertyAppend
  | propertyElement _ _ => .propertyElement

/-- The property that is written, where a property is. -/
def property? : Target → Option String
  | property p | propertyAppend p | propertyElement p _ => some p
  | whole | append | element _ => none

/-- Whether a property of the destination is written rather than the destination itself. -/
def isProperty (t : Target) : Bool :=
  t.property?.isSome

/-- The index of a target, where it has one. -/
def index? : Target → Option Expr
  | element i | propertyElement _ i => some i
  | whole | append | property _ | propertyAppend _ => none

end Target

/-- A single assignment. -/
structure Assignment where
  target : Target
  /-- The variable that is written, wholly or in part. -/
  destination : String
  operator : Operator := .assign
  /-- The source; a step operator does without. -/
  source : Option Expr := none
  span : Span := {}
  deriving Repr, Inhabited

/-- A `let` statement: assignments that are lowered in order. -/
structure LetStatement where
  assignments : List Assignment
  deriving Repr, Inhabited

end BoxedLet
