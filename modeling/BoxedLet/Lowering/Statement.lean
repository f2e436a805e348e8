import BoxedLet.Lowering.Part
import BoxedLet.Lowering.Whole

/-!
# BoxedLet.Lowering.Statement

**Whole assignments and statements.** An assignment counts as a write of its destination whether or
not it succeeds; beyond that, one that fails emits nothing and needs no header. A statement stops
at its first failing assignment and keeps what the earlier ones emitted.
-/

namespace BoxedLet

variable {ε : Type} [Exits ε]

namespace Lower

/-- `x++` and `x--` on the destination. -/
def stepDestination (span : Span) (dest : Symbol) (direction : Step) (op : Operator) :
    LowerOr ε Unit := do
  let place := Place.var dest.name
  match dest.type.family? with
  | none => fail span (.unknownDestination dest.name dest.type)
  | some .integer | some .double => emit (.step place direction)
  | some .bool | some .string => fail span (.unsupportedOperator op dest.type .none)
  | some .dynamic =>
    require .operators
    if dest.isLocalOnly then emit (.bump place true direction)
    else
      emit (.separate place)
      emit (.bump place false direction)

/-- A step operator on the destination. -/
def assignStep (span : Span) (dest : Symbol) (op : Operator) : LowerOr ε Unit :=
  if dest.readOnly then fail span (.readOnlyWrite dest.name)
  else match op with
    | .increment => stepDestination span dest .increment op
    | .decrement => stepDestination span dest .decrement op
    | _ => fail span (.unsupportedOperator op dest.type .none)

/-- The destination of an assignment. The implicit receiver is never assigned to, only its
properties are, and a variable of a pseudo type cannot be assigned to at all. -/
def checkedDestination (a : Assignment) : LowerOr ε Symbol := do
  let dest ← writeSymbol a.span a.destination
  if dest.readOnly then fail a.span (.readOnlyWrite dest.name)
  else if (← get).options.isReceiver dest.name && !a.target.isProperty then
    fail a.span (.readOnlyWrite dest.name)
  else if dest.type.isPseudo then fail a.span (.unknownDestination dest.name dest.type)
  else pure dest

/-- Writes a resolved source to the target. -/
def assignSource (dest : Symbol) (a : Assignment) (expr : Expr) (source : Source) :
    LowerOr ε Unit :=
  match a.target with
  | .whole => assignWhole a.span dest a.operator source (some expr)
  | .append => assignAppend a.span dest a.operator source
  | .element index => assignElement a.span dest a.operator index source
  | .property name => assignProperty a.span dest a.operator name source
  | .propertyAppend name => appendProperty a.span dest a.operator name source
  | .propertyElement name index => assignPropertyElement a.span dest a.operator name index source

/-- Lowers an assignment. -/
def assignment (a : Assignment) : LowerOr ε Unit := do
  let dest ← checkedDestination a
  if a.operator.isStep then
    match a.target with
    | .whole =>
      modifyTable (·.markInitialized dest.name)
      assignStep a.span dest a.operator
    | target => fail a.span (.unsupportedOperator a.operator dest.type (.target target.kind))
  else match a.source with
    | none => fail a.span (.invalidExpr (.noValue dest.name))
    | some expr =>
      let source ← resolve a.span expr
      modifyTable (·.markInitialized dest.name)
      assignSource dest a expr source

end Lower

/-- Lowers an assignment; one that fails leaves no instruction and no header behind. -/
def lowerAssignment (a : Assignment) : LowerOr ε Unit :=
  Lower.atomically (Lower.assignment a)

/-- Lowers assignments in order, up to the first that fails. -/
def lowerAssignments : List Assignment → LowerOr ε Unit
  | [] => pure ()
  | a :: as => do
    lowerAssignment a
    lowerAssignments as

/-- Lowers the assignments of a statement. -/
def lowerStatement (s : LetStatement) : LowerOr ε Unit :=
  lowerAssignments s.assignments

/-- Lowers statements in order, up to the first that fails. -/
def lowerStatements : List LetStatement → LowerOr ε Unit
  | [] => pure ()
  | s :: ss => do
    lowerStatement s
    lowerStatements ss

end BoxedLet
