import BoxedLet.CompilationUnit
import BoxedLet.Document.Expr

/-!
# BoxedLet.Document.Unit

The **document of a compilation unit** and of its parts. All are records (`Json.Decoder.record`);
their fields are listed here in order, with their defaults.

The document of an assignment is flat: beside the form of the target stand the fields of all forms.
Those that the form needs must not be absent, and neither must the source of an operator that takes
one.
-/

namespace BoxedLet.Document

open Json

/-! ### Options, classes, declarations -/

/-- A static type. -/
def typeDecoder : Decoder StaticType :=
  Decoder.choice typeNames

/-- An assignment operator. -/
def operatorDecoder : Decoder Operator :=
  Decoder.choice operatorNames

/-- A binary operator that stands for itself. -/
def binaryOpDecoder : Decoder BinaryOp :=
  Decoder.choice binaryOpNames

/-- Options. -/
def optionsDecoder : Decoder Options :=
  Decoder.record {} [
    .optional "kernel-prefix" Decoder.string fun s o => { o with kernelPrefix := s },
    .optional "temp-prefix" Decoder.string fun s o => { o with tempPrefix := s },
    .optional "indent" Decoder.string fun s o => { o with indent := s },
    .optional "indent-level" Decoder.uint64 fun n o => { o with indentLevel := n },
    .optional "implicit-receiver" Decoder.string fun s o => { o with implicitReceiver := s },
    .optional "receiver-symbol" Decoder.string fun s o => { o with receiverSymbol := s }]

/-- A class. -/
def classDecoder : Decoder ClassDef :=
  Decoder.record { name := "" } [
    .needed "name" Decoder.string fun s c => { c with name := s },
    .optional "properties" (Decoder.list Decoder.string) fun ps c => { c with properties := ps }]

/-- A declaration. -/
def declarationDecoder : Decoder Declaration :=
  Decoder.record { name := "", type := .int } [
    .needed "name" Decoder.string fun s d => { d with name := s },
    .needed "type" typeDecoder fun t d => { d with type := t },
    .optional "storage" (Decoder.nullable (Decoder.choice storageNames))
      fun s d => { d with storage := s },
    .optional "read-only" Decoder.bool fun b d => { d with readOnly := b }]

/-! ### Assignments -/

/-- The fields of a source position, which set a part of a larger record. -/
def spanFields {σ : Type} (change : (Span → Span) → σ → σ) : List (RecordField σ) := [
  .optional "file" (Decoder.nullable Decoder.string)
    fun file => change fun s => { s with file },
  .optional "line" Decoder.uint32 fun line => change fun s => { s with line },
  (RecordField.optional "column" Decoder.uint32
    fun column => change fun s => { s with column }).orNamed "char"]

/-- A source position. -/
def spanDecoder : Decoder Span :=
  Decoder.record {} (spanFields fun f s => f s)

/-- An assignment as it stands in a document. -/
structure FlatAssignment where
  kind : TargetKind := .whole
  destination : String := ""
  operator : Operator := .assign
  source : Option Expr := none
  property : Option String := none
  index : Option Expr := none
  span : Span := {}
  deriving Repr, Inhabited

/-- A flat assignment. -/
def flatDecoder : Decoder FlatAssignment :=
  Decoder.record {} ([
    .needed "assign-type" (Decoder.choice targetNames) fun k a => { a with kind := k },
    .needed "variable" Decoder.string fun s a => { a with destination := s },
    .optional "operator" operatorDecoder fun op a => { a with operator := op },
    .optional "expr" (Decoder.nullable exprDecoder) fun e a => { a with source := e },
    .optional "property" (Decoder.nullable Decoder.string) fun p a => { a with property := p },
    .optional "index-expr" (Decoder.nullable exprDecoder) fun e a => { a with index := e }] ++
    spanFields fun f a => { a with span := f a.span })

namespace FlatAssignment

/-- A field that the form of target needs. -/
def need {α : Type} (a : FlatAssignment) (name : String) (field : Option α) : Except Fault α :=
  match field with
  | some x => .ok x
  | none => .error (.unfit (.requires a.kind.name name))

/-- The target with the fields its form needs. -/
def target (a : FlatAssignment) : Except Fault Target :=
  match a.kind with
  | .whole => return .whole
  | .append => return .append
  | .element => return .element (← a.need "index-expr" a.index)
  | .property => return .property (← a.need "property" a.property)
  | .propertyAppend => return .propertyAppend (← a.need "property" a.property)
  | .propertyElement =>
    return .propertyElement (← a.need "property" a.property) (← a.need "index-expr" a.index)

/-- The assignment that a flat one stands for. -/
def assignment (a : FlatAssignment) : Except Fault Assignment := do
  let target ← a.target
  if a.source.isNone && !a.operator.isStep then .error (.unfit (.requires a.kind.name "expr"))
  else
    return {
      target
      destination := a.destination
      operator := a.operator
      source := a.source
      span := a.span }

end FlatAssignment

/-- An assignment. -/
def assignmentDecoder : Decoder Assignment := fun budget cs => do
  let (flat, rest) ← flatDecoder budget cs
  return (← flat.assignment, rest)

/-! ### Units -/

/-- A `let` statement. -/
def statementDecoder : Decoder LetStatement :=
  Decoder.record { assignments := [] } [
    .needed "assignments" (Decoder.list assignmentDecoder)
      fun as s => { s with assignments := as }]

/-- A compilation unit. -/
def unitDecoder : Decoder CompilationUnit :=
  Decoder.record {} [
    .optional "options" optionsDecoder fun o u => { u with options := o },
    .optional "class" (Decoder.nullable classDecoder) fun c u => { u with classDef := c },
    .optional "symbols" (Decoder.list declarationDecoder) fun ds u => { u with declarations := ds },
    .optional "statements" (Decoder.list statementDecoder) fun ss u => { u with statements := ss }]

end BoxedLet.Document

/-- The compilation unit that a text describes. -/
def BoxedLet.CompilationUnit.ofJson (text : String) : Except Json.Fault CompilationUnit :=
  Document.unitDecoder.decode text

/-- The options that a text describes. -/
def BoxedLet.Options.ofJson (text : String) : Except Json.Fault Options :=
  Document.optionsDecoder.decode text
