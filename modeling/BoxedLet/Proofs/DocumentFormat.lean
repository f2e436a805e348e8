import BoxedLet.Document.Unit
import BoxedLet.Proofs.Diagnosis
import BoxedLet.Proofs.RecordFormat

/-!
# BoxedLet.Proofs.DocumentFormat

The **format of documents**, as a relation between contents and values. It says which names things
have, which members an object needs, and which may be left out with which default; it does not say
how documents are read.

Expressions are objects with a member `type` for their form (`DescribesExpr`). Doubles have no
description here: a double literal has more than one spelling, and rounding comes between it and its
value. All other parts of a unit are records. An assignment is described by way of a flat record,
which holds the fields that its target needs and may hold others.
-/

namespace BoxedLet.Document

open Json

/-! ### Names -/

/-- The names of a static type. -/
def namesOfType : StaticType → List String
  | .int => ["int"]
  | .uint => ["uint"]
  | .long => ["long"]
  | .ulong => ["ulong"]
  | .char => ["char"]
  | .uchar => ["uchar"]
  | .double => ["double"]
  | .bool => ["bool"]
  | .string => ["string"]
  | .dynamic => ["variable", "dynamic"]
  | .null => ["null"]
  | .emptyArray => ["empty-array"]

/-- The names of a storage class. -/
def namesOfStorage : Storage → List String
  | .stackOnly => ["stack-only"]
  | .heapBoxed => ["heap-boxed", "heap-boxed-shared"]

/-- The names of an assignment operator. -/
def namesOfOperator : Operator → List String
  | .assign => ["assign"]
  | .addAssign => ["add-assign"]
  | .subAssign => ["sub-assign"]
  | .mulAssign => ["mul-assign"]
  | .concatAssign => ["concat-assign"]
  | .increment => ["increment"]
  | .decrement => ["decrement"]

/-- The names of a binary operator. -/
def namesOfBinaryOp : BinaryOp → List String
  | .arith .add => ["add"]
  | .arith .sub => ["sub"]
  | .arith .mul => ["mul"]
  | .arith .div => ["div"]
  | .concat => ["concat"]
  | .compare .equals => ["equals"]
  | .compare .notEquals => ["not-equals"]
  | .compare .less => ["less"]
  | .compare .greater => ["greater"]
  | .compare .lessEqual => ["less-equal"]
  | .compare .greaterEqual => ["greater-equal"]
  | .connect .and => ["and"]
  | .connect .or => ["or"]

/-- The names of a form of target. -/
def namesOfTarget : TargetKind → List String
  | .whole => ["variable"]
  | .append => ["variable-append"]
  | .element => ["array-index"]
  | .property => ["object-property"]
  | .propertyAppend => ["object-property-append", "property-append"]
  | .propertyElement => ["object-property-array-index", "property-array-index"]

/-! ### Expressions -/

/-- Exactly one member of the object has the key, and this is its value. -/
def Holds (ms : List (String × Value)) (key : String) (v : Value) : Prop :=
  ms.filter (·.1 == key) = [(key, v)]

/-- No member of the object has the key. -/
def Lacks (ms : List (String × Value)) (key : String) : Prop :=
  ms.filter (·.1 == key) = []

mutual

/-- The value describes the expression. -/
inductive DescribesExpr : Expr → Value → Prop
  | null {ms : List (String × Value)} (htype : Holds ms "type" (.string "null")) :
      DescribesExpr .null (.object ms)
  | bool {ms : List (String × Value)} {b : Bool} (htype : Holds ms "type" (.string "bool"))
      (hvalue : Holds ms "value" (.bool b)) : DescribesExpr (.bool b) (.object ms)
  | int {ms : List (String × Value)} {n : Int64} (htype : Holds ms "type" (.string "int"))
      (hvalue : Holds ms "value" (.number (.int n.toInt))) : DescribesExpr (.int n) (.object ms)
  | char {ms : List (String × Value)} {c : Char} (htype : Holds ms "type" (.string "char"))
      (hvalue : Holds ms "value" (.string (String.ofList [c]))) :
      DescribesExpr (.char c) (.object ms)
  | string {ms : List (String × Value)} {s : String} (htype : Holds ms "type" (.string "string"))
      (hvalue : Holds ms "value" (.string s)) : DescribesExpr (.string s) (.object ms)
  | emptyArray {ms : List (String × Value)} (htype : Holds ms "type" (.string "empty-array")) :
      DescribesExpr .emptyArray (.object ms)
  | var {ms : List (String × Value)} {x : String} (htype : Holds ms "type" (.string "variable"))
      (hvalue : Holds ms "value" (.string x)) : DescribesExpr (.var x) (.object ms)
  | binary {ms : List (String × Value)} {op : BinaryOp} {name : String} {l r : Expr} {vl vr : Value}
      (htype : Holds ms "type" (.string "binary")) (hop : Holds ms "op" (.string name))
      (hname : name ∈ namesOfBinaryOp op) (hleft : Holds ms "left" vl) (hl : DescribesExpr l vl)
      (hright : Holds ms "right" vr) (hr : DescribesExpr r vr) :
      DescribesExpr (.binary op l r) (.object ms)
  | not {ms : List (String × Value)} {e : Expr} {v : Value}
      (htype : Holds ms "type" (.string "not")) (hexpr : Holds ms "expr" v)
      (he : DescribesExpr e v) : DescribesExpr (.not e) (.object ms)
  | property {ms : List (String × Value)} {e : Expr} {v : Value} {p : String}
      (htype : Holds ms "type" (.string "property-access")) (hobject : Holds ms "object" v)
      (he : DescribesExpr e v) (hproperty : Holds ms "property" (.string p)) :
      DescribesExpr (.property e p) (.object ms)
  | index {ms : List (String × Value)} {a i : Expr} {va vi : Value}
      (htype : Holds ms "type" (.string "array-access")) (harray : Holds ms "array" va)
      (ha : DescribesExpr a va) (hindex : Holds ms "index" vi) (hi : DescribesExpr i vi) :
      DescribesExpr (.index a i) (.object ms)
  | call {ms : List (String × Value)} {f : String} {args : List Expr} {items : List Value}
      (htype : Holds ms "type" (.string "call")) (hname : Holds ms "name" (.string f))
      (hargs : Holds ms "args" (.list items)) (hitems : DescribesExprs args items) :
      DescribesExpr (.call f args) (.object ms)
  /-- A call without arguments may leave them out. -/
  | callEmpty {ms : List (String × Value)} {f : String} (htype : Holds ms "type" (.string "call"))
      (hname : Holds ms "name" (.string f)) (hargs : Lacks ms "args") :
      DescribesExpr (.call f []) (.object ms)

/-- The values describe the expressions one by one. -/
inductive DescribesExprs : List Expr → List Value → Prop
  | nil : DescribesExprs [] []
  | cons {e : Expr} {v : Value} {es : List Expr} {vs : List Value} (he : DescribesExpr e v)
      (hes : DescribesExprs es vs) : DescribesExprs (e :: es) (v :: vs)

end

/-! ### Records -/

/-- The format of options. -/
def optionsFormat : List (FieldFormat Options) := [
  .optional "kernel-prefix" (·.kernelPrefix) IsString "zephir",
  .optional "temp-prefix" (·.tempPrefix) IsString "_",
  .optional "indent" (·.indent) IsString "\t",
  .optional "indent-level" (·.indentLevel) (fun n v => IsNumber n.toNat v) 0,
  .optional "implicit-receiver" (·.implicitReceiver) IsString "this",
  .optional "receiver-symbol" (·.receiverSymbol) IsString "this_ptr"]

/-- The format of a class. -/
def classFormat : List (FieldFormat ClassDef) := [
  .needed "name" (·.name) IsString,
  .optional "properties" (·.properties) (ListOf IsString) []]

/-- The format of a declaration. -/
def declarationFormat : List (FieldFormat Declaration) := [
  .needed "name" (·.name) IsString,
  .needed "type" (·.type) (Named namesOfType),
  .optional "storage" (·.storage) (Nullable (Named namesOfStorage)) none,
  .optional "read-only" (·.readOnly) IsBool false]

/-- The format of the fields of an assignment, all of them side by side. -/
def flatFormat : List (FieldFormat FlatAssignment) := [
  .needed "assign-type" (·.kind) (Named namesOfTarget),
  .needed "variable" (·.destination) IsString,
  .optional "operator" (·.operator) (Named namesOfOperator) .assign,
  .optional "expr" (·.source) (Nullable DescribesExpr) none,
  .optional "property" (·.property) (Nullable IsString) none,
  .optional "index-expr" (·.index) (Nullable DescribesExpr) none,
  .optional "file" (·.span.file) (Nullable IsString) none,
  .optional "line" (·.span.line) (fun n v => IsNumber n.toNat v) 0,
  (FieldFormat.optional "column" (·.span.column) (fun n v => IsNumber n.toNat v) 0).orNamed "char"]

/-- The fields are those of the assignment. Its target determines the property and the index where
it has them; where it has not, those fields do not matter. -/
structure FlatAssignment.StandsFor (flat : FlatAssignment) (a : Assignment) : Prop where
  kind : flat.kind = a.target.kind
  property : ∀ p, a.target.property? = some p → flat.property = some p
  index : ∀ i, a.target.index? = some i → flat.index = some i
  destination : flat.destination = a.destination
  operator : flat.operator = a.operator
  source : flat.source = a.source
  span : flat.span = a.span

/-- The value describes the assignment, which has something to write. -/
def DescribesAssignment (a : Assignment) (v : Value) : Prop :=
  a.HasValue ∧ ∃ flat : FlatAssignment, flat.StandsFor a ∧ DescribesRecord flatFormat flat v

/-- The format of a statement. -/
def statementFormat : List (FieldFormat LetStatement) := [
  .needed "assignments" (·.assignments) (ListOf DescribesAssignment)]

/-- The format of a compilation unit. -/
def unitFormat : List (FieldFormat CompilationUnit) := [
  .optional "options" (·.options) (DescribesRecord optionsFormat) {},
  .optional "class" (·.classDef) (Nullable (DescribesRecord classFormat)) none,
  .optional "symbols" (·.declarations) (ListOf (DescribesRecord declarationFormat)) [],
  .optional "statements" (·.statements) (ListOf (DescribesRecord statementFormat)) []]

end BoxedLet.Document
