import BoxedLet.Document.Names
import BoxedLet.Json.Value

/-!
# BoxedLet.Document.Expr

**Expressions in documents.** An expression is an object whose field `type` names its form, with
the fields of that form beside it, or a list of the form and its fields in order. Other fields are
ignored.

The form of the outermost expression is looked at as soon as it is met. Everything else is read as
a whole value first, so that text which is malformed anywhere in an expression is reported before
contents that do not fit. Inside such a value a form may also be given by its position among the
names of the forms.
-/

namespace BoxedLet.Document

open Json

/-- The forms of an expression. -/
inductive Form
  | null
  | bool
  | int
  | double
  | char
  | string
  | emptyArray
  | var
  | binary
  | not
  | property
  | index
  | call
  deriving Repr, DecidableEq, Inhabited

/-- The names of the forms. -/
def formNames : List (String × Form) :=
  [("null", .null), ("bool", .bool), ("int", .int), ("double", .double), ("char", .char),
    ("string", .string), ("empty-array", .emptyArray), ("variable", .var), ("binary", .binary),
    ("not", .not), ("property-access", .property), ("array-access", .index), ("call", .call)]

/-- The name of the field that holds the form. -/
def formField : String := "type"

/-! ### Fields of the forms -/

/-- What a field of an expression holds. -/
inductive SlotKind
  | bool
  | int
  | double
  | char
  | string
  | op
  | expr
  | exprs
  deriving Repr, DecidableEq, Inhabited

/-- A field of an expression. -/
structure Slot where
  name : String
  kind : SlotKind
  required : Bool := true
  deriving Repr, DecidableEq, Inhabited

/-- The fields of a form, in order. -/
def Form.slots : Form → List Slot
  | null | emptyArray => []
  | bool => [⟨"value", .bool, true⟩]
  | int => [⟨"value", .int, true⟩]
  | double => [⟨"value", .double, true⟩]
  | char => [⟨"value", .char, true⟩]
  | string | var => [⟨"value", .string, true⟩]
  | binary => [⟨"op", .op, true⟩, ⟨"left", .expr, true⟩, ⟨"right", .expr, true⟩]
  | not => [⟨"expr", .expr, true⟩]
  | property => [⟨"object", .expr, true⟩, ⟨"property", .string, true⟩]
  | index => [⟨"array", .expr, true⟩, ⟨"index", .expr, true⟩]
  | call => [⟨"name", .string, true⟩, ⟨"args", .exprs, false⟩]

/-- The contents of a field. -/
inductive Part
  | bool (value : Bool)
  | int (value : Int64)
  | double (value : Float)
  | char (value : Char)
  | string (value : String)
  | op (value : BinaryOp)
  | expr (value : Expr)
  | exprs (value : List Expr)
  deriving Repr, Inhabited

/-- The fields that have been read, by name. -/
abbrev Parts := List (String × Part)

/-! ### Simple fields -/

/-- The double nearest to an integer. -/
def nearestDouble (n : Int) : Float :=
  let magnitude := (UInt64.ofNat n.natAbs).toFloat
  if n < 0 then -magnitude else magnitude

/-- The binary operator that a value names: a string, or an object whose only key it is and whose
value is empty. -/
def opOfValue : Value → Except Fault BinaryOp
  | .string name => Decoder.lookupName binaryOpNames name
  | .object [(name, value)] => do
    let op ← Decoder.lookupName binaryOpNames name
    match value with
    | .null | .object [] => return op
    | _ => .error (.unfit .invalidType)
  | .object _ => .error (.unfit .invalidValue)
  | _ => .error (.unfit .invalidType)

/-- The contents of a field that holds no expression. -/
def simplePart (kind : SlotKind) (value : Value) : Except Fault Part :=
  match kind, value with
  | .bool, .bool b => .ok (.bool b)
  | .int, .number (.int n) =>
    if Int64.minValue.toInt ≤ n ∧ n ≤ Int64.maxValue.toInt then .ok (.int (Int64.ofInt n))
    else .error (.unfit .invalidValue)
  | .double, .number (.int n) => .ok (.double (nearestDouble n))
  | .double, .number (.float x) => .ok (.double x)
  | .char, .string s =>
    match s.toList with
    | [c] => .ok (.char c)
    | _ => .error (.unfit .invalidValue)
  | .string, .string s => .ok (.string s)
  | .op, value => (opOfValue value).map Part.op
  | _, _ => .error (.unfit .invalidType)

/-- The form that a value names, or whose position it is. -/
def formOfValue : Value → Except Fault Form
  | .string name => Decoder.lookupName formNames name
  | .number (.int n) =>
    if n < 0 then .error (.unfit .invalidType)
    else match formNames[n.toNat]? with
      | some (_, form) => .ok form
      | none => .error (.unfit .invalidValue)
  | _ => .error (.unfit .invalidType)

/-- The form among the members of an object. There has to be exactly one. -/
def formOfMembers (found : Option Form) : List (String × Value) → Except Fault Form
  | [] =>
    match found with
    | some form => .ok form
    | none => .error (.unfit (.missingField formField))
  | (key, value) :: members =>
    if key ≠ formField then formOfMembers found members
    else if found.isSome then .error (.unfit (.duplicateField formField))
    else do formOfMembers (some (← formOfValue value)) members

/-! ### Putting an expression together -/

namespace Parts

/-- A field that has to be there. -/
def get (ps : Parts) (name : String) : Except Fault Part :=
  match ps.lookup name with
  | some part => .ok part
  | none => .error (.unfit (.missingField name))

/-- A truth value. -/
def bool (ps : Parts) (name : String) : Except Fault Bool := do
  match ← ps.get name with
  | .bool b => return b
  | _ => .error (.unfit .invalidType)

/-- An integer. -/
def int (ps : Parts) (name : String) : Except Fault Int64 := do
  match ← ps.get name with
  | .int n => return n
  | _ => .error (.unfit .invalidType)

/-- A double. -/
def double (ps : Parts) (name : String) : Except Fault Float := do
  match ← ps.get name with
  | .double x => return x
  | _ => .error (.unfit .invalidType)

/-- A character. -/
def char (ps : Parts) (name : String) : Except Fault Char := do
  match ← ps.get name with
  | .char c => return c
  | _ => .error (.unfit .invalidType)

/-- A string. -/
def string (ps : Parts) (name : String) : Except Fault String := do
  match ← ps.get name with
  | .string s => return s
  | _ => .error (.unfit .invalidType)

/-- A binary operator. -/
def op (ps : Parts) (name : String) : Except Fault BinaryOp := do
  match ← ps.get name with
  | .op o => return o
  | _ => .error (.unfit .invalidType)

/-- An expression. -/
def expr (ps : Parts) (name : String) : Except Fault Expr := do
  match ← ps.get name with
  | .expr e => return e
  | _ => .error (.unfit .invalidType)

/-- A list of expressions, empty if the field is missing. -/
def exprs (ps : Parts) (name : String) : List Expr :=
  match ps.lookup name with
  | some (.exprs es) => es
  | _ => []

end Parts

/-- The expression of a form with the given fields. The first field that is missing is
reported. -/
def Form.build (form : Form) (ps : Parts) : Except Fault Expr :=
  match form with
  | null => return .null
  | bool => return .bool (← ps.bool "value")
  | int => return .int (← ps.int "value")
  | double => return .double (← ps.double "value")
  | char => return .char (← ps.char "value")
  | string => return .string (← ps.string "value")
  | emptyArray => return .emptyArray
  | var => return .var (← ps.string "value")
  | binary => return .binary (← ps.op "op") (← ps.expr "left") (← ps.expr "right")
  | not => return .not (← ps.expr "expr")
  | property => return .property (← ps.expr "object") (← ps.string "property")
  | index => return .index (← ps.expr "array") (← ps.expr "index")
  | call => return .call (← ps.string "name") (ps.exprs "args")

/-! ### Expressions from values -/

mutual
/-- The expression that a value describes. -/
def exprOfValue : Value → Except Fault Expr
  | .object members => do
    let form ← formOfMembers none members
    form.build (← partsOfMembers form.slots [] members)
  | .list [] => .error (.unfit (.missingField formField))
  | .list (value :: items) => do
    let form ← formOfValue value
    form.build (← partsOfItems form.slots [] items)
  | _ => .error (.unfit .invalidType)

/-- The expressions that a value lists. -/
def exprsOfValue : Value → Except Fault (List Expr)
  | .list items => exprsOfItems items
  | _ => .error (.unfit .invalidType)

/-- The expressions that the items describe. -/
def exprsOfItems : List Value → Except Fault (List Expr)
  | [] => .ok []
  | value :: items => do
    let e ← exprOfValue value
    let es ← exprsOfItems items
    return e :: es

/-- The fields among the members of an object, in their order there. -/
def partsOfMembers (slots : List Slot) (ps : Parts) : List (String × Value) → Except Fault Parts
  | [] => .ok ps
  | (key, value) :: members =>
    match slots.find? (·.name == key) with
    | none => partsOfMembers slots ps members
    | some slot =>
      if (ps.lookup key).isSome then .error (.unfit (.duplicateField key))
      else do
        let part ← match slot.kind with
          | .expr => (exprOfValue value).map Part.expr
          | .exprs => (exprsOfValue value).map Part.exprs
          | kind => simplePart kind value
        partsOfMembers slots ((key, part) :: ps) members

/-- The fields among the items of a list. There must be as many items as fields, but for the last
ones that are not required. -/
def partsOfItems (slots : List Slot) (ps : Parts) : List Value → Except Fault Parts
  | [] => if slots.any Slot.required then .error (.unfit .invalidLength) else .ok ps
  | value :: items =>
    match slots with
    | [] => .error (.unfit .invalidLength)
    | slot :: slots => do
      let part ← match slot.kind with
        | .expr => (exprOfValue value).map Part.expr
        | .exprs => (exprsOfValue value).map Part.exprs
        | kind => simplePart kind value
      partsOfItems slots ((slot.name, part) :: ps) items
end

/-! ### Expressions from text -/

/-- Reads the name of a form. -/
def readForm : Decoder Form := fun budget cs => do
  let (name, rest) ← Decoder.string budget cs
  return (← Decoder.lookupName formNames name, rest)

/-- Reads one member of an expression's object. -/
def exprMember (budget : Nat) (acc : Option Form × List (String × Value)) (key : String)
    (cs : List Char) : Except Fault ((Option Form × List (String × Value)) × List Char) := do
  let (form, members) := acc
  if key ≠ formField then
    let (value, rest) ← Decoder.value budget (← readColon cs)
    return ((form, (key, value) :: members), rest)
  else if form.isSome then .error (.unfit (.duplicateField formField))
  else
    let (form, rest) ← readForm budget (← readColon cs)
    return ((some form, members), rest)

/-- An expression. -/
def exprDecoder : Decoder Expr := fun budget cs => do
  match ← startValue cs with
  | '[' :: rest =>
    opening budget fun budget => do
      match ← nextItem? true rest with
      | none => .error (.unfit (.missingField formField))
      | some cs =>
        let (form, rest) ← readForm budget cs
        let (items, rest) ← readItems (Decoder.value budget) false rest
        return (← form.build (← partsOfItems form.slots [] items), rest)
  | '\x7b' :: rest =>
    opening budget fun budget => do
      let ((form, members), rest) ←
        foldMembers (exprMember budget) (rest.length + 1) true (none, []) rest
      match form with
      | none => .error (.unfit (.missingField formField))
      | some form =>
        return (← form.build (← partsOfMembers form.slots [] members.reverse), rest)
  | cs => do
    let _ ← readScalar cs
    .error (.unfit .invalidType)

end BoxedLet.Document
