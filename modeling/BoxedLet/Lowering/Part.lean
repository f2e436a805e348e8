import BoxedLet.Lowering.Resolve

/-!
# BoxedLet.Lowering.Part

**Targets inside a box**: elements and properties. They take plain assignment only. Arrays are
updated in heap boxes; a property of an object is written with a value that is made a box first,
and an array inside a property only with sources that are boxes already.
-/

namespace BoxedLet.Lower

variable {ε : Type} [Exits ε]

/-- Only plain assignment writes a part of a box. -/
def checkAssign (span : Span) (dest : Symbol) (op : Operator) (source : Source) :
    LowerOr ε Unit :=
  if op = .assign then pure ()
  else fail span (.unsupportedOperator op dest.type (.type source.type))

/-- The destination has to be a heap box. -/
def checkHeapBox (span : Span) (dest : Symbol) : LowerOr ε Unit :=
  if dest.type = .dynamic ∧ dest.storage = .heapBoxed then pure ()
  else fail span (.localOnlyWrite dest.name)

/-- The destination has to be a box, wherever it lives. -/
def checkObject (span : Span) (dest : Symbol) : LowerOr ε Unit :=
  if dest.type = .dynamic then pure ()
  else fail span (.invalidExpr (.notObject dest.name dest.type))

/-- A property of the implicit receiver has to be declared by its class. -/
def checkProperty (span : Span) (dest : Symbol) (property : String) : LowerOr ε Unit := do
  let ctx ← get
  if ctx.options.isReceiver dest.name then
    match ctx.classDef with
    | none => fail span (.undeclaredProperty property none)
    | some c =>
      if c.hasProperty property then pure ()
      else fail span (.undeclaredProperty property (some c.name))
  else pure ()

/-- `v[] = x` -/
def assignAppend (span : Span) (dest : Symbol) (op : Operator) (source : Source) :
    LowerOr ε Unit := do
  checkAssign span dest op source
  checkHeapBox span dest
  let value ← materialize span source
  require .array
  emit (.append (.var dest.name) value)

/-- The key that an index expression makes for an update. -/
def updateKey (span : Span) (index : Expr) : LowerOr ε Key := do
  let i ← resolve span index
  let shape ← i.shape span
  match Key.of? shape i with
  | some key => pure key
  | none => fail span (.invalidIndex shape.type .updateArray)

/-- `v[i] = x` -/
def assignElement (span : Span) (dest : Symbol) (op : Operator) (index : Expr) (source : Source) :
    LowerOr ε Unit := do
  checkAssign span dest op source
  checkHeapBox span dest
  let key ← updateKey span index
  let value ← materialize span source
  require .array
  emit (.update (.var dest.name) key value)

/-- `o.p = x` -/
def assignProperty (span : Span) (dest : Symbol) (op : Operator) (property : String)
    (source : Source) : LowerOr ε Unit := do
  checkAssign span dest op source
  checkHeapBox span dest
  checkProperty span dest property
  let value ← materialize span source
  require .object
  emit (.setProperty (.var dest.name) property value)

/-- `o.p[] = x` -/
def appendProperty (span : Span) (dest : Symbol) (op : Operator) (property : String)
    (source : Source) : LowerOr ε Unit := do
  checkAssign span dest op source
  checkObject span dest
  let value ← boxedSource span source .propertyAppend
  require .object
  emit (.appendProperty (.var dest.name) property value)

/-- The box that an index expression of a property's array has to be. -/
def propertyKey (span : Span) (index : Expr) : LowerOr ε Code := do
  let i ← resolve span index
  let shape ← i.shape span
  if shape = .binding .dynamic then pure i.code
  else fail span (.invalidIndex shape.type .updatePropertyArray)

/-- `o.p[i] = x` -/
def assignPropertyElement (span : Span) (dest : Symbol) (op : Operator) (property : String)
    (index : Expr) (source : Source) : LowerOr ε Unit := do
  checkAssign span dest op source
  checkObject span dest
  let key ← propertyKey span index
  let value ← boxedSource span source .propertyArray
  require .object
  emit (.updateProperty (.var dest.name) property key value)

end BoxedLet.Lower
