import BoxedLet.Source

/-!
# BoxedLet.Boxing

How a source becomes a **box**. `boxContent?` says what the box of a source is built from; only a
source that is a box already has no such content. `Lower.materialize` makes any source available as
a box: a box as it is, and anything else in a fresh boxed temporary.
-/

namespace BoxedLet

/-- The kind of box that holds a native scalar of the type. -/
def BoxKind.ofType? (t : StaticType) : Option BoxKind :=
  if t.isIntegral then some .long
  else match t with
    | .double => some .double
    | .bool => some .bool
    | _ => none

/-- The code of a source as the content of a box of that kind. -/
def Source.scalarCode (s : Source) (kind : BoxKind) : Code :=
  if kind = .bool then s.truth else s.code

/-- What the box of a source is built from. -/
def boxContent? (shape : Shape) (s : Source) : Option BoxContent :=
  match shape with
  | .value .null => some .null
  | .value .string => some (.string s.code)
  | .value .emptyArray => some .emptyArray
  | .binding .string => some (.buffer s.code)
  | .value t | .binding t => (BoxKind.ofType? t).map fun kind => .scalar kind (s.scalarCode kind)

/-- The key that an index makes, if a value of its type can be one: an integer, a string or a
box. -/
def Key.of? (shape : Shape) (index : Source) : Option Key :=
  match shape with
  | .value .string => some (.literal index.code)
  | .binding .string => some (.buffer index.code)
  | .binding .dynamic => some (.boxed index.code)
  | .value t | .binding t => if t.isInteger then some (.long index.code) else none

namespace Lower

variable {ε : Type} [Exits ε]

/-- Makes a source available as a box. -/
def materialize (span : Span) (s : Source) : LowerOr ε Code := do
  let shape ← s.shape span
  if shape = .binding .dynamic then pure s.code
  else match boxContent? shape s with
    | none => fail span (.unsupportedSource shape.type .boxedValue)
    | some content => return .place (← fillTemporary .dynamic (.build · false content))

/-- The code of a source that has to be a box already. -/
def boxedSource (span : Span) (s : Source) (use : ValueUse) : LowerOr ε Code := do
  let shape ← s.shape span
  if shape = .binding .dynamic then pure s.code
  else fail span (.unsupportedSource shape.type use)

end Lower

end BoxedLet
