import BoxedLet.Context

/-!
# BoxedLet.Source

**Resolved sources**: what an expression has become once it has been lowered, and the two *shapes*
in which the strategies see it.

A bare variable always has the static type `dynamic` and remembers which variable it is; its own
type is looked up when it is needed (`Source.subtype`). So a source of static type `dynamic` is a
*binding*, whose type is the declared type of the variable it names, or `dynamic` for a box computed
by the runtime. Any other source is a *value* of its static type.
-/

namespace BoxedLet

/-- A lowered expression. -/
structure Source where
  type : StaticType
  code : Code
  /-- The code of the source as a truth value. -/
  truth : Code
  /-- The variable that the source is, if it is a bare variable. -/
  name? : Option String := none
  deriving Repr, Inhabited

namespace Source

variable {ε : Type} [Exits ε]

/-- A value whose truth value needs no code of its own. -/
def ofCode (type : StaticType) (code : Code) : Source :=
  { type, code, truth := code }

/-- The bare variable `name`. -/
def ofVar (name : String) (code : Code) : Source :=
  { type := .dynamic, code, truth := code, name? := some name }

/-- A box that the runtime has computed. -/
def ofBox (p : Place) : Source :=
  ofCode .dynamic (.place p)

/-- The truth value that the text of the source spells out, if it does. -/
def literalBool? (o : Options) (s : Source) : Option Bool :=
  if s.type = .bool ∧ s.name? = none then
    let text := s.code.render o
    if text = "true" then some true else if text = "false" then some false else none
  else none

/-- The type a source has at run time: for a bare variable its declared type, else the static
type. -/
def subtype (s : Source) (span : Span) : LowerOr ε StaticType :=
  match s.type, s.name? with
  | .dynamic, some name => return (← Lower.readSymbol span name).type
  | t, _ => pure t

end Source

/-- What a source looks like to the strategies. -/
inductive Shape
  /-- A literal or computed value of a type other than `dynamic`. -/
  | value (t : StaticType)
  /-- A variable of that declared type, or a box if it is `dynamic`. -/
  | binding (t : StaticType)
  deriving Repr, DecidableEq, Inhabited

/-- The type a source of that shape has at run time. -/
def Shape.type : Shape → StaticType
  | value t | binding t => t

/-- The shape of a source. No variable of a pseudo type can be a source. -/
def Source.shape {ε : Type} [Exits ε] (s : Source) (span : Span) : LowerOr ε Shape := do
  if s.type = .dynamic then
    let t ← s.subtype span
    if t.isPseudo then Lower.fail span (.unknownSource t)
    else pure (.binding t)
  else pure (.value s.type)

end BoxedLet
