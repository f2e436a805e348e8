import BoxedLet.Lowering.Resolve
import BoxedLet.Strategy

/-!
# BoxedLet.Lowering.Whole

**Plain variable targets**, `x OP e`. The strategy table says how; here each strategy becomes
instructions.

Rebuilding a box clears it first. A computed source that still reads the destination is therefore
evaluated into a native temporary before the box is cleared.
-/

namespace BoxedLet.Lower

variable {ε : Type} [Exits ε]

/-- A native assignment to the destination. -/
def storeNative (span : Span) (dest : Symbol) (op : Operator) (shape : Shape) (value : Code) :
    LowerOr ε Unit :=
  match op.native? with
  | some native => emit (.store (.var dest.name) native value)
  | none => fail span (.unsupportedOperator op dest.type (.type shape.type))

/-- Writes a native string; it has to start out as null. -/
def writeString (dest : Symbol) (op : Operator) (source : LowerOr ε StringSource) :
    LowerOr ε Unit := do
  modifyTable (·.requireNull dest.name)
  require .string
  let mode := if op = .concatAssign then StringMode.append else StringMode.assign
  emit (.writeString (.var dest.name) mode (← source))

/-- Clears the destination's box and builds it anew. -/
def rebuild (dest : Symbol) (content : BoxContent) : LowerOr ε Unit := do
  initBox dest.name
  emit (.build (.var dest.name) dest.isLocalOnly content)

/-- Whether evaluating the source after the destination has been cleared would go wrong. A literal
truth value reads nothing. -/
def readsDestination (o : Options) (dest : Symbol) (source : Source) (expr? : Option Expr) : Bool :=
  (source.literalBool? o).isNone && expr?.any (·.mentions dest.name)

/-- Boxes a computed native scalar. -/
def boxScalar (dest : Symbol) (kind : BoxKind) (shape : Shape) (source : Source)
    (expr? : Option Expr) : LowerOr ε Unit := do
  if readsDestination (← get).options dest source expr? then
    let temp ← fillTemporary shape.type (.store · .set (source.scalarCode kind))
    rebuild dest (.scalar kind (.place temp))
  else
    rebuild dest ((boxContent? shape source).getD (.scalar kind source.code))

/-- Boxes any other source that is no box yet. -/
def boxSource (span : Span) (dest : Symbol) (shape : Shape) (source : Source) : LowerOr ε Unit :=
  match boxContent? shape source with
  | some content => rebuild dest content
  | none => fail span (.unsupportedSource shape.type .boxedVariable)

/-- Copies a box; copying a variable to itself is nothing. -/
def copyBox (dest : Symbol) (source : Source) : LowerOr ε Unit := do
  if source.name? = some dest.name then pure ()
  else
    modifyTable fun t => (t.requireNull dest.name).growStack
    emit (.copy (.var dest.name) source.code)

/-- Adds to or subtracts from a box in place. -/
def updateInPlace (dest : Symbol) (op : Operator) (source : Source) : LowerOr ε Unit := do
  require .operators
  modifyTable (·.growStack)
  emit (.inPlace (.var dest.name) (if op = .addAssign then .add else .sub) source.code)

/-- Carries out a strategy. -/
def carryOut (span : Span) (strategy : Strategy) (dest : Symbol) (op : Operator) (shape : Shape)
    (source : Source) (expr? : Option Expr) : LowerOr ε Unit :=
  let native := storeNative span dest op shape
  match strategy with
  | .nativeZero => native (.zero (dest.type = .double))
  | .nativeDirect => native source.code
  | .nativeCast kind => native (.cast kind (shape = .value shape.type) source.code)
  | .nativeBoolean => native source.truth
  | .boolTernary => native (.nonZero source.code)
  | .numberCoerce => do
    require .operators
    native (.coerce .number source.code)
  | .boolCoerce => do
    require .operators
    native (.coerce .boolean source.code)
  | .stringLiteral =>
    writeString dest op (pure (.literal (if source.type = .null then .blank else source.code)))
  | .stringBuffer => writeString dest op (pure (.buffer source.code))
  | .stringChar => writeString dest op (pure (.char source.code))
  | .stringLong => writeString dest op (pure (.long source.code))
  | .stringCoerceLong =>
    writeString dest op do
      require .operators
      pure (.long (.coerce .long source.code))
  | .boxValue kind => boxScalar dest kind shape source expr?
  | .boxNull | .boxBinding _ | .boxString | .boxStringBuffer | .boxEmptyArray =>
    boxSource span dest shape source
  | .boxCopy => copyBox dest source
  | .boxArithmetic => updateInPlace dest op source

/-- `x OP e`, with `source` the lowered `e`. Where `e` itself is known, boxing a computed value
checks it for reads of the destination. -/
def assignWhole (span : Span) (dest : Symbol) (op : Operator) (source : Source)
    (expr? : Option Expr) : LowerOr ε Unit := do
  if dest.readOnly then fail span (.readOnlyWrite dest.name)
  else match dest.type.family? with
    | none => fail span (.unknownDestination dest.name dest.type)
    | some family =>
      let shape ← source.shape span
      match Strategy.select? family shape op with
      | none => fail span (.unsupportedOperator op dest.type (.type shape.type))
      | some strategy => carryOut span strategy dest op shape source expr?

end BoxedLet.Lower
