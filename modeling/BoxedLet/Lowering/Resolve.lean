import BoxedLet.Boxing

/-!
# BoxedLet.Lowering.Resolve

**Lowering expressions.** `Lower.resolve` turns an expression into a `Source`.

Native operators over native scalars stay inline and emit nothing. Anything that touches a box is
computed by the runtime: its operands are materialized as boxes, left before right, and the result
goes into a fresh boxed temporary. Comparisons of boxes are the exception, being native truth
values.
-/

namespace BoxedLet.Lower

variable {ε : Type} [Exits ε]

/-! ### Operands -/

/-- The type and code of a source that is a native scalar. -/
def nativeOperand? (span : Span) (s : Source) : LowerOr ε (Option (StaticType × Code)) := do
  let t ← s.subtype span
  if t.isNativeScalar then
    pure (some (t, if s.type = .bool then s.truth else s.code))
  else pure none

/-- The types and codes of two sources that are both native scalars. -/
def nativeOperands? (span : Span) (left right : Source) :
    LowerOr ε (Option ((StaticType × Code) × (StaticType × Code))) := do
  match ← nativeOperand? span left, ← nativeOperand? span right with
  | some l, some r => pure (some (l, r))
  | _, _ => pure none

/-- The code of a source as a truth value. Null is false, a box is tested by the runtime, and a
native scalar stands for itself. -/
def condition (span : Span) (s : Source) : LowerOr ε Code := do
  let t ← s.subtype span
  if s.type = .bool then pure s.truth
  else if s.type = .null then pure (.bit false)
  else if t = .dynamic then
    require .operators
    pure (.isTrue s.code)
  else if t.isNativeScalar then pure s.code
  else fail span (.invalidExpr (.notCondition s.type))

/-! ### Operators -/

/-- The type of arithmetic on two native scalars. -/
def arithType (left right : StaticType) : StaticType :=
  if left = .double ∨ right = .double then .double else .int

/-- The header of a boxed operation. -/
def boxedOpHeader : BoxedOp → Header
  | .arith _ => .operators
  | .concat => .concat

/-- A new box computed from two sources. -/
def boxedOp (span : Span) (op : BoxedOp) (left right : Source) : LowerOr ε Source := do
  let l ← materialize span left
  let r ← materialize span right
  require (boxedOpHeader op)
  return .ofBox (← fillTemporary .dynamic (.boxed · op l r))

/-- The comparison of two boxes. -/
def boxedCompare (span : Span) (op : Comparison) (left right : Source) : LowerOr ε Source := do
  let l ← materialize span left
  let r ← materialize span right
  require .operators
  pure (.ofCode .bool (.compare op l r))

/-- A binary operator on two sources, computed from their boxes. Connectives have no boxed form. -/
def boxedBinary (span : Span) (op : BinaryOp) (left right : Source) : LowerOr ε Source := do
  match op with
  | .arith a => boxedOp span (.arith a) left right
  | .concat => boxedOp span .concat left right
  | .compare c => boxedCompare span c left right
  | .connect _ =>
    let _ ← materialize span left
    let _ ← materialize span right
    fail span (.invalidExpr (.noBoxedForm op))

/-- A binary operator on two sources. -/
def binary (span : Span) (op : BinaryOp) (left right : Source) : LowerOr ε Source := do
  match op with
  | .connect _ =>
    let l ← condition span left
    let r ← condition span right
    pure (.ofCode .bool (.binary op l r))
  | .concat => boxedBinary span op left right
  | .arith _ =>
    match ← nativeOperands? span left right with
    | some ((lt, l), (rt, r)) => pure (.ofCode (arithType lt rt) (.binary op l r))
    | none => boxedBinary span op left right
  | .compare _ =>
    match ← nativeOperands? span left right with
    | some ((_, l), (_, r)) => pure (.ofCode .bool (.binary op l r))
    | none => boxedBinary span op left right

/-- The negation of a source. -/
def negate (span : Span) (s : Source) : LowerOr ε Source := do
  let c ← condition span s
  pure (.ofCode .bool (.not c))

/-! ### Calls and accesses -/

/-- A call of a function with boxes as arguments. -/
def callFunction (name : String) (args : List Code) : LowerOr ε Source := do
  require .fcall
  return .ofBox (← fillTemporary .dynamic (.call · name args))

/-- The property of an object, which has to be a box. -/
def readProperty (span : Span) (object : Source) (property : String) : LowerOr ε Source := do
  let t ← object.subtype span
  if t = .dynamic then
    require .object
    return .ofBox (← fillTemporary .dynamic (.readProperty · object.code property))
  else fail span (.invalidExpr (.notReadable property t))

/-- Checks that a source can be indexed: it has to be a box. -/
def checkIndexable (span : Span) (array : Source) : LowerOr ε Unit := do
  let t ← array.subtype span
  if t = .dynamic then pure () else fail span (.invalidExpr (.notIndexable t))

/-- The element of an array under an index. -/
def fetchElement (span : Span) (array index : Source) : LowerOr ε Source := do
  match Key.of? (← index.shape span) index with
  | none => fail span (.invalidIndex index.type .readArray)
  | some key =>
    require .array
    return .ofBox (← fillTemporary .dynamic (.fetch · array.code key))

/-! ### Expressions -/

/-- A double literal; infinities and NaNs have none. -/
def doubleLiteral (span : Span) (x : Float) : LowerOr ε Source :=
  match Decimal.decode x with
  | .ok _ => pure (.ofCode .double (.double x))
  | .error other => fail span (.invalidExpr (.nonFinite other))

/-- A bare variable, which has to be declared. -/
def bareVariable (span : Span) (name : String) : LowerOr ε Source := do
  let _ ← readSymbol span name
  pure (.ofVar name (.place (.var name)))

mutual
/-- Lowers an expression. -/
def resolve (span : Span) : Expr → LowerOr ε Source
  | .null => pure { type := .null, code := .null, truth := .bit false }
  | .bool b => pure { type := .bool, code := .truth b, truth := .bit b }
  | .int n => pure (.ofCode .int (.long n))
  | .double x => doubleLiteral span x
  | .char c => pure (.ofCode .char (.char c))
  | .string s => pure (.ofCode .string (.stringBody s))
  | .emptyArray => pure (.ofCode .emptyArray .blank)
  | .var name => bareVariable span name
  | .binary op l r => do
    let left ← resolve span l
    let right ← resolve span r
    binary span op left right
  | .not e => do negate span (← resolve span e)
  | .property e name => do readProperty span (← resolve span e) name
  | .index a i => do
    let array ← resolve span a
    checkIndexable span array
    let index ← resolve span i
    fetchElement span array index
  | .call name args => do callFunction name (← resolveArgs span args)

/-- Lowers the arguments of a call to boxes, one after the other. -/
def resolveArgs (span : Span) : List Expr → LowerOr ε (List Code)
  | [] => pure []
  | e :: es => do
    let source ← resolve span e
    let arg ← materialize span source
    let args ← resolveArgs span es
    pure (arg :: args)
end

end BoxedLet.Lower
