import BoxedLet.Lowering.Resolve
import BoxedLet.Proofs.Growth

/-!
# BoxedLet.Proofs.Meaning

**What an expression means, and what emitted code does.**

A `Runtime` interprets the native operators and the runtime's primitives as functions without side
effects; nothing at all is assumed about them. Over a runtime, `Expr.denote` gives the value of a
source expression, `Code.eval` the value of target code and `Instr.exec` the effect of an
instruction on the store, which holds a value for every symbol.

The meaning of an expression knows nothing of lowering. It works on values, and asks for boxes
where a node is not native. Whether it is follows from the types of its operands (`Expr.type`),
which are read off the declared types alone.
-/

namespace BoxedLet

/-- An interpretation of the native operators and of the primitives of the runtime. -/
structure Runtime where
  /-- Native scalars. -/
  Scalar : Type
  /-- The contents of native strings. -/
  Text : Type
  Box : Type
  bit : Bool → Scalar
  long : Int64 → Scalar
  double : Float → Scalar
  char : Char → Scalar
  arith : Arith → Scalar → Scalar → Scalar
  compare : Comparison → Scalar → Scalar → Scalar
  connect : Connective → Scalar → Scalar → Scalar
  negate : Scalar → Scalar
  boxNull : Box
  boxEmptyArray : Box
  boxLiteral : String → Box
  boxText : Text → Box
  boxScalar : BoxKind → Scalar → Box
  boxedOp : BoxedOp → Box → Box → Box
  /-- The tests of two boxes. There is none for inequality. -/
  boxedTest : Comparison → Box → Box → Scalar
  isTrue : Box → Scalar
  call : String → List Box → Box
  readProperty : Box → String → Box
  fetch : Box → Box → Box
  fetchLong : Box → Scalar → Box
  /-- A string literal with its length, as the key of an element. -/
  sized : String → Text
  fetchString : Box → Text → Box

namespace Runtime

variable (R : Runtime)

/-- The values of expressions and variables. -/
inductive Value
  | null
  | emptyArray
  /-- The value of a string literal. -/
  | literal (s : String)
  /-- The value of a native string variable. -/
  | text (t : R.Text)
  | scalar (x : R.Scalar)
  | box (b : R.Box)

/-- A value for every symbol. -/
abbrev Store := String → R.Value

variable {R}

namespace Value

def scalar? : R.Value → Option R.Scalar
  | scalar x => some x
  | _ => none

def box? : R.Value → Option R.Box
  | box b => some b
  | _ => none

def text? : R.Value → Option R.Text
  | text t => some t
  | _ => none

def literal? : R.Value → Option String
  | literal s => some s
  | _ => none

end Value

/-- The store with the value of one symbol replaced. -/
def update (σ : R.Store) (x : String) (v : R.Value) : R.Store :=
  fun n => if n = x then v else σ n

@[simp] theorem update_self (σ : R.Store) (x : String) (v : R.Value) : update σ x v x = v :=
  if_pos rfl

theorem update_of_ne (σ : R.Store) {x n : String} (v : R.Value) (h : n ≠ x) :
    update σ x v n = σ n :=
  if_neg h

variable (R)

/-- The representation that a variable of the given type has. -/
def Represents : StaticType → R.Value → Prop
  | .string, v => ∃ t, v = .text t
  | .dynamic, v => ∃ b, v = .box b
  | .null, v => v = .null
  | .emptyArray, v => v = .emptyArray
  | _, v => ∃ x, v = .scalar x

/-- The store gives every symbol of the table a value of its declared representation. -/
def Fits (table : SymbolTable) (σ : R.Store) : Prop :=
  ∀ n t, table.typeOf? n = some t → R.Represents t (σ n)

/-- Inequality of boxes is the negation of equality. -/
def boxedCompare : Comparison → R.Box → R.Box → R.Scalar
  | .notEquals, a, b => R.negate (R.boxedTest .equals a b)
  | op, a, b => R.boxedTest op a b

/-- The native form of a binary operator; concatenation has none. -/
def native? : BinaryOp → R.Scalar → R.Scalar → Option R.Scalar
  | .arith op, x, y => some (R.arith op x y)
  | .compare op, x, y => some (R.compare op x y)
  | .connect op, x, y => some (R.connect op x y)
  | .concat, _, _ => none

end Runtime

/-! ### The meaning of expressions -/

/-- The type of a binary operator's result, from the types of its operands. -/
def BinaryOp.type (op : BinaryOp) (left right : StaticType) : StaticType :=
  match op with
  | .arith _ =>
    if left.isNativeScalar && right.isNativeScalar then
      if left = .double ∨ right = .double then .double else .int
    else .dynamic
  | .concat => .dynamic
  | .compare _ | .connect _ => .bool

/-- The type of an expression, from the declared types of its variables. -/
def Expr.type (Γ : String → Option StaticType) : Expr → StaticType
  | .null => .null
  | .bool _ => .bool
  | .int _ => .int
  | .double _ => .double
  | .char _ => .char
  | .string _ => .string
  | .emptyArray => .emptyArray
  | .var x => (Γ x).getD .dynamic
  | .binary op l r => op.type (l.type Γ) (r.type Γ)
  | .not _ => .bool
  | .property _ _ | .index _ _ | .call _ _ => .dynamic

namespace Runtime

variable (R : Runtime)

/-- The box of a value; the constructor for a native scalar depends on its type. -/
def toBox (t : StaticType) : R.Value → Option R.Box
  | .null => some R.boxNull
  | .emptyArray => some R.boxEmptyArray
  | .literal s => some (R.boxLiteral s)
  | .text s => some (R.boxText s)
  | .scalar x => (BoxKind.ofType? t).map fun kind => R.boxScalar kind x
  | .box b => some b

/-- The truth value of a value. -/
def truth : R.Value → Option R.Scalar
  | .null => some (R.bit false)
  | .scalar x => some x
  | .box b => some (R.isTrue b)
  | .emptyArray | .literal _ | .text _ => none

/-- The element of an array under a key. -/
def element (array : R.Box) : R.Value → Option R.Box
  | .scalar x => some (R.fetchLong array x)
  | .literal s => some (R.fetchString array (R.sized s))
  | .text t => some (R.fetchString array t)
  | .box b => some (R.fetch array b)
  | .null | .emptyArray => none

/-- A binary operator on two values of the given types: native on two native scalars, a connective
of their truth values, and on their boxes otherwise. -/
def binary (op : BinaryOp) (t u : StaticType) (a b : R.Value) : Option R.Value :=
  match op with
  | .connect c => do
    let x ← R.truth a
    let y ← R.truth b
    some (.scalar (R.connect c x y))
  | .concat => do
    let x ← R.toBox t a
    let y ← R.toBox u b
    some (.box (R.boxedOp .concat x y))
  | .arith o =>
    if t.isNativeScalar && u.isNativeScalar then do
      let x ← a.scalar?
      let y ← b.scalar?
      some (.scalar (R.arith o x y))
    else do
      let x ← R.toBox t a
      let y ← R.toBox u b
      some (.box (R.boxedOp (.arith o) x y))
  | .compare c =>
    if t.isNativeScalar && u.isNativeScalar then do
      let x ← a.scalar?
      let y ← b.scalar?
      some (.scalar (R.compare c x y))
    else do
      let x ← R.toBox t a
      let y ← R.toBox u b
      some (.scalar (R.boxedCompare c x y))

end Runtime

mutual
/-- The value of an expression in a store, given the declared types. -/
def Expr.denote (R : Runtime) (Γ : String → Option StaticType) (σ : R.Store) :
    Expr → Option R.Value
  | .null => some .null
  | .bool b => some (.scalar (R.bit b))
  | .int n => some (.scalar (R.long n))
  | .double x => some (.scalar (R.double x))
  | .char c => some (.scalar (R.char c))
  | .string s => some (.literal s)
  | .emptyArray => some .emptyArray
  | .var x => some (σ x)
  | .binary op l r => do
    let a ← l.denote R Γ σ
    let b ← r.denote R Γ σ
    R.binary op (l.type Γ) (r.type Γ) a b
  | .not e => do
    let a ← e.denote R Γ σ
    let x ← R.truth a
    some (.scalar (R.negate x))
  | .property e name => do
    let a ← e.denote R Γ σ
    let object ← a.box?
    some (.box (R.readProperty object name))
  | .index a i => do
    let v ← a.denote R Γ σ
    let array ← v.box?
    let key ← i.denote R Γ σ
    let element ← R.element array key
    some (.box element)
  | .call name args => do
    let boxes ← Expr.denoteArgs R Γ σ args
    some (.box (R.call name boxes))

/-- The boxes of the arguments of a call. -/
def Expr.denoteArgs (R : Runtime) (Γ : String → Option StaticType) (σ : R.Store) :
    List Expr → Option (List R.Box)
  | [] => some []
  | e :: es => do
    let a ← e.denote R Γ σ
    let box ← R.toBox (e.type Γ) a
    let boxes ← Expr.denoteArgs R Γ σ es
    some (box :: boxes)
end

/-! ### The effect of emitted code -/

/-- The symbol that a location belongs to. -/
def Place.symbol : Place → String
  | .var name | .temp name => name

section Execution

variable (R : Runtime) (σ : R.Store)

/-- The value of code. Casts and coercions have none here: no expression is lowered to one. -/
def Code.eval : Code → Option R.Value
  | .place p => some (σ p.symbol)
  | .null => some .null
  | .truth b | .bit b => some (.scalar (R.bit b))
  | .long n => some (.scalar (R.long n))
  | .double x => some (.scalar (R.double x))
  | .char c => some (.scalar (R.char c))
  | .stringBody s => some (.literal s)
  | .blank => some .emptyArray
  | .binary op l r => do
    let x ← (← l.eval).scalar?
    let y ← (← r.eval).scalar?
    return .scalar (← R.native? op x y)
  | .not c => do
    let x ← (← c.eval).scalar?
    return .scalar (R.negate x)
  | .compare op l r => do
    let a ← (← l.eval).box?
    let b ← (← r.eval).box?
    return .scalar (R.boxedCompare op a b)
  | .isTrue c => do
    let a ← (← c.eval).box?
    return .scalar (R.isTrue a)
  | .verbatim _ | .zero _ | .cast _ _ _ | .nonZero _ | .coerce _ _ => none

/-- The box that is built from the content. -/
def BoxContent.eval : BoxContent → Option R.Box
  | .null => some R.boxNull
  | .emptyArray => some R.boxEmptyArray
  | .string body => do return R.boxLiteral (← (← body.eval R σ).literal?)
  | .buffer source => do return R.boxText (← (← source.eval R σ).text?)
  | .scalar kind value => do return R.boxScalar kind (← (← value.eval R σ).scalar?)

/-- The element of an array that is read under the key. -/
def Key.fetch (array : R.Box) : Key → Option R.Box
  | .long value => do return R.fetchLong array (← (← value.eval R σ).scalar?)
  | .literal body => do return R.fetchString array (R.sized (← (← body.eval R σ).literal?))
  | .buffer source => do return R.fetchString array (← (← source.eval R σ).text?)
  | .boxed value => do return R.fetch array (← (← value.eval R σ).box?)

/-- The boxes that are passed as arguments. -/
def Code.evalBoxes : List Code → Option (List R.Box)
  | [] => some []
  | c :: cs => do
    let box ← (← c.eval R σ).box?
    let boxes ← Code.evalBoxes cs
    some (box :: boxes)

/-- The box that an instruction computes. Those that expressions are lowered to all compute one. -/
def Instr.result : Instr → Option R.Box
  | .build _ _ content => content.eval R σ
  | .boxed _ op l r => do
    let a ← (← l.eval R σ).box?
    let b ← (← r.eval R σ).box?
    some (R.boxedOp op a b)
  | .call _ name args => do return R.call name (← Code.evalBoxes R σ args)
  | .readProperty _ object property => do
    return R.readProperty (← (← object.eval R σ).box?) property
  | .fetch _ array key => do key.fetch R σ (← (← array.eval R σ).box?)
  | _ => none

/-- The store after an instruction. -/
def Instr.exec (i : Instr) : Option R.Store := do
  let b ← i.result R σ
  return Runtime.update σ i.written.symbol (.box b)

end Execution

/-- The store after instructions that are executed in order. -/
def execAll (R : Runtime) : List Instr → R.Store → Option R.Store
  | [], σ => some σ
  | i :: is, σ => do execAll R is (← i.exec R σ)

theorem execAll_append {R : Runtime} {is js : List Instr} {σ σ' : R.Store}
    (h : execAll R is σ = some σ') : execAll R (is ++ js) σ = execAll R js σ' := by
  induction is generalizing σ with
  | nil =>
      obtain rfl : σ = σ' := by simpa [execAll] using h
      rfl
  | cons i is ih =>
      obtain ⟨σ₁, hi, hrest⟩ : ∃ σ₁, i.exec R σ = some σ₁ ∧ execAll R is σ₁ = some σ' := by
        simpa [execAll, Option.bind_eq_some_iff] using h
      simp only [List.cons_append, execAll, hi]
      exact ih hrest

end BoxedLet
