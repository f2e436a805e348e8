import BoxedLet.Proofs.LineText
import BoxedLet.Proofs.Simulation

/-!
# BoxedLet.Proofs.Primitives

**The meaning of emitted lines, by the names that are printed in them.** A `Runtime` knows operators
and primitives by the constructors that stand for them here. `Primitives` knows nothing but text: an
operator is its token, and a function or macro is the name that a line invokes. Options, which say
how primitives are called, make a runtime of it (`Primitives.runtime`), and an instruction is
executed by looking up the name that its line invokes (`Primitives.execLine_eq`).
-/

namespace BoxedLet

open Lexical

/-- What a primitive gets besides the box that it fills. -/
inductive Operand (Scalar Text Box : Type)
  | scalar (x : Scalar)
  | text (t : Text)
  | box (b : Box)
  /-- A string that is spelled out. -/
  | literal (s : String)

/-- An interpretation of what is printed. -/
structure Primitives where
  Scalar : Type
  Text : Type
  Box : Type
  bit : Bool → Scalar
  long : Int64 → Scalar
  double : Float → Scalar
  char : Char → Scalar
  /-- A string literal with its length. -/
  sized : String → Text
  /-- The binary operator with that token. -/
  operator : String → Scalar → Scalar → Scalar
  negate : Scalar → Scalar
  /-- The box that is filled by the function or macro of that name. -/
  fill : String → List (Operand Scalar Text Box) → Box
  /-- The truth value that the function or macro of that name has for boxes. -/
  test : String → List Box → Scalar

/-- The runtime that calls its primitives as the options say. -/
def Primitives.runtime (P : Primitives) (o : Options) : Runtime where
  Scalar := P.Scalar
  Text := P.Text
  Box := P.Box
  bit := P.bit
  long := P.long
  double := P.double
  char := P.char
  sized := P.sized
  arith op := P.operator op.symbol
  compare op := P.operator op.symbol
  connect op := P.operator op.symbol
  negate := P.negate
  boxNull := P.fill "ZVAL_NULL" []
  boxEmptyArray := P.fill "array_init" []
  boxLiteral s := P.fill "ZVAL_STRING" [.literal s]
  boxText t := P.fill "ZVAL_STRINGL" [.text t]
  boxScalar kind x := P.fill kind.constructor [.scalar x]
  boxedOp op a b := P.fill (o.kernelFunction op.function) [.box a, .box b]
  boxedTest op a b := P.test (o.kernelMacro op.boxedMacro) [a, b]
  isTrue a := P.test (o.kernelFunction "is_true") [a]
  call name args := P.fill (o.kernelMacro "CALL_FUNCTION") (.literal name :: args.map .box)
  readProperty a name := P.fill (o.kernelFunction "read_property") [.box a, .literal name]
  fetch a b := P.fill (o.kernelFunction "array_fetch") [.box a, .box b]
  fetchLong a x := P.fill (o.kernelFunction "array_fetch_long") [.box a, .scalar x]
  fetchString a t := P.fill (o.kernelFunction "array_fetch_string") [.box a, .text t]

/-! ### Operands -/

section Operands

variable (R : Runtime) (σ : R.Store)

/-- What the content passes to its constructor. -/
def BoxContent.passed : BoxContent → Option (List (Operand R.Scalar R.Text R.Box))
  | .null | .emptyArray => some []
  | .string body => do return [.literal (← (← body.eval R σ).literal?)]
  | .buffer source => do return [.text (← (← source.eval R σ).text?)]
  | .scalar _ value => do return [.scalar (← (← value.eval R σ).scalar?)]

/-- What passes the key. -/
def Key.passed : Key → Option (Operand R.Scalar R.Text R.Box)
  | .long value => do return .scalar (← (← value.eval R σ).scalar?)
  | .literal body => do return .text (R.sized (← (← body.eval R σ).literal?))
  | .buffer source => do return .text (← (← source.eval R σ).text?)
  | .boxed value => do return .box (← (← value.eval R σ).box?)

/-- What the instruction passes to the primitive that it invokes, behind the location that it
writes. -/
def Instr.passed : Instr → Option (List (Operand R.Scalar R.Text R.Box))
  | .build _ _ content => content.passed R σ
  | .boxed _ _ l r => do
    let a ← (← l.eval R σ).box?
    let b ← (← r.eval R σ).box?
    return [.box a, .box b]
  | .call _ name args => do return .literal name :: (← Code.evalBoxes R σ args).map .box
  | .readProperty _ object property => do
    return [.box (← (← object.eval R σ).box?), .literal property]
  | .fetch _ array key => do
    let a ← (← array.eval R σ).box?
    return [.box a, ← key.passed R σ]
  | _ => none

end Operands

/-! ### Lines -/

namespace Primitives

variable (P : Primitives) (o : Options)

/-- The store after the line of an instruction: the function or macro that the line invokes fills
the box that it writes. -/
def execLine (i : Instr) (σ : (P.runtime o).Store) : Option (P.runtime o).Store := do
  let f ← callee? (i.line o)
  let operands ← i.passed (P.runtime o) σ
  return Runtime.update σ i.written.symbol (.box (P.fill f operands))

/-- The store after lines that are executed in order. -/
def execLines : List Instr → (P.runtime o).Store → Option (P.runtime o).Store
  | [], σ => some σ
  | i :: is, σ => do execLines is (← P.execLine o i σ)

variable {o}

/-- The box of an instruction is what its primitive makes of its operands. -/
theorem result_eq (i : Instr) (σ : (P.runtime o).Store) :
    i.result (P.runtime o) σ = do
      let call ← i.invoked o
      return P.fill call.1 (← i.passed (P.runtime o) σ) := by
  cases i with
  | build dst inFrame content =>
      cases content with
      | null | emptyArray => rfl
      | string body | buffer source | scalar kind value =>
          simp only [Instr.result, Instr.invoked, Instr.passed, BoxContent.eval,
            BoxContent.passed, bind, Option.bind_some, Option.bind_assoc, pure]
          rfl
  | fetch dst array key =>
      cases key <;>
        simp only [Instr.result, Instr.invoked, Instr.passed, Key.fetch, Key.passed, bind,
          Option.bind_some, Option.bind_assoc, pure] <;>
        rfl
  | boxed dst op l r | call dst name args | readProperty dst object property =>
      simp only [Instr.result, Instr.invoked, Instr.passed, bind, Option.bind_some,
        Option.bind_assoc, pure]
      rfl
  | _ => rfl

section Printed

variable (hindent : o.indent.toList.all isBlank = true)
  (hkernel : isIdentifier o.kernelPrefix = true)
include hindent hkernel

/-- **A line is executed by the name that it invokes.** -/
theorem execLine_eq (i : Instr) (σ : (P.runtime o).Store) :
    P.execLine o i σ = i.exec (P.runtime o) σ := by
  rw [execLine, Instr.exec, result_eq]
  cases hinvoked : i.invoked o with
  | none =>
      -- a line that invokes nothing has no operands
      have hoperands : i.passed (P.runtime o) σ = none := by
        cases i with
        | store dst op value | step dst direction => rfl
        | _ => cases hinvoked
      cases callee? (i.line o) with
      | none => rfl
      | some f =>
          rw [hoperands]
          rfl
  | some call =>
      rw [callee?_of_invoked hindent hkernel hinvoked]
      cases i.passed (P.runtime o) σ <;> rfl

theorem execLines_eq (is : List Instr) (σ : (P.runtime o).Store) :
    P.execLines o is σ = execAll (P.runtime o) is σ := by
  induction is generalizing σ with
  | nil => rfl
  | cons i is ih =>
      rw [execLines, execAll, P.execLine_eq hindent hkernel]
      simp only [ih]

end Printed

/-- **Lowered lines mean what the expression means**, whatever the printed operators, functions and
macros stand for, as long as the margin is blank and the prefix of primitives is an identifier. In
every store that fits the table, the lines can be executed in order, each by the name that it
invokes, and then the code of the source has the value of the expression. -/
theorem lines_preserve_meaning (span : Span) {e : Expr} {ctx ctx' : Context} {s : Source}
    {σ : (P.runtime ctx.options).Store}
    (hindent : ctx.options.indent.toList.all isBlank = true)
    (hkernel : isIdentifier ctx.options.kernelPrefix = true)
    (hdeclared : ∀ x, e.mentions x = true → x ∈ ctx.table.names)
    (hfits : (P.runtime ctx.options).Fits ctx.table σ)
    (hrun : Lower.resolve span e ctx = .ok s ctx') :
    ∃ emitted σ' v,
      ctx'.lines = ctx.lines ++ emitted.map (Instr.line ctx.options) ∧
      P.execLines ctx.options emitted σ = some σ' ∧
      e.denote (P.runtime ctx.options) ctx.table.typeOf? σ = some v ∧
      s.code.eval (P.runtime ctx.options) σ' = some v := by
  obtain ⟨σ', hexec, shape, v, hv, -, hs⟩ := Lower.resolve_denotes hdeclared hfits hrun
  obtain ⟨emitted, hcode, hall⟩ := hexec.code
  have hlines := Context.lines_of_code_append hcode hexec.options
  refine ⟨emitted, σ', v, hlines, ?_, hv, hs.code.eval⟩
  rw [P.execLines_eq hindent hkernel]
  exact hall

end Primitives

end BoxedLet
