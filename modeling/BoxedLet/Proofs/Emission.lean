import BoxedLet.Capacity
import BoxedLet.Proofs.Growth

/-!
# BoxedLet.Proofs.Emission

**Lowering with and without a largest text, side by side.** All that the limit can change is what
happens when an instruction is emitted, and it is asked about the instruction's line alone. So a
computation adds instructions to the code, and where texts are limited it comes to the same outcome
as long as all of their lines fit, and breaks off at the first that does not. `Lower.Mirrors` says
so of two computations; it is closed under sequencing, and `assignment_mirrors` has one lemma for
each function of the lowering.
-/

namespace BoxedLet

variable {α β : Type}

/-! ### Lines that no text can hold -/

/-- No text can hold the line of the instruction. A text that is full of the margin doubles before
anything is added to it, so that the margin may take half of a text only. -/
def Instr.Overfull (o : Options) (i : Instr) : Prop :=
  textCapacity < 2 * o.listing.marginSize ∨ textCapacity < (i.line o).utf8ByteSize

theorem utf8ByteSize_repeated (s : String) (n : Nat) :
    (repeated s n).utf8ByteSize = s.utf8ByteSize * n := by
  unfold repeated
  split
  · rename_i hempty
    rw [String.isEmpty_iff.mp hempty]
    simp
  · induction n with
    | zero => rfl
    | succ n ih =>
        rw [List.replicate_succ, String.join_cons, String.utf8ByteSize_append, ih, Nat.mul_succ,
          Nat.add_comm]

theorem Instr.utf8ByteSize_line (o : Options) (i : Instr) :
    (i.line o).utf8ByteSize = o.listing.marginSize + (i.render o).utf8ByteSize := by
  rw [line, String.utf8ByteSize_append, utf8ByteSize_repeated]
  rfl

/-- A line is added to a listing exactly if some text can hold it. -/
theorem Instr.output?_isSome_iff (o : Options) (i : Instr) :
    (o.listing.output? (i.render o)).isSome = true ↔ ¬ i.Overfull o := by
  have hrest : (i.render o).utf8ByteSize ≠ 0 := by
    rw [render, String.utf8ByteSize_append]
    exact Nat.succ_ne_zero _
  rw [Overfull, i.utf8ByteSize_line, Listing.output?, grownRoom, if_neg hrest]
  split
  · simp only [Option.isSome_some, true_iff]
    omega
  · simp only [Option.isSome_none, Bool.false_eq_true, false_iff]
    omega

/-! ### Two outcomes -/

/-- The outcome, where texts are limited but no limit is reached. -/
def unlimited : EStateM.Result LowerError Context α → EStateM.Result Halt Context α
  | .ok a ctx => .ok a ctx
  | .error e ctx => .error (.error e) ctx

/-- The outcomes of a computation from `ctx` that adds the given instructions to the code, without
a limit and with one: they are the same, unless there is an instruction whose line does not fit. -/
structure Context.Mirrored (ctx : Context) (emitted : List Instr)
    (r : EStateM.Result LowerError Context α) (r' : EStateM.Result Halt Context α) : Prop where
  code : (stateOf r).code = ctx.code ++ emitted
  options : (stateOf r).options = ctx.options
  outcome : (∀ i ∈ emitted, ¬ i.Overfull ctx.options) ∧ r' = unlimited r ∨
    (∃ i ∈ emitted, i.Overfull ctx.options) ∧ ∃ ctx', r' = .error .brokenOff ctx'

namespace Lower

/-- The second computation does what the first does up to the first line that does not fit. -/
def Mirrors (x : Lower α) (y : LowerOr Halt α) : Prop :=
  ∀ ctx : Context, ∃ emitted, ctx.Mirrored emitted (x ctx) (y ctx)

namespace Mirrors

variable {x x' : Lower α} {y y' : LowerOr Halt α} {f : α → Lower β} {g : α → LowerOr Halt β}

/-- A computation that emits nothing. -/
theorem of_silent (hcode : ∀ ctx, (stateOf (x ctx)).code = ctx.code)
    (hoptions : ∀ ctx, (stateOf (x ctx)).options = ctx.options)
    (hrun : ∀ ctx, y ctx = unlimited (x ctx)) : Mirrors x y := by
  intro ctx
  refine ⟨[], by rw [hcode, List.append_nil], hoptions ctx, .inl ⟨?_, hrun ctx⟩⟩
  simp

theorem pure (a : α) : Mirrors (pure a) (pure a) :=
  of_silent (fun _ => rfl) (fun _ => rfl) fun _ => rfl

theorem fail (span : Span) (cause : Cause) :
    Mirrors (fail span cause : Lower α) (fail span cause) :=
  of_silent (fun _ => rfl) (fun _ => rfl) fun _ => rfl

theorem get : Mirrors get get :=
  of_silent (fun _ => rfl) (fun _ => rfl) fun _ => rfl

theorem modifyTable (f : SymbolTable → SymbolTable) : Mirrors (modifyTable f) (modifyTable f) :=
  of_silent (fun _ => rfl) (fun _ => rfl) fun _ => rfl

theorem newTemporary (type : StaticType) : Mirrors (newTemporary type) (newTemporary type) :=
  of_silent (fun _ => rfl) (fun _ => rfl) fun _ => rfl

theorem require (h : Header) : Mirrors (require h) (require h) :=
  of_silent (fun _ => rfl) (fun _ => rfl) fun _ => rfl

/-- **Emitting an instruction** is where the two part. -/
theorem emit (i : Instr) : Mirrors (emit i) (emit i) := by
  intro ctx
  refine ⟨[i], rfl, rfl, ?_⟩
  have hsome := i.output?_isSome_iff ctx.options
  simp only [List.mem_singleton, forall_eq, exists_eq_left]
  by_cases hover : i.Overfull ctx.options
  · refine .inr ⟨hover, ctx, ?_⟩
    simp [Lower.emit, Exits.refused?, hsome, hover]
  · refine .inl ⟨hover, ?_⟩
    simp [Lower.emit, Exits.refused?, hsome, hover, unlimited]

/-- **Sequencing.** -/
theorem bind (hx : Mirrors x y) (hf : ∀ a, Mirrors (f a) (g a)) :
    Mirrors (x >>= f) (y >>= g) := by
  intro ctx
  obtain ⟨first, hfirst⟩ := hx ctx
  rw [bind_apply, bind_apply]
  cases hrun : x ctx with
  | error e mid =>
      rw [hrun] at hfirst
      refine ⟨first, hfirst.code, hfirst.options, ?_⟩
      obtain ⟨hfits, hy⟩ | ⟨hover, ctx', hy⟩ := hfirst.outcome
      · rw [hy]
        exact .inl ⟨hfits, rfl⟩
      · rw [hy]
        exact .inr ⟨hover, ctx', rfl⟩
  | ok a mid =>
      rw [hrun] at hfirst
      obtain ⟨second, hsecond⟩ := hf a mid
      have hcode : mid.code = ctx.code ++ first := hfirst.code
      have hoptions : mid.options = ctx.options := hfirst.options
      have houtcome := hsecond.outcome
      rw [hoptions] at houtcome
      refine ⟨first ++ second, ?_, hsecond.options.trans hoptions, ?_⟩
      · rw [hsecond.code, hcode, List.append_assoc]
      -- what does not fit is emitted before or behind the middle
      obtain ⟨hfits, hy⟩ | ⟨⟨i, hi, hover⟩, ctx', hy⟩ := hfirst.outcome
      · rw [hy]
        obtain ⟨hfits', hg⟩ | ⟨⟨i, hi, hover⟩, ctx', hg⟩ := houtcome
        · exact .inl ⟨List.forall_mem_append.mpr ⟨hfits, hfits'⟩, hg⟩
        · exact .inr ⟨⟨i, List.mem_append_right _ hi, hover⟩, ctx', hg⟩
      · rw [hy]
        exact .inr ⟨⟨i, List.mem_append_left _ hi, hover⟩, ctx', rfl⟩

theorem ite {p : Prop} [Decidable p] (hx : Mirrors x y) (hx' : Mirrors x' y') :
    Mirrors (if p then x else x') (if p then y else y') := by
  split
  · exact hx
  · exact hx'

end Mirrors

/-! ### Symbols and sources -/

section Lowering

variable (span : Span)

theorem fillTemporary_mirrors (type : StaticType) (instr : Place → Instr) :
    Mirrors (fillTemporary type instr) (fillTemporary type instr) :=
  .bind (.newTemporary type) fun temp => .bind (.emit (instr temp)) fun _ => .pure temp

/-- A box that is computed into a new temporary. -/
theorem fillBox_mirrors (instr : Place → Instr) :
    Mirrors (fillTemporary .dynamic instr >>= fun p => pure (Source.ofBox p))
      (fillTemporary .dynamic instr >>= fun p => pure (Source.ofBox p)) :=
  .bind (fillTemporary_mirrors .dynamic instr) fun _ => .pure _

theorem initBox_mirrors (name : String) : Mirrors (initBox name) (initBox name) := by
  refine .bind .get fun ctx => ?_
  cases ctx.table.get? name with
  | none => exact .pure ()
  | some s => exact .ite (.pure ()) (.bind (.modifyTable _) fun _ => .emit _)

/-- Looking a symbol up. -/
theorem lookup_mirrors (name : String) (cause : Cause) (ctx : Context) :
    Mirrors (match ctx.table.get? name with | some s => pure s | none => fail span cause)
      (match ctx.table.get? name with | some s => pure s | none => fail span cause) := by
  cases ctx.table.get? name with
  | none => exact .fail span cause
  | some s => exact .pure s

theorem readSymbol_mirrors (name : String) :
    Mirrors (readSymbol span name) (readSymbol span name) :=
  .bind .get fun ctx => lookup_mirrors span name _ ctx

theorem writeSymbol_mirrors (name : String) :
    Mirrors (writeSymbol span name) (writeSymbol span name) :=
  .bind (.modifyTable _) fun _ => .bind .get fun ctx => lookup_mirrors span name _ ctx

theorem subtype_mirrors (s : Source) : Mirrors (s.subtype span) (s.subtype span) := by
  unfold Source.subtype
  split
  · exact .bind (readSymbol_mirrors span _) fun _ => .pure _
  · exact .pure _

theorem shape_mirrors (s : Source) : Mirrors (s.shape span) (s.shape span) :=
  .ite (.bind (subtype_mirrors span s) fun _ => .ite (.fail span _) (.pure _)) (.pure _)

theorem materialize_mirrors (s : Source) : Mirrors (materialize span s) (materialize span s) := by
  refine .bind (shape_mirrors span s) fun shape => .ite (.pure _) ?_
  cases boxContent? shape s with
  | none => exact .fail span _
  | some content => exact .bind (fillTemporary_mirrors _ _) fun _ => .pure _

theorem boxedSource_mirrors (s : Source) (use : ValueUse) :
    Mirrors (boxedSource span s use) (boxedSource span s use) :=
  .bind (shape_mirrors span s) fun _ => .ite (.pure _) (.fail span _)

/-! ### Expressions -/

theorem nativeOperand?_mirrors (s : Source) :
    Mirrors (nativeOperand? span s) (nativeOperand? span s) :=
  .bind (subtype_mirrors span s) fun _ => .ite (.pure _) (.pure _)

theorem nativeOperands?_mirrors (left right : Source) :
    Mirrors (nativeOperands? span left right) (nativeOperands? span left right) := by
  refine .bind (nativeOperand?_mirrors span left) fun l => ?_
  refine .bind (nativeOperand?_mirrors span right) fun r => ?_
  cases l with
  | none => exact .pure none
  | some l =>
      cases r with
      | none => exact .pure none
      | some r => exact .pure (some (l, r))

theorem condition_mirrors (s : Source) : Mirrors (condition span s) (condition span s) := by
  refine .bind (subtype_mirrors span s) fun t => .ite (.pure _) (.ite (.pure _) (.ite ?_ ?_))
  · exact .bind (.require _) fun _ => .pure _
  · exact .ite (.pure _) (.fail span _)

/-- Both operands are made boxes, left before right. -/
theorem materializeBoth_mirrors (left right : Source) {f : Code → Code → Lower α}
    {g : Code → Code → LowerOr Halt α} (h : ∀ l r, Mirrors (f l r) (g l r)) :
    Mirrors (materialize span left >>= fun l => materialize span right >>= f l)
      (materialize span left >>= fun l => materialize span right >>= g l) :=
  .bind (materialize_mirrors span left) fun l =>
    .bind (materialize_mirrors span right) fun r => h l r

theorem boxedBinary_mirrors (op : BinaryOp) (left right : Source) :
    Mirrors (boxedBinary span op left right) (boxedBinary span op left right) := by
  have hfill : ∀ op : BoxedOp, Mirrors (boxedOp span op left right) (boxedOp span op left right) :=
    fun op => materializeBoth_mirrors span left right fun _ _ =>
      .bind (.require _) fun _ => fillBox_mirrors _
  cases op with
  | arith a => exact hfill (.arith a)
  | concat => exact hfill .concat
  | compare c =>
      exact materializeBoth_mirrors span left right fun _ _ => .bind (.require _) fun _ => .pure _
  | connect c => exact materializeBoth_mirrors span left right fun _ _ => .fail span _

theorem binary_mirrors (op : BinaryOp) (left right : Source) :
    Mirrors (binary span op left right) (binary span op left right) := by
  cases op with
  | connect c =>
      refine .bind (condition_mirrors span left) fun l => ?_
      exact .bind (condition_mirrors span right) fun r => .pure _
  | concat => exact boxedBinary_mirrors span .concat left right
  | arith a =>
      refine .bind (nativeOperands?_mirrors span left right) fun operands => ?_
      cases operands with
      | none => exact boxedBinary_mirrors span (.arith a) left right
      | some operands => exact .pure _
  | compare c =>
      refine .bind (nativeOperands?_mirrors span left right) fun operands => ?_
      cases operands with
      | none => exact boxedBinary_mirrors span (.compare c) left right
      | some operands => exact .pure _

theorem callFunction_mirrors (name : String) (args : List Code) :
    Mirrors (callFunction name args) (callFunction name args) :=
  .bind (.require _) fun _ => fillBox_mirrors _

theorem readProperty_mirrors (object : Source) (property : String) :
    Mirrors (readProperty span object property) (readProperty span object property) :=
  .bind (subtype_mirrors span object) fun _ =>
    .ite (.bind (.require _) fun _ => fillBox_mirrors _) (.fail span _)

theorem checkIndexable_mirrors (array : Source) :
    Mirrors (checkIndexable span array) (checkIndexable span array) :=
  .bind (subtype_mirrors span array) fun _ => .ite (.pure _) (.fail span _)

theorem fetchElement_mirrors (array index : Source) :
    Mirrors (fetchElement span array index) (fetchElement span array index) := by
  refine .bind (shape_mirrors span index) fun shape => ?_
  cases Key.of? shape index with
  | none => exact .fail span _
  | some key => exact .bind (.require _) fun _ => fillBox_mirrors _

theorem doubleLiteral_mirrors (x : Float) :
    Mirrors (doubleLiteral span x) (doubleLiteral span x) := by
  unfold doubleLiteral
  cases Decimal.decode x with
  | ok d => exact .pure _
  | error other => exact .fail span _

mutual

/-- **Expressions.** -/
theorem resolve_mirrors : ∀ e : Expr, Mirrors (resolve span e) (resolve span e)
  | .null | .bool _ | .int _ | .char _ | .string _ | .emptyArray => .pure _
  | .double x => doubleLiteral_mirrors span x
  | .var x => .bind (readSymbol_mirrors span x) fun _ => .pure _
  | .binary op l r =>
      .bind (resolve_mirrors l) fun left => .bind (resolve_mirrors r) fun right =>
        binary_mirrors span op left right
  | .not e =>
      .bind (resolve_mirrors e) fun s => .bind (condition_mirrors span s) fun _ => .pure _
  | .property e name => .bind (resolve_mirrors e) fun s => readProperty_mirrors span s name
  | .index a i =>
      .bind (resolve_mirrors a) fun array => .bind (checkIndexable_mirrors span array) fun _ =>
        .bind (resolve_mirrors i) fun index => fetchElement_mirrors span array index
  | .call name args =>
      .bind (resolveArgs_mirrors args) fun codes => callFunction_mirrors name codes

theorem resolveArgs_mirrors : ∀ es : List Expr, Mirrors (resolveArgs span es) (resolveArgs span es)
  | [] => .pure []
  | e :: es =>
      .bind (resolve_mirrors e) fun s => .bind (materialize_mirrors span s) fun _ =>
        .bind (resolveArgs_mirrors es) fun _ => .pure _

end

/-! ### Targets -/

variable (dest : Symbol) (op : Operator) (shape : Shape) (source : Source) (expr? : Option Expr)

theorem storeNative_mirrors (value : Code) :
    Mirrors (storeNative span dest op shape value) (storeNative span dest op shape value) := by
  unfold storeNative
  cases op.native? with
  | none => exact .fail span _
  | some native => exact .emit _

theorem writeString_mirrors {text : Lower StringSource} {text' : LowerOr Halt StringSource}
    (h : Mirrors text text') : Mirrors (writeString dest op text) (writeString dest op text') :=
  .bind (.modifyTable _) fun _ => .bind (.require _) fun _ => .bind h fun _ => .emit _

theorem rebuild_mirrors (content : BoxContent) :
    Mirrors (rebuild dest content) (rebuild dest content) :=
  .bind (initBox_mirrors dest.name) fun _ => .emit _

theorem boxScalar_mirrors (kind : BoxKind) :
    Mirrors (boxScalar dest kind shape source expr?) (boxScalar dest kind shape source expr?) := by
  refine .bind .get fun ctx => .ite ?_ (rebuild_mirrors dest _)
  exact .bind (fillTemporary_mirrors _ _) fun temp => rebuild_mirrors dest _

theorem boxSource_mirrors :
    Mirrors (boxSource span dest shape source) (boxSource span dest shape source) := by
  unfold boxSource
  cases boxContent? shape source with
  | none => exact .fail span _
  | some content => exact rebuild_mirrors dest content

theorem copyBox_mirrors : Mirrors (copyBox dest source) (copyBox dest source) :=
  .ite (.pure ()) (.bind (.modifyTable _) fun _ => .emit _)

theorem updateInPlace_mirrors :
    Mirrors (updateInPlace dest op source) (updateInPlace dest op source) :=
  .bind (.require _) fun _ => .bind (.modifyTable _) fun _ => .emit _

/-- **Strategies.** -/
theorem carryOut_mirrors (strategy : Strategy) :
    Mirrors (carryOut span strategy dest op shape source expr?)
      (carryOut span strategy dest op shape source expr?) := by
  have hnative := storeNative_mirrors span dest op shape
  have hcoerce : ∀ value,
      Mirrors (require .operators >>= fun _ => storeNative span dest op shape value)
        (require .operators >>= fun _ => storeNative span dest op shape value) :=
    fun value => .bind (.require _) fun _ => hnative value
  cases strategy with
  | nativeZero | nativeDirect | nativeBoolean | boolTernary => exact hnative _
  | nativeCast kind => exact hnative _
  | numberCoerce | boolCoerce => exact hcoerce _
  | stringLiteral | stringBuffer | stringChar | stringLong =>
      exact writeString_mirrors dest op (.pure _)
  | stringCoerceLong =>
      exact writeString_mirrors dest op (.bind (.require _) fun _ => .pure _)
  | boxValue kind => exact boxScalar_mirrors dest shape source expr? kind
  | boxBinding kind => exact boxSource_mirrors span dest shape source
  | boxNull | boxString | boxStringBuffer | boxEmptyArray =>
      exact boxSource_mirrors span dest shape source
  | boxCopy => exact copyBox_mirrors dest source
  | boxArithmetic => exact updateInPlace_mirrors dest op source

theorem assignWhole_mirrors :
    Mirrors (assignWhole span dest op source expr?) (assignWhole span dest op source expr?) := by
  refine .ite (.fail span _) ?_
  cases dest.type.family? with
  | none => exact .fail span _
  | some family =>
      refine .bind (shape_mirrors span source) fun shape => ?_
      cases Strategy.select? family shape op with
      | none => exact .fail span _
      | some strategy => exact carryOut_mirrors span dest op shape source expr? strategy

theorem checkAssign_mirrors :
    Mirrors (checkAssign span dest op source) (checkAssign span dest op source) :=
  .ite (.pure ()) (.fail span _)

theorem checkHeapBox_mirrors : Mirrors (checkHeapBox span dest) (checkHeapBox span dest) :=
  .ite (.pure ()) (.fail span _)

theorem checkObject_mirrors : Mirrors (checkObject span dest) (checkObject span dest) :=
  .ite (.pure ()) (.fail span _)

theorem checkProperty_mirrors (property : String) :
    Mirrors (checkProperty span dest property) (checkProperty span dest property) := by
  refine .bind .get fun ctx => .ite ?_ (.pure ())
  cases ctx.classDef with
  | none => exact .fail span _
  | some c => exact .ite (.pure ()) (.fail span _)

theorem updateKey_mirrors (index : Expr) :
    Mirrors (updateKey span index) (updateKey span index) := by
  refine .bind (resolve_mirrors span index) fun i => .bind (shape_mirrors span i) fun shape => ?_
  cases Key.of? shape i with
  | none => exact .fail span _
  | some key => exact .pure key

theorem propertyKey_mirrors (index : Expr) :
    Mirrors (propertyKey span index) (propertyKey span index) :=
  .bind (resolve_mirrors span index) fun i => .bind (shape_mirrors span i) fun _ =>
    .ite (.pure _) (.fail span _)

/-- Asking for a header and emitting an instruction, with which every write of a part ends. -/
theorem requiring_mirrors (h : Header) (i : Instr) :
    Mirrors (require h >>= fun _ => emit i) (require h >>= fun _ => emit i) :=
  .bind (.require h) fun _ => .emit i

/-- **Targets**, once the source has been lowered. -/
theorem assignSource_mirrors (a : Assignment) (expr : Expr) :
    Mirrors (assignSource dest a expr source) (assignSource dest a expr source) := by
  unfold assignSource
  have hassign := checkAssign_mirrors a.span dest a.operator source
  have hheap := checkHeapBox_mirrors a.span dest
  have hobject := checkObject_mirrors a.span dest
  have hvalue := materialize_mirrors a.span source
  cases a.target with
  | whole => exact assignWhole_mirrors a.span dest a.operator source (some expr)
  | append =>
      exact .bind hassign fun _ => .bind hheap fun _ => .bind hvalue fun _ => requiring_mirrors _ _
  | element index =>
      refine .bind hassign fun _ => .bind hheap fun _ => ?_
      refine .bind (updateKey_mirrors a.span index) fun _ => .bind hvalue fun _ => ?_
      exact requiring_mirrors _ _
  | property name =>
      refine .bind hassign fun _ => .bind hheap fun _ => ?_
      refine .bind (checkProperty_mirrors a.span dest name) fun _ => .bind hvalue fun _ => ?_
      exact requiring_mirrors _ _
  | propertyAppend name =>
      refine .bind hassign fun _ => .bind hobject fun _ => ?_
      exact .bind (boxedSource_mirrors a.span source _) fun _ => requiring_mirrors _ _
  | propertyElement name index =>
      refine .bind hassign fun _ => .bind hobject fun _ => ?_
      refine .bind (propertyKey_mirrors a.span index) fun _ => ?_
      exact .bind (boxedSource_mirrors a.span source _) fun _ => requiring_mirrors _ _

theorem assignStep_mirrors : Mirrors (assignStep span dest op) (assignStep span dest op) := by
  have hstep : ∀ direction, Mirrors (stepDestination span dest direction op)
      (stepDestination span dest direction op) := by
    intro direction
    unfold stepDestination
    split
    · exact .fail span _
    · exact .emit _
    · exact .emit _
    · exact .fail span _
    · exact .fail span _
    · refine .bind (.require _) fun _ => .ite (.emit _) ?_
      exact .bind (.emit _) fun _ => .emit _
  refine .ite (.fail span _) ?_
  cases op with
  | increment => exact hstep .increment
  | decrement => exact hstep .decrement
  | _ => exact .fail span _

theorem checkedDestination_mirrors (a : Assignment) :
    Mirrors (checkedDestination a) (checkedDestination a) := by
  refine .bind (writeSymbol_mirrors a.span a.destination) fun dest => .ite (.fail a.span _) ?_
  exact .bind .get fun ctx => .ite (.fail a.span _) (.ite (.fail a.span _) (.pure dest))

end Lowering

/-- **Assignments.** -/
theorem assignment_mirrors (a : Assignment) : Mirrors (assignment a) (assignment a) := by
  refine .bind (checkedDestination_mirrors a) fun dest => .ite ?_ ?_
  · cases a.target with
    | whole => exact .bind (.modifyTable _) fun _ => assignStep_mirrors a.span dest a.operator
    | _ => exact .fail a.span _
  · cases a.source with
    | none => exact .fail a.span _
    | some expr =>
        refine .bind (resolve_mirrors a.span expr) fun source => .bind (.modifyTable _) fun _ => ?_
        exact assignSource_mirrors dest source a expr

end Lower

end BoxedLet
