import BoxedLet.Capacity
import BoxedLet.Proofs.Declarations

/-!
# BoxedLet.Proofs.Allocation

**How many temporaries lowering takes.** An operator on boxes takes at most three, two for its
operands and one for its result, and every other step of the lowering takes at most one. The number
of temporaries that an assignment takes is therefore linear in its size, whether or not it fails
(`assignment_allocates`).

`Lower.Allocates` is closed under sequencing, where numbers add up, so that there is one lemma for
each function of the lowering. Each candidate that the search for a free name has passed over is a
name in the table (`SymbolTable.Consumed`), so that the counter of the search is bounded by the
number of symbols, and does not run ahead of it.
-/

namespace BoxedLet

variable {span : Span}

/-! ### Sizes -/

mutual

/-- The number of nodes of an expression. -/
def Expr.size : Expr → Nat
  | .binary _ l r => l.size + r.size + 1
  | .not e => e.size + 1
  | .property e _ => e.size + 1
  | .index a i => a.size + i.size + 1
  | .call _ args => Expr.sizeAll args + 1
  | .null | .bool _ | .int _ | .double _ | .char _ | .string _ | .emptyArray | .var _ => 1

/-- The number of nodes of some expressions. -/
def Expr.sizeAll : List Expr → Nat
  | [] => 0
  | e :: es => e.size + Expr.sizeAll es

end

theorem Expr.size_pos (e : Expr) : 0 < e.size := by
  cases e <;> simp [Expr.size]

/-- The number of nodes of an assignment. -/
def Assignment.size (a : Assignment) : Nat :=
  (a.source.map Expr.size).getD 0 + (a.target.index?.map Expr.size).getD 0 + 1

/-- The number of nodes of some assignments. -/
def Assignment.sizeAll : List Assignment → Nat
  | [] => 0
  | a :: as => a.size + Assignment.sizeAll as

/-! ### Computations that allocate no more than so many temporaries -/

namespace Lower

variable {α β : Type} {k m n : Nat}

/-- However it ends, the computation adds at most `n` symbols to the table. -/
def Allocates (n : Nat) (x : Lower α) : Prop :=
  ∀ ctx, (stateOf (x ctx)).table.symbols.length ≤ ctx.table.symbols.length + n

namespace Allocates

theorem mono {x : Lower α} (h : Allocates m x) (hle : m ≤ n) : Allocates n x := by
  intro ctx
  have hx := h ctx
  omega

theorem pure (a : α) : Allocates n (pure a : Lower α) := by
  intro ctx
  simp [stateOf]

theorem fail (span : Span) (cause : Cause) : Allocates n (fail span cause : Lower α) := by
  intro ctx
  simp [stateOf]

/-- **Sequencing.** -/
theorem bind {x : Lower α} {f : α → Lower β} (hx : Allocates m x) (hf : ∀ a, Allocates n (f a))
    (hle : m + n ≤ k) : Allocates k (x >>= f) := by
  intro ctx
  have hx := hx ctx
  rw [bind_apply]
  cases hrun : x ctx with
  | error e ctx' =>
      simp only [hrun, stateOf] at hx ⊢
      omega
  | ok a ctx' =>
      have hf := hf a ctx'
      simp only [hrun, stateOf] at hx hf ⊢
      omega

/-- A first part that allocates nothing. -/
theorem bind_free {x : Lower α} {f : α → Lower β} (hx : Allocates 0 x)
    (hf : ∀ a, Allocates n (f a)) : Allocates n (x >>= f) :=
  hx.bind hf (by omega)

/-- A last part that allocates nothing. -/
theorem bind_last {x : Lower α} {f : α → Lower β} (hx : Allocates n x)
    (hf : ∀ a, Allocates 0 (f a)) : Allocates n (x >>= f) :=
  hx.bind hf (by omega)

theorem ite {c : Prop} [Decidable c] {x y : Lower α} (hx : Allocates n x) (hy : Allocates n y) :
    Allocates n (if c then x else y) := by
  split
  · exact hx
  · exact hy

end Allocates

/-! ### Steps -/

theorem get_allocates : Allocates n (get : Lower Context) := by
  intro ctx
  simp [stateOf]

theorem require_allocates (h : Header) : Allocates n (require h) := by
  intro ctx
  simp [stateOf, Context.needing]

theorem emit_allocates (i : Instr) : Allocates n (emit i) := by
  intro ctx
  simp [stateOf]

theorem fillTemporary_allocates (type : StaticType) (instr : Place → Instr) :
    Allocates 1 (fillTemporary type instr) := by
  intro ctx
  simp [stateOf, Context.filling]

theorem modifyTable_allocates {f : SymbolTable → SymbolTable}
    (hf : ∀ t, (f t).names = t.names) : Allocates n (modifyTable f) := by
  intro ctx
  have hlength := congrArg List.length (hf ctx.table)
  simp only [SymbolTable.length_names] at hlength
  simp [stateOf, hlength]

theorem readSymbol_allocates (name : String) : Allocates n (readSymbol span name) := by
  refine .bind_free get_allocates fun ctx => ?_
  split
  · exact .pure _
  · exact .fail _ _

theorem writeSymbol_allocates (name : String) : Allocates n (writeSymbol span name) := by
  refine .bind_free (modifyTable_allocates fun t => t.names_countWrite name) fun _ => ?_
  refine .bind_free get_allocates fun ctx => ?_
  split
  · exact .pure _
  · exact .fail _ _

theorem subtype_allocates (s : Source) : Allocates n (s.subtype span) := by
  unfold Source.subtype
  split
  · exact .bind_free (readSymbol_allocates _) fun _ => .pure _
  · exact .pure _

theorem shape_allocates (s : Source) : Allocates n (s.shape span) := by
  unfold Source.shape
  refine .ite ?_ (.pure _)
  exact .bind_free (subtype_allocates s) fun t => .ite (.fail _ _) (.pure _)

/-! ### Operands and operators -/

variable (s left right : Source)

/-- A source that is no box yet takes one temporary. -/
theorem materialize_allocates : Allocates 1 (materialize span s) := by
  refine .bind_free (shape_allocates s) fun shape => .ite (.pure _) ?_
  split
  · exact .fail _ _
  · exact .bind_last (fillTemporary_allocates _ _) fun _ => .pure _

theorem boxedSource_allocates (use : ValueUse) : Allocates n (boxedSource span s use) :=
  .bind_free (shape_allocates s) fun _ => .ite (.pure _) (.fail _ _)

theorem nativeOperand?_allocates : Allocates n (nativeOperand? span s) :=
  .bind_free (subtype_allocates s) fun _ => .ite (.pure _) (.pure _)

theorem nativeOperands?_allocates : Allocates n (nativeOperands? span left right) := by
  refine .bind_free (nativeOperand?_allocates left) fun l => ?_
  refine .bind_free (nativeOperand?_allocates right) fun r => ?_
  split <;> exact .pure _

theorem condition_allocates : Allocates n (condition span s) := by
  refine .bind_free (subtype_allocates s) fun t => .ite (.pure _) (.ite (.pure _) (.ite ?_ ?_))
  · exact .bind_free (require_allocates _) fun _ => .pure _
  · exact .ite (.pure _) (.fail _ _)

theorem boxedOp_allocates (op : BoxedOp) : Allocates 3 (boxedOp span op left right) := by
  refine .bind (materialize_allocates left) (fun l => ?_) (n := 2) (by omega)
  refine .bind (materialize_allocates right) (fun r => ?_) (n := 1) (by omega)
  refine .bind_free (require_allocates _) fun _ => ?_
  exact .bind_last (fillTemporary_allocates _ _) fun _ => .pure _

theorem boxedCompare_allocates (op : Comparison) :
    Allocates 2 (boxedCompare span op left right) := by
  refine .bind (materialize_allocates left) (fun l => ?_) (n := 1) (by omega)
  refine .bind_last (materialize_allocates right) fun r => ?_
  exact .bind_free (require_allocates _) fun _ => .pure _

theorem binary_allocates (op : BinaryOp) : Allocates 3 (binary span op left right) := by
  cases op with
  | connect op =>
      refine .bind_free (condition_allocates left) fun l => ?_
      exact .bind_free (condition_allocates right) fun r => .pure _
  | concat => exact boxedOp_allocates left right .concat
  | arith op =>
      refine .bind_free (nativeOperands?_allocates left right) fun operands => ?_
      split
      · exact .pure _
      · exact boxedOp_allocates left right (.arith op)
  | compare op =>
      refine .bind_free (nativeOperands?_allocates left right) fun operands => ?_
      split
      · exact .pure _
      · exact (boxedCompare_allocates left right op).mono (by omega)

theorem negate_allocates : Allocates n (negate span s) :=
  .bind_free (condition_allocates s) fun _ => .pure _

/-! ### Calls and accesses -/

theorem callFunction_allocates (name : String) (args : List Code) :
    Allocates 1 (callFunction name args) :=
  .bind_free (require_allocates _) fun _ =>
    .bind_last (fillTemporary_allocates _ _) fun _ => .pure _

theorem readProperty_allocates (property : String) :
    Allocates 1 (readProperty span s property) := by
  refine .bind_free (subtype_allocates s) fun t => .ite ?_ (.fail _ _)
  refine .bind_free (require_allocates _) fun _ => ?_
  exact .bind_last (fillTemporary_allocates _ _) fun _ => .pure _

theorem checkIndexable_allocates : Allocates n (checkIndexable span s) :=
  .bind_free (subtype_allocates s) fun _ => .ite (.pure _) (.fail _ _)

theorem fetchElement_allocates (array index : Source) :
    Allocates 1 (fetchElement span array index) := by
  refine .bind_free (shape_allocates index) fun shape => ?_
  split
  · exact .fail _ _
  · refine .bind_free (require_allocates _) fun _ => ?_
    exact .bind_last (fillTemporary_allocates _ _) fun _ => .pure _

theorem doubleLiteral_allocates (x : Float) : Allocates n (doubleLiteral span x) := by
  unfold doubleLiteral
  split
  · exact .pure _
  · exact .fail _ _

theorem bareVariable_allocates (name : String) : Allocates n (bareVariable span name) :=
  .bind_free (readSymbol_allocates name) fun _ => .pure _

/-! ### Expressions -/

mutual

/-- **An expression takes fewer than two temporaries for each of its nodes.** -/
theorem resolve_allocates (e : Expr) : Allocates (2 * e.size - 1) (resolve span e) := by
  cases e with
  | null => exact .pure _
  | bool b => exact .pure _
  | int n => exact .pure _
  | double x => exact doubleLiteral_allocates x
  | char c => exact .pure _
  | string s => exact .pure _
  | emptyArray => exact .pure _
  | var name => exact bareVariable_allocates name
  | binary op l r =>
      have hl := l.size_pos
      have hr := r.size_pos
      -- what is left when the left operand has been lowered: the right one, and the operator
      have hrest : ∀ left, Allocates (2 * r.size + 2)
          (resolve span r >>= fun right => binary span op left right) := fun left =>
        (resolve_allocates r).bind (fun right => binary_allocates left right op) (by omega)
      exact (resolve_allocates l).bind hrest (by simp only [Expr.size]; omega)
  | not e =>
      have hresolve : Allocates (2 * e.size - 1) (resolve span e >>= negate span) :=
        (resolve_allocates e).bind_last fun s => negate_allocates s
      exact hresolve.mono (by simp only [Expr.size]; omega)
  | property e name =>
      exact (resolve_allocates e).bind (fun object => readProperty_allocates object name)
        (by simp only [Expr.size]; omega)
  | index a i =>
      have ha := a.size_pos
      have hi := i.size_pos
      have hrest : ∀ array, Allocates (2 * i.size)
          (checkIndexable span array >>= fun _ => resolve span i >>= fetchElement span array) :=
        fun array => .bind_free (checkIndexable_allocates array) fun _ =>
          (resolve_allocates i).bind (fun index => fetchElement_allocates array index) (by omega)
      exact (resolve_allocates a).bind hrest (by simp only [Expr.size]; omega)
  | call name args =>
      exact (resolveArgs_allocates args).bind (fun args => callFunction_allocates name args)
        (by simp only [Expr.size]; omega)

/-- An argument that is no box yet takes one more. -/
theorem resolveArgs_allocates (es : List Expr) :
    Allocates (2 * Expr.sizeAll es) (resolveArgs span es) := by
  cases es with
  | nil => exact .pure _
  | cons e es =>
      have he := e.size_pos
      have hrest : ∀ source, Allocates (2 * Expr.sizeAll es + 1)
          (materialize span source >>= fun arg =>
            resolveArgs span es >>= fun args => pure (arg :: args)) := fun source =>
        (materialize_allocates source).bind
          (fun arg => (resolveArgs_allocates es).bind_last fun args => .pure _) (by omega)
      exact (resolve_allocates e).bind hrest (by simp only [Expr.sizeAll]; omega)

end

/-! ### Plain targets -/

variable (dest : Symbol) (op : Operator) (source : Source)

theorem storeNative_allocates (shape : Shape) (value : Code) :
    Allocates n (storeNative span dest op shape value) := by
  unfold storeNative
  split
  · exact emit_allocates _
  · exact .fail _ _

theorem writeString_allocates {x : Lower StringSource} (hx : Allocates 0 x) :
    Allocates n (writeString dest op x) := by
  refine .bind_free (modifyTable_allocates fun t => t.names_requireNull dest.name) fun _ => ?_
  refine .bind_free (require_allocates _) fun _ => ?_
  exact .bind_free hx fun _ => emit_allocates _

theorem initBox_allocates (name : String) : Allocates n (initBox name) := by
  refine .bind_free get_allocates fun ctx => ?_
  split
  · exact .pure _
  · refine .ite (.pure _) ?_
    exact .bind_free (modifyTable_allocates fun t => by simp) fun _ => emit_allocates _

theorem rebuild_allocates (content : BoxContent) : Allocates n (rebuild dest content) :=
  .bind_free (initBox_allocates dest.name) fun _ => emit_allocates _

theorem boxScalar_allocates (kind : BoxKind) (shape : Shape) (expr? : Option Expr) :
    Allocates 1 (boxScalar dest kind shape source expr?) := by
  refine .bind_free get_allocates fun ctx => .ite ?_ (rebuild_allocates dest _)
  exact .bind_last (fillTemporary_allocates _ _) fun _ => rebuild_allocates dest _

theorem boxSource_allocates (shape : Shape) : Allocates n (boxSource span dest shape source) := by
  unfold boxSource
  split
  · exact rebuild_allocates dest _
  · exact .fail _ _

theorem copyBox_allocates : Allocates n (copyBox dest source) := by
  refine .ite (.pure _) ?_
  exact .bind_free (modifyTable_allocates fun t => by simp) fun _ => emit_allocates _

theorem updateInPlace_allocates : Allocates n (updateInPlace dest op source) := by
  refine .bind_free (require_allocates _) fun _ => ?_
  exact .bind_free (modifyTable_allocates fun t => rfl) fun _ => emit_allocates _

/-- Only a computed scalar that reads the destination takes a temporary. -/
theorem carryOut_allocates (strategy : Strategy) (shape : Shape) (expr? : Option Expr) :
    Allocates 1 (carryOut span strategy dest op shape source expr?) := by
  cases strategy with
  | nativeZero | nativeDirect | nativeCast | nativeBoolean | boolTernary =>
      exact storeNative_allocates dest op shape _
  | numberCoerce | boolCoerce =>
      exact .bind_free (require_allocates _) fun _ => storeNative_allocates dest op shape _
  | stringLiteral | stringBuffer | stringChar | stringLong =>
      exact writeString_allocates dest op (.pure _)
  | stringCoerceLong =>
      exact writeString_allocates dest op (.bind_free (require_allocates _) fun _ => .pure _)
  | boxValue kind => exact boxScalar_allocates dest source kind shape expr?
  | boxNull | boxBinding | boxString | boxStringBuffer | boxEmptyArray =>
      exact boxSource_allocates dest source shape
  | boxCopy => exact copyBox_allocates dest source
  | boxArithmetic => exact updateInPlace_allocates dest op source

theorem assignWhole_allocates (expr? : Option Expr) :
    Allocates 1 (assignWhole span dest op source expr?) := by
  refine .ite (.fail _ _) ?_
  split
  · exact .fail _ _
  · refine .bind_free (shape_allocates source) fun shape => ?_
    split
    · exact .fail _ _
    · exact carryOut_allocates dest op source _ shape expr?

/-! ### Targets inside a box -/

theorem checkAssign_allocates : Allocates n (checkAssign span dest op source) :=
  .ite (.pure _) (.fail _ _)

theorem checkHeapBox_allocates : Allocates n (checkHeapBox span dest) :=
  .ite (.pure _) (.fail _ _)

theorem checkObject_allocates : Allocates n (checkObject span dest) :=
  .ite (.pure _) (.fail _ _)

theorem checkProperty_allocates (property : String) :
    Allocates n (checkProperty span dest property) := by
  refine .bind_free get_allocates fun ctx => .ite ?_ (.pure _)
  split
  · exact .fail _ _
  · exact .ite (.pure _) (.fail _ _)

/-- The last two steps of every target inside a box. -/
theorem require_emit_allocates (h : Header) (i : Instr) :
    Allocates n (require h >>= fun _ => emit i) :=
  .bind_free (require_allocates h) fun _ => emit_allocates i

theorem assignAppend_allocates : Allocates 1 (assignAppend span dest op source) := by
  refine .bind_free (checkAssign_allocates dest op source) fun _ => ?_
  refine .bind_free (checkHeapBox_allocates dest) fun _ => ?_
  exact .bind_last (materialize_allocates source) fun _ => require_emit_allocates _ _

theorem updateKey_allocates (index : Expr) :
    Allocates (2 * index.size - 1) (updateKey span index) := by
  refine .bind_last (resolve_allocates index) fun i => ?_
  refine .bind_free (shape_allocates i) fun shape => ?_
  split
  · exact .pure _
  · exact .fail _ _

theorem assignElement_allocates (index : Expr) :
    Allocates (2 * index.size) (assignElement span dest op index source) := by
  have hsize := index.size_pos
  refine .bind_free (checkAssign_allocates dest op source) fun _ => ?_
  refine .bind_free (checkHeapBox_allocates dest) fun _ => ?_
  refine (updateKey_allocates index).bind (n := 1) (fun key => ?_) (by omega)
  exact .bind_last (materialize_allocates source) fun _ => require_emit_allocates _ _

theorem assignProperty_allocates (property : String) :
    Allocates 1 (assignProperty span dest op property source) := by
  refine .bind_free (checkAssign_allocates dest op source) fun _ => ?_
  refine .bind_free (checkHeapBox_allocates dest) fun _ => ?_
  refine .bind_free (checkProperty_allocates dest property) fun _ => ?_
  exact .bind_last (materialize_allocates source) fun _ => require_emit_allocates _ _

theorem appendProperty_allocates (property : String) :
    Allocates n (appendProperty span dest op property source) := by
  refine .bind_free (checkAssign_allocates dest op source) fun _ => ?_
  refine .bind_free (checkObject_allocates dest) fun _ => ?_
  exact .bind_free (boxedSource_allocates source _) fun _ => require_emit_allocates _ _

theorem propertyKey_allocates (index : Expr) :
    Allocates (2 * index.size - 1) (propertyKey span index) := by
  refine .bind_last (resolve_allocates index) fun i => ?_
  exact .bind_free (shape_allocates i) fun shape => .ite (.pure _) (.fail _ _)

theorem assignPropertyElement_allocates (property : String) (index : Expr) :
    Allocates (2 * index.size) (assignPropertyElement span dest op property index source) := by
  refine .bind_free (checkAssign_allocates dest op source) fun _ => ?_
  refine .bind_free (checkObject_allocates dest) fun _ => ?_
  refine (propertyKey_allocates index).bind (n := 0) (fun key => ?_) (by omega)
  exact .bind_free (boxedSource_allocates source _) fun _ => require_emit_allocates _ _

/-! ### Assignments -/

theorem assignSource_allocates (a : Assignment) (expr : Expr) :
    Allocates (2 * (a.target.index?.map Expr.size).getD 0 + 1)
      (assignSource dest a expr source) := by
  unfold assignSource
  cases a.target with
  | whole => exact assignWhole_allocates dest a.operator source (some expr)
  | append => exact assignAppend_allocates dest a.operator source
  | element index =>
      exact (assignElement_allocates dest a.operator source index).mono (by simp [Target.index?])
  | property name => exact assignProperty_allocates dest a.operator source name
  | propertyAppend name => exact appendProperty_allocates dest a.operator source name
  | propertyElement name index =>
      exact (assignPropertyElement_allocates dest a.operator source name index).mono
        (by simp [Target.index?])

theorem stepDestination_allocates (direction : Step) :
    Allocates n (stepDestination span dest direction op) := by
  unfold stepDestination
  split
  · exact .fail _ _
  · exact emit_allocates _
  · exact emit_allocates _
  · exact .fail _ _
  · exact .fail _ _
  · refine .bind_free (require_allocates _) fun _ => .ite (emit_allocates _) ?_
    exact .bind_free (emit_allocates _) fun _ => emit_allocates _

theorem assignStep_allocates : Allocates n (assignStep span dest op) := by
  refine .ite (.fail _ _) ?_
  split
  · exact stepDestination_allocates dest _ _
  · exact stepDestination_allocates dest _ _
  · exact .fail _ _

theorem checkedDestination_allocates (a : Assignment) : Allocates n (checkedDestination a) := by
  refine .bind_free (writeSymbol_allocates a.destination) fun dest => .ite (.fail _ _) ?_
  refine .bind_free get_allocates fun ctx => .ite (.fail _ _) ?_
  exact .ite (.fail _ _) (.pure _)

/-- **An assignment takes at most two temporaries for each of its nodes.** -/
theorem assignment_allocates (a : Assignment) : Allocates (2 * a.size) (assignment a) := by
  have hmark : ∀ dest : Symbol, Allocates 0 (modifyTable (·.markInitialized dest.name)) :=
    fun dest => modifyTable_allocates fun t => t.names_markInitialized dest.name
  refine .bind_free (checkedDestination_allocates a) fun dest => .ite ?_ ?_
  · cases a.target with
    | whole => exact .bind_free (hmark dest) fun _ => assignStep_allocates dest a.operator
    | _ => exact .fail _ _
  · cases hsource : a.source with
    | none => exact .fail _ _
    | some expr =>
        have hsize := expr.size_pos
        refine (resolve_allocates expr).bind
          (fun source => .bind_free (hmark dest) fun _ => assignSource_allocates dest source a expr)
          ?_
        simp only [Assignment.size, hsource, Option.map_some, Option.getD_some]
        omega

end Lower

/-! ### The counter of the search for names -/

namespace SymbolTable

variable {t t' : SymbolTable}

/-- Every candidate that the counter has passed is a name in the table. -/
def Consumed (t : SymbolTable) : Prop :=
  ∀ k < t.nextTemp, t.tempName k ∈ t.names

theorem Consumed.congr (h : t.Consumed) (hnext : t'.nextTemp = t.nextTemp)
    (hstem : t'.tempPrefix = t.tempPrefix) (hnames : t'.names = t.names) : t'.Consumed := by
  intro k hk
  rw [tempName_congr hstem, hnames]
  exact h k (hnext ▸ hk)

/-- **The counter does not run ahead of the table**: different numbers give different names. -/
theorem Consumed.nextTemp_le (h : t.Consumed) : t.nextTemp ≤ t.symbols.length := by
  have hnodup : ((List.range t.nextTemp).map t.tempName).Nodup :=
    List.Pairwise.map _ (fun m n hne heq => hne (t.tempName_injective heq)) List.nodup_range
  have hsub : (List.range t.nextTemp).map t.tempName ⊆ t.names := by
    intro name hname
    obtain ⟨k, hk, rfl⟩ := List.mem_map.mp hname
    exact h k (List.mem_range.mp hk)
  simpa using hnodup.length_le_of_subset hsub

/-- The search passes over taken candidates, and the one that it ends with is added. -/
theorem Consumed.newTemporary (h : t.Consumed) (type : StaticType) :
    (t.newTemporary type).2.Consumed := by
  intro k hk
  have hname : (t.newTemporary type).2.tempName k = t.tempName k := rfl
  rw [hname, newTemporary_names, List.mem_append, List.mem_singleton]
  have hle : k ≤ t.freshNumber := Nat.le_of_lt_succ hk
  rcases Nat.lt_or_eq_of_le hle with hlt | rfl
  · left
    by_cases hpassed : k < t.nextTemp
    · exact h k hpassed
    · exact tempName_mem_of_lt_freshFrom (by omega) hlt
  · exact .inr rfl

end SymbolTable

namespace Context

variable {V T : String → Prop} {a : Assignment} {ctx ctx' : Context}

theorem Grows.consumed (h : ctx.Grows V T ctx') (hctx : ctx.table.Consumed) :
    ctx'.table.Consumed := by
  induction h with
  | refl => exact hctx
  | needing _ _ ih => exact ih
  | @filling ctx' type _ _ _ _ _ _ ih => exact ih.newTemporary type

theorem foldl_book_nextTemp (tail : List Instr) (t : SymbolTable) :
    (tail.foldl Instr.book t).nextTemp = t.nextTemp := by
  induction tail generalizing t with
  | nil => rfl
  | cons i tail ih =>
      rw [List.foldl_cons, ih]
      unfold Instr.book
      split <;> rfl

section Lowering

variable {lowered : Context} (hctx : ctx.table.Consumed)
  (hgrows : (ctx.counting a.destination).Grows V T lowered)
include hctx hgrows

theorem consumed_lowered : lowered.table.Consumed := by
  refine hgrows.consumed (hctx.congr rfl rfl ?_)
  simp [counting]

theorem consumed_marked (hmore : (lowered.marking a.destination).Grows V T ctx') :
    ctx'.table.Consumed := by
  refine hmore.consumed ((consumed_lowered hctx hgrows).congr rfl rfl ?_)
  simp [marking]

end Lowering

theorem attempt_consumed (h : ctx.table.Consumed) (a : Assignment) :
    (ctx.attempt a).table.Consumed := by
  cases hrun : lowerAssignment a ctx with
  | ok u ctx' =>
      rw [attempt_of_ok hrun]
      obtain ⟨-, lowered, ready, tail, hgrows, hready, hends, -⟩ := completes_of_ok hrun
      rw [hends.table]
      exact (consumed_marked h hgrows hready).congr (foldl_book_nextTemp tail _)
        (foldl_book_tempPrefix tail _) (Instr.names_foldl_book tail _)
  | error e ctx' =>
      rw [attempt_of_error hrun]
      obtain ⟨stopped, ⟨lowered, hgrows, hstop⟩, rfl⟩ := stops_of_error hrun
      show stopped.table.Consumed
      obtain rfl | ⟨-, hmore⟩ := hstop
      · exact consumed_lowered h hgrows
      · exact consumed_marked h hgrows hmore

theorem attempts_consumed (h : ctx.table.Consumed) (calls : List Assignment) :
    (ctx.attempts calls).table.Consumed := by
  induction calls generalizing ctx with
  | nil => exact h
  | cons a calls ih => exact ih (attempt_consumed h a)

/-! ### Runs -/

/-- Cutting back after a failure leaves the table alone. -/
theorem attempt_table (ctx : Context) (a : Assignment) :
    (ctx.attempt a).table = (stateOf (Lower.assignment a ctx)).table := by
  unfold attempt
  rw [lowerAssignment_apply]
  cases Lower.assignment a ctx <;> rfl

/-- **A run adds at most two temporaries for each node of its assignments.** -/
theorem attempts_length (ctx : Context) (calls : List Assignment) :
    (ctx.attempts calls).table.symbols.length ≤
      ctx.table.symbols.length + 2 * Assignment.sizeAll calls := by
  induction calls generalizing ctx with
  | nil => simp
  | cons a calls ih =>
      have hcall : (ctx.attempt a).table.symbols.length ≤
          ctx.table.symbols.length + 2 * a.size := by
        rw [attempt_table]
        exact Lower.assignment_allocates a ctx
      have hrest := ih (ctx.attempt a)
      simp only [attempts_cons, Assignment.sizeAll]
      omega

theorem length_declare (t : SymbolTable) (s : Symbol) :
    (t.declare s).symbols.length ≤ t.symbols.length + 1 := by
  unfold SymbolTable.declare SymbolTable.declare?
  split <;> simp [SymbolTable.push]

/-- A function body starts with what it declares and the receiver. -/
theorem length_initial (options : Options) (classDef : Option ClassDef)
    (declarations : List Declaration) :
    (Context.initial options classDef declarations).table.symbols.length ≤
      declarations.length + 1 := by
  have hdeclare : ∀ t : SymbolTable,
      (declarations.foldl (fun t d => t.declare d.symbol) t).symbols.length ≤
        t.symbols.length + declarations.length := by
    induction declarations with
    | nil => simp
    | cons d declarations ih =>
        intro t
        have hfirst := length_declare t d.symbol
        have hrest := ih (t.declare d.symbol)
        simp only [List.foldl_cons, List.length_cons]
        omega
  have hstart : ∀ ctx : Context, ctx.table.symbols.length ≤ 1 →
      (declarations.foldl (fun t d => t.declare d.symbol) ctx.table).symbols.length ≤
        declarations.length + 1 := by
    intro ctx hctx
    have hall := hdeclare ctx.table
    omega
  cases classDef with
  | none => exact hstart _ (by simp [Context.ofOptions])
  | some c => exact hstart _ (by rw [symbols_withClass]; simp)

end Context

end BoxedLet
