import BoxedLet.Proofs.Course
import BoxedLet.Proofs.Judgement
import BoxedLet.Proofs.Simulation

/-!
# BoxedLet.Proofs.Acceptance

**Whether an assignment is accepted is a static judgement** (`Context.Accepts`). It is made of the
destination's declaration, of what the source and the index are by themselves, and of the strategy
table, although the lowering finds all of this out step by step, in a state that it changes on the
way.

Checks are decided computations (`Lower.Decides`), and what follows the last check cannot fail
(`Lower.Total`). `Lower.SucceedsIff` puts the two together, once for each target.
-/

namespace BoxedLet

variable {span : Span}

/-! ### The judgement -/

/-- The assignment steps the variable `d`; it does not matter whether it has a source. -/
def Assignment.Steps (a : Assignment) (d : Symbol) : Prop :=
  a.operator.isStep = true ∧ a.target = .whole ∧
    (d.type.isIntegral = true ∨ d.type = .double ∨ d.type = .dynamic)

namespace Context

/-- Lowering the expression in this state succeeds, with a source of the given shape. -/
def Compiles (ctx : Context) (e : Expr) (shape : Shape) : Prop :=
  ∃ span source lowered, Lower.resolve span e ctx = .ok source lowered ∧
    source.shapeIn lowered.table = some shape

/-- The operator can write a source of the given shape to the target, a part of the variable `d`. -/
def Admits (ctx : Context) (d : Symbol) (op : Operator) (shape : Shape) : Target → Prop
  | .whole => ∃ family, d.type.family? = some family ∧
      (Strategy.select? family shape op).isSome = true
  | .append => op = .assign ∧ d.type = .dynamic ∧ d.storage = .heapBoxed
  | .element index => op = .assign ∧ (d.type = .dynamic ∧ d.storage = .heapBoxed) ∧
      ∃ key, ctx.Compiles index key ∧
        (key.type.isInteger = true ∨ key.type = .string ∨ key.type = .dynamic)
  | .property name => op = .assign ∧ (d.type = .dynamic ∧ d.storage = .heapBoxed) ∧
      (ctx.options.isReceiver d.name = true →
        ∃ c, ctx.classDef = some c ∧ c.hasProperty name = true)
  | .propertyAppend _ => op = .assign ∧ d.type = .dynamic ∧ shape = .binding .dynamic
  | .propertyElement _ index => op = .assign ∧ d.type = .dynamic ∧
      ctx.Compiles index (.binding .dynamic) ∧ shape = .binding .dynamic

/-- The variable `d` is the destination of the assignment, and may be. -/
def Offers (ctx : Context) (a : Assignment) (d : Symbol) : Prop :=
  ctx.table.get? a.destination = some d ∧ d.readOnly = false ∧ d.type.isPseudo = false ∧
    (ctx.options.isReceiver a.destination = true → a.target.isProperty = true)

/-- The assignment has a source that can be written to its target, a part of the variable `d`. -/
def Writes (ctx : Context) (a : Assignment) (d : Symbol) : Prop :=
  ∃ e shape, a.source = some e ∧ ctx.Compiles e shape ∧
    (∀ x s, e = .var x → ctx.table.get? x = some s → s.type.isPseudo = false) ∧
    ctx.Admits d a.operator shape a.target

/-- The assignment is acceptable in this state. -/
def Accepts (ctx : Context) (a : Assignment) : Prop :=
  ∃ d, ctx.Offers a d ∧ (a.Steps d ∨ ctx.Writes a d)

end Context

/-! ### What expressions compile to -/

theorem Source.Has.shapeIn {V : String → Prop} {start ctx : Context} {s : Source} {shape : Shape}
    (hs : s.Has V start.table.typeOf? shape) (hctx : start.LikeOn V ctx) :
    s.shapeIn ctx.table = some shape := by
  unfold Source.shapeIn
  cases hs with
  | value htype => rw [if_neg htype]
  | box htype hname => rw [if_pos htype, hname]
  | var htype hname hx hΓ =>
      rw [if_pos htype, hname]
      simp only [hctx.typeOf? _ hx, hΓ, Option.map_some]

/-- Only a variable of a pseudo type is an expression without a value. -/
theorem Expr.isUsable_shape_iff (table : SymbolTable) (e : Expr) :
    (e.shape table.typeOf?).isUsable = true ↔
      ∀ x s, e = .var x → table.get? x = some s → s.type.isPseudo = false := by
  cases e with
  | var x =>
      have hshape : ∀ s, table.get? x = some s →
          ((Expr.var x).shape table.typeOf?).isUsable = !s.type.isPseudo := by
        intro s hget
        simp [Expr.shape, SymbolTable.typeOf?, hget, Shape.isUsable]
      constructor
      · rintro h _ s ⟨⟩ hget
        simpa [hshape s hget] using h
      · intro h
        cases hget : table.get? x with
        | none =>
            -- a variable that is not in the table counts as a box
            simp only [Expr.shape, SymbolTable.typeOf?, hget]
            rfl
        | some s => simp [hshape s hget, h x s rfl hget]
  | _ => simp [Expr.shape, Shape.isUsable_ofType]

namespace Context

variable {V : String → Prop} {ctx : Context} {e : Expr} {shape : Shape}

/-- A state is like itself if the variables that could be taken for temporaries are in the table. -/
theorem LikeOn.refl (h : ∀ x, V x → ctx.table.IsTempName x → x ∈ ctx.table.names) :
    ctx.LikeOn V ctx := by
  refine ⟨rfl, rfl, fun _ _ => rfl, ?_⟩
  intro x hx hunknown htemp
  have hget : ctx.table.get? x = none := Option.map_eq_none_iff.mp hunknown
  exact SymbolTable.get?_eq_none_iff.mp hget (h x hx htemp)

/-- What an expression compiles to is a matter of declared types. -/
theorem compiles_iff (hctx : ctx.LikeOn V ctx) (hV : ∀ x, e.mentions x = true → V x) :
    ctx.Compiles e shape ↔
      e.isWellTyped ctx.table.typeOf? = true ∧ e.shape ctx.table.typeOf? = shape := by
  have hresolve : ∀ span, Lower.Decides V ctx (Lower.resolve span e) _ _ :=
    fun span => Lower.resolve_decides hV
  constructor
  · rintro ⟨span, source, lowered, hrun, hcompiled⟩
    have hdecided := hresolve span ctx hctx
    rw [hrun] at hdecided
    obtain ⟨hwell, hhas, hlowered⟩ := hdecided
    exact ⟨hwell, Option.some.inj ((hhas.shapeIn hlowered).symm.trans hcompiled)⟩
  · rintro ⟨hwell, rfl⟩
    have hdecided := hresolve {} ctx hctx
    cases hrun : Lower.resolve {} e ctx with
    | error error lowered =>
        rw [hrun, hwell] at hdecided
        cases hdecided
    | ok source lowered =>
        rw [hrun] at hdecided
        exact ⟨{}, source, lowered, hrun, hdecided.2.1.shapeIn hdecided.2.2⟩

end Context

namespace Lower

variable {α β : Type} {V : String → Prop} {start : Context}

/-! ### Computations that cannot fail -/

/-- The computation succeeds in every state. -/
def Total (x : Lower α) : Prop :=
  ∀ ctx, ∃ a ctx', x ctx = .ok a ctx'

namespace Total

theorem pure (a : α) : Total (pure a) :=
  fun ctx => ⟨a, ctx, rfl⟩

theorem bind {x : Lower α} {f : α → Lower β} (hx : Total x) (hf : ∀ a, Total (f a)) :
    Total (x >>= f) := by
  intro ctx
  obtain ⟨a, ctx', hrun⟩ := hx ctx
  rw [bind_apply, hrun]
  exact hf a ctx'

theorem get : Total get :=
  fun ctx => ⟨ctx, ctx, rfl⟩

theorem emit (i : Instr) : Total (emit i) :=
  fun ctx => ⟨(), _, emit_apply i ctx⟩

theorem require (h : Header) : Total (require h) :=
  fun ctx => ⟨(), _, require_apply h ctx⟩

theorem modifyTable (f : SymbolTable → SymbolTable) : Total (modifyTable f) :=
  fun ctx => ⟨(), _, modifyTable_apply f ctx⟩

theorem fillTemporary (type : StaticType) (instr : Place → Instr) :
    Total (fillTemporary type instr) :=
  fun ctx => ⟨_, _, fillTemporary_apply type instr ctx⟩

end Total

/-- In all states like `start`, the computation succeeds under the condition and fails without
it. -/
def SucceedsIff (V : String → Prop) (start : Context) (x : Lower Unit) (P : Prop) : Prop :=
  ∀ ctx, start.LikeOn V ctx → ((∃ ctx', x ctx = .ok () ctx') ↔ P)

namespace SucceedsIff

variable {x : Lower α} {f : α → Lower Unit} {verdict : Bool} {post : α → Prop} {P Q : Prop}

theorem congr {x : Lower Unit} (hx : SucceedsIff V start x P) (h : P ↔ Q) :
    SucceedsIff V start x Q :=
  fun ctx hctx => (hx ctx hctx).trans h

theorem fail (span : Span) (cause : Cause) (h : ¬ P) : SucceedsIff V start (fail span cause) P := by
  intro ctx _
  simp [h]

theorem of_total {x : Lower Unit} (hx : Total x) (h : P) : SucceedsIff V start x P := by
  intro ctx _
  obtain ⟨_, ctx', hrun⟩ := hx ctx
  exact ⟨fun _ => h, fun _ => ⟨ctx', hrun⟩⟩

/-- A check, and what follows if it succeeds. -/
theorem bind (hx : Decides V start x verdict post)
    (hf : verdict = true → ∀ a, post a → SucceedsIff V start (f a) P) :
    SucceedsIff V start (x >>= f) (verdict = true ∧ P) := by
  intro ctx hctx
  have hx := hx ctx hctx
  rw [bind_apply]
  cases hrun : x ctx with
  | error e ctx' =>
      rw [hrun] at hx
      dsimp only at hx
      simp [hx]
  | ok a ctx' =>
      rw [hrun] at hx
      obtain ⟨hverdict, ha, hctx'⟩ := hx
      have hrest := hf hverdict a ha ctx' hctx'
      exact hrest.trans (by simp [hverdict])

/-- A step that cannot fail, before others. -/
theorem bind_true (hx : Decides V start x true post)
    (hf : ∀ a, post a → SucceedsIff V start (f a) P) : SucceedsIff V start (x >>= f) P :=
  (bind hx fun _ => hf).congr (by simp)

/-- The last check. -/
theorem bind_total (hx : Decides V start x verdict post)
    (hf : verdict = true → ∀ a, post a → Total (f a)) :
    SucceedsIff V start (x >>= f) (verdict = true) :=
  (bind hx fun hverdict a ha => .of_total (hf hverdict a ha) trivial).congr (Iff.of_eq (and_true _))

end SucceedsIff

end Lower

/-! ### Plain variable targets -/

/-- No strategy is for a step. -/
theorem Strategy.select?_of_isStep {op : Operator} (hstep : op.isStep = true) (family : Family)
    (shape : Shape) : select? family shape op = none := by
  cases op with
  | increment | decrement =>
      cases family with
      | integer | double | string | dynamic => rfl
      | bool =>
          -- the only table that looks at the shape first
          show forBool shape _ = none
          unfold forBool
          split <;> rfl
  | _ => exact absurd hstep (by decide)

/-- No target admits a step of a source. -/
theorem Context.Admits.not_isStep {ctx : Context} {d : Symbol} {op : Operator} {shape : Shape}
    {target : Target} (h : ctx.Admits d op shape target) : op.isStep = false := by
  cases target with
  | whole =>
      obtain ⟨family, -, hselect⟩ := h
      cases hstep : op.isStep with
      | false => rfl
      | true =>
          rw [Strategy.select?_of_isStep hstep] at hselect
          exact absurd hselect (by decide)
  | _ =>
      obtain ⟨rfl, -⟩ := h
      rfl

/-- A strategy for a native scalar is only ever selected for an operator with a native form. -/
theorem Strategy.isNative_of_select? {t : StaticType} {family : Family} {shape : Shape}
    {op : Operator} {strategy : Strategy} (hfamily : t.family? = some family)
    (ht : t.isNativeScalar = true) (h : select? family shape op = some strategy) :
    op.isNative = true := by
  have hassign : op.isAssignOrAdd = true → op.isNative = true := by
    cases op <;> decide
  have hhas := Family.has_of_family? hfamily
  cases family with
  | integer =>
      unfold select? forInteger at h
      grind
  | double =>
      unfold select? forDouble at h
      grind
  | bool =>
      unfold select? forBool at h
      grind [Operator.isAssignOrAdd]
  | string | dynamic =>
      obtain rfl := hhas
      exact absurd ht (by decide)

namespace Lower

variable {V : String → Prop} {start : Context} {dest : Symbol} {op : Operator} {shape : Shape}
  {source : Source}

theorem storeNative_total {value : Code} (h : op.isNative = true) :
    Total (storeNative span dest op shape value) := by
  obtain ⟨native, hnative⟩ := Option.isSome_iff_exists.mp h
  unfold storeNative
  rw [hnative]
  exact .emit _

theorem writeString_total {text : Lower StringSource} (htext : Total text) :
    Total (writeString dest op text) :=
  (Total.modifyTable _).bind fun _ => (Total.require _).bind fun _ => htext.bind fun _ => .emit _

theorem rebuild_total (content : BoxContent) : Total (rebuild dest content) :=
  fun ctx => ⟨(), _, rebuild_apply dest content ctx⟩

theorem boxScalar_total (kind : BoxKind) (expr? : Option Expr) :
    Total (boxScalar dest kind shape source expr?) := by
  refine Total.get.bind fun ctx => ?_
  split
  · exact (Total.fillTemporary _ _).bind fun _ => rebuild_total _
  · exact rebuild_total _

theorem boxSource_total (h : (boxContent? shape source).isSome = true) :
    Total (boxSource span dest shape source) := by
  obtain ⟨content, hcontent⟩ := Option.isSome_iff_exists.mp h
  unfold boxSource
  rw [hcontent]
  exact rebuild_total content

theorem copyBox_total : Total (copyBox dest source) := by
  unfold copyBox
  split
  · exact .pure ()
  · exact (Total.modifyTable _).bind fun _ => .emit _

theorem updateInPlace_total : Total (updateInPlace dest op source) :=
  (Total.require _).bind fun _ => (Total.modifyTable _).bind fun _ => .emit _

/-- **Carrying out the selected strategy cannot fail.** -/
theorem carryOut_total {family : Family} {strategy : Strategy} {expr? : Option Expr}
    (hfamily : dest.type.family? = some family)
    (hselect : Strategy.select? family shape op = some strategy) :
    Total (carryOut span strategy dest op shape source expr?) := by
  have hserves := Strategy.select?_serves hfamily hselect
  have hsuits := Strategy.select?_suits hselect
  have hnative : dest.type.isNativeScalar = true → op.isNative = true :=
    fun hdest => Strategy.isNative_of_select? hfamily hdest hselect
  cases strategy with
  | nativeZero | nativeDirect | nativeCast kind | nativeBoolean | boolTernary =>
      exact storeNative_total (hnative hserves)
  | numberCoerce | boolCoerce =>
      exact (Total.require _).bind fun _ => storeNative_total (hnative hserves)
  | stringLiteral | stringBuffer | stringChar | stringLong =>
      exact writeString_total (.pure _)
  | stringCoerceLong =>
      exact writeString_total ((Total.require _).bind fun _ => .pure _)
  | boxValue kind => exact boxScalar_total kind expr?
  | boxNull | boxString | boxStringBuffer | boxEmptyArray =>
      have hcontent : (boxContent? shape source).isSome = true := by
        obtain rfl := hsuits
        rfl
      exact boxSource_total hcontent
  | boxBinding kind =>
      -- a native variable is no box yet
      obtain ⟨t, rfl, hkind⟩ := hsuits
      have hscalar : (Shape.binding t).type.isNativeScalar = true :=
        BoxKind.native_of_ofType? hkind
      have hbinding : Shape.binding t ≠ .binding .dynamic := by
        rintro ⟨⟩
        exact absurd hscalar (by decide)
      exact boxSource_total
        (boxContent?_isSome source (by simp) hbinding (isUsable_of_isNativeScalar hscalar))
  | boxCopy => exact copyBox_total
  | boxArithmetic => exact updateInPlace_total

theorem assignWhole_succeeds {expr? : Option Expr} (hwritable : dest.readOnly = false)
    (hs : source.Has V start.table.typeOf? shape) :
    SucceedsIff V start (assignWhole span dest op source expr?)
      (start.Admits dest op shape .whole ∧ shape.isUsable = true) := by
  unfold assignWhole
  -- here the source is looked at before the table
  rw [hwritable, and_comm]
  cases hfamily : dest.type.family? with
  | none => exact .fail _ _ (by simp [Context.Admits, hfamily])
  | some family =>
      refine .bind (shape_decides hs) ?_
      rintro - found rfl
      cases hselect : Strategy.select? family found op with
      | none => exact .fail _ _ (by simp [Context.Admits, hfamily, hselect])
      | some strategy =>
          exact .of_total (carryOut_total hfamily hselect)
            ⟨family, hfamily, by rw [hselect]; rfl⟩

/-- The types of destination that can be stepped, by their families. -/
theorem steppable_iff (t : StaticType) :
    (t.isIntegral = true ∨ t = .double ∨ t = .dynamic) ↔
      t.family? = some .integer ∨ t.family? = some .double ∨ t.family? = some .dynamic := by
  cases t <;> decide

theorem stepDestination_succeeds (direction : Step) :
    SucceedsIff V start (stepDestination span dest direction op)
      (dest.type.isIntegral = true ∨ dest.type = .double ∨ dest.type = .dynamic) := by
  rw [steppable_iff]
  unfold stepDestination
  cases hfamily : dest.type.family? with
  | none => exact .fail _ _ (by simp)
  | some family =>
      cases family with
      | integer | double => exact .of_total (.emit _) (by simp)
      | bool | string => exact .fail _ _ (by simp)
      | dynamic =>
          refine .of_total ((Total.require _).bind fun _ => ?_) (by simp)
          split
          · exact .emit _
          · exact (Total.emit _).bind fun _ => .emit _

theorem assignStep_succeeds (hstep : op.isStep = true) (hwritable : dest.readOnly = false) :
    SucceedsIff V start (assignStep span dest op)
      (dest.type.isIntegral = true ∨ dest.type = .double ∨ dest.type = .dynamic) := by
  unfold assignStep
  rw [hwritable]
  cases op with
  | increment => exact stepDestination_succeeds .increment
  | decrement => exact stepDestination_succeeds .decrement
  | _ => exact absurd hstep (by decide)

/-! ### Targets inside a box -/

theorem checkAssign_decides :
    Decides V start (checkAssign span dest op source) (op == .assign) fun _ => True :=
  .guard _ _ fun _ => .pure trivial

theorem checkHeapBox_decides :
    Decides V start (checkHeapBox span dest)
      (decide (dest.type = .dynamic ∧ dest.storage = .heapBoxed))
      fun _ => True :=
  .guard _ _ fun _ => .pure trivial

theorem checkObject_decides :
    Decides V start (checkObject span dest) (dest.type == .dynamic) fun _ => True :=
  .guard _ _ fun _ => .pure trivial

theorem checkProperty_decides (property : String) :
    Decides V start (checkProperty span dest property)
      (!start.options.isReceiver dest.name || start.classDef.any (·.hasProperty property))
      fun _ => True := by
  intro ctx hctx
  simp only [checkProperty, bind_apply, get_apply, hctx.options, hctx.classDef]
  cases start.options.isReceiver dest.name with
  | false => exact ⟨rfl, trivial, hctx⟩
  | true =>
      cases start.classDef with
      | none => rfl
      | some c =>
          cases hdeclared : c.hasProperty property with
          | false => simp [hdeclared]
          | true => simp [hdeclared, hctx]

theorem receiver_declares_iff {property : String} :
    (!start.options.isReceiver dest.name || start.classDef.any (·.hasProperty property)) = true ↔
      (start.options.isReceiver dest.name = true →
        ∃ c, start.classDef = some c ∧ c.hasProperty property = true) := by
  cases start.options.isReceiver dest.name <;> cases start.classDef <;> simp

/-- A source that has to be a box already. -/
theorem box_decides {code : Code} (span : Span) (cause : Shape → Cause)
    (hs : source.Has V start.table.typeOf? shape) :
    Decides V start
      (do
        let found ← source.shape span
        if found = .binding .dynamic then pure code else fail span (cause found))
      (shape == .binding .dynamic) fun _ => True := by
  have hbox : (shape == .binding .dynamic) = (shape.isUsable && shape == .binding .dynamic) := by
    cases shape with
    | value t => rfl
    | binding t => cases t <;> rfl
  rw [hbox]
  refine (shape_decides hs).bind ?_
  rintro - found rfl
  exact .guard _ _ fun _ => .pure trivial

theorem box_and_isUsable_iff :
    shape = .binding .dynamic ∧ shape.isUsable = true ↔ shape = .binding .dynamic := by
  refine and_iff_left_of_imp ?_
  rintro rfl
  rfl

section Parts

variable {index : Expr} (hV : ∀ x, index.mentions x = true → V x)

include hV in
theorem updateKey_decides :
    Decides V start (updateKey span index)
      (index.isWellTyped start.table.typeOf? && (index.shape start.table.typeOf?).isKey)
      fun _ => True := by
  refine (resolve_decides hV).bind fun _ key hkey => ?_
  refine key_decides hkey (fun made hof => ?_) fun hof => ?_
  · simp only [hof]
    exact .pure trivial
  · simp only [hof]
    exact .fail _ _

include hV in
theorem propertyKey_decides :
    Decides V start (propertyKey span index)
      (index.isWellTyped start.table.typeOf? &&
        index.shape start.table.typeOf? == .binding .dynamic)
      fun _ => True :=
  (resolve_decides hV).bind fun _ _ hkey => box_decides _ _ hkey

section Targets

variable (hs : source.Has V start.table.typeOf? shape)
include hs

theorem assignAppend_succeeds :
    SucceedsIff V start (assignAppend span dest op source)
      (start.Admits dest op shape .append ∧ shape.isUsable = true) := by
  refine SucceedsIff.congr (.bind checkAssign_decides fun _ _ _ =>
    .bind checkHeapBox_decides fun _ _ _ =>
    .bind_total (materialize_decides hs) fun _ _ _ => ?_) ?_
  · exact (Total.require _).bind fun _ => .emit _
  · simp [Context.Admits, and_assoc]

theorem assignProperty_succeeds (property : String) :
    SucceedsIff V start (assignProperty span dest op property source)
      (start.Admits dest op shape (.property property) ∧ shape.isUsable = true) := by
  refine SucceedsIff.congr (.bind checkAssign_decides fun _ _ _ =>
    .bind checkHeapBox_decides fun _ _ _ =>
    .bind (checkProperty_decides property) fun _ _ _ =>
    .bind_total (materialize_decides hs) fun _ _ _ => ?_) ?_
  · exact (Total.require _).bind fun _ => .emit _
  · rw [receiver_declares_iff]
    simp [Context.Admits, and_assoc]

theorem appendProperty_succeeds (property : String) :
    SucceedsIff V start (appendProperty span dest op property source)
      (start.Admits dest op shape (.propertyAppend property) ∧ shape.isUsable = true) := by
  refine SucceedsIff.congr (.bind checkAssign_decides fun _ _ _ =>
    .bind checkObject_decides fun _ _ _ =>
    .bind_total (box_decides _ _ hs) fun _ _ _ => ?_) ?_
  · exact (Total.require _).bind fun _ => .emit _
  · simp only [Context.Admits, and_assoc, beq_iff_eq, box_and_isUsable_iff]

variable (hstart : start.LikeOn V start)
include hstart hV

theorem assignElement_succeeds :
    SucceedsIff V start (assignElement span dest op index source)
      (start.Admits dest op shape (.element index) ∧ shape.isUsable = true) := by
  refine SucceedsIff.congr (.bind checkAssign_decides fun _ _ _ =>
    .bind checkHeapBox_decides fun _ _ _ =>
    .bind (updateKey_decides hV) fun _ _ _ =>
    .bind_total (materialize_decides hs) fun _ _ _ => ?_) ?_
  · exact (Total.require _).bind fun _ => .emit _
  · simp [Context.Admits, Context.compiles_iff hstart hV, Shape.isKey, and_assoc, or_assoc]

theorem assignPropertyElement_succeeds (property : String) :
    SucceedsIff V start (assignPropertyElement span dest op property index source)
      (start.Admits dest op shape (.propertyElement property index) ∧ shape.isUsable = true) := by
  refine SucceedsIff.congr (.bind checkAssign_decides fun _ _ _ =>
    .bind checkObject_decides fun _ _ _ =>
    .bind (propertyKey_decides hV) fun _ _ _ =>
    .bind_total (box_decides _ _ hs) fun _ _ _ => ?_) ?_
  · exact (Total.require _).bind fun _ => .emit _
  · simp [Context.Admits, Context.compiles_iff hstart hV, and_assoc, box_and_isUsable_iff]

end Targets

end Parts

/-! ### All targets -/

/-- **Once its source is lowered, an assignment succeeds if its target admits the source.** -/
theorem assignSource_succeeds {a : Assignment} {e : Expr} (hstart : start.LikeOn V start)
    (hV : ∀ i, a.target.index? = some i → ∀ x, i.mentions x = true → V x)
    (hwritable : dest.readOnly = false) (hs : source.Has V start.table.typeOf? shape) :
    SucceedsIff V start (assignSource dest a e source)
      (start.Admits dest a.operator shape a.target ∧ shape.isUsable = true) := by
  unfold assignSource
  cases htarget : a.target with
  | whole => exact assignWhole_succeeds hwritable hs
  | append => exact assignAppend_succeeds hs
  | element index =>
      rw [htarget] at hV
      exact assignElement_succeeds (hV index rfl) hs hstart
  | property name => exact assignProperty_succeeds hs name
  | propertyAppend name => exact appendProperty_succeeds hs name
  | propertyElement name index =>
      rw [htarget] at hV
      exact assignPropertyElement_succeeds (hV index rfl) hs hstart name

theorem markInitialized_decides (name : String) :
    Decides V start (modifyTable (·.markInitialized name)) true fun _ => True :=
  fun _ hctx => ⟨rfl, trivial, hctx.modify name fun _ => ⟨rfl, rfl⟩⟩

/-- A step of the destination. -/
theorem step_succeeds {a : Assignment} (hstep : a.operator.isStep = true)
    (htarget : a.target = .whole) (hwritable : dest.readOnly = false) :
    SucceedsIff V start
      (do
        modifyTable (·.markInitialized dest.name)
        assignStep span dest a.operator)
      (a.Steps dest) := by
  refine .bind_true (markInitialized_decides dest.name) fun _ _ => ?_
  exact (assignStep_succeeds hstep hwritable).congr (by simp [Assignment.Steps, hstep, htarget])

/-- An assignment of a source. -/
theorem source_succeeds {a : Assignment} {e : Expr} (hstart : start.LikeOn a.Reads start)
    (hsource : a.source = some e) (hwritable : dest.readOnly = false) :
    SucceedsIff a.Reads start
      (do
        let source ← resolve span e
        modifyTable (·.markInitialized dest.name)
        assignSource dest a e source)
      (start.Writes a dest) := by
  have he : ∀ x, e.mentions x = true → a.Reads x :=
    fun x hx => .inl ⟨e, hsource, hx⟩
  refine SucceedsIff.congr (.bind (resolve_decides he) fun _ source hs =>
    .bind_true (markInitialized_decides dest.name) fun _ _ =>
    assignSource_succeeds hstart (fun i hi x hx => .inr ⟨i, hi, hx⟩) hwritable hs) ?_
  rw [Expr.isUsable_shape_iff]
  constructor
  · rintro ⟨hwell, hadmits, husable⟩
    have hcompiles := (Context.compiles_iff hstart he).mpr ⟨hwell, rfl⟩
    exact ⟨e, _, hsource, hcompiles, husable, hadmits⟩
  · rintro ⟨e', shape, hsource', hcompiles, husable, hadmits⟩
    obtain rfl : e = e' := Option.some.inj (hsource.symm.trans hsource')
    obtain ⟨hwell, rfl⟩ := (Context.compiles_iff hstart he).mp hcompiles
    exact ⟨hwell, hadmits, husable⟩

theorem exists_bind_ok_iff {α : Type} {x : Lower α} {f : α → Lower Unit} {ctx : Context} :
    (∃ ctx', (x >>= f) ctx = .ok () ctx') ↔
      ∃ a mid, x ctx = .ok a mid ∧ ∃ ctx', f a mid = .ok () ctx' := by
  rw [bind_apply]
  cases hrun : x ctx with
  | error e mid => simp
  | ok a mid =>
      constructor
      · intro h
        exact ⟨a, mid, rfl, h⟩
      · rintro ⟨_, _, ⟨⟩, h⟩
        exact h

/-- An assignment succeeds if its destination is accepted and it then steps it or writes its
source. -/
theorem assignment_ok_iff {a : Assignment} {ctx : Context} (hctx : ctx.LikeOn a.Reads ctx) :
    (∃ ctx', assignment a ctx = .ok () ctx') ↔
      ∃ dest start, checkedDestination a ctx = .ok dest start ∧
        (a.Steps dest ∨ ctx.Writes a dest) := by
  unfold assignment
  rw [exists_bind_ok_iff]
  refine exists_congr fun dest => exists_congr fun start => and_congr_right fun hcheck => ?_
  obtain ⟨rfl, -, hwritable, -⟩ := checkedDestination_ok_iff.mp hcheck
  have hcounted : ctx.LikeOn a.Reads (ctx.counting a.destination) :=
    hctx.modify a.destination fun _ => ⟨rfl, rfl⟩
  by_cases hstep : a.operator.isStep = true
  · -- no target admits a step of a source
    have hwrites : ¬ ctx.Writes a dest := by
      rintro ⟨e, shape, -, -, -, hadmits⟩
      exact absurd hstep (by simp [hadmits.not_isStep])
    rw [if_pos hstep, or_iff_left hwrites]
    cases htarget : a.target with
    | whole => exact step_succeeds hstep htarget hwritable _ hcounted
    | _ => simp [Assignment.Steps, htarget]
  · have hsteps : ¬ a.Steps dest := fun h => hstep h.1
    rw [if_neg hstep, or_iff_right hsteps]
    cases hsource : a.source with
    | none => simp [Context.Writes, hsource]
    | some e => exact source_succeeds hctx hsource hwritable _ hcounted

end Lower

/-- The symbol of the destination after counting the write. -/
theorem Context.get?_counting_iff {ctx : Context} {name : String} {dest : Symbol} :
    (ctx.counting name).table.get? name = some dest ↔
      ∃ d, ctx.table.get? name = some d ∧
        { d with mutationCount := d.mutationCount + 1 } = dest := by
  have hcounted : (ctx.counting name).table.get? name = (ctx.table.get? name).map
      fun d => if d.name == name then { d with mutationCount := d.mutationCount + 1 } else d :=
    SymbolTable.get?_modify _ name name fun _ => rfl
  rw [hcounted, Option.map_eq_some_iff]
  refine exists_congr fun d => and_congr_right fun hd => ?_
  rw [SymbolTable.name_of_get? hd, if_pos (beq_self_eq_true name)]

/-- Counting the write makes no difference to what the destination is good for. -/
theorem Context.accepts_iff {ctx : Context} {a : Assignment} :
    ctx.Accepts a ↔ ∃ dest start, Lower.checkedDestination a ctx = .ok dest start ∧
      (a.Steps dest ∨ ctx.Writes a dest) := by
  have hcounted : ∀ (d : Symbol) n, (a.Steps { d with mutationCount := n } ∨
      ctx.Writes a { d with mutationCount := n }) ↔ (a.Steps d ∨ ctx.Writes a d) := by
    intro d n
    have hadmits : ∀ shape, ctx.Admits { d with mutationCount := n } a.operator shape a.target ↔
        ctx.Admits d a.operator shape a.target := by
      intro shape
      cases a.target <;> rfl
    simp only [Assignment.Steps, Writes, hadmits]
  constructor
  · rintro ⟨d, ⟨hd, hwritable, hpseudo, hreceiver⟩, hrest⟩
    have hget := get?_counting_iff.mpr ⟨d, hd, rfl⟩
    have hcheck := Lower.checkedDestination_ok_iff.mpr ⟨rfl, hget, hwritable, hpseudo, hreceiver⟩
    exact ⟨_, _, hcheck, (hcounted d _).mpr hrest⟩
  · rintro ⟨dest, start, hcheck, hrest⟩
    obtain ⟨rfl, hget, hwritable, hpseudo, hreceiver⟩ := Lower.checkedDestination_ok_iff.mp hcheck
    obtain ⟨d, hd, rfl⟩ := get?_counting_iff.mp hget
    exact ⟨d, ⟨hd, hwritable, hpseudo, hreceiver⟩, (hcounted d _).mp hrest⟩

/-- **Acceptance is a static judgement.** An assignment succeeds if and only if it is acceptable in
the state in which it starts, and what its expressions compile to there follows from the declared
types of variables. Variables that it reads and that could be taken for temporaries have to be
declared: otherwise a temporary of that name could come into being on the way. -/
theorem assignment_acceptance_static (a : Assignment) (ctx : Context)
    (hdeclared : ∀ x, a.Reads x → ctx.table.IsTempName x → x ∈ ctx.table.names) :
    ((∃ ctx', lowerAssignment a ctx = .ok () ctx') ↔ ctx.Accepts a) ∧
      ∀ e shape, a.source = some e ∨ a.target.index? = some e →
        (ctx.Compiles e shape ↔
          e.isWellTyped ctx.table.typeOf? = true ∧ e.shape ctx.table.typeOf? = shape) := by
  have hctx : ctx.LikeOn a.Reads ctx := .refl hdeclared
  constructor
  · simp only [lowerAssignment_ok_iff]
    exact (Lower.assignment_ok_iff hctx).trans Context.accepts_iff.symm
  · intro e shape he
    apply Context.compiles_iff hctx
    intro x hx
    rcases he with hsource | hindex
    · exact .inl ⟨e, hsource, hx⟩
    · exact .inr ⟨e, hindex, hx⟩

/-- `v[_1] = f(v, 1)` with a boxed `v`: temporaries are taken before the index is lowered, which is a
variable that is called like one. -/
theorem assignment_acceptance_static_element :
    let ctx : Context :=
      { table.symbols :=
          [{ name := "v", type := .dynamic, storage := .heapBoxed },
            { name := "_1", type := .int, storage := .stackOnly }] }
    let a : Assignment :=
      { target := .element (.var "_1"), destination := "v",
        source := some (.call "f" [.var "v", .int 1]) }
    (∀ x, a.Reads x → ctx.table.IsTempName x → x ∈ ctx.table.names) ∧ ctx.Accepts a ∧
      ∃ ctx', lowerAssignment a ctx = .ok () ctx' ∧
        ctx'.lines = ["ZVAL_LONG(_0, 1);", "ZEPHIR_CALL_FUNCTION(_2, \"f\", v, _0);",
          "zephir_array_update_long(&v, _1, &_2, PH_COPY | PH_SEPARATE);"] := by
  intro ctx a
  have hdeclared : ∀ x, a.Reads x → ctx.table.IsTempName x → x ∈ ctx.table.names := by
    intro x hx _
    rcases hx with ⟨_, ⟨⟩, hx⟩ | ⟨_, ⟨⟩, hx⟩
    · obtain rfl : "v" = x := by simpa [Expr.mentions, Expr.anyMentions] using hx
      decide
    · obtain rfl : "_1" = x := by simpa [Expr.mentions] using hx
      decide
  have hrun : ∃ ctx', lowerAssignment a ctx = .ok () ctx' ∧
      ctx'.lines = ["ZVAL_LONG(_0, 1);", "ZEPHIR_CALL_FUNCTION(_2, \"f\", v, _0);",
        "zephir_array_update_long(&v, _1, &_2, PH_COPY | PH_SEPARATE);"] := by
    simp only [ctx, a]
    exact ⟨_, rfl, by decide⟩
  obtain ⟨ctx', hrun, hlines⟩ := hrun
  have haccepts := (assignment_acceptance_static a ctx hdeclared).1.mp ⟨ctx', hrun⟩
  exact ⟨hdeclared, haccepts, ctx', hrun, hlines⟩

end BoxedLet
