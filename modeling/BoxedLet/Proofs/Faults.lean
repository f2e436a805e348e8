import BoxedLet.Proofs.Agree
import BoxedLet.Proofs.EffectiveType
import BoxedLet.Proofs.Operands

/-!
# BoxedLet.Proofs.Faults

**Why lowering fails.** A cause is raised in some helper, on a source and in a state that nobody sees
from outside. Here every cause that an expression can fail by is traced back to what was written, to a
part that is at fault. `Expr.Fault` has one rule for each way to fail that there is; an exit of the
lowering that no rule accounts for is one that no run takes.

The rules look at subexpressions through `Context.Lowers`: the subexpression becomes a source of that
shape in some state that the run can be in when it comes to it. Such a state has more symbols than the
first one, but these are temporaries, and those that there were are kept (`Context.Continues`). For
subexpressions whose variables are declared this makes no difference (`Context.Lowers.hasType`).

`Lower.FailsBy` is the judgement: started in a given state, a computation fails for none but the
given causes. It has one lemma for each helper, and one induction over the expression.
-/

namespace BoxedLet

variable {span : Span}

/-! ### States of a run -/

namespace SymbolTable

variable {t t' : SymbolTable}

theorem keeps_newTemporary (t : SymbolTable) (type : StaticType) :
    t.Keeps (t.newTemporary type).2 := by
  intro n s hs
  exact ⟨s, (get?_append rfl (mem_names_of_get? hs)).trans hs, rfl, rfl, rfl⟩

/-- What is not in the second table is not in the first. -/
theorem Keeps.not_mem_names (h : t.Keeps t') {x : String} (hx : t'.get? x = none) :
    x ∉ t.names := by
  rw [← get?_eq_none_iff]
  cases hget : t.get? x with
  | none => rfl
  | some s =>
      obtain ⟨s', hs', -⟩ := h x s hget
      cases hx.symm.trans hs'

theorem Keeps.shapeIn (h : t.Keeps t') {s : Source} {shape : Shape}
    (hs : s.shapeIn t = some shape) : s.shapeIn t' = some shape := by
  unfold Source.shapeIn at hs ⊢
  split
  · rename_i hdyn
    rw [if_pos hdyn] at hs
    cases hname : s.name? with
    | none =>
        rw [hname] at hs
        exact hs
    | some x =>
        rw [hname] at hs
        obtain ⟨type, htype, rfl⟩ := Option.map_eq_some_iff.mp hs
        simp only [h.typeOf? htype, Option.map_some]
  · rename_i hdyn
    rwa [if_neg hdyn] at hs

end SymbolTable

namespace Context

/-- A run that began in `start` can have come to `ctx`: no symbol has been lost, and none but
temporaries have been gained. -/
structure Continues (start ctx : Context) : Prop where
  options : ctx.options = start.options
  classDef : ctx.classDef = start.classDef
  tempPrefix : ctx.table.tempPrefix = start.table.tempPrefix
  keeps : start.table.Keeps ctx.table
  gains : ∀ n ∈ ctx.table.names, n ∈ start.table.names ∨ start.table.IsTempName n

/-- The expression becomes a source of the shape, in a state that a run that began in `start` can have
come to. -/
def Lowers (start : Context) (e : Expr) (shape : Shape) : Prop :=
  ∃ ctx, start.Continues ctx ∧ ctx.Compiles e shape

namespace Continues

variable {start ctx ctx' : Context}

theorem refl (ctx : Context) : ctx.Continues ctx :=
  ⟨rfl, rfl, rfl, .refl _, fun _ hn => .inl hn⟩

theorem trans (h : start.Continues ctx) (h' : ctx.Continues ctx') : start.Continues ctx' := by
  refine ⟨h'.options.trans h.options, h'.classDef.trans h.classDef,
    h'.tempPrefix.trans h.tempPrefix, h.keeps.trans h'.keeps, fun n hn => ?_⟩
  rcases h'.gains n hn with hn | hn
  · exact h.gains n hn
  · exact .inr ((SymbolTable.isTempName_congr h.tempPrefix).mp hn)

theorem of_grows {V T : String → Prop} (h : ctx.Grows V T ctx') : ctx.Continues ctx' :=
  ⟨h.options, h.classDef, h.tempPrefix, h.keeps, fun _ hn => h.isTempName hn⟩

theorem needing (ctx : Context) (header : Header) : ctx.Continues (ctx.needing header) :=
  ⟨rfl, rfl, rfl, .refl _, fun _ hn => .inl hn⟩

theorem filling (ctx : Context) (type : StaticType) (i : Instr) :
    ctx.Continues (ctx.filling type i) := by
  refine ⟨rfl, rfl, rfl, ctx.table.keeps_newTemporary type, fun n hn => ?_⟩
  rw [Context.filling, SymbolTable.newTemporary_names, List.mem_append, List.mem_singleton] at hn
  rcases hn with hn | rfl
  · exact .inl hn
  · exact .inr ctx.table.isTempName_nextName

theorem counting (ctx : Context) (name : String) : ctx.Continues (ctx.counting name) :=
  ⟨rfl, rfl, rfl, ctx.table.keeps_countWrite name, fun n hn => .inl (by
    simpa [Context.counting] using hn)⟩

theorem marking (ctx : Context) (name : String) : ctx.Continues (ctx.marking name) :=
  ⟨rfl, rfl, rfl, ctx.table.keeps_markInitialized name, fun n hn => .inl (by
    simpa [Context.marking] using hn)⟩

/-- For variables that are declared, or cannot be taken for temporaries, nothing has changed. -/
theorem likeOn (h : start.Continues ctx) {V : String → Prop}
    (hV : ∀ x, V x → start.table.IsTempName x → x ∈ start.table.names) : start.LikeOn V ctx := by
  refine ⟨h.options, h.classDef, fun x hx => ?_, fun x hx hunknown htemp => ?_⟩
  · cases htype : start.table.typeOf? x with
    | some t => exact h.keeps.typeOf? htype
    | none =>
        have hnone : x ∉ start.table.names :=
          SymbolTable.get?_eq_none_iff.mp (Option.map_eq_none_iff.mp htype)
        have hnone' : x ∉ ctx.table.names := by
          intro hmem
          rcases h.gains x hmem with hmem | htemp
          · exact hnone hmem
          · exact hnone (hV x hx htemp)
        rw [SymbolTable.typeOf?, SymbolTable.get?_eq_none_iff.mpr hnone']
        rfl
  · have hmem := hV x hx ((SymbolTable.isTempName_congr h.tempPrefix).mp htemp)
    exact SymbolTable.get?_eq_none_iff.mp (Option.map_eq_none_iff.mp hunknown) hmem

end Continues

/-- The type of the source follows from the declared types of variables. -/
theorem Lowers.hasType {start : Context} {e : Expr} {shape : Shape} (h : start.Lowers e shape)
    (hdeclared : ∀ x, e.mentions x = true → start.table.IsTempName x → x ∈ start.table.names) :
    e.HasType start.table.typeOf? shape.type := by
  obtain ⟨ctx, hctx, span, s, lowered, hrun, hshape⟩ := h
  have hdecides : Lower.Decides (e.mentions · = true) start (Lower.resolve span e) _ _ :=
    Lower.resolve_decides fun x hx => hx
  have hresolve := hdecides ctx (hctx.likeOn hdeclared)
  rw [hrun] at hresolve
  obtain ⟨hwell, hhas, hlowered⟩ := hresolve
  obtain rfl := Option.some.inj ((hhas.shapeIn hlowered).symm.trans hshape)
  exact Expr.hasType_iff.mpr ⟨hwell, (Expr.shape_type _ e).symm⟩

/-- Names and types are all that the shape of a source depends on. -/
theorem Agrees.shapeIn {ctx ctx' : Context} (h : ctx.Agrees ctx') (s : Source) :
    s.shapeIn ctx'.table = s.shapeIn ctx.table := by
  unfold Source.shapeIn
  split
  · cases s.name? with
    | none => rfl
    | some x => simp only [h.typeOf? x]
  · rfl

end Context

/-! ### The faults of an expression -/

namespace Expr

/-- The second expression is the first or a part of it. -/
inductive Contains : Expr → Expr → Prop
  | refl (e : Expr) : Contains e e
  | left {l sub : Expr} (op : BinaryOp) (r : Expr) (h : Contains l sub) :
      Contains (.binary op l r) sub
  | right {r sub : Expr} (op : BinaryOp) (l : Expr) (h : Contains r sub) :
      Contains (.binary op l r) sub
  | not {e sub : Expr} (h : Contains e sub) : Contains (.not e) sub
  | object {e sub : Expr} (name : String) (h : Contains e sub) : Contains (.property e name) sub
  | array {a sub : Expr} (i : Expr) (h : Contains a sub) : Contains (.index a i) sub
  | index {i sub : Expr} (a : Expr) (h : Contains i sub) : Contains (.index a i) sub
  | arg {e sub : Expr} {args : List Expr} (name : String) (he : e ∈ args) (h : Contains e sub) :
      Contains (.call name args) sub

/-- The parts that are tested for truth. -/
def tested : Expr → List Expr
  | .binary (.connect _) l r => [l, r]
  | .not e => [e]
  | _ => []

/-- The parts whose values are computed with, whatever their types: operands of the other operators,
indexes and arguments. -/
def consumed : Expr → List Expr
  | .binary (.connect _) _ _ => []
  | .binary _ l r => [l, r]
  | .index _ i => [i]
  | .call _ args => args
  | _ => []

/-- What can be wrong with an expression itself, rather than with a part of it, in a run that began in
`start`. -/
inductive Fault (start : Context) : Expr → Cause → Prop
  | undeclared {x : String} (hx : x ∉ start.table.names) :
      Fault start (.var x) (.undeclaredVariable x .read)
  | nonFinite {x : Float} {value : Decimal.NonFinite} (hx : Decimal.decode x = .error value) :
      Fault start (.double x) (.invalidExpr (.nonFinite value))
  /-- A variable of a pseudo type is used as a value. -/
  | unusable {e part : Expr} {shape : Shape} (hpart : part ∈ e.consumed)
      (hshape : start.Lowers part shape) (hbad : shape.isUsable = false) :
      Fault start e (.unknownSource shape.type)
  /-- The cause has the static type of what cannot be tested. -/
  | untestable {e part : Expr} {shape : Shape} (hpart : part ∈ e.tested)
      (hshape : start.Lowers part shape) (hbad : shape.isCondition = false) :
      Fault start e (.invalidExpr (.notCondition (part.staticType shape.type)))
  | unreadable {e : Expr} {shape : Shape} (name : String) (hshape : start.Lowers e shape)
      (hbad : shape.type ≠ .dynamic) :
      Fault start (.property e name) (.invalidExpr (.notReadable name shape.type))
  | unindexable {a : Expr} {shape : Shape} (i : Expr) (hshape : start.Lowers a shape)
      (hbad : shape.type ≠ .dynamic) :
      Fault start (.index a i) (.invalidExpr (.notIndexable shape.type))
  /-- The cause has the static type of the index. -/
  | badIndex {i : Expr} {shape : Shape} (a : Expr) (hshape : start.Lowers i shape)
      (hbad : shape.isKey = false) :
      Fault start (.index a i) (.invalidIndex (i.staticType shape.type) .readArray)

/-- The expression has a part that is at fault. -/
def Faulty (start : Context) (e : Expr) (cause : Cause) : Prop :=
  ∃ sub, e.Contains sub ∧ sub.Fault start cause

end Expr

/-! ### Computations and the causes they fail by -/

namespace Lower

variable {α β : Type} {P Q : Cause → Prop} {ctx : Context}

/-- Started in `ctx`, the computation succeeds or fails at the given position, by a cause with the
property. -/
def FailsBy (span : Span) (P : Cause → Prop) (x : Lower α) (ctx : Context) : Prop :=
  ∀ ⦃e ctx'⦄, x ctx = .error e ctx' → e.location = span.location ∧ P e.cause

namespace FailsBy

theorem mono {x : Lower α} (hx : FailsBy span P x ctx) (h : ∀ ⦃cause⦄, P cause → Q cause) :
    FailsBy span Q x ctx :=
  fun _ _ hrun => ⟨(hx hrun).1, h (hx hrun).2⟩

theorem of_ok {x : Lower α} {a : α} {ctx' : Context} (hx : x ctx = .ok a ctx') :
    FailsBy span P x ctx := by
  intro e c hrun
  rw [hx] at hrun
  cases hrun

theorem pure (a : α) : FailsBy span P (pure a) ctx :=
  of_ok (pure_apply a ctx)

theorem of_total {x : Lower α} (hx : Total x) : FailsBy span P x ctx := by
  obtain ⟨_, _, hrun⟩ := hx ctx
  exact of_ok hrun

theorem fail {cause : Cause} (h : P cause) : FailsBy span P (fail span cause : Lower α) ctx := by
  intro _ _ hrun
  cases hrun
  exact ⟨rfl, h⟩

/-- **Sequencing.** The second part starts where the first has ended. -/
theorem bind {x : Lower α} {f : α → Lower β} (hx : FailsBy span P x ctx)
    (hf : ∀ a ctx', x ctx = .ok a ctx' → FailsBy span P (f a) ctx') :
    FailsBy span P (x >>= f) ctx := by
  intro e ctx' hrun
  rw [bind_apply] at hrun
  cases hfirst : x ctx with
  | error e c =>
      rw [hfirst] at hrun
      cases hrun
      exact hx hfirst
  | ok a c =>
      rw [hfirst] at hrun
      exact hf a c hfirst hrun

/-- A first part whose outcome is known. -/
theorem bind_ok {x : Lower α} {f : α → Lower β} {a : α} {ctx' : Context}
    (hx : x ctx = .ok a ctx') (hf : FailsBy span P (f a) ctx') : FailsBy span P (x >>= f) ctx := by
  refine bind (of_ok hx) fun b c hrun => ?_
  cases hx.symm.trans hrun
  exact hf

/-- A first part that can fail in one way only. -/
theorem bind_cases {x : Lower α} {f : α → Lower β} {bad : Prop} {cause : Cause}
    (hx : bad ∧ x ctx = .error ⟨cause, span.location⟩ ctx ∨
      ∃ a ctx', x ctx = .ok a ctx' ∧ ctx.Continues ctx')
    (hbad : bad → P cause) (hf : ∀ a ctx', ctx.Continues ctx' → FailsBy span P (f a) ctx') :
    FailsBy span P (x >>= f) ctx := by
  obtain ⟨hreason, hrun⟩ | ⟨a, ctx', hrun, hctx'⟩ := hx
  · refine bind (fun _ _ hfail => ?_) fun a ctx' hok => ?_
    · cases hrun.symm.trans hfail
      exact ⟨rfl, hbad hreason⟩
    · cases hrun.symm.trans hok
  · exact bind_ok hrun (hf a ctx' hctx')

end FailsBy

end Lower

/-! ### Sources and the expressions they come from -/

namespace Source

variable {ctx : Context} {s : Source} {shape : Shape}

theorem Fits.shapeIn {V T : String → Prop} (hs : s.Fits (Visible V T ctx.table)) :
    ∃ shape, s.shapeIn ctx.table = some shape := by
  cases hs with
  | null | emptyArray | string | box => exact ⟨_, rfl⟩
  | @scalar t _ _ ht _ _ =>
      have hdyn : t ≠ .dynamic := by
        rintro rfl
        exact absurd ht (by decide)
      exact ⟨.value t, if_neg hdyn⟩
  | @var x t hx =>
      refine ⟨.binding t, ?_⟩
      show (ctx.table.typeOf? x).map Shape.binding = some (.binding t)
      rw [hx.2, Option.map_some]

/-- No value is a box. -/
theorem ne_value_dynamic {table : SymbolTable} (h : s.shapeIn table = some shape) :
    shape ≠ .value .dynamic := by
  rintro rfl
  by_cases hdyn : s.type = .dynamic
  · rw [shapeIn, if_pos hdyn] at h
    cases hname : s.name? <;> simp [hname] at h
  · exact hdyn (Shape.value.inj (type_of_shapeIn h rfl hdyn)).symm

/-- **The shape of a source, by the table alone**, unless it is a variable of a pseudo type. -/
theorem shape_apply (h : s.shapeIn ctx.table = some shape) :
    s.shape span ctx =
      if shape.isUsable then .ok shape ctx
      else .error ⟨.unknownSource shape.type, span.location⟩ ctx := by
  unfold Source.shape
  by_cases hdyn : s.type = .dynamic
  · have hsubtype : s.subtype span ctx = .ok shape.type ctx := subtype_of_shapeIn h
    obtain ⟨t, rfl⟩ : ∃ t, shape = .binding t := by
      rw [shapeIn, if_pos hdyn] at h
      cases hname : s.name? with
      | none =>
          rw [hname] at h
          exact ⟨_, (Option.some.inj h).symm⟩
      | some x =>
          rw [hname] at h
          obtain ⟨t, -, rfl⟩ := Option.map_eq_some_iff.mp h
          exact ⟨t, rfl⟩
    rw [if_pos hdyn, Lower.bind_apply, hsubtype]
    cases hpseudo : t.isPseudo <;> simp [Shape.type, Shape.isUsable, hpseudo]
  · rw [if_neg hdyn, type_of_shapeIn h rfl hdyn]
    rfl

/-- The source `s` is what the expression `e` has become, in a run that began in `start` and has come
to `ctx`. -/
structure Of (start : Context) (e : Expr) (shape : Shape) (ctx : Context) (s : Source) : Prop where
  lowers : start.Lowers e shape
  shapeIn : s.shapeIn ctx.table = some shape
  type : s.type = e.staticType shape.type

theorem Of.later {start ctx' : Context} {e : Expr} (hs : s.Of start e shape ctx)
    (h : ctx.Continues ctx') : s.Of start e shape ctx' :=
  { hs with shapeIn := h.keeps.shapeIn hs.shapeIn }

end Source

namespace Lower

variable {α : Type} {start ctx ctx' : Context} {e : Expr} {s : Source} {shape : Shape}

theorem Quiet.continues {x : Lower α} {a : α} {post : α → Context → Prop}
    (hx : Quiet (fun _ => True) (fun _ => True) x ctx post) (hrun : x ctx = .ok a ctx') :
    ctx.Continues ctx' := by
  have hx := hx fun _ _ => trivial
  rw [hrun] at hx
  exact .of_grows hx.1

theorem resolve_continues (h : resolve span e ctx = .ok s ctx') : ctx.Continues ctx' :=
  .of_grows (resolve_grows h)

theorem resolve_fits (h : resolve span e ctx = .ok s ctx') :
    s.Fits (Visible (fun _ => True) (fun _ => True) ctx'.table) := by
  have hquiet : Quiet (fun _ => True) (fun _ => True) (resolve span e) ctx fun s c =>
      s.Fits (Visible (fun _ => True) (fun _ => True) c.table) :=
    resolve_quiet e fun _ _ => trivial
  have hquiet := hquiet fun _ _ => trivial
  rw [h] at hquiet
  exact hquiet.2

theorem resolve_shapeIn (h : resolve span e ctx = .ok s ctx') :
    ∃ shape, s.shapeIn ctx'.table = some shape :=
  (resolve_fits h).shapeIn

/-- Only a variable is lowered to a variable. -/
theorem resolve_name? {x : String} (h : resolve span e ctx = .ok s ctx')
    (hname : s.name? = some x) :
    e = .var x := by
  obtain ⟨b, rfl⟩ | ⟨y, rfl⟩ | hcomputed := resolve_computed e
  · cases h
    cases hname
  · obtain ⟨rfl, -⟩ := resolve_var h
    cases hname
    rfl
  · rw [(hcomputed ctx s ctx' h).1] at hname
    cases hname

/-- A bare variable is dynamic, and anything else has the type that it has at run time. -/
theorem resolve_type (h : resolve span e ctx = .ok s ctx')
    (hshape : s.shapeIn ctx'.table = some shape) : s.type = e.staticType shape.type := by
  cases hname : s.name? with
  | some x =>
      obtain rfl := resolve_name? h hname
      obtain ⟨rfl, -⟩ := resolve_var h
      rfl
  | none =>
      have htype : shape.type = s.type := by
        by_cases hdyn : s.type = .dynamic
        · rw [Source.shapeIn, if_pos hdyn, hname] at hshape
          cases hshape
          exact hdyn.symm
        · rw [Source.type_of_shapeIn hshape rfl hdyn]
          rfl
      cases e with
      | var x =>
          obtain ⟨rfl, -⟩ := resolve_var h
          cases hname
      | _ => exact htype.symm

theorem resolve_of (hstart : start.Continues ctx) (h : resolve span e ctx = .ok s ctx') :
    ∃ shape, s.Of start e shape ctx' := by
  obtain ⟨shape, hshape⟩ := resolve_shapeIn h
  exact ⟨shape, ⟨ctx, hstart, span, s, ctx', h, hshape⟩, hshape, resolve_type h hshape⟩

/-- What is wrong with the expression itself. -/
theorem FailsBy.here {x : Lower α} (hx : FailsBy span (e.Fault start) x ctx) :
    FailsBy span (e.Faulty start) x ctx :=
  hx.mono fun _ h => ⟨e, .refl e, h⟩

/-- What is wrong with a part of the expression. -/
theorem FailsBy.within {part : Expr} {x : Lower α} (hx : FailsBy span (part.Faulty start) x ctx)
    (hpart : ∀ {sub}, part.Contains sub → e.Contains sub) :
    FailsBy span (e.Faulty start) x ctx := by
  refine hx.mono ?_
  rintro cause ⟨sub, hsub, h⟩
  exact ⟨sub, hpart hsub, h⟩

/-! ### Boxing -/

theorem materialize_box (h : s.shapeIn ctx.table = some (.binding .dynamic)) :
    materialize span s ctx = .ok s.code ctx := by
  simp only [materialize, bind_apply, Source.shape_apply h]
  rfl

/-- What is no box yet goes into a new one. -/
theorem materialize_new {content : BoxContent} (h : s.shapeIn ctx.table = some shape)
    (hbox : shape ≠ .binding .dynamic) (husable : shape.isUsable = true)
    (hcontent : boxContent? shape s = some content) :
    materialize span s ctx = .ok (.place (.temp ctx.table.nextName))
      (ctx.filling .dynamic (.build (.temp ctx.table.nextName) false content)) := by
  simp only [materialize, bind_apply, Source.shape_apply h, husable, if_true, if_neg hbox, hcontent,
    fillTemporary_apply, pure_apply]

theorem materialize_unusable (h : s.shapeIn ctx.table = some shape)
    (hbad : shape.isUsable = false) :
    materialize span s ctx = .error ⟨.unknownSource shape.type, span.location⟩ ctx := by
  simp only [materialize, bind_apply, Source.shape_apply h, hbad, Bool.false_eq_true, if_false]

/-- **Only variables of pseudo types cannot be made boxes.** -/
theorem materialize_cases (h : s.shapeIn ctx.table = some shape) :
    shape.isUsable = false ∧
        materialize span s ctx = .error ⟨.unknownSource shape.type, span.location⟩ ctx ∨
      ∃ c ctx', materialize span s ctx = .ok c ctx' ∧ ctx.Continues ctx' := by
  cases husable : shape.isUsable with
  | false => exact .inl ⟨rfl, materialize_unusable h husable⟩
  | true =>
      refine .inr ?_
      by_cases hbox : shape = .binding .dynamic
      · subst hbox
        exact ⟨_, ctx, materialize_box h, .refl _⟩
      · obtain ⟨content, hcontent⟩ := Option.isSome_iff_exists.mp
          (boxContent?_isSome s (Source.ne_value_dynamic h) hbox husable)
        exact ⟨_, _, materialize_new h hbox husable hcontent, .filling ..⟩

/-- The shape of a source is looked at, before something else is done. -/
theorem FailsBy.bind_shape {P : Cause → Prop} {f : Shape → Lower α}
    (h : s.shapeIn ctx.table = some shape)
    (hbad : shape.isUsable = false → P (.unknownSource shape.type))
    (hf : shape.isUsable = true → FailsBy span P (f shape) ctx) :
    FailsBy span P (s.shape span >>= f) ctx := by
  have hshape : s.shape span ctx = _ := Source.shape_apply h
  cases husable : shape.isUsable with
  | true =>
      rw [husable, if_pos rfl] at hshape
      exact .bind_ok hshape (hf husable)
  | false =>
      rw [husable, if_neg Bool.false_ne_true] at hshape
      intro e ctx' hrun
      rw [bind_apply, hshape] at hrun
      cases hrun
      exact ⟨rfl, hbad husable⟩

/-! ### Operators -/

/-- **Only what is no null literal, native scalar or box cannot be tested.** -/
theorem condition_cases (hs : s.Of start e shape ctx) :
    shape.isCondition = false ∧ condition span s ctx =
        .error ⟨.invalidExpr (.notCondition (e.staticType shape.type)), span.location⟩ ctx ∨
      ∃ c ctx', condition span s ctx = .ok c ctx' ∧ ctx.Continues ctx' := by
  simp only [condition, bind_apply, Source.subtype_of_shapeIn hs.shapeIn]
  by_cases hbool : s.type = .bool
  · rw [if_pos hbool]
    exact .inr ⟨_, ctx, rfl, .refl _⟩
  rw [if_neg hbool]
  by_cases hnull : s.type = .null
  · rw [if_pos hnull]
    exact .inr ⟨_, ctx, rfl, .refl _⟩
  rw [if_neg hnull]
  by_cases hdyn : shape.type = .dynamic
  · rw [if_pos hdyn]
    exact .inr ⟨_, ctx.needing .operators, rfl, .needing ..⟩
  rw [if_neg hdyn]
  by_cases hnative : shape.type.isNativeScalar = true
  · rw [if_pos hnative]
    exact .inr ⟨_, ctx, rfl, .refl _⟩
  rw [if_neg hnative]
  -- the one shape of null that can be tested is that of a value, whose static type is null too
  have hvalue : shape ≠ .value .null := by
    rintro rfl
    by_cases hdynamic : s.type = .dynamic
    · have hshape := hs.shapeIn
      rw [Source.shapeIn, if_pos hdynamic] at hshape
      cases hname : s.name? <;> simp [hname] at hshape
    · exact hnull (Shape.value.inj (Source.type_of_shapeIn hs.shapeIn rfl hdynamic)).symm
  refine .inl ⟨?_, by rw [hs.type]; rfl⟩
  simp [Shape.isCondition, hvalue, hdyn, hnative]

variable {l r : Expr} {left right : Source} {lshape rshape : Shape}

/-- Operands that are made boxes, left before right. -/
theorem FailsBy.bind_boxes {P : Cause → Prop} {f : Code → Code → Lower α}
    (hl : left.Of start l lshape ctx) (hr : right.Of start r rshape ctx)
    (hbad : ∀ part shape, (part = l ∨ part = r) → start.Lowers part shape →
      shape.isUsable = false → P (.unknownSource shape.type))
    (hf : ∀ c d, Total (f c d)) :
    FailsBy span P
      (do let c ← materialize span left; let d ← materialize span right; f c d) ctx := by
  refine .bind_cases (materialize_cases hl.shapeIn) (hbad l _ (.inl rfl) hl.lowers) ?_
  intro c ctx₁ hctx₁
  refine .bind_cases (materialize_cases (hr.later hctx₁).shapeIn)
    (hbad r _ (.inr rfl) hr.lowers) ?_
  exact fun d _ _ => .of_total (hf c d)

theorem nativeOperands?_known (hl : left.shapeIn ctx.table = some lshape)
    (hr : right.shapeIn ctx.table = some rshape) :
    ∃ found, nativeOperands? span left right ctx = .ok found ctx := by
  have hnative : ∀ {s : Source} {shape : Shape}, s.shapeIn ctx.table = some shape →
      ∃ found, nativeOperand? span s ctx = .ok found ctx := by
    intro s shape hs
    simp only [nativeOperand?, bind_apply, Source.subtype_of_shapeIn hs]
    split <;> exact ⟨_, rfl⟩
  obtain ⟨lfound, hl⟩ := hnative hl
  obtain ⟨rfound, hr⟩ := hnative hr
  simp only [nativeOperands?, bind_apply, hl, hr]
  cases lfound <;> cases rfound <;> exact ⟨_, rfl⟩

theorem boxedOp_rest_total (op : BoxedOp) (c d : Code) :
    Total (do
      require (boxedOpHeader op)
      return Source.ofBox (← fillTemporary .dynamic (.boxed · op c d))) :=
  (Total.require _).bind fun _ => (Total.fillTemporary _ _).bind fun _ => .pure _

theorem binary_fails (op : BinaryOp) (hl : left.Of start l lshape ctx)
    (hr : right.Of start r rshape ctx) :
    FailsBy span ((Expr.binary op l r).Fault start) (binary span op left right) ctx := by
  have hunusable : (∀ part, part = l ∨ part = r → part ∈ (Expr.binary op l r).consumed) →
      ∀ part shape, (part = l ∨ part = r) → start.Lowers part shape →
        shape.isUsable = false → (Expr.binary op l r).Fault start (.unknownSource shape.type) :=
    fun hmem part shape hpart hshape hbad => .unusable (hmem part hpart) hshape hbad
  cases op with
  | connect op =>
      -- tests, left before right
      have hlmem : l ∈ (Expr.binary (.connect op) l r).tested := by simp [Expr.tested]
      have hrmem : r ∈ (Expr.binary (.connect op) l r).tested := by simp [Expr.tested]
      refine .bind_cases (condition_cases hl) (.untestable hlmem hl.lowers) ?_
      intro c ctx₁ hctx₁
      refine .bind_cases (condition_cases (hr.later hctx₁)) (.untestable hrmem hr.lowers) ?_
      exact fun d _ _ => .pure _
  | concat =>
      have hmem : ∀ part, part = l ∨ part = r → part ∈ (Expr.binary .concat l r).consumed := by
        simp [Expr.consumed]
      exact .bind_boxes hl hr (hunusable hmem) (boxedOp_rest_total .concat)
  | arith op =>
      have hmem : ∀ part, part = l ∨ part = r → part ∈ (Expr.binary (.arith op) l r).consumed := by
        simp [Expr.consumed]
      obtain ⟨found, hfound⟩ := nativeOperands?_known hl.shapeIn hr.shapeIn
      refine .bind_ok hfound ?_
      split
      · exact .pure _
      · exact .bind_boxes hl hr (hunusable hmem) (boxedOp_rest_total (.arith op))
  | compare op =>
      have hmem : ∀ part, part = l ∨ part = r →
          part ∈ (Expr.binary (.compare op) l r).consumed := by
        simp [Expr.consumed]
      obtain ⟨found, hfound⟩ := nativeOperands?_known hl.shapeIn hr.shapeIn
      refine .bind_ok hfound ?_
      split
      · exact .pure _
      · exact .bind_boxes hl hr (hunusable hmem) fun c d =>
          (Total.require _).bind fun _ => .pure _

theorem negate_fails (hs : s.Of start e shape ctx) :
    FailsBy span ((Expr.not e).Fault start) (negate span s) ctx :=
  .bind_cases (condition_cases hs) (.untestable (List.mem_singleton_self e) hs.lowers)
    fun _ _ _ => .pure _

/-! ### Accesses -/

theorem readProperty_fails (name : String) (hs : s.Of start e shape ctx) :
    FailsBy span ((Expr.property e name).Fault start) (readProperty span s name) ctx := by
  refine .bind_ok (Source.subtype_of_shapeIn hs.shapeIn) ?_
  by_cases hdyn : shape.type = .dynamic
  · rw [if_pos hdyn]
    exact .of_total ((Total.require _).bind fun _ => (Total.fillTemporary _ _).bind fun _ => .pure _)
  · rw [if_neg hdyn]
    exact .fail (.unreadable name hs.lowers hdyn)

/-- Only what is no box cannot be indexed. -/
theorem checkIndexable_cases (hs : s.shapeIn ctx.table = some shape) :
    shape.type ≠ .dynamic ∧
        checkIndexable span s ctx =
          .error ⟨.invalidExpr (.notIndexable shape.type), span.location⟩ ctx ∨
      ∃ u ctx', checkIndexable span s ctx = .ok u ctx' ∧ ctx.Continues ctx' := by
  simp only [checkIndexable, bind_apply, Source.subtype_of_shapeIn hs]
  by_cases hdyn : shape.type = .dynamic
  · rw [if_pos hdyn]
    exact .inr ⟨(), ctx, rfl, .refl _⟩
  · rw [if_neg hdyn]
    exact .inl ⟨hdyn, rfl⟩

/-- Only what is no integer, string or box is no key. -/
theorem isKey_eq_false (hvalue : shape ≠ .value .dynamic) (h : Key.of? shape s = none) :
    shape.isKey = false := by
  cases shape with
  | value t =>
      cases t with
      | dynamic => exact absurd rfl hvalue
      | _ => first | rfl | cases h
  | binding t => cases t <;> first | rfl | cases h

theorem fetchElement_fails {a i : Expr} {array index : Source}
    (hi : index.Of start i shape ctx) :
    FailsBy span ((Expr.index a i).Fault start) (fetchElement span array index) ctx := by
  refine .bind_shape hi.shapeIn (.unusable (List.mem_singleton_self i) hi.lowers) ?_
  intro _
  cases hkey : Key.of? shape index with
  | none =>
      have hbad := isKey_eq_false (Source.ne_value_dynamic hi.shapeIn) hkey
      simp only [hi.type]
      exact .fail (.badIndex a hi.lowers hbad)
  | some key =>
      exact .of_total
        ((Total.require _).bind fun _ => (Total.fillTemporary _ _).bind fun _ => .pure _)

/-! ### Expressions -/

theorem doubleLiteral_fails (x : Float) :
    FailsBy span ((Expr.double x).Fault start) (doubleLiteral span x) ctx := by
  unfold doubleLiteral
  split
  · exact .pure _
  · rename_i other hother
    exact .fail (.nonFinite hother)

theorem bareVariable_fails (x : String) (hstart : start.Continues ctx) :
    FailsBy span ((Expr.var x).Fault start) (bareVariable span x) ctx := by
  unfold bareVariable
  cases hget : ctx.table.get? x with
  | none =>
      intro e ctx' hrun
      rw [bind_apply, readSymbol_undeclared hget] at hrun
      cases hrun
      exact ⟨rfl, .undeclared (hstart.keeps.not_mem_names hget)⟩
  | some symbol => exact .bind_ok (readSymbol_apply hget) (.pure _)

mutual

/-- **If an expression cannot be lowered, one of its parts is at fault.** -/
theorem resolve_fails : ∀ (e : Expr) {ctx : Context}, start.Continues ctx →
    FailsBy span (e.Faulty start) (resolve span e) ctx
  | .null, _, _ | .bool _, _, _ | .int _, _, _ | .char _, _, _ | .string _, _, _
  | .emptyArray, _, _ => .pure _
  | .double x, _, _ => (doubleLiteral_fails x).here
  | .var x, _, hstart => (bareVariable_fails x hstart).here
  | .binary op l r, ctx, hstart => by
      refine .bind ((resolve_fails l hstart).within (.left op r)) fun left ctx₁ hleft => ?_
      have hstart₁ := hstart.trans (resolve_continues hleft)
      refine .bind ((resolve_fails r hstart₁).within (.right op l)) fun right ctx₂ hright => ?_
      obtain ⟨lshape, hl⟩ := resolve_of hstart hleft
      obtain ⟨rshape, hr⟩ := resolve_of hstart₁ hright
      exact (binary_fails op (hl.later (resolve_continues hright)) hr).here
  | .not e, ctx, hstart => by
      refine .bind ((resolve_fails e hstart).within .not) fun s ctx₁ hrun => ?_
      obtain ⟨shape, hs⟩ := resolve_of hstart hrun
      exact (negate_fails hs).here
  | .property e name, ctx, hstart => by
      refine .bind ((resolve_fails e hstart).within (.object name)) fun s ctx₁ hrun => ?_
      obtain ⟨shape, hs⟩ := resolve_of hstart hrun
      exact (readProperty_fails name hs).here
  | .index a i, ctx, hstart => by
      refine .bind ((resolve_fails a hstart).within (.array i)) fun array ctx₁ harray => ?_
      have hstart₁ := hstart.trans (resolve_continues harray)
      obtain ⟨ashape, ha⟩ := resolve_of hstart harray
      -- the array is looked at before the index is lowered
      refine .bind_cases (checkIndexable_cases ha.shapeIn) ?_ fun _ ctx₂ hctx₂ => ?_
      · exact fun hbad => ⟨_, .refl _, .unindexable i ha.lowers hbad⟩
      have hstart₂ := hstart₁.trans hctx₂
      refine .bind ((resolve_fails i hstart₂).within (.index a)) fun index ctx₃ hindex => ?_
      obtain ⟨ishape, hi⟩ := resolve_of hstart₂ hindex
      exact (fetchElement_fails hi).here
  | .call name args, ctx, hstart => by
      refine .bind ((resolveArgs_fails args hstart).mono ?_) fun codes ctx₁ _ => ?_
      · rintro cause (⟨e, he, sub, hsub, h⟩ | ⟨e, shape, he, hshape, hbad, rfl⟩)
        · exact ⟨sub, .arg name he hsub, h⟩
        · exact ⟨_, .refl _, .unusable he hshape hbad⟩
      exact .of_total
        ((Total.require _).bind fun _ => (Total.fillTemporary _ _).bind fun _ => .pure _)

/-- One of the arguments has a part that is at fault, or is none that can be passed. -/
theorem resolveArgs_fails : ∀ (es : List Expr) {ctx : Context}, start.Continues ctx →
    FailsBy span (fun cause => (∃ e ∈ es, e.Faulty start cause) ∨
      ∃ e shape, e ∈ es ∧ start.Lowers e shape ∧ shape.isUsable = false ∧
        cause = .unknownSource shape.type) (resolveArgs span es) ctx
  | [], _, _ => .pure _
  | e :: es, ctx, hstart => by
      refine .bind ((resolve_fails e hstart).mono ?_) fun s ctx₁ hrun => ?_
      · exact fun cause h => .inl ⟨e, List.mem_cons_self .., h⟩
      have hstart₁ := hstart.trans (resolve_continues hrun)
      obtain ⟨shape, hs⟩ := resolve_of hstart hrun
      refine .bind_cases (materialize_cases hs.shapeIn) ?_ fun c ctx₂ hctx₂ => ?_
      · exact fun hbad => .inr ⟨e, shape, List.mem_cons_self .., hs.lowers, hbad, rfl⟩
      refine .bind ((resolveArgs_fails es (hstart₁.trans hctx₂)).mono ?_) fun _ _ _ => .pure _
      rintro cause (⟨e', he', h⟩ | ⟨e', shape', he', h⟩)
      · exact .inl ⟨e', List.mem_cons_of_mem _ he', h⟩
      · exact .inr ⟨e', shape', List.mem_cons_of_mem _ he', h⟩

end

/-- Errors of an expression are located where it stands. -/
theorem resolve_error_location {error : LowerError} (h : resolve span e ctx = .error error ctx') :
    error.location = span.location :=
  (resolve_fails e (.refl ctx) h).1

end Lower

end BoxedLet
