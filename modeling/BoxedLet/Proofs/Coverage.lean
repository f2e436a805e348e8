import BoxedLet.Proofs.AssignmentFaults
import BoxedLet.Proofs.Scope

/-!
# BoxedLet.Proofs.Coverage

**The strategy table is covered.** Every assignment that has an entry is carried out, and leaves at
least one line unless it assigns a boxed variable to itself; every plain assignment without an entry
is refused by the one error that is for it. In between there is nothing: the exits that lowering has
for entries that could not be carried out, for values without a box and for variables that have got
lost since they were read are taken by no run (`decision_table_covered`).
-/

namespace BoxedLet

variable {span : Span}

/-! ### Assignments without a trace -/

/-- The assignment is `x = x`, with a boxed variable `x`. -/
def Assignment.IsSelfCopy (ctx : Context) (a : Assignment) : Prop :=
  a.target = .whole ∧ a.operator = .assign ∧ a.source = some (.var a.destination) ∧
    ctx.table.typeOf? a.destination = some .dynamic

/-- Nothing has been emitted, asked for or allocated, and no variable has to be initialized that had
not to be before. -/
structure Context.Undisturbed (ctx ctx' : Context) : Prop where
  code : ctx'.code = ctx.code
  headers : ctx'.headers = ctx.headers
  names : ctx'.table.names = ctx.table.names
  nextTemp : ctx'.table.nextTemp = ctx.table.nextTemp
  mustGrowStack : ctx'.table.mustGrowStack = ctx.table.mustGrowStack
  mustInitToNull : ∀ x, (ctx'.table.get? x).map Symbol.mustInitToNull =
    (ctx.table.get? x).map Symbol.mustInitToNull
  variantInits : ∀ x, (ctx'.table.get? x).map Symbol.variantInits =
    (ctx.table.get? x).map Symbol.variantInits

/-- What a change of one symbol keeps can be read from the changed table. -/
theorem SymbolTable.map_get?_modify {β : Type} (t : SymbolTable) (name n : String)
    {f : Symbol → Symbol} {g : Symbol → β} (hf : ∀ s, (f s).name = s.name)
    (hg : ∀ s, g (f s) = g s) : ((t.modify name f).get? n).map g = (t.get? n).map g := by
  rw [get?_modify t name n hf, Option.map_map]
  congr 1
  funext s
  rw [Function.comp_apply]
  split
  · exact hg s
  · rfl

/-- Counting a write and recording a value is all that a self-copy does. -/
theorem Context.undisturbed_marking (ctx : Context) (name : String) :
    ctx.Undisturbed ((ctx.counting name).marking name) := by
  have hkept : ∀ {β : Type} (g : Symbol → β),
      (∀ s n, g { s with mutationCount := n } = g s) →
      (∀ s b, g { s with initialized := b } = g s) →
      ∀ x, (((ctx.counting name).marking name).table.get? x).map g =
        (ctx.table.get? x).map g := by
    intro β g hcount hmark x
    have hmarked : (((ctx.counting name).marking name).table.get? x).map g =
        ((ctx.counting name).table.get? x).map g :=
      SymbolTable.map_get?_modify _ name x (fun _ => rfl) fun s => hmark s true
    have hcounted : ((ctx.counting name).table.get? x).map g = (ctx.table.get? x).map g :=
      SymbolTable.map_get?_modify _ name x (fun _ => rfl) fun s => hcount s (s.mutationCount + 1)
    rw [hmarked, hcounted]
  refine ⟨rfl, rfl, ?_, rfl, rfl, hkept _ (fun _ _ => rfl) fun _ _ => rfl,
    hkept _ (fun _ _ => rfl) fun _ _ => rfl⟩
  simp [Context.marking, Context.counting]

namespace Lower

variable {a : Assignment} {ctx ctx' : Context}

/-- What is emitted by an ending and before it; only an idle assignment emits nothing. -/
theorem Finishes.emitted {kind : TargetKind} {dest : Symbol} {idle : Prop} {x : Lower Unit}
    (hx : Finishes (fun _ => True) (fun _ => True) kind dest idle x ctx)
    (hholds : ctx.table.Holds dest) (hrun : x ctx = .ok () ctx') :
    ∃ more, ctx'.code = ctx.code ++ more ∧ (more = [] → idle) := by
  have hx := hx (fun _ _ => trivial) hholds
  rw [hrun] at hx
  obtain ⟨mid, tail, hgrows, hends, hidle⟩ := hx
  obtain ⟨fills, hfills⟩ := hgrows.code
  refine ⟨fills ++ tail, ?_, fun h => (hidle (List.append_eq_nil_iff.mp h).2).1⟩
  rw [hends.code, ← hfills, List.append_assoc]

/-- A step that succeeds. -/
theorem step_of_ok (h : assignment a ctx = .ok () ctx') (hstep : a.operator.isStep = true) :
    ∃ dest, (ctx.counting a.destination).table.get? a.destination = some dest ∧
      assignStep a.span dest a.operator ((ctx.counting a.destination).marking a.destination) =
        .ok () ctx' := by
  obtain ⟨e, hcheck⟩ | ⟨dest, hcheck, hget⟩ := checkedDestination_cases a ctx
  · simp only [assignment, bind_apply, hcheck] at h
    cases h
  simp only [assignment, bind_apply, hcheck, hstep, if_true] at h
  cases htarget : a.target with
  | whole =>
      rw [htarget] at h
      simp only [bind_apply, modifyTable_apply, SymbolTable.name_of_get? hget] at h
      exact ⟨dest, hget, h⟩
  | _ =>
      rw [htarget] at h
      cases h

/-- **What an assignment emits.** It is nothing only if the assignment is a self-copy. -/
theorem emitted_of_ok (h : assignment a ctx = .ok () ctx') :
    ∃ more, ctx'.code = ctx.code ++ more ∧ (more = [] → a.IsSelfCopy ctx) := by
  cases hstep : a.operator.isStep with
  | true =>
      obtain ⟨dest, hget, hrun⟩ := step_of_ok h hstep
      have hgrows : (ctx.counting a.destination).Grows (fun _ => True) (fun _ => True)
          (ctx.counting a.destination) := .refl _
      have hfinishes : Finishes (fun _ => True) (fun _ => True) .whole dest False
          (assignStep a.span dest a.operator)
          ((ctx.counting a.destination).marking a.destination) :=
        assignStep_finishes
      obtain ⟨more, hcode, hidle⟩ := hfinishes.emitted (hgrows.holds_marking hget) hrun
      exact ⟨more, hcode, fun hmore => (hidle hmore).elim⟩
  | false =>
      obtain ⟨dest, e, source, lowered, hget, hsource, hresolve, hrun⟩ := source_of_ok h hstep
      have hgrows := resolve_grows hresolve
      have hmarked : source.Fits (Visible (fun _ => True) (fun _ => True)
          (lowered.marking a.destination).table) :=
        (resolve_fits hresolve).mono (Visible.of_typeOf? fun n => by simp [Context.marking])
      obtain ⟨more, hcode, hidle⟩ := Finishes.emitted
        (assignSource_finishes hmarked (fun _ _ _ _ => trivial) fun htarget htype hop hname =>
          And.intro htarget (And.intro htype (And.intro hop hname)))
        (hgrows.holds_marking hget) hrun
      obtain ⟨fills, hfills⟩ := hgrows.code
      refine ⟨fills ++ more, ?_, fun hmore => ?_⟩
      · rw [hcode, ← List.append_assoc]
        exact congrArg (· ++ more) hfills.symm
      · obtain ⟨htarget, htype, hop, hname⟩ := hidle (List.append_eq_nil_iff.mp hmore).2
        obtain rfl := resolve_name? hresolve hname
        obtain ⟨d, hd, rfl⟩ := Context.get?_counting_iff.mp hget
        have hdname : d.name = a.destination := SymbolTable.name_of_get? hd
        refine ⟨htarget, hop, ?_, SymbolTable.typeOf?_eq_some.mpr ⟨d, hd, htype⟩⟩
        rw [hsource, ← hdname]

/-- A self-copy leaves the state as it was, but for the destination's counter and flag. -/
theorem state_of_selfCopy (h : assignment a ctx = .ok () ctx') (hself : a.IsSelfCopy ctx) :
    ctx' = (ctx.counting a.destination).marking a.destination := by
  obtain ⟨htarget, hop, hvar, htype⟩ := hself
  obtain ⟨dest, e, source, lowered, hget, hsource, hresolve, hrun⟩ :=
    source_of_ok h (by rw [hop]; rfl)
  obtain rfl : .var a.destination = e := Option.some.inj (hvar.symm.trans hsource)
  obtain ⟨rfl, rfl⟩ := resolve_var hresolve
  obtain ⟨d, hd, rfl⟩ := Context.get?_counting_iff.mp hget
  have hdname : d.name = a.destination := SymbolTable.name_of_get? hd
  obtain ⟨d', hd', hdyn⟩ := SymbolTable.typeOf?_eq_some.mp htype
  obtain rfl : d = d' := Option.some.inj (hd.symm.trans hd')
  have hshape : Source.shapeIn ((ctx.counting a.destination).marking a.destination).table
      (.ofVar a.destination (.place (.var a.destination))) = some (.binding .dynamic) := by
    have hkept := (SymbolTable.keeps_markInitialized _ a.destination).typeOf?
      ((ctx.table.keeps_countWrite a.destination).typeOf? htype)
    show Option.map Shape.binding _ = _
    rw [Context.marking, Context.counting, hkept, Option.map_some]
  -- the variable is its own source, and copying it is nothing
  have hself : (Source.ofVar a.destination (.place (.var a.destination))).name? = some d.name := by
    rw [hdname]
    rfl
  simp only [assignSource, htarget, hop, assignWhole] at hrun
  split at hrun
  · cases hrun
  simp only [hdyn, StaticType.family?, bind_apply, Source.shape_apply hshape] at hrun
  have hcopy : copyBox { d with mutationCount := d.mutationCount + 1 }
      (.ofVar a.destination (.place (.var a.destination)))
      ((ctx.counting a.destination).marking a.destination) = .ok () ctx' := hrun
  rw [copyBox, if_pos hself] at hcopy
  cases hcopy
  rfl

end Lower

/-! ### Exits that no run takes -/

/-- The cause is none of those that are there for values without a box and for operators without a
boxed form. -/
structure Cause.IsOrdinary (cause : Cause) : Prop where
  boxedVariable : ∀ t, cause ≠ .unsupportedSource t .boxedVariable
  boxedValue : ∀ t, cause ≠ .unsupportedSource t .boxedValue
  boxedForm : ∀ op, cause ≠ .invalidExpr (.noBoxedForm op)

theorem Expr.Fault.isOrdinary {start : Context} {e : Expr} {cause : Cause}
    (h : e.Fault start cause) : cause.IsOrdinary := by
  refine ⟨?_, ?_, ?_⟩ <;>
  · rintro _ rfl
    cases h

theorem Assignment.Fault.isOrdinary {start : Context} {a : Assignment} {cause : Cause}
    (h : a.Fault start cause) : cause.IsOrdinary := by
  -- a source is refused for want of a box only by targets inside a property
  have huse : ∀ t use, cause = .unsupportedSource t use → use = .propertyAppend ∨
      use = .propertyArray := by
    rintro t use rfl
    cases h with
    | inside he hbad =>
        obtain ⟨sub, -, hfault⟩ := hbad
        cases hfault
    | unboxedSource he hshape huse hbad =>
        cases htarget : a.target <;> rw [htarget] at huse <;> cases huse
        · exact .inl rfl
        · exact .inr rfl
  refine ⟨fun t ht => ?_, fun t ht => ?_, ?_⟩
  · rcases huse t _ ht with h | h <;> cases h
  · rcases huse t _ ht with h | h <;> cases h
  · -- connectives test their operands, and never ask for their boxes
    rintro op rfl
    cases h with
    | inside he hbad =>
        obtain ⟨sub, -, hfault⟩ := hbad
        cases hfault

/-- A variable that is not found is one that is mentioned and has not been in the table. -/
theorem Expr.Faulty.undeclared {start : Context} {e : Expr} {x : String}
    (h : e.Faulty start (.undeclaredVariable x .read)) :
    e.Contains (.var x) ∧ x ∉ start.table.names := by
  obtain ⟨sub, hsub, hfault⟩ := h
  cases hfault with
  | undeclared hx => exact ⟨hsub, hx⟩

theorem Assignment.Fault.undeclaredRead {start : Context} {a : Assignment} {x : String}
    (h : a.Fault start (.undeclaredVariable x .read)) :
    a.Holds (.var x) ∧ x ∉ start.table.names := by
  cases h with
  | inside he hbad => exact ⟨⟨_, he, hbad.undeclared.1⟩, hbad.undeclared.2⟩

/-- What has been resolved is found again, in all states that the run can come to. -/
theorem Lower.subtype_of_resolve {e : Expr} {ctx ctx' : Context} {s : Source}
    (h : resolve span e ctx = .ok s ctx') :
    ctx.table.Keeps ctx'.table ∧ ∃ t, ∀ (later : Context) (span' : Span),
      ctx'.table.Keeps later.table → s.subtype span' later = .ok t later := by
  obtain ⟨shape, hshape⟩ := resolve_shapeIn h
  exact ⟨(resolve_continues h).keeps, shape.type, fun later span' hlater =>
    Source.subtype_of_shapeIn (hlater.shapeIn hshape)⟩

/-- A value that is boxed by a constructor of its kind has one. -/
theorem boxContent?_of_boxValue {family : Family} {shape : Shape} {op : Operator} {kind : BoxKind}
    (h : Strategy.select? family shape op = some (.boxValue kind)) (s : Source) :
    boxContent? shape s = some (.scalar kind (s.scalarCode kind)) := by
  obtain ⟨t, rfl, hkind⟩ := Strategy.select?_suits h
  have hnative := BoxKind.native_of_ofType? hkind
  have hcontent : boxContent? (.value t) s =
      (BoxKind.ofType? t).map fun kind => .scalar kind (s.scalarCode kind) := by
    cases t with
    | null | string | emptyArray => exact absurd hnative (by decide)
    | _ => rfl
  rw [hcontent, hkind, Option.map_some]

/-! ### Plain assignments without a strategy -/

/-- The strategy table has no entry for the plain assignment: the variable `d` is its destination, and
its source has the shape. -/
structure Assignment.LacksStrategy (ctx : Context) (a : Assignment) (d : Symbol) (shape : Shape) :
    Prop where
  offers : ctx.Offers a d
  notStep : a.operator.isStep = false
  target : a.target = .whole
  compiles : ∃ e, a.source = some e ∧ ctx.Compiles e shape
  usable : shape.isUsable = true
  noEntry : ∀ family, d.type.family? = some family →
    Strategy.select? family shape a.operator = none

theorem Assignment.LacksStrategy.fails {ctx : Context} {a : Assignment} {d : Symbol}
    {shape : Shape} (h : a.LacksStrategy ctx d shape) :
    ∃ ctx', lowerAssignment a ctx =
      .error ⟨.unsupportedOperator a.operator d.type (.type shape.type), a.span.location⟩ ctx' := by
  obtain ⟨hget, hwritable, hpseudo, hreceiver⟩ := h.offers
  obtain ⟨e, hsource, hcompiles⟩ := h.compiles
  have hcheck := Lower.checkedDestination_ok_iff.mpr
    ⟨rfl, Context.get?_counting_iff.mpr ⟨d, hget, rfl⟩, hwritable, hpseudo, hreceiver⟩
  obtain ⟨source, lowered, hrun, hshape⟩ :=
    ((ctx.agrees_counting a.destination).compiles hcompiles).run a.span
  have hmarked : source.shapeIn (lowered.marking d.name).table = some shape :=
    (lowered.table.keeps_markInitialized d.name).shapeIn hshape
  obtain ⟨family, hfamily⟩ : ∃ family, d.type.family? = some family := by
    cases hfamily : d.type.family? with
    | some family => exact ⟨family, rfl⟩
    | none =>
        rw [(StaticType.family?_eq_none_iff _).mp hfamily] at hpseudo
        cases hpseudo
  have hassign : Lower.assignment a ctx =
      .error ⟨.unsupportedOperator a.operator d.type (.type shape.type), a.span.location⟩
        (lowered.marking d.name) := by
    rw [Lower.assignment_of_source hcheck h.notStep hsource hrun]
    simp only [Lower.assignSource, h.target, Lower.assignWhole, hwritable, hfamily,
      Bool.false_eq_true, if_false, Lower.bind_apply, Source.shape_apply hmarked, h.usable,
      if_true, h.noEntry family hfamily, Lower.fail_apply]
  rw [lowerAssignment_apply, hassign]
  exact ⟨_, rfl⟩

theorem Assignment.Fault.lacksStrategy {ctx : Context} {a : Assignment} {op : Operator}
    {dt t : StaticType} (h : a.Fault ctx (.unsupportedOperator op dt (.type t)))
    (htarget : a.target = .whole) :
    op = a.operator ∧ ∃ d shape, a.LacksStrategy ctx d shape ∧ dt = d.type ∧ t = shape.type := by
  cases h with
  | noStrategy hd hstep htarget he hshape husable hfamily hbad =>
      refine ⟨rfl, _, _, ⟨hd, hstep, htarget, ⟨_, he, hshape⟩, husable, ?_⟩, rfl, rfl⟩
      intro family hfamily'
      cases hfamily.symm.trans hfamily'
      exact hbad
  | partOperator hd hstep hpart he hshape hbad => exact absurd htarget hpart
  | inside he hbad =>
      obtain ⟨sub, -, hfault⟩ := hbad
      cases hfault

/-- **The strategy table is covered.**

* An assignment that succeeds emits no line if and only if it is a self-copy, which leaves no other
  trace either.
* No run ends in one of the exits for values without a box or operators without a boxed form.
* What the table has an entry for is carried out: a native operator has its token, and a computed
  scalar the constructor of its kind.
* A variable that has been resolved is found again; one that is not found has not been in the table.
* A plain assignment fails with an unsupported operator and the type of a value if and only if the
  table has no entry for it, and then these are its operator, the declared type of its destination and
  the type that its source has at run time. -/
theorem decision_table_covered :
    (∀ (a : Assignment) (ctx ctx' : Context), lowerAssignment a ctx = .ok () ctx' →
      (∃ more, ctx'.lines = ctx.lines ++ more ∧ (more = [] ↔ a.IsSelfCopy ctx)) ∧
        (a.IsSelfCopy ctx → ctx.Undisturbed ctx')) ∧
    (∀ (a : Assignment) (ctx ctx' : Context) (e : LowerError),
      lowerAssignment a ctx = .error e ctx' → e.cause.IsOrdinary ∧
        ∀ x, e.cause = .undeclaredVariable x .read → a.Holds (.var x) ∧ x ∉ ctx.table.names) ∧
    (∀ (e : Expr) (span : Span) (ctx ctx' : Context) (error : LowerError),
      Lower.resolve span e ctx = .error error ctx' → error.cause.IsOrdinary ∧
        ∀ x, error.cause = .undeclaredVariable x .read →
          e.Contains (.var x) ∧ x ∉ ctx.table.names) ∧
    (∀ (dest : Symbol) (family : Family) (shape : Shape) (op : Operator) (strategy : Strategy),
      dest.type.family? = some family → Strategy.select? family shape op = some strategy →
        (dest.type.isNativeScalar = true → op.native?.isSome = true) ∧
        (∀ kind s, strategy = .boxValue kind →
          boxContent? shape s = some (.scalar kind (s.scalarCode kind))) ∧
        ∀ span source expr?,
          Lower.Total (Lower.carryOut span strategy dest op shape source expr?)) ∧
    (∀ (e : Expr) (span : Span) (ctx ctx' : Context) (s : Source),
      Lower.resolve span e ctx = .ok s ctx' →
        ctx.table.Keeps ctx'.table ∧ ∃ t, ∀ (later : Context) (span' : Span),
          ctx'.table.Keeps later.table → s.subtype span' later = .ok t later) ∧
    ∀ (a : Assignment) (ctx : Context) (e : LowerError) (op : Operator) (dt t : StaticType),
      a.target = .whole → e.cause = .unsupportedOperator op dt (.type t) →
        ((∃ ctx', lowerAssignment a ctx = .error e ctx') ↔
          op = a.operator ∧ e.location = a.span.location ∧
            ∃ d shape, a.LacksStrategy ctx d shape ∧ dt = d.type ∧ t = shape.type) := by
  refine ⟨?_, ?_, ?_, ?_, ?_, ?_⟩
  · intro a ctx ctx' h
    have hrun := lowerAssignment_ok_iff.mp h
    obtain ⟨more, hcode, hempty⟩ := Lower.emitted_of_ok hrun
    obtain ⟨emitted, hadvances⟩ := (completes_of_ok h).advances
    have hself : a.IsSelfCopy ctx → ctx.Undisturbed ctx' := by
      intro hself
      rw [Lower.state_of_selfCopy hrun hself]
      exact ctx.undisturbed_marking a.destination
    refine ⟨⟨_, Context.lines_of_code_append hcode hadvances.options, ?_⟩, hself⟩
    rw [List.map_eq_nil_iff]
    refine ⟨hempty, fun h => ?_⟩
    have hsame := (hself h).code
    rw [hcode] at hsame
    exact List.append_right_eq_self.mp hsame
  · intro a ctx ctx' e h
    have hfault := (lowerAssignment_fault h).2
    refine ⟨hfault.isOrdinary, fun x hx => ?_⟩
    rw [hx] at hfault
    exact hfault.undeclaredRead
  · intro e span ctx ctx' error h
    have hfaulty := (Lower.resolve_fails e (.refl ctx) h).2
    refine ⟨?_, fun x hx => ?_⟩
    · obtain ⟨sub, -, hfault⟩ := hfaulty
      exact hfault.isOrdinary
    · rw [hx] at hfaulty
      exact hfaulty.undeclared
  · intro dest family shape op strategy hfamily hselect
    refine ⟨fun hnative => Strategy.isNative_of_select? hfamily hnative hselect, ?_, ?_⟩
    · rintro kind s rfl
      exact boxContent?_of_boxValue hselect s
    · exact fun span source expr? => Lower.carryOut_total hfamily hselect
  · intro e span ctx ctx' s h
    exact Lower.subtype_of_resolve h
  · intro a ctx e op dt t htarget hcause
    constructor
    · rintro ⟨ctx', h⟩
      obtain ⟨hlocation, hfault⟩ := lowerAssignment_fault h
      rw [hcause] at hfault
      obtain ⟨hop, hlacks⟩ := hfault.lacksStrategy htarget
      exact ⟨hop, hlocation, hlacks⟩
    · rintro ⟨rfl, hlocation, d, shape, hlacks, rfl, rfl⟩
      obtain ⟨ctx', h⟩ := hlacks.fails
      refine ⟨ctx', h.trans ?_⟩
      rw [← hcause, ← hlocation]

end BoxedLet
