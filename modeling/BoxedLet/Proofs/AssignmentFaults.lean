import BoxedLet.Proofs.Faults

/-!
# BoxedLet.Proofs.AssignmentFaults

**Why an assignment fails.** `Assignment.Fault` has one rule for each way to fail that an assignment
has, with the cause that is raised and the circumstances under which it is; all that it says is about
the assignment and the state in which lowering begins. `lowerAssignment_fault` shows that these are
all the ways there are.
-/

namespace BoxedLet

variable {span : Span}

/-! ### The rules -/

/-- What a source that is no box yet cannot be, where the target asks for a box. -/
def Target.boxUse? : Target → Option ValueUse
  | .propertyAppend _ => some .propertyAppend
  | .propertyElement _ _ => some .propertyArray
  | .whole | .append | .element _ | .property _ => none

namespace Assignment

/-- The expressions that the assignment evaluates: its source and its index. -/
def Evaluates (a : Assignment) (e : Expr) : Prop :=
  a.source = some e ∨ a.target.index? = some e

/-- The expression is evaluated by the assignment, as a part of its source or of its index. -/
def Holds (a : Assignment) (sub : Expr) : Prop :=
  ∃ e, a.Evaluates e ∧ e.Contains sub

/-- What can be wrong with an assignment that is lowered in the state `start`. -/
inductive Fault (start : Context) (a : Assignment) : Cause → Prop
  | undeclared (hx : a.destination ∉ start.table.names) :
      Fault start a (.undeclaredVariable a.destination .mutate)
  | readOnly {d : Symbol} (hd : start.table.get? a.destination = some d)
      (hbad : d.readOnly = true) : Fault start a (.readOnlyWrite a.destination)
  | receiver (hbad : start.options.isReceiver a.destination = true)
      (htarget : a.target.isProperty = false) : Fault start a (.readOnlyWrite a.destination)
  | pseudo {d : Symbol} (hd : start.table.get? a.destination = some d)
      (hbad : d.type.isPseudo = true) : Fault start a (.unknownDestination a.destination d.type)
  /-- A part cannot be stepped. -/
  | stepPart {d : Symbol} (hd : start.Offers a d) (hstep : a.operator.isStep = true)
      (htarget : a.target ≠ .whole) :
      Fault start a (.unsupportedOperator a.operator d.type (.target a.target.kind))
  | step {d : Symbol} (hd : start.Offers a d) (hstep : a.operator.isStep = true)
      (htarget : a.target = .whole)
      (hbad : ¬ (d.type.isIntegral = true ∨ d.type = .double ∨ d.type = .dynamic)) :
      Fault start a (.unsupportedOperator a.operator d.type .none)
  | noValue (hstep : a.operator.isStep = false) (hsource : a.source = none) :
      Fault start a (.invalidExpr (.noValue a.destination))
  | inside {e : Expr} {cause : Cause} (he : a.Evaluates e) (hbad : e.Faulty start cause) :
      Fault start a cause
  /-- A variable of a pseudo type is used as a value. -/
  | unusable {e : Expr} {shape : Shape} (he : a.Evaluates e) (hshape : start.Lowers e shape)
      (hbad : shape.isUsable = false) : Fault start a (.unknownSource shape.type)
  /-- The strategy table has no entry. -/
  | noStrategy {d : Symbol} {e : Expr} {shape : Shape} {family : Family} (hd : start.Offers a d)
      (hstep : a.operator.isStep = false) (htarget : a.target = .whole) (he : a.source = some e)
      (hshape : start.Compiles e shape) (husable : shape.isUsable = true)
      (hfamily : d.type.family? = some family)
      (hbad : Strategy.select? family shape a.operator = none) :
      Fault start a (.unsupportedOperator a.operator d.type (.type shape.type))
  /-- A part takes plain assignment only. The cause has the static type of the source. -/
  | partOperator {d : Symbol} {e : Expr} {shape : Shape} (hd : start.Offers a d)
      (hstep : a.operator.isStep = false) (htarget : a.target ≠ .whole) (he : a.source = some e)
      (hshape : start.Compiles e shape) (hbad : a.operator ≠ .assign) :
      Fault start a
        (.unsupportedOperator a.operator d.type (.type (e.staticType shape.type)))
  | storage {d : Symbol} (hd : start.Offers a d)
      (htarget : a.target.kind ∈ [.append, .element, .property])
      (hbad : ¬ (d.type = .dynamic ∧ d.storage = .heapBoxed)) :
      Fault start a (.localOnlyWrite a.destination)
  | notObject {d : Symbol} (hd : start.Offers a d) (htarget : a.target.boxUse?.isSome = true)
      (hbad : d.type ≠ .dynamic) :
      Fault start a (.invalidExpr (.notObject a.destination d.type))
  | undeclaredProperty {name : String} (htarget : a.target = .property name)
      (hreceiver : start.options.isReceiver a.destination = true)
      (hbad : start.classDef.any (·.hasProperty name) = false) :
      Fault start a (.undeclaredProperty name (start.classDef.map ClassDef.name))
  | badIndex {i : Expr} {shape : Shape} (htarget : a.target = .element i)
      (hshape : start.Lowers i shape) (hbad : shape.isKey = false) :
      Fault start a (.invalidIndex shape.type .updateArray)
  | unboxedIndex {name : String} {i : Expr} {shape : Shape}
      (htarget : a.target = .propertyElement name i) (hshape : start.Lowers i shape)
      (hbad : shape ≠ .binding .dynamic) :
      Fault start a (.invalidIndex shape.type .updatePropertyArray)
  | unboxedSource {e : Expr} {shape : Shape} {use : ValueUse} (he : a.source = some e)
      (hshape : start.Compiles e shape) (huse : a.target.boxUse? = some use)
      (hbad : shape ≠ .binding .dynamic) : Fault start a (.unsupportedSource shape.type use)

end Assignment

/-! ### The state in which the source is written -/

theorem Context.Agrees.symm {ctx ctx' : Context} (h : ctx.Agrees ctx') : ctx'.Agrees ctx :=
  ⟨h.options.symm, h.classDef.symm, h.code.symm, h.headers.symm, h.tempPrefix.symm,
    h.nextTemp.symm, h.signature.symm⟩

/-- What expressions compile to is the same in states that agree. -/
theorem Context.Agrees.compiles {ctx ctx' : Context} {e : Expr} {shape : Shape}
    (h : ctx.Agrees ctx') (he : ctx.Compiles e shape) : ctx'.Compiles e shape := by
  obtain ⟨span, s, lowered, hrun, hshape⟩ := he
  obtain ⟨c, hrun', hafter⟩ := (Lower.resolve_blind e).run_ok h hrun span
  exact ⟨span, s, c, hrun', (hafter.shapeIn s).trans hshape⟩

/-- What expressions compile to is the same at all positions. -/
theorem Context.Compiles.run {ctx : Context} {e : Expr} {shape : Shape} (h : ctx.Compiles e shape)
    (span : Span) : ∃ s lowered, Lower.resolve span e ctx = .ok s lowered ∧
      s.shapeIn lowered.table = some shape := by
  obtain ⟨span', s, lowered, hrun, hshape⟩ := h
  obtain ⟨c, hrun', hafter⟩ := (Lower.resolve_blind e).run_ok (.refl ctx) hrun span
  exact ⟨s, c, hrun', (hafter.shapeIn s).trans hshape⟩

theorem Context.agrees_counting (ctx : Context) (name : String) :
    ctx.Agrees (ctx.counting name) :=
  (Agrees.refl ctx).modify name fun _ => ⟨rfl, rfl⟩

/-- The assignment has an acceptable destination, the source `s` has been lowered from `e`, and the
run that began in `start` has come to `ctx`. -/
structure Assignment.Sourced (start : Context) (a : Assignment) (d : Symbol) (e : Expr)
    (shape : Shape) (s : Source) (dest : Symbol) (ctx : Context) : Prop where
  offers : start.Offers a d
  notStep : a.operator.isStep = false
  source : a.source = some e
  compiles : start.Compiles e shape
  of : s.Of start e shape ctx
  continues : start.Continues ctx
  name : dest.name = a.destination
  type : dest.type = d.type
  storage : dest.storage = d.storage
  readOnly : dest.readOnly = false

namespace Lower

variable {α : Type} {P : Cause → Prop} {a : Assignment} {start ctx ctx' : Context}
  {d dest : Symbol} {e : Expr} {s : Source} {shape : Shape}

/-- A check, before something else is done. -/
theorem FailsBy.guard {c : Prop} [Decidable c] {cause : Cause} {f : Unit → Lower α}
    (hbad : ¬ c → P cause) (hf : c → FailsBy span P (f ()) ctx) :
    FailsBy span P ((if c then Pure.pure () else Lower.fail span cause) >>= f) ctx := by
  split
  · rename_i hc
    exact .bind_ok rfl (hf hc)
  · rename_i hc
    exact .bind (.fail (hbad hc)) fun _ _ hrun => by cases hrun

section Parts

variable (hs : a.Sourced start d e shape s dest ctx)
include hs

/-! ### Checks of the destination and of the operator -/

theorem fault_of_operator (htarget : a.target ≠ .whole) (hop : ¬ a.operator = .assign) :
    a.Fault start (.unsupportedOperator a.operator dest.type (.type s.type)) := by
  rw [hs.type, hs.of.type]
  exact .partOperator hs.offers hs.notStep htarget hs.source hs.compiles hop

theorem fault_of_storage (htarget : a.target.kind ∈ [.append, .element, .property])
    (hbox : ¬ (dest.type = .dynamic ∧ dest.storage = .heapBoxed)) :
    a.Fault start (.localOnlyWrite dest.name) := by
  rw [hs.type, hs.storage] at hbox
  rw [hs.name]
  exact .storage hs.offers htarget hbox

theorem fault_of_object (htarget : a.target.boxUse?.isSome = true)
    (hbox : ¬ dest.type = .dynamic) :
    a.Fault start (.invalidExpr (.notObject dest.name dest.type)) := by
  rw [hs.type] at hbox
  rw [hs.name, hs.type]
  exact .notObject hs.offers htarget hbox

theorem fault_of_unusable (hbad : shape.isUsable = false) :
    a.Fault start (.unknownSource shape.type) :=
  .unusable (.inl hs.source) hs.of.lowers hbad

/-- Only an undeclared property of the receiver is refused. -/
theorem checkProperty_cases {name : String} :
    (start.options.isReceiver a.destination = true ∧
        start.classDef.any (·.hasProperty name) = false) ∧
        checkProperty span dest name ctx =
          .error ⟨.undeclaredProperty name (start.classDef.map ClassDef.name), span.location⟩ ctx ∨
      ∃ u ctx', checkProperty span dest name ctx = .ok u ctx' ∧ ctx.Continues ctx' := by
  simp only [checkProperty, bind_apply, get_apply, hs.continues.options, hs.continues.classDef,
    hs.name]
  cases start.options.isReceiver a.destination with
  | false => exact .inr ⟨(), ctx, rfl, .refl _⟩
  | true =>
      cases start.classDef with
      | none => exact .inl ⟨⟨rfl, rfl⟩, rfl⟩
      | some c =>
          cases hdeclared : c.hasProperty name with
          | false => exact .inl ⟨⟨rfl, hdeclared⟩, by simp [hdeclared]⟩
          | true => exact .inr ⟨(), ctx, by simp [hdeclared], .refl _⟩

/-! ### Targets inside a box -/

theorem assignAppend_fails (htarget : a.target = .append) :
    FailsBy span (a.Fault start) (assignAppend span dest a.operator s) ctx := by
  refine .guard (fault_of_operator hs (by simp [htarget])) fun _ => ?_
  refine .guard (fault_of_storage hs (by simp [htarget, Target.kind])) fun _ => ?_
  refine .bind_cases (materialize_cases hs.of.shapeIn) (fault_of_unusable hs) fun _ _ _ => ?_
  exact .of_total ((Total.require _).bind fun _ => .emit _)

theorem assignProperty_fails {name : String} (htarget : a.target = .property name) :
    FailsBy span (a.Fault start) (assignProperty span dest a.operator name s) ctx := by
  refine .guard (fault_of_operator hs (by simp [htarget])) fun _ => ?_
  refine .guard (fault_of_storage hs (by simp [htarget, Target.kind])) fun _ => ?_
  refine .bind_cases (checkProperty_cases hs) ?_ fun _ ctx₁ hctx₁ => ?_
  · rintro ⟨hreceiver, hbad⟩
    exact .undeclaredProperty htarget hreceiver hbad
  refine .bind_cases (materialize_cases (hs.of.later hctx₁).shapeIn) (fault_of_unusable hs) ?_
  exact fun _ _ _ => .of_total ((Total.require _).bind fun _ => .emit _)

theorem updateKey_fails {i : Expr} (htarget : a.target = .element i) :
    FailsBy span (a.Fault start) (updateKey span i) ctx := by
  have heval : a.Evaluates i := .inr (by rw [htarget]; rfl)
  refine .bind ((resolve_fails i hs.continues).mono fun _ h => .inside heval h) ?_
  intro index ctx₁ hrun
  obtain ⟨key, hi⟩ := resolve_of hs.continues hrun
  refine .bind_shape hi.shapeIn (.unusable heval hi.lowers) fun _ => ?_
  cases hkey : Key.of? key index with
  | some made => exact .pure _
  | none =>
      have hbad := isKey_eq_false (Source.ne_value_dynamic hi.shapeIn) hkey
      exact .fail (.badIndex htarget hi.lowers hbad)

theorem assignElement_fails {i : Expr} (htarget : a.target = .element i) :
    FailsBy span (a.Fault start) (assignElement span dest a.operator i s) ctx := by
  refine .guard (fault_of_operator hs (by simp [htarget])) fun _ => ?_
  refine .guard (fault_of_storage hs (by simp [htarget, Target.kind])) fun _ => ?_
  refine .bind (updateKey_fails hs htarget) fun key ctx₁ hrun => ?_
  have hctx₁ := (updateKey_quiet fun _ _ => trivial).continues hrun
  refine .bind_cases (materialize_cases (hs.of.later hctx₁).shapeIn) (fault_of_unusable hs) ?_
  exact fun _ _ _ => .of_total ((Total.require _).bind fun _ => .emit _)

/-- A source that has to be a box already. -/
theorem boxedSource_fails {use : ValueUse} (huse : a.target.boxUse? = some use)
    (hctx' : ctx.Continues ctx') : FailsBy span (a.Fault start) (boxedSource span s use) ctx' := by
  refine .bind_shape (hs.of.later hctx').shapeIn (fault_of_unusable hs) fun _ => ?_
  split
  · exact .pure _
  · rename_i hbox
    exact .fail (.unboxedSource hs.source hs.compiles huse hbox)

theorem appendProperty_fails {name : String} (htarget : a.target = .propertyAppend name) :
    FailsBy span (a.Fault start) (appendProperty span dest a.operator name s) ctx := by
  have huse : a.target.boxUse? = some .propertyAppend := by rw [htarget]; rfl
  refine .guard (fault_of_operator hs (by simp [htarget])) fun _ => ?_
  refine .guard (fault_of_object hs (by rw [huse]; rfl)) fun _ => ?_
  refine .bind (boxedSource_fails hs huse (.refl _)) fun _ _ _ => ?_
  exact .of_total ((Total.require _).bind fun _ => .emit _)

theorem propertyKey_fails {name : String} {i : Expr}
    (htarget : a.target = .propertyElement name i) :
    FailsBy span (a.Fault start) (propertyKey span i) ctx := by
  have heval : a.Evaluates i := .inr (by rw [htarget]; rfl)
  refine .bind ((resolve_fails i hs.continues).mono fun _ h => .inside heval h) ?_
  intro index ctx₁ hrun
  obtain ⟨key, hi⟩ := resolve_of hs.continues hrun
  refine .bind_shape hi.shapeIn (.unusable heval hi.lowers) fun _ => ?_
  split
  · exact .pure _
  · rename_i hbox
    exact .fail (.unboxedIndex htarget hi.lowers hbox)

theorem assignPropertyElement_fails {name : String} {i : Expr}
    (htarget : a.target = .propertyElement name i) :
    FailsBy span (a.Fault start) (assignPropertyElement span dest a.operator name i s) ctx := by
  have huse : a.target.boxUse? = some .propertyArray := by rw [htarget]; rfl
  refine .guard (fault_of_operator hs (by simp [htarget])) fun _ => ?_
  refine .guard (fault_of_object hs (by rw [huse]; rfl)) fun _ => ?_
  refine .bind (propertyKey_fails hs htarget) fun key ctx₁ hrun => ?_
  have hctx₁ := (propertyKey_quiet fun _ _ => trivial).continues hrun
  refine .bind (boxedSource_fails hs huse hctx₁) fun _ _ _ => ?_
  exact .of_total ((Total.require _).bind fun _ => .emit _)

/-! ### Plain variable targets -/

/-- **Only the strategy table refuses** a source with a value: what it has an entry for can be carried
out. -/
theorem assignWhole_fails (htarget : a.target = .whole) (expr? : Option Expr) :
    FailsBy span (a.Fault start) (assignWhole span dest a.operator s expr?) ctx := by
  unfold assignWhole
  rw [hs.readOnly]
  cases hfamily : dest.type.family? with
  | none =>
      have hpseudo := (StaticType.family?_eq_none_iff _).mp hfamily
      rw [hs.type, hs.offers.2.2.1] at hpseudo
      cases hpseudo
  | some family =>
      refine .bind_shape hs.of.shapeIn (fault_of_unusable hs) fun husable => ?_
      cases hselect : Strategy.select? family shape a.operator with
      | some strategy => exact .of_total (carryOut_total hfamily hselect)
      | none =>
          rw [hs.type] at hfamily ⊢
          exact .fail (.noStrategy hs.offers hs.notStep htarget hs.source hs.compiles husable
            hfamily hselect)

theorem assignSource_fails : FailsBy a.span (a.Fault start) (assignSource dest a e s) ctx := by
  unfold assignSource
  cases htarget : a.target with
  | whole => exact assignWhole_fails hs htarget (some e)
  | append => exact assignAppend_fails hs htarget
  | element i => exact assignElement_fails hs htarget
  | property name => exact assignProperty_fails hs htarget
  | propertyAppend name => exact appendProperty_fails hs htarget
  | propertyElement name i => exact assignPropertyElement_fails hs htarget

end Parts

/-! ### Whole assignments -/

theorem checkedDestination_fails (a : Assignment) (ctx : Context) :
    FailsBy a.span (a.Fault ctx) (checkedDestination a) ctx := by
  intro e ctx' hrun
  cases hcounted : (ctx.counting a.destination).table.get? a.destination with
  | none =>
      simp only [checkedDestination, bind_apply, writeSymbol_undeclared hcounted] at hrun
      cases hrun
      exact ⟨rfl, .undeclared ((ctx.table.keeps_countWrite a.destination).not_mem_names hcounted)⟩
  | some dest =>
      rw [checkedDestination_apply hcounted, SymbolTable.name_of_get? hcounted] at hrun
      obtain ⟨d, hget, rfl⟩ := Context.get?_counting_iff.mp hcounted
      split at hrun
      · rename_i hbad
        cases hrun
        exact ⟨rfl, .readOnly hget hbad⟩
      split at hrun
      · rename_i hbad
        cases hrun
        rw [Bool.and_eq_true, Bool.not_eq_true'] at hbad
        exact ⟨rfl, .receiver hbad.1 hbad.2⟩
      split at hrun
      · rename_i hbad
        cases hrun
        exact ⟨rfl, .pseudo (d := d) hget hbad⟩
      · cases hrun

theorem stepDestination_fails (hd : start.Offers a d) (hstep : a.operator.isStep = true)
    (htarget : a.target = .whole) (htype : dest.type = d.type) (direction : Step) :
    FailsBy span (a.Fault start) (stepDestination span dest direction a.operator) ctx := by
  have hbad : ∀ family, dest.type.family? = some family → family = .bool ∨ family = .string →
      a.Fault start (.unsupportedOperator a.operator dest.type .none) := by
    intro family hfamily hrefused
    rw [htype] at hfamily ⊢
    refine .step hd hstep htarget ?_
    rw [steppable_iff, hfamily]
    rcases hrefused with rfl | rfl <;> simp
  unfold stepDestination
  cases hfamily : dest.type.family? with
  | none =>
      have hpseudo := (StaticType.family?_eq_none_iff _).mp hfamily
      rw [htype, hd.2.2.1] at hpseudo
      cases hpseudo
  | some family =>
      cases family with
      | integer | double => exact .of_total (.emit _)
      | bool => exact .fail (hbad _ hfamily (.inl rfl))
      | string => exact .fail (hbad _ hfamily (.inr rfl))
      | dynamic =>
          refine .of_total ((Total.require _).bind fun _ => ?_)
          split
          · exact .emit _
          · exact (Total.emit _).bind fun _ => .emit _

theorem assignStep_fails (hd : start.Offers a d) (hstep : a.operator.isStep = true)
    (htarget : a.target = .whole) (htype : dest.type = d.type) (hwritable : dest.readOnly = false) :
    FailsBy span (a.Fault start) (assignStep span dest a.operator) ctx := by
  have hsteps : ∀ direction,
      FailsBy span (a.Fault start) (stepDestination span dest direction a.operator) ctx :=
    stepDestination_fails hd hstep htarget htype
  unfold assignStep
  rw [hwritable]
  cases hop : a.operator with
  | increment =>
      rw [hop] at hsteps
      exact hsteps .increment
  | decrement =>
      rw [hop] at hsteps
      exact hsteps .decrement
  | _ =>
      rw [hop] at hstep
      cases hstep

/-- **If an assignment cannot be lowered, it is at fault itself**, and so is the cause. -/
theorem assignment_fails (a : Assignment) (ctx : Context) :
    FailsBy a.span (a.Fault ctx) (assignment a) ctx := by
  refine .bind (checkedDestination_fails a ctx) fun dest counted hcheck => ?_
  obtain ⟨rfl, hget, hwritable, hpseudo, hreceiver⟩ := checkedDestination_ok_iff.mp hcheck
  obtain ⟨d, hd, rfl⟩ := Context.get?_counting_iff.mp hget
  have hname : d.name = a.destination := SymbolTable.name_of_get? hd
  have hoffers : ctx.Offers a d := ⟨hd, hwritable, hpseudo, hreceiver⟩
  by_cases hstep : a.operator.isStep = true
  · rw [if_pos hstep]
    cases htarget : a.target with
    | whole => exact .bind_ok rfl (assignStep_fails hoffers hstep htarget rfl hwritable)
    | _ =>
        refine .fail ?_
        rw [← htarget]
        exact .stepPart (d := d) hoffers hstep (by simp [htarget])
  rw [if_neg hstep]
  rw [Bool.not_eq_true] at hstep
  cases hsource : a.source with
  | none =>
      simp only [hname]
      exact .fail (.noValue hstep hsource)
  | some e =>
      have hcounted := Context.Continues.counting ctx a.destination
      refine .bind ((resolve_fails e hcounted).mono fun _ h => .inside (.inl hsource) h) ?_
      intro source lowered hrun
      obtain ⟨shape, hs⟩ := resolve_of hcounted hrun
      have hmarked := Context.Continues.marking lowered d.name
      have hcompiles : ctx.Compiles e shape :=
        (ctx.agrees_counting a.destination).symm.compiles
          ⟨a.span, source, lowered, hrun, hs.shapeIn⟩
      have hsourced : a.Sourced ctx d e shape source
          { d with mutationCount := d.mutationCount + 1 } (lowered.marking d.name) :=
        { offers := hoffers, notStep := hstep, source := hsource, compiles := hcompiles
          of := hs.later hmarked
          continues := (hcounted.trans (resolve_continues hrun)).trans hmarked
          name := hname, type := rfl, storage := rfl, readOnly := hwritable }
      exact .bind_ok rfl (assignSource_fails hsourced)

end Lower

/-- **A failed assignment is at fault itself**, and this is where the error is located. -/
theorem lowerAssignment_fault {a : Assignment} {ctx ctx' : Context} {e : LowerError}
    (h : lowerAssignment a ctx = .error e ctx') :
    e.location = a.span.location ∧ a.Fault ctx e.cause := by
  rw [lowerAssignment_apply] at h
  cases hrun : Lower.assignment a ctx with
  | ok u c =>
      rw [hrun] at h
      cases h
  | error e' c =>
      rw [hrun] at h
      cases h
      exact Lower.assignment_fails a ctx hrun

end BoxedLet
