import BoxedLet.Proofs.Faults
import BoxedLet.Proofs.Hazard

/-!
# BoxedLet.Proofs.BoxingPaths

**The two ways of boxing agree.** A plain assignment builds the box of its destination; everything
else that needs a box of a value materializes it in a temporary. A `BoxUse` is one of four places for
an expression that lead through one or the other.

All of them lower the expression first, from states that agree, and so to the same source. What is
made of the source then depends on its shape alone (`BoxUse.Settles`): it is refused for the same
cause, is passed on by the same code, or goes into a box that is built from the same content.
-/

namespace BoxedLet

variable {span : Span}

/-- A use of a boxed value. -/
inductive BoxUse
  /-- `x = e` -/
  | whole (x : String)
  /-- `v[] = e` -/
  | append (v : String)
  /-- `v.p = e` -/
  | property (v p : String)
  /-- `f(e)` -/
  | argument (f : String)

namespace BoxUse

/-- The variable that is written. -/
def written? : BoxUse → Option String
  | whole x => some x
  | append v | property v _ => some v
  | argument _ => none

/-- The use is a plain assignment. -/
def isWhole : BoxUse → Bool
  | whole _ => true
  | append _ | property _ _ | argument _ => false

/-- The variable that is written is a heap box that may be written, is not the receiver and does not
occur in the expression. -/
def Open (ctx : Context) (e : Expr) (use : BoxUse) : Prop :=
  ∀ x, use.written? = some x →
    e.mentions x = false ∧ ctx.options.isReceiver x = false ∧
      ∃ d, ctx.table.get? x = some d ∧ d.readOnly = false ∧ d.type = .dynamic ∧
        d.storage = .heapBoxed

/-- The assignment that makes use of the expression. -/
def toAssignment (target : Target) (x : String) (e : Expr) (span : Span) : Assignment :=
  { target, destination := x, operator := .assign, source := some e, span }

/-- A call with the expression as its argument; its result is not used. -/
def call (f : String) (e : Expr) (span : Span) : Lower Unit := do
  let _ ← Lower.resolve span (.call f [e])

/-- Lowers the use of the expression, at the given position. -/
def run (e : Expr) (span : Span) : BoxUse → Lower Unit
  | whole x => lowerAssignment (toAssignment .whole x e span)
  | append v => lowerAssignment (toAssignment .append v e span)
  | property v p => lowerAssignment (toAssignment (.property p) v e span)
  | argument f => call f e span

/-- What is emitted for the use of a box that there is. A call has a result. -/
def passing (result : String) (value : Code) : BoxUse → List Instr
  | whole x => [.copy (.var x) value]
  | append v => [.append (.var v) value]
  | property v p => [.setProperty (.var v) p value]
  | argument f => [.call (.temp result) f [value]]

/-- What is emitted for the use of a box that is built for it: the box of the variable itself, or a
temporary that is passed on. -/
def building (first : Bool) (box result : String) (content : BoxContent) (use : BoxUse) :
    List Instr :=
  match use with
  | whole x => [.init (.var x) first, .build (.var x) false content]
  | _ => .build (.temp box) false content :: use.passing result (.place (.temp box))

/-! ### What becomes of a source -/

variable {α : Type} {use : BoxUse} {ctx ctx₁ ready : Context} {e : Expr} {s : Source}
  {shape : Shape} {x : String} {dest : Symbol}

/-- The outcome is the use of the source that its shape asks for. The source has been lowered in
`ctx₁`. -/
structure Settles (use : BoxUse) (span : Span) (ctx₁ : Context) (s : Source) (shape : Shape)
    (outcome : EStateM.Result LowerError Context α) : Prop where
  unusable : shape.isUsable = false →
    ∃ c, outcome = .error ⟨.unknownSource shape.type, span.location⟩ c
  passing : shape = .binding .dynamic → ∃ result b c, outcome = .ok b c ∧
    c.code = ctx₁.code ++ use.passing result s.code
  building : ∀ content, shape.isUsable = true → shape ≠ .binding .dynamic →
    boxContent? shape s = some content → ∃ first result b c, outcome = .ok b c ∧
      c.code = ctx₁.code ++ use.building first ctx₁.table.nextName result content ∧
      (use.isWhole = false → ∃ temp, c.table.get? ctx₁.table.nextName = some temp ∧
        temp.temporary = true ∧ temp.type = .dynamic)

/-- The computation passes a box on, and does nothing else that could be seen. -/
def Delivers (use : BoxUse) (k : Code → Lower α) : Prop :=
  use.isWhole = false ∧ ∀ value ctx, ∃ result b c, k value ctx = .ok b c ∧
    c.code = ctx.code ++ use.passing result value ∧ ctx.table.Keeps c.table

/-- **Materializing a source and passing the box on.** -/
theorem Delivers.settles {k : Code → Lower α} (hk : use.Delivers k) (hagrees : ctx₁.Agrees ready)
    (hshape : s.shapeIn ctx₁.table = some shape) :
    use.Settles span ctx₁ s shape ((Lower.materialize span s >>= k) ready) := by
  have hready : s.shapeIn ready.table = some shape := (hagrees.shapeIn s).trans hshape
  constructor
  · intro hbad
    rw [Lower.bind_apply, Lower.materialize_unusable hready hbad]
    exact ⟨ready, rfl⟩
  · rintro rfl
    obtain ⟨result, b, c, hrun, hcode, -⟩ := hk.2 s.code ready
    rw [Lower.bind_apply, Lower.materialize_box hready]
    exact ⟨result, b, c, hrun, hagrees.code ▸ hcode⟩
  · intro content husable hbox hcontent
    rw [Lower.bind_apply, Lower.materialize_new hready hbox husable hcontent, hagrees.nextName]
    obtain ⟨result, b, c, hrun, hcode, hkeeps⟩ := hk.2 (.place (.temp ctx₁.table.nextName))
      (ready.filling .dynamic (.build (.temp ctx₁.table.nextName) false content))
    refine ⟨true, result, b, c, hrun, ?_, fun _ => ?_⟩
    · have hbuilding : use.building true ctx₁.table.nextName result content =
          .build (.temp ctx₁.table.nextName) false content ::
            use.passing result (.place (.temp ctx₁.table.nextName)) := by
        cases use with
        | whole x => cases hk.1
        | _ => rfl
      rw [hcode, hbuilding, Context.filling, hagrees.code, List.append_assoc]
      rfl
    · have hnew := ready.table.get?_nextName .dynamic
      rw [hagrees.nextName] at hnew
      obtain ⟨temp, htemp, halike⟩ := hkeeps _ _ hnew
      exact ⟨temp, htemp, halike.temporary, halike.type⟩

theorem delivers_append (v : String) :
    (append v).Delivers fun value =>
      Lower.require .array >>= fun _ => Lower.emit (.append (.var v) value) :=
  ⟨rfl, fun _ _ => ⟨"", (), _, rfl, rfl, .refl _⟩⟩

theorem delivers_property (v p : String) :
    (property v p).Delivers fun value =>
      Lower.require .object >>= fun _ => Lower.emit (.setProperty (.var v) p value) :=
  ⟨rfl, fun _ _ => ⟨"", (), _, rfl, rfl, .refl _⟩⟩

theorem delivers_argument (f : String) :
    (argument f).Delivers fun value => Lower.callFunction f [value] >>= fun _ => pure () :=
  ⟨rfl, fun _ ctx => ⟨ctx.table.nextName, _, _, rfl, rfl, ctx.table.keeps_newTemporary .dynamic⟩⟩

/-! ### The state before a destination is written -/

/-- The source has been lowered, and `dest` is the heap box that comes next. -/
structure Poised (ctx₁ : Context) (x : String) (dest : Symbol) (ready : Context) : Prop where
  agrees : ctx₁.Agrees ready
  name : dest.name = x
  type : dest.type = .dynamic
  storage : dest.storage = .heapBoxed
  writable : dest.readOnly = false
  receiver : ready.options.isReceiver x = false
  held : ∃ d, ready.table.get? x = some d ∧ d.storage = .heapBoxed

/-- An assignment comes to its destination once its source is lowered, and fails where the source
does. -/
theorem assignment_cases (target : Target) (span : Span) (hopen : use.Open ctx e)
    (hx : use.written? = some x) :
    (∀ cause c, Lower.resolve span e ctx = .error ⟨cause, span.location⟩ c →
      ∃ c', Lower.assignment (toAssignment target x e span) ctx =
        .error ⟨cause, span.location⟩ c') ∧
    ∀ s ctx₁, Lower.resolve span e ctx = .ok s ctx₁ → ∃ dest ready, Poised ctx₁ x dest ready ∧
      Lower.assignment (toAssignment target x e span) ctx =
        Lower.assignSource dest (toAssignment target x e span) e s ready := by
  obtain ⟨-, hreceiver, d, hget, hwritable, htype, hstorage⟩ := hopen x hx
  let a := toAssignment target x e span
  let dest : Symbol := { d with mutationCount := d.mutationCount + 1 }
  have hname : d.name = x := SymbolTable.name_of_get? hget
  have hcounted : (ctx.counting x).table.get? x = some dest :=
    Context.get?_counting_iff.mpr ⟨d, hget, rfl⟩
  have hcheck : Lower.checkedDestination a ctx = .ok dest (ctx.counting x) := by
    refine Lower.checkedDestination_ok_iff.mpr ⟨rfl, hcounted, hwritable, ?_, ?_⟩
    · show d.type.isPseudo = false
      rw [htype]
      rfl
    · intro h
      exact absurd (hreceiver.symm.trans h) Bool.false_ne_true
  -- the count is all that differs when the source is lowered here, and lowering never reads it
  have hagrees : ctx.Agrees (ctx.counting x) :=
    (Context.Agrees.refl ctx).modify x fun _ => ⟨rfl, rfl⟩
  obtain ⟨s, _, ctx₁, lowered, hrun, hlower, rfl, hafter⟩ |
      ⟨error, error', c, c', hrun, hlower, hsame, -⟩ :=
    (Lower.resolve_blind e span span).run hagrees
  · refine ⟨fun cause c h => ?_, fun s' c h => ?_⟩
    · cases hrun.symm.trans h
    · cases hrun.symm.trans h
      have hgrows := Lower.resolve_grows hlower
      have hkept : lowered.table.get? x = some dest :=
        (hgrows.get? (SymbolTable.mem_names_of_get? hcounted)).trans hcounted
      refine ⟨dest, lowered.marking x, ⟨hafter.modify x fun _ => ⟨rfl, rfl⟩, hname, htype, hstorage,
        hwritable, ?_, _, SymbolTable.get?_modify_self (fun _ => rfl) hkept, hstorage⟩, ?_⟩
      · show lowered.options.isReceiver x = false
        rw [hgrows.options]
        exact hreceiver
      · rw [Lower.assignment_of_source hcheck rfl rfl hlower, hname]
  · refine ⟨fun cause' c'' h => ?_, fun s' c'' h => ?_⟩
    · cases hrun.symm.trans h
      refine ⟨c', ?_⟩
      have herror : error' = ⟨cause', span.location⟩ :=
        LowerError.ext hsame (Lower.resolve_error_location hlower)
      have hassign : Lower.assignment a ctx = .error error' c' := by
        have hlower : Lower.resolve a.span e (ctx.counting x) = .error error' c' := hlower
        have hsource : a.source = some e := rfl
        have hstep : a.operator.isStep = false := rfl
        simp only [Lower.assignment, Lower.bind_apply, hcheck, hstep, Bool.false_eq_true, if_false,
          hsource, hlower]
      exact herror ▸ hassign
    · cases hrun.symm.trans h

/-! ### Plain assignments -/

/-- The strategy for a value that is no box yet is to rebuild the destination from its content. -/
theorem assignWhole_new {expr? : Option Expr} {content : BoxContent}
    (hpoised : Poised ctx₁ x dest ready) (hshape : s.shapeIn ready.table = some shape)
    (husable : shape.isUsable = true) (hbox : shape ≠ .binding .dynamic)
    (hcontent : boxContent? shape s = some content)
    (hreads : Lower.readsDestination ready.options dest s expr? = false) :
    Lower.assignWhole span dest .assign s expr? ready = Lower.rebuild dest content ready := by
  have hsource : Lower.boxSource span dest shape s ready = Lower.rebuild dest content ready := by
    rw [Lower.boxSource, hcontent]
  have hscalar : ∀ kind, Lower.boxScalar dest kind shape s expr? ready =
      Lower.rebuild dest content ready := by
    intro kind
    rw [Lower.boxScalar_apply, hreads, hcontent]
    rfl
  obtain ⟨strategy, hselect, hcarry⟩ : ∃ strategy,
      Strategy.select? .dynamic shape .assign = some strategy ∧
        Lower.carryOut span strategy dest .assign shape s expr? ready =
          Lower.rebuild dest content ready := by
    cases shape with
    | value t =>
        cases t with
        | dynamic => exact absurd rfl (Source.ne_value_dynamic hshape)
        | null | string | emptyArray => exact ⟨_, rfl, hsource⟩
        | _ => exact ⟨_, rfl, hscalar _⟩
    | binding t =>
        cases t with
        | dynamic => exact absurd rfl hbox
        | null | emptyArray => cases husable
        | _ => exact ⟨_, rfl, hsource⟩
  simp only [Lower.assignWhole, hpoised.writable, Bool.false_eq_true, if_false, hpoised.type,
    StaticType.family?, Lower.bind_apply, Source.shape_apply hshape, husable, if_true, hselect,
    hcarry]

theorem assignWhole_settles (hpoised : Poised ctx₁ x dest ready)
    (hshape : s.shapeIn ctx₁.table = some shape) (hname : s.name? ≠ some x)
    (hreads : Lower.readsDestination ready.options dest s (some e) = false) :
    (whole x).Settles span ctx₁ s shape (Lower.assignWhole span dest .assign s (some e) ready) := by
  have hready : s.shapeIn ready.table = some shape :=
    (hpoised.agrees.shapeIn s).trans hshape
  have hlookup : s.shape span ready = _ := Source.shape_apply hready
  constructor
  · intro hbad
    simp only [Lower.assignWhole, hpoised.writable, Bool.false_eq_true, if_false, hpoised.type,
      StaticType.family?, Lower.bind_apply, hlookup, hbad]
    exact ⟨ready, rfl⟩
  · rintro rfl
    have hrun : Lower.assignWhole span dest .assign s (some e) ready =
        Lower.copyBox dest s ready := by
      simp only [Lower.assignWhole, hpoised.writable, Bool.false_eq_true, if_false, hpoised.type,
        StaticType.family?, Lower.bind_apply, hlookup]
      rfl
    rw [hrun, Lower.copyBox, hpoised.name, if_neg hname]
    refine ⟨"", (), _, rfl, ?_⟩
    rw [← hpoised.agrees.code]
    rfl
  · intro content husable hbox hcontent
    obtain ⟨d, hget, hheap⟩ := hpoised.held
    have hinits : ready.inits x = [.init (.var x) (d.variantInits == 0)] := by
      simp only [Context.inits, hget, Symbol.isLocalOnly, hheap]
      rfl
    have hlocal : dest.isLocalOnly = false := by
      rw [Symbol.isLocalOnly, hpoised.storage]
      rfl
    rw [assignWhole_new hpoised hready husable hbox hcontent hreads, Lower.rebuild_apply,
      hpoised.name, hinits, hlocal, hpoised.agrees.code]
    exact ⟨_, "", (), _, rfl, rfl, fun h => by cases h⟩

/-! ### All uses -/

/-- The use of the expression; what it emitted stays if it fails. -/
def lower (e : Expr) (span : Span) : BoxUse → Lower Unit
  | whole x => Lower.assignment (toAssignment .whole x e span)
  | append v => Lower.assignment (toAssignment .append v e span)
  | property v p => Lower.assignment (toAssignment (.property p) v e span)
  | argument f => call f e span

theorem run_ok {c : Context} (h : use.lower e span ctx = .ok () c) :
    use.run e span ctx = .ok () c := by
  cases use with
  | whole x | append x | property x p => exact lowerAssignment_ok h
  | argument f => exact h

theorem run_error {error : LowerError} {c : Context} (h : use.lower e span ctx = .error error c) :
    ∃ c', use.run e span ctx = .error error c' := by
  have hassign : ∀ a : Assignment, Lower.assignment a ctx = .error error c →
      ∃ c', lowerAssignment a ctx = .error error c' := by
    intro a h
    rw [lowerAssignment_apply, h]
    exact ⟨_, rfl⟩
  cases use with
  | whole x | append x | property x p => exact hassign _ h
  | argument f => exact ⟨c, h⟩

/-- Where the expression cannot be lowered, no use of it can. -/
theorem lower_error (span : Span) (hopen : use.Open ctx e) {cause : Cause} {c : Context}
    (h : Lower.resolve span e ctx = .error ⟨cause, span.location⟩ c) :
    ∃ c', use.lower e span ctx = .error ⟨cause, span.location⟩ c' := by
  cases use with
  | whole x | append x | property x p => exact (assignment_cases _ span hopen rfl).1 cause c h
  | argument f =>
      refine ⟨c, ?_⟩
      simp only [lower, call, Lower.resolve, Lower.resolveArgs, Lower.bind_apply, h]

/-- A call with one argument materializes it. -/
theorem call_apply (f : String) (h : Lower.resolve span e ctx = .ok s ctx₁) :
    call f e span ctx = (Lower.materialize span s >>= fun value =>
      Lower.callFunction f [value] >>= fun _ => pure ()) ctx₁ := by
  simp only [call, Lower.resolve, Lower.resolveArgs, Lower.bind_apply, h, Lower.pure_apply]
  cases Lower.materialize span s ctx₁ <;> rfl

/-- **Every use settles the source of the expression**, wherever it stands. -/
theorem lower_settles (span : Span) (hopen : use.Open ctx e)
    (h : Lower.resolve span e ctx = .ok s ctx₁) (hshape : s.shapeIn ctx₁.table = some shape) :
    use.Settles span ctx₁ s shape (use.lower e span ctx) := by
  cases use with
  | whole x =>
      have hmentions : e.mentions x = false := (hopen x rfl).1
      obtain ⟨dest, ready, hpoised, hrun⟩ := (assignment_cases .whole span hopen rfl).2 s ctx₁ h
      have hname : s.name? ≠ some x := by
        intro hname
        rw [Lower.resolve_name? h hname] at hmentions
        simp [Expr.mentions] at hmentions
      have hreads : Lower.readsDestination ready.options dest s (some e) = false := by
        rw [readsDestination_eq h hpoised.name, hmentions]
      rw [lower, hrun]
      exact assignWhole_settles hpoised hshape hname hreads
  | append v =>
      obtain ⟨dest, ready, hpoised, hrun⟩ := (assignment_cases .append span hopen rfl).2 s ctx₁ h
      have hdeliver : Lower.assignAppend span dest .assign s ready =
          (Lower.materialize span s >>= fun value =>
            Lower.require .array >>= fun _ => Lower.emit (.append (.var v) value)) ready := by
        simp only [Lower.assignAppend, Lower.checkAssign, Lower.checkHeapBox, if_true, hpoised.type,
          hpoised.storage, hpoised.name, and_self, pure_bind]
      rw [lower, hrun.trans hdeliver]
      exact (delivers_append v).settles hpoised.agrees hshape
  | property v p =>
      obtain ⟨dest, ready, hpoised, hrun⟩ :=
        (assignment_cases (.property p) span hopen rfl).2 s ctx₁ h
      have hdeliver : Lower.assignProperty span dest .assign p s ready =
          (Lower.materialize span s >>= fun value =>
            Lower.require .object >>= fun _ => Lower.emit (.setProperty (.var v) p value)) ready := by
        -- not a property of the receiver, so that no class has to declare it
        have hproperty : Lower.checkProperty span dest p ready = .ok () ready := by
          simp [Lower.checkProperty, Lower.bind_apply, hpoised.name, hpoised.receiver]
        simp only [Lower.assignProperty, Lower.checkAssign, Lower.checkHeapBox, if_true,
          hpoised.type, hpoised.storage, and_self, pure_bind]
        rw [Lower.bind_apply, hproperty, hpoised.name]
      rw [lower, hrun.trans hdeliver]
      exact (delivers_property v p).settles hpoised.agrees hshape
  | argument f =>
      rw [lower, call_apply f h]
      exact (delivers_argument f).settles (.refl ctx₁) hshape

end BoxUse

/-- **The two ways of boxing agree.** For an expression and a position, either all four uses fail, with
one and the same error, or all of them succeed after lowering the expression to the same source. If it
is a box already, none of them builds one, and all pass it on by the same code. If it is not, each of
them builds a box from the same content: a plain assignment that of its variable, and the others a new
boxed temporary. -/
theorem boxing_paths_agree (ctx : Context) (e : Expr) (span : Span) :
    (∃ cause, ∀ use, BoxUse.Open ctx e use →
      ∃ c, use.run e span ctx = .error ⟨cause, span.location⟩ c) ∨
    ∃ s ctx₁ t, Lower.resolve span e ctx = .ok s ctx₁ ∧ s.subtype span ctx₁ = .ok t ctx₁ ∧
      (t = .dynamic → ∀ use, BoxUse.Open ctx e use →
        ∃ result c, use.run e span ctx = .ok () c ∧
          c.code = ctx₁.code ++ use.passing result s.code) ∧
      (t ≠ .dynamic → ∃ content box, box ∉ ctx₁.table.names ∧ ∀ use, BoxUse.Open ctx e use →
        ∃ first result c, use.run e span ctx = .ok () c ∧
          c.code = ctx₁.code ++ use.building first box result content ∧
          (use.isWhole = false → ∃ temp, c.table.get? box = some temp ∧
            temp.temporary = true ∧ temp.type = .dynamic)) := by
  cases hres : Lower.resolve span e ctx with
  | error error c =>
      obtain ⟨cause, location⟩ := error
      obtain rfl : location = span.location := Lower.resolve_error_location hres
      refine .inl ⟨cause, fun use hopen => ?_⟩
      obtain ⟨c', hrun⟩ := BoxUse.lower_error span hopen hres
      exact BoxUse.run_error hrun
  | ok s ctx₁ =>
      obtain ⟨shape, hshape⟩ := Lower.resolve_shapeIn hres
      have hsettles : ∀ use, BoxUse.Open ctx e use →
          use.Settles span ctx₁ s shape (use.lower e span ctx) :=
        fun use hopen => BoxUse.lower_settles span hopen hres hshape
      cases husable : shape.isUsable with
      | false =>
          refine .inl ⟨.unknownSource shape.type, fun use hopen => ?_⟩
          obtain ⟨c, hrun⟩ := (hsettles use hopen).unusable husable
          exact BoxUse.run_error hrun
      | true =>
          have hbox : shape = .binding .dynamic ↔ shape.type = .dynamic := by
            cases shape with
            | binding t => simp [Shape.type]
            | value t => simpa [Shape.type] using Source.ne_value_dynamic hshape
          refine .inr ⟨s, ctx₁, shape.type, rfl, Source.subtype_of_shapeIn hshape, ?_, ?_⟩
          · intro hdyn use hopen
            obtain ⟨result, _, c, hrun, hcode⟩ := (hsettles use hopen).passing (hbox.mpr hdyn)
            exact ⟨result, c, BoxUse.run_ok hrun, hcode⟩
          · intro hdyn
            have hbox : shape ≠ .binding .dynamic := fun h => hdyn (hbox.mp h)
            obtain ⟨content, hcontent⟩ := Option.isSome_iff_exists.mp
              (boxContent?_isSome s (Source.ne_value_dynamic hshape) hbox husable)
            refine ⟨content, ctx₁.table.nextName, ctx₁.table.nextName_not_mem_names, ?_⟩
            intro use hopen
            obtain ⟨first, result, _, c, hrun, hcode, htemp⟩ :=
              (hsettles use hopen).building content husable hbox hcontent
            exact ⟨first, result, c, BoxUse.run_ok hrun, hcode, htemp⟩

/-- `n + 1` with a native `n`, for which each use builds a box of the sum, and an undeclared
variable, for which each use fails. -/
theorem boxing_paths_agree_sum :
    let ctx : Context :=
      { table.symbols :=
          [{ name := "x", type := .dynamic, storage := .heapBoxed },
            { name := "v", type := .dynamic, storage := .heapBoxed },
            { name := "n", type := .int, storage := .stackOnly }] }
    let sum : Expr := .binary (.arith .add) (.var "n") (.int 1)
    let uses : List BoxUse := [.whole "x", .append "v", .property "v" "p", .argument "f"]
    (∃ content box, ∀ use ∈ uses, ∃ first result c, use.run sum {} ctx = .ok () c ∧
      c.code = use.building first box result content) ∧
    ∃ cause, ∀ use ∈ uses, ∃ c,
      use.run (.var "w") {} ctx = .error ⟨cause, Span.location {}⟩ c := by
  intro ctx sum uses
  have hopen : ∀ e : Expr, e.mentions "x" = false → e.mentions "v" = false →
      ∀ use ∈ uses, BoxUse.Open ctx e use := by
    intro e hx hv use huse y hy
    have hmem : y = "x" ∨ y = "v" := by
      simp only [uses, List.mem_cons, List.not_mem_nil, or_false] at huse
      rcases huse with rfl | rfl | rfl | rfl <;> simp_all [BoxUse.written?]
    rcases hmem with rfl | rfl
    · exact ⟨hx, by decide, _, rfl, rfl, rfl, rfl⟩
    · exact ⟨hv, by decide, _, rfl, rfl, rfl, rfl⟩
  constructor
  · obtain ⟨cause, hfails⟩ | ⟨s, ctx₁, t, hres, ht, -, hbuilds⟩ := boxing_paths_agree ctx sum {}
    · obtain ⟨c, hrun⟩ := hfails (.argument "f") (hopen sum rfl rfl _ (by simp [uses]))
      cases hrun
    · cases hres
      cases ht
      obtain ⟨content, box, -, hbuilds⟩ := hbuilds (by decide)
      refine ⟨content, box, fun use huse => ?_⟩
      obtain ⟨first, result, c, hrun, hcode, -⟩ := hbuilds use (hopen sum rfl rfl use huse)
      exact ⟨first, result, c, hrun, hcode⟩
  · obtain ⟨cause, hfails⟩ | ⟨s, ctx₁, t, hres, -⟩ := boxing_paths_agree ctx (.var "w") {}
    · exact ⟨cause, fun use huse => hfails use (hopen (.var "w") rfl rfl use huse)⟩
    · cases hres

end BoxedLet
