import BoxedLet.Proofs.AssignmentFaults
import BoxedLet.Proofs.Extension

/-!
# BoxedLet.Proofs.Diagnosis

**What an error tells.** It is located at the assignment that is at fault, and in a function body this
is the first one that cannot be lowered (`errors_located`). Only an assignment without a value fails
for lack of one.

Where an error names the type of an operand, this is meant to be the type that the operand has at run
time, which for a bare variable is its declared type. Updates of arrays and the strategy table name
that type. Array reads, tests for truth and the operators of structured targets name the static type
instead, and that of a bare variable is `dynamic`, whatever the variable has been declared as
(`rejections_name_types`, `read_index_named_dynamic`).
-/

namespace BoxedLet

/-! ### Named types -/

/-- The static type is the wrong one for bare variables that are no boxes, and for these alone. -/
theorem Expr.staticType_eq_iff (e : Expr) (t : StaticType) :
    t = e.staticType t ↔ t = .dynamic ∨ ∀ x, e ≠ .var x := by
  cases e with
  | var x => simp [Expr.staticType]
  | _ => simp [Expr.staticType]

section Causes

variable {a : Assignment} {ctx : Context} {t : StaticType}

theorem Assignment.Fault.readIndex (h : a.Fault ctx (.invalidIndex t .readArray)) :
    ∃ array i shape, a.Holds (.index array i) ∧ ctx.Lowers i shape ∧ shape.isKey = false ∧
      t = i.staticType shape.type := by
  cases h with
  | inside he hbad =>
      obtain ⟨sub, hsub, hfault⟩ := hbad
      cases hfault with
      | badIndex array hshape hbad => exact ⟨array, _, _, ⟨_, he, hsub⟩, hshape, hbad, rfl⟩

theorem Assignment.Fault.condition (h : a.Fault ctx (.invalidExpr (.notCondition t))) :
    ∃ sub part shape, a.Holds sub ∧ part ∈ sub.tested ∧ ctx.Lowers part shape ∧
      shape.isCondition = false ∧ t = part.staticType shape.type := by
  cases h with
  | inside he hbad =>
      obtain ⟨sub, hsub, hfault⟩ := hbad
      cases hfault with
      | untestable hpart hshape hbad => exact ⟨sub, _, _, ⟨_, he, hsub⟩, hpart, hshape, hbad, rfl⟩

theorem Assignment.Fault.updateIndex (h : a.Fault ctx (.invalidIndex t .updateArray)) :
    ∃ i shape, a.target = .element i ∧ ctx.Lowers i shape ∧ shape.isKey = false ∧
      t = shape.type := by
  cases h with
  | badIndex htarget hshape hbad => exact ⟨_, _, htarget, hshape, hbad, rfl⟩
  | inside he hbad =>
      obtain ⟨sub, -, hfault⟩ := hbad
      cases hfault

theorem Assignment.Fault.propertyIndex (h : a.Fault ctx (.invalidIndex t .updatePropertyArray)) :
    ∃ p i shape, a.target = .propertyElement p i ∧ ctx.Lowers i shape ∧
      shape ≠ .binding .dynamic ∧ t = shape.type := by
  cases h with
  | unboxedIndex htarget hshape hbad => exact ⟨_, _, _, htarget, hshape, hbad, rfl⟩
  | inside he hbad =>
      obtain ⟨sub, -, hfault⟩ := hbad
      cases hfault

theorem Assignment.Fault.operator {op : Operator} {dt : StaticType}
    (h : a.Fault ctx (.unsupportedOperator op dt (.type t))) :
    op = a.operator ∧ ∃ d e shape, ctx.Offers a d ∧ dt = d.type ∧ a.source = some e ∧
      ctx.Compiles e shape ∧
      (a.target = .whole ∧ shape.isUsable = true ∧ t = shape.type ∧
          (∀ family, d.type.family? = some family → Strategy.select? family shape op = none) ∨
        a.target ≠ .whole ∧ op ≠ .assign ∧ t = e.staticType shape.type) := by
  cases h with
  | noStrategy hd hstep htarget he hshape husable hfamily hbad =>
      refine ⟨rfl, _, _, _, hd, rfl, he, hshape, .inl ⟨htarget, husable, rfl, ?_⟩⟩
      intro family hfamily'
      cases hfamily.symm.trans hfamily'
      exact hbad
  | partOperator hd hstep htarget he hshape hbad =>
      exact ⟨rfl, _, _, _, hd, rfl, he, hshape, .inr ⟨htarget, hbad, rfl⟩⟩
  | inside he hbad =>
      obtain ⟨sub, -, hfault⟩ := hbad
      cases hfault

end Causes

/-- **The types that errors name.** An error about an index, a condition or a binary operator names a
type of the operand that is refused. The operand is refused for the type that it has at run time, the
one that follows from the declared types of its variables. Updates and plain targets name this type.
Array reads, conditions and structured targets name the static type, which is another one if the
operand is a bare variable that is no box. -/
theorem rejections_name_types (a : Assignment) (ctx ctx' : Context) (e : LowerError)
    (h : lowerAssignment a ctx = .error e ctx') :
    (∀ t, e.cause = .invalidIndex t .readArray →
      ∃ array i shape, a.Holds (.index array i) ∧ ctx.Lowers i shape ∧ shape.isKey = false ∧
        t = i.staticType shape.type ∧ (shape.type = t ↔ ∀ x, i ≠ .var x)) ∧
    (∀ t, e.cause = .invalidExpr (.notCondition t) →
      ∃ sub part shape, a.Holds sub ∧ part ∈ sub.tested ∧ ctx.Lowers part shape ∧
        shape.isCondition = false ∧ t = part.staticType shape.type ∧
        (shape.type = t ↔ ∀ x, part ≠ .var x)) ∧
    (∀ t, e.cause = .invalidIndex t .updateArray →
      ∃ i shape, a.target = .element i ∧ ctx.Lowers i shape ∧ shape.isKey = false ∧
        t = shape.type) ∧
    (∀ t, e.cause = .invalidIndex t .updatePropertyArray →
      ∃ p i shape, a.target = .propertyElement p i ∧ ctx.Lowers i shape ∧
        shape ≠ .binding .dynamic ∧ t = shape.type) ∧
    (∀ op dt t, e.cause = .unsupportedOperator op dt (.type t) →
      op = a.operator ∧ ∃ d source shape, ctx.Offers a d ∧ dt = d.type ∧
        a.source = some source ∧ ctx.Compiles source shape ∧
        (a.target = .whole ∧ shape.isUsable = true ∧ t = shape.type ∧
            (∀ family, d.type.family? = some family → Strategy.select? family shape op = none) ∨
          a.target ≠ .whole ∧ op ≠ .assign ∧ t = source.staticType shape.type)) ∧
    ∀ operand shape, ctx.Lowers operand shape →
      (∀ x, operand.mentions x = true → ctx.table.IsTempName x → x ∈ ctx.table.names) →
      operand.HasType ctx.table.typeOf? shape.type := by
  obtain ⟨-, hfault⟩ := lowerAssignment_fault h
  refine ⟨?_, ?_, ?_, ?_, ?_, ?_⟩
  · intro t ht
    rw [ht] at hfault
    obtain ⟨array, i, shape, hholds, hlowers, hkey, rfl⟩ := hfault.readIndex
    have hdyn : shape.type ≠ .dynamic := by
      intro hdyn
      simp [Shape.isKey, hdyn] at hkey
    exact ⟨array, i, shape, hholds, hlowers, hkey, rfl,
      (i.staticType_eq_iff _).trans (or_iff_right hdyn)⟩
  · intro t ht
    rw [ht] at hfault
    obtain ⟨sub, part, shape, hholds, hpart, hlowers, hcondition, rfl⟩ := hfault.condition
    have hdyn : shape.type ≠ .dynamic := by
      intro hdyn
      simp [Shape.isCondition, hdyn] at hcondition
    exact ⟨sub, part, shape, hholds, hpart, hlowers, hcondition, rfl,
      (part.staticType_eq_iff _).trans (or_iff_right hdyn)⟩
  · intro t ht
    rw [ht] at hfault
    exact hfault.updateIndex
  · intro t ht
    rw [ht] at hfault
    exact hfault.propertyIndex
  · intro op dt t ht
    rw [ht] at hfault
    exact hfault.operator
  · intro operand shape hshape hdeclared
    exact hshape.hasType hdeclared

/-- `v = v[d]`, with a boxed `v` and a double `d`. -/
theorem rejections_name_types_read :
    let ctx : Context :=
      { table.symbols :=
          [{ name := "v", type := .dynamic, storage := .heapBoxed },
            { name := "d", type := .double, storage := .stackOnly }] }
    let a : Assignment :=
      { target := .whole, destination := "v", source := some (.index (.var "v") (.var "d")) }
    ∃ ctx',
      lowerAssignment a ctx = .error ⟨.invalidIndex .dynamic .readArray, a.span.location⟩ ctx' ∧
      ∃ array i shape, a.Holds (.index array i) ∧ ctx.Lowers i shape ∧ shape.isKey = false ∧
        .dynamic = i.staticType shape.type ∧ (shape.type = .dynamic ↔ ∀ x, i ≠ .var x) :=
  ⟨_, rfl, (rejections_name_types _ _ _ _ rfl).1 _ rfl⟩

/-- The variable `d` is a double, and so says the error of the update `v[d] = 1`. The error of the
read `v = v[d]` says that it is a box, which could be an index. -/
theorem read_index_named_dynamic :
    let u : CompilationUnit :=
      { declarations := [{ name := "v", type := .dynamic }, { name := "d", type := .double }] }
    let read : Assignment :=
      { target := .whole, destination := "v", source := some (.index (.var "v") (.var "d")) }
    let update : Assignment :=
      { target := .element (.var "d"), destination := "v", source := some (.int 1) }
    u.start.table.typeOf? "d" = some .double ∧
      { u with statements := [⟨[read]⟩] }.compile =
        .error ⟨.invalidIndex .dynamic .readArray, read.span.location⟩ ∧
      { u with statements := [⟨[update]⟩] }.compile =
        .error ⟨.invalidIndex .double .updateArray, update.span.location⟩ :=
  ⟨rfl, rfl, rfl⟩

/-! ### Locations -/

/-- A list of assignments fails where its first failing member does. -/
theorem lowerAssignments_error_iff {calls : List Assignment} {ctx final : Context}
    {e : LowerError} :
    lowerAssignments calls ctx = .error e final ↔
      ∃ before a after mid, calls = before ++ a :: after ∧
        lowerAssignments before ctx = .ok () mid ∧ lowerAssignment a mid = .error e final := by
  constructor
  · intro h
    induction calls generalizing ctx with
    | nil => cases h
    | cons a rest ih =>
        simp only [lowerAssignments, bind, EStateM.bind] at h
        cases hfirst : lowerAssignment a ctx with
        | error e' mid =>
            rw [hfirst] at h
            cases h
            exact ⟨[], a, rest, ctx, rfl, rfl, hfirst⟩
        | ok u mid =>
            rw [hfirst] at h
            obtain ⟨before, b, after, ready, rfl, hbefore, hb⟩ := ih h
            refine ⟨a :: before, b, after, ready, rfl, ?_, hb⟩
            simp only [lowerAssignments, bind, EStateM.bind, hfirst, hbefore]
  · rintro ⟨before, a, after, mid, rfl, hbefore, ha⟩
    have hrest : lowerAssignments (a :: after) mid = .error e final := by
      simp only [lowerAssignments, bind, EStateM.bind, ha]
    rw [lowerAssignments_append]
    simp only [bind, EStateM.bind, hbefore, hrest]

/-- A function body fails where the first of its assignments does that cannot be lowered. -/
theorem CompilationUnit.compile_error_iff {u : CompilationUnit} {e : LowerError} :
    u.compile = .error e ↔
      ∃ before a after ctx ctx', u.assignments = before ++ a :: after ∧
        lowerAssignments before u.start = .ok () ctx ∧ lowerAssignment a ctx = .error e ctx' := by
  rw [compile_eq_error_iff]
  constructor
  · rintro ⟨final, hrun⟩
    obtain ⟨before, a, after, mid, hsplit, hbefore, ha⟩ := lowerAssignments_error_iff.mp hrun
    exact ⟨before, a, after, mid, final, hsplit, hbefore, ha⟩
  · rintro ⟨before, a, after, mid, final, hsplit, hbefore, ha⟩
    exact ⟨final, lowerAssignments_error_iff.mpr ⟨before, a, after, mid, hsplit, hbefore, ha⟩⟩

/-- **Errors are located at the assignment that is at fault.** Lowering an expression fails at the
position that it is given, however deep in the expression the cause has arisen, and lowering an
assignment fails at the file, the line and the column of its span. A function body fails with an
error if and only if this is the error of one of its assignments, in statement order, after all
earlier ones have been lowered; so the error is located at the first assignment that cannot be
lowered. -/
theorem errors_located :
    (∀ (e : Expr) (span : Span) (ctx ctx' : Context) (error : LowerError),
      Lower.resolve span e ctx = .error error ctx' →
        error.location = ⟨span.file, span.line, span.column⟩ ∧ e.Faulty ctx error.cause) ∧
    (∀ (a : Assignment) (ctx ctx' : Context) (error : LowerError),
      lowerAssignment a ctx = .error error ctx' →
        error.location = ⟨a.span.file, a.span.line, a.span.column⟩ ∧ a.Fault ctx error.cause) ∧
    ∀ (u : CompilationUnit) (error : LowerError),
      u.compile = .error error ↔
        ∃ before a after ctx ctx', u.assignments = before ++ a :: after ∧
          lowerAssignments before u.start = .ok () ctx ∧
          lowerAssignment a ctx = .error error ctx' ∧
          error.location = ⟨a.span.file, a.span.line, a.span.column⟩ := by
  refine ⟨?_, ?_, ?_⟩
  · intro e span ctx ctx' error h
    exact Lower.resolve_fails e (.refl ctx) h
  · intro a ctx ctx' error h
    exact lowerAssignment_fault h
  · intro u error
    rw [CompilationUnit.compile_error_iff]
    constructor
    · rintro ⟨before, a, after, ctx, ctx', hsplit, hbefore, ha⟩
      exact ⟨before, a, after, ctx, ctx', hsplit, hbefore, ha, (lowerAssignment_fault ha).1⟩
    · rintro ⟨before, a, after, ctx, ctx', hsplit, hbefore, ha, -⟩
      exact ⟨before, a, after, ctx, ctx', hsplit, hbefore, ha⟩

/-- Of three assignments the second fails, inside an index inside an argument, and the third would
fail, too. -/
theorem errors_located_argument :
    let v : Declaration := { name := "v", type := .dynamic }
    let first : Assignment :=
      { target := .whole, destination := "v", source := some (.int 1), span := ⟨none, 1, 2⟩ }
    let second : Assignment :=
      { target := .whole, destination := "v"
        source := some (.call "f" [.index (.var "v") (.binary .concat (.var "v") (.var "w"))])
        span := ⟨some "unit", 3, 4⟩ }
    let third : Assignment :=
      { target := .whole, destination := "w", source := some (.int 1), span := ⟨none, 5, 6⟩ }
    let u : CompilationUnit :=
      { declarations := [v], statements := [⟨[first]⟩, ⟨[second, third]⟩] }
    ∃ error, u.compile = .error error ∧ error.cause = .undeclaredVariable "w" .read ∧
      error.location = ⟨some "unit", 3, 4⟩ ∧
      ∃ before a after ctx ctx', u.assignments = before ++ a :: after ∧
        lowerAssignments before u.start = .ok () ctx ∧
        lowerAssignment a ctx = .error error ctx' ∧
        error.location = ⟨a.span.file, a.span.line, a.span.column⟩ := by
  intro v first second third u
  obtain ⟨error, hcompile, hcause, hlocation⟩ : ∃ error, u.compile = .error error ∧
      error.cause = .undeclaredVariable "w" .read ∧ error.location = ⟨some "unit", 3, 4⟩ :=
    ⟨_, rfl, rfl, rfl⟩
  exact ⟨error, hcompile, hcause, hlocation, (errors_located.2.2 u error).mp hcompile⟩

/-! ### Missing values -/

/-- The assignment has something to write: an operator that takes a source has one. -/
def Assignment.HasValue (a : Assignment) : Prop :=
  a.source.isSome = true ∨ a.operator.isStep = true

/-- Whether the cause is that an assignment has no value. -/
def Cause.isNoValue : Cause → Bool
  | invalidExpr (.noValue _) => true
  | _ => false

/-- An assignment that has a value is not at fault for lack of one. -/
theorem Assignment.Fault.isNoValue_eq_false {start : Context} {a : Assignment} {cause : Cause}
    (h : a.Fault start cause) (hvalue : a.HasValue) : cause.isNoValue = false := by
  cases h with
  | noValue hstep hsource => simp [Assignment.HasValue, hstep, hsource] at hvalue
  | inside he hbad =>
      obtain ⟨sub, -, hfault⟩ := hbad
      cases hfault <;> rfl
  | _ => rfl

/-- **A unit whose assignments have values never fails for lack of one.** -/
theorem CompilationUnit.compile_spares {u : CompilationUnit} (h : ∀ a ∈ u.assignments, a.HasValue)
    {e : LowerError} (hcompile : u.compile = .error e) : e.cause.isNoValue = false := by
  obtain ⟨before, a, after, ctx, ctx', hsplit, -, ha⟩ := compile_error_iff.mp hcompile
  have hvalue : a.HasValue := h a (by simp [hsplit])
  exact (lowerAssignment_fault ha).2.isNoValue_eq_false hvalue

end BoxedLet
