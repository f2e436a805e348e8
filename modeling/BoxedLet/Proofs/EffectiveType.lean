import BoxedLet.Proofs.Acceptance

/-!
# BoxedLet.Proofs.EffectiveType

**The type system of expressions.** `Expr.HasType` gives an expression its effective type by rules
over the declared types of variables, with no look at lowering. Lowering accepts exactly the
expressions that have a type, and the source that it makes of one has that type
(`expression_acceptance_typed`).

The rules agree with the computed judgement that lowering is known to decide (`Expr.hasType_iff`).
They differ from it in that they ask about expressions, where it looks at shapes of sources.
-/

namespace BoxedLet



/-- The exponent of the double is not the one of infinities and NaNs. -/
def Decimal.IsFinite (x : Float) : Prop :=
  x.toBits.toNat / hiddenBit % exponentCount + 1 ≠ exponentCount

theorem Decimal.decode_isOk_iff (x : Float) : (decode x).isOk = true ↔ IsFinite x := by
  unfold decode decodeBits IsFinite
  by_cases hexponent : x.toBits.toNat / hiddenBit % exponentCount + 1 = exponentCount
  · simp [hexponent, Except.isOk, Except.toBool]
  · simp only [hexponent, if_false, ne_eq, not_false_eq_true, iff_true]
    split <;> rfl

namespace Expr

/-! ### The rules -/

/-- A bare variable of a pseudo type. -/
def IsPseudoVar (Γ : String → Option StaticType) (e : Expr) : Prop :=
  ∃ x t, e = .var x ∧ Γ x = some t ∧ t.isPseudo = true

/-- An expression of type `t` that can be tested: the null literal, a native scalar or a box. -/
def IsTestable (e : Expr) (t : StaticType) : Prop :=
  e = .null ∨ t.isNativeScalar = true ∨ t = .dynamic

/-- The types of keys. -/
def IsKeyType (t : StaticType) : Prop :=
  t.isInteger = true ∨ t = .string ∨ t = .dynamic

mutual

/-- The expression has the effective type `t`, given the declared types of variables. -/
inductive HasType (Γ : String → Option StaticType) : Expr → StaticType → Prop
  | null : HasType Γ .null .null
  | bool (b : Bool) : HasType Γ (.bool b) .bool
  | int (n : Int64) : HasType Γ (.int n) .int
  | double {x : Float} (hx : Decimal.IsFinite x) : HasType Γ (.double x) .double
  | char (c : Char) : HasType Γ (.char c) .char
  | string (s : String) : HasType Γ (.string s) .string
  | emptyArray : HasType Γ .emptyArray .emptyArray
  | var {x : String} {t : StaticType} (hx : Γ x = some t) : HasType Γ (.var x) t
  | not {e : Expr} {t : StaticType} (he : HasType Γ e t) (htest : e.IsTestable t) :
      HasType Γ (.not e) .bool
  | connect {l r : Expr} {s t : StaticType} (op : Connective) (hl : HasType Γ l s)
      (hr : HasType Γ r t) (hltest : l.IsTestable s) (hrtest : r.IsTestable t) :
      HasType Γ (.binary (.connect op) l r) .bool
  | arithNative {l r : Expr} {s t : StaticType} (op : Arith) (hl : HasType Γ l s)
      (hr : HasType Γ r t) (hs : s.isNativeScalar = true) (ht : t.isNativeScalar = true) :
      HasType Γ (.binary (.arith op) l r) (if s = .double ∨ t = .double then .double else .int)
  | arithBoxed {l r : Expr} {s t : StaticType} (op : Arith) (hl : HasType Γ l s)
      (hr : HasType Γ r t) (hboxed : ¬ (s.isNativeScalar = true ∧ t.isNativeScalar = true))
      (hlvalue : ¬ l.IsPseudoVar Γ) (hrvalue : ¬ r.IsPseudoVar Γ) :
      HasType Γ (.binary (.arith op) l r) .dynamic
  | concat {l r : Expr} {s t : StaticType} (hl : HasType Γ l s) (hr : HasType Γ r t)
      (hlvalue : ¬ l.IsPseudoVar Γ) (hrvalue : ¬ r.IsPseudoVar Γ) :
      HasType Γ (.binary .concat l r) .dynamic
  | compareNative {l r : Expr} {s t : StaticType} (op : Comparison) (hl : HasType Γ l s)
      (hr : HasType Γ r t) (hs : s.isNativeScalar = true) (ht : t.isNativeScalar = true) :
      HasType Γ (.binary (.compare op) l r) .bool
  | compareBoxed {l r : Expr} {s t : StaticType} (op : Comparison) (hl : HasType Γ l s)
      (hr : HasType Γ r t) (hboxed : ¬ (s.isNativeScalar = true ∧ t.isNativeScalar = true))
      (hlvalue : ¬ l.IsPseudoVar Γ) (hrvalue : ¬ r.IsPseudoVar Γ) :
      HasType Γ (.binary (.compare op) l r) .bool
  | property {e : Expr} (name : String) (he : HasType Γ e .dynamic) :
      HasType Γ (.property e name) .dynamic
  | index {a i : Expr} {t : StaticType} (ha : HasType Γ a .dynamic) (hi : HasType Γ i t)
      (hkey : IsKeyType t) : HasType Γ (.index a i) .dynamic
  | call {args : List Expr} (name : String) (hargs : ArePassed Γ args) :
      HasType Γ (.call name args) .dynamic

/-- The expressions can be passed to a function: each has a type, and none is a variable of a pseudo
type. -/
inductive ArePassed (Γ : String → Option StaticType) : List Expr → Prop
  | nil : ArePassed Γ []
  | cons {e : Expr} {es : List Expr} {t : StaticType} (he : HasType Γ e t)
      (hvalue : ¬ e.IsPseudoVar Γ) (hes : ArePassed Γ es) : ArePassed Γ (e :: es)

end

/-! ### The rules and the shapes of sources -/

variable {Γ : String → Option StaticType} {e : Expr}

/-- Only a variable of a pseudo type has a shape that is of no use. -/
theorem isUsable_shape : (e.shape Γ).isUsable = true ↔ ¬ e.IsPseudoVar Γ := by
  cases e with
  | var x =>
      have hpseudo : (Expr.var x).IsPseudoVar Γ ↔ ∃ t, Γ x = some t ∧ t.isPseudo = true := by
        constructor
        · rintro ⟨_, t, ⟨⟩, ht⟩
          exact ⟨t, ht⟩
        · rintro ⟨t, ht⟩
          exact ⟨x, t, rfl, ht⟩
      rw [hpseudo, Expr.shape, Shape.isUsable]
      cases Γ x with
      | none => simpa using by decide
      | some t => simp
  | _ => simp [Expr.shape, Shape.isUsable_ofType, IsPseudoVar]

/-- Apart from variables, nothing but the null literal has the type of null. -/
theorem eq_null_of_type (hvar : ∀ x, e ≠ .var x) (h : e.type Γ = .null) : e = .null := by
  cases e with
  | null => rfl
  | var x => exact absurd rfl (hvar x)
  | binary op l r =>
      cases op with
      | arith op =>
          simp only [Expr.type, BinaryOp.type] at h
          split at h
          · split at h <;> cases h
          · cases h
      | _ => cases h
  | _ => cases h

theorem isCondition_shape : (e.shape Γ).isCondition = true ↔ e.IsTestable (e.type Γ) := by
  -- The shape of null is that of the literal alone: a variable has the shape of a binding.
  have hnull : e.shape Γ = .value .null ↔ e = .null := by
    constructor
    · intro hshape
      have htype : e.type Γ = .null := by rw [← Expr.shape_type, hshape]; rfl
      refine eq_null_of_type (fun x => ?_) htype
      rintro rfl
      cases hshape
    · rintro rfl
      rfl
  simp only [Shape.isCondition, Bool.or_eq_true, beq_iff_eq, Expr.shape_type, hnull, IsTestable]
  grind

theorem isKey_shape : (e.shape Γ).isKey = true ↔ IsKeyType (e.type Γ) := by
  simp only [Shape.isKey, Bool.or_eq_true, beq_iff_eq, Expr.shape_type, IsKeyType, or_assoc]

theorem not_isPseudoVar_of_isNativeScalar (h : (e.type Γ).isNativeScalar = true) :
    ¬ e.IsPseudoVar Γ :=
  isUsable_shape.mp (Lower.isUsable_of_isNativeScalar (by rwa [Expr.shape_type]))

/-! ### The rules and the computed judgement -/

/-- Operators that take all operands with a value. -/
theorem isWellTyped_binary {l r : Expr} {op : BinaryOp} (hop : ∀ c, op ≠ .connect c)
    (hl : l.isWellTyped Γ = true) (hr : r.isWellTyped Γ = true) (hlvalue : ¬ l.IsPseudoVar Γ)
    (hrvalue : ¬ r.IsPseudoVar Γ) : (Expr.binary op l r).isWellTyped Γ = true := by
  have hadmits : op.admits (l.shape Γ) (r.shape Γ) = true := by
    cases op with
    | connect c => exact absurd rfl (hop c)
    | _ => simp [BinaryOp.admits, isUsable_shape.mpr hlvalue, isUsable_shape.mpr hrvalue]
  simp [isWellTyped, hl, hr, hadmits]

theorem type_arith_boxed {l r : Expr} (op : Arith)
    (h : ¬ ((l.type Γ).isNativeScalar = true ∧ (r.type Γ).isNativeScalar = true)) :
    (Expr.binary (.arith op) l r).type Γ = .dynamic := by
  simp [Expr.type, BinaryOp.type, h]

theorem type_arith_native {l r : Expr} (op : Arith) (hl : (l.type Γ).isNativeScalar = true)
    (hr : (r.type Γ).isNativeScalar = true) :
    (Expr.binary (.arith op) l r).type Γ =
      if l.type Γ = .double ∨ r.type Γ = .double then .double else .int := by
  simp [Expr.type, BinaryOp.type, hl, hr]

mutual

/-- What has a type by the rules is well-typed, with that type. -/
theorem HasType.isWellTyped : ∀ {e : Expr} {t : StaticType}, HasType Γ e t →
    e.isWellTyped Γ = true ∧ e.type Γ = t
  | _, _, .null | _, _, .bool _ | _, _, .int _ | _, _, .char _ | _, _, .string _
  | _, _, .emptyArray => ⟨rfl, rfl⟩
  | _, _, .double hx => ⟨(Decimal.decode_isOk_iff _).mpr hx, rfl⟩
  | _, _, .var hx => by simp [Expr.isWellTyped, Expr.type, hx]
  | _, _, .not he htest => by
      obtain ⟨hwell, rfl⟩ := he.isWellTyped
      exact ⟨by simp [Expr.isWellTyped, hwell, isCondition_shape.mpr htest], rfl⟩
  | _, _, .connect op hl hr hltest hrtest => by
      obtain ⟨hlwell, rfl⟩ := hl.isWellTyped
      obtain ⟨hrwell, rfl⟩ := hr.isWellTyped
      refine ⟨?_, rfl⟩
      simp [Expr.isWellTyped, BinaryOp.admits, hlwell, hrwell, isCondition_shape.mpr hltest,
        isCondition_shape.mpr hrtest]
  | _, _, .arithNative op hl hr hs ht => by
      obtain ⟨hlwell, rfl⟩ := hl.isWellTyped
      obtain ⟨hrwell, rfl⟩ := hr.isWellTyped
      exact ⟨isWellTyped_binary (by simp) hlwell hrwell (not_isPseudoVar_of_isNativeScalar hs)
        (not_isPseudoVar_of_isNativeScalar ht), type_arith_native op hs ht⟩
  | _, _, .arithBoxed op hl hr hboxed hlvalue hrvalue => by
      obtain ⟨hlwell, rfl⟩ := hl.isWellTyped
      obtain ⟨hrwell, rfl⟩ := hr.isWellTyped
      exact ⟨isWellTyped_binary (by simp) hlwell hrwell hlvalue hrvalue,
        type_arith_boxed op hboxed⟩
  | _, _, .concat hl hr hlvalue hrvalue =>
      ⟨isWellTyped_binary (by simp) hl.isWellTyped.1 hr.isWellTyped.1 hlvalue hrvalue, rfl⟩
  | _, _, .compareNative op hl hr hs ht => by
      obtain ⟨hlwell, rfl⟩ := hl.isWellTyped
      obtain ⟨hrwell, rfl⟩ := hr.isWellTyped
      exact ⟨isWellTyped_binary (by simp) hlwell hrwell (not_isPseudoVar_of_isNativeScalar hs)
        (not_isPseudoVar_of_isNativeScalar ht), rfl⟩
  | _, _, .compareBoxed op hl hr _ hlvalue hrvalue =>
      ⟨isWellTyped_binary (by simp) hl.isWellTyped.1 hr.isWellTyped.1 hlvalue hrvalue, rfl⟩
  | _, _, .property name he => by
      obtain ⟨hwell, htype⟩ := he.isWellTyped
      exact ⟨by simp [Expr.isWellTyped, hwell, htype], rfl⟩
  | _, _, .index ha hi hkey => by
      obtain ⟨hawell, hatype⟩ := ha.isWellTyped
      obtain ⟨hiwell, rfl⟩ := hi.isWellTyped
      exact ⟨by simp [Expr.isWellTyped, hawell, hatype, hiwell, isKey_shape.mpr hkey], rfl⟩
  | _, _, .call name hargs => ⟨hargs.areWellTyped, rfl⟩

theorem ArePassed.areWellTyped : ∀ {es : List Expr}, ArePassed Γ es →
    Expr.areWellTyped Γ es = true
  | _, .nil => rfl
  | _, .cons he hvalue hes => by
      simp [Expr.areWellTyped, he.isWellTyped.1, isUsable_shape.mpr hvalue, hes.areWellTyped]

end

/-- The rule for a binary operator, from what it admits. -/
theorem HasType.binary {l r : Expr} {op : BinaryOp} (hl : HasType Γ l (l.type Γ))
    (hr : HasType Γ r (r.type Γ)) (hadmits : op.admits (l.shape Γ) (r.shape Γ) = true) :
    HasType Γ (.binary op l r) ((Expr.binary op l r).type Γ) := by
  have hvalues : (∀ c, op ≠ .connect c) → ¬ l.IsPseudoVar Γ ∧ ¬ r.IsPseudoVar Γ := by
    intro hop
    rw [← isUsable_shape, ← isUsable_shape]
    cases op with
    | connect c => exact absurd rfl (hop c)
    | _ => exact Bool.and_eq_true_iff.mp hadmits
  cases op with
  | connect op =>
      obtain ⟨hltest, hrtest⟩ := Bool.and_eq_true_iff.mp hadmits
      exact .connect op hl hr (isCondition_shape.mp hltest) (isCondition_shape.mp hrtest)
  | concat =>
      obtain ⟨hlvalue, hrvalue⟩ := hvalues (by simp)
      exact .concat hl hr hlvalue hrvalue
  | arith op =>
      obtain ⟨hlvalue, hrvalue⟩ := hvalues (by simp)
      by_cases hnative : (l.type Γ).isNativeScalar = true ∧ (r.type Γ).isNativeScalar = true
      · rw [type_arith_native op hnative.1 hnative.2]
        exact .arithNative op hl hr hnative.1 hnative.2
      · rw [type_arith_boxed op hnative]
        exact .arithBoxed op hl hr hnative hlvalue hrvalue
  | compare op =>
      obtain ⟨hlvalue, hrvalue⟩ := hvalues (by simp)
      by_cases hnative : (l.type Γ).isNativeScalar = true ∧ (r.type Γ).isNativeScalar = true
      · exact .compareNative op hl hr hnative.1 hnative.2
      · exact .compareBoxed op hl hr hnative hlvalue hrvalue

mutual

/-- What is well-typed has its type by the rules. -/
theorem hasType_of_isWellTyped : ∀ {e : Expr}, e.isWellTyped Γ = true → HasType Γ e (e.type Γ)
  | .null, _ => .null
  | .bool b, _ => .bool b
  | .int n, _ => .int n
  | .double _, h => .double ((Decimal.decode_isOk_iff _).mp h)
  | .char c, _ => .char c
  | .string s, _ => .string s
  | .emptyArray, _ => .emptyArray
  | .var x, h => by
      obtain ⟨t, ht⟩ := Option.isSome_iff_exists.mp h
      rw [Expr.type, ht]
      exact .var ht
  | .binary op l r, h => by
      obtain ⟨hl, hrest⟩ := Bool.and_eq_true_iff.mp h
      obtain ⟨hr, hadmits⟩ := Bool.and_eq_true_iff.mp hrest
      exact .binary (hasType_of_isWellTyped hl) (hasType_of_isWellTyped hr) hadmits
  | .not e, h => by
      obtain ⟨he, htest⟩ := Bool.and_eq_true_iff.mp h
      exact .not (hasType_of_isWellTyped he) (isCondition_shape.mp htest)
  | .property e name, h => by
      obtain ⟨he, htype⟩ := Bool.and_eq_true_iff.mp h
      have htyped := hasType_of_isWellTyped he
      rw [beq_iff_eq.mp htype] at htyped
      exact .property name htyped
  | .index a i, h => by
      obtain ⟨ha, hrest⟩ := Bool.and_eq_true_iff.mp h
      obtain ⟨htype, hrest⟩ := Bool.and_eq_true_iff.mp hrest
      obtain ⟨hi, hkey⟩ := Bool.and_eq_true_iff.mp hrest
      have harray := hasType_of_isWellTyped ha
      rw [beq_iff_eq.mp htype] at harray
      exact .index harray (hasType_of_isWellTyped hi) (isKey_shape.mp hkey)
  | .call name args, h => .call name (arePassed_of_areWellTyped h)

theorem arePassed_of_areWellTyped : ∀ {es : List Expr}, Expr.areWellTyped Γ es = true →
    ArePassed Γ es
  | [], _ => .nil
  | e :: es, h => by
      obtain ⟨he, hrest⟩ := Bool.and_eq_true_iff.mp h
      obtain ⟨husable, hes⟩ := Bool.and_eq_true_iff.mp hrest
      exact .cons (hasType_of_isWellTyped he) (isUsable_shape.mp husable)
        (arePassed_of_areWellTyped hes)

end

/-- **The rules agree with the computed judgement.** In particular no expression has two types. -/
theorem hasType_iff {t : StaticType} :
    HasType Γ e t ↔ e.isWellTyped Γ = true ∧ e.type Γ = t := by
  constructor
  · exact HasType.isWellTyped
  · rintro ⟨hwell, rfl⟩
    exact hasType_of_isWellTyped hwell

end Expr

/-! ### Lowering -/

/-- The static type of the source of an expression: `dynamic` for a bare variable, and else the
effective type. -/
def Expr.staticType (e : Expr) (t : StaticType) : StaticType :=
  match e with
  | .var _ => .dynamic
  | _ => t

theorem Source.Has.type {V : String → Prop} {Γ : String → Option StaticType} {s : Source} {e : Expr}
    (h : s.Has V Γ (e.shape Γ)) : s.type = e.staticType (e.type Γ) := by
  -- A binding is dynamic, and only the shape of a dynamic value is one.
  have hofType : ∀ t, s.Has V Γ (.ofType t) → s.type = t := by
    intro t ht
    unfold Shape.ofType at ht
    rcases ht.value_or_binding with ⟨-, hshape⟩ | ⟨hdynamic, _, hshape⟩
    · split at hshape
      · cases hshape
      · exact (Shape.value.inj hshape).symm
    · split at hshape
      · rename_i htype
        rw [hdynamic, htype]
      · cases hshape
  cases e with
  | var x =>
      rcases h.value_or_binding with ⟨-, hshape⟩ | ⟨hdynamic, -⟩
      · cases hshape
      · exact hdynamic
  | _ => exact hofType _ h

/-- **Lowering accepts exactly the expressions that have an effective type**, and the source that it
returns has this type in the state in which it returns. Variables that are mentioned and could be
taken for temporaries have to be declared. -/
theorem expression_acceptance_typed (e : Expr) (ctx : Context) (span : Span)
    (hdeclared : ∀ x, e.mentions x = true → ctx.table.IsTempName x → x ∈ ctx.table.names) :
    ((∃ s ctx', Lower.resolve span e ctx = .ok s ctx') ↔ ∃ t, e.HasType ctx.table.typeOf? t) ∧
      ∀ s ctx', Lower.resolve span e ctx = .ok s ctx' → ∀ t,
        (e.HasType ctx.table.typeOf? t ↔ s.subtype span ctx' = .ok t ctx') ∧
          (e.HasType ctx.table.typeOf? t → s.type = e.staticType t) := by
  have hdecides : Lower.Decides (e.mentions · = true) ctx (Lower.resolve span e) _ _ :=
    Lower.resolve_decides fun x hx => hx
  have hresolve := hdecides ctx (.refl hdeclared)
  simp only [Expr.hasType_iff]
  cases hrun : Lower.resolve span e ctx with
  | error error lowered =>
      rw [hrun] at hresolve
      dsimp only at hresolve
      simp [hresolve]
  | ok source lowered =>
      rw [hrun] at hresolve
      obtain ⟨hwell, hhas, hlowered⟩ := hresolve
      have hsubtype : source.subtype span lowered = _ :=
        Source.subtype_of_shapeIn (hhas.shapeIn hlowered)
      rw [Expr.shape_type] at hsubtype
      constructor
      · exact ⟨fun _ => ⟨_, hwell, rfl⟩, fun _ => ⟨source, lowered, rfl⟩⟩
      · rintro _ _ ⟨⟩ t
        constructor
        · simp [hsubtype, hwell]
        · rintro ⟨-, rfl⟩
          exact hhas.type

/-- `v[_0] + f("s") < 1 && !null`, with a boxed `v` and an integer that is called like a
temporary: the sum is a box, and its comparison is a truth value. -/
theorem expression_acceptance_typed_mixed :
    let ctx : Context :=
      { table.symbols :=
          [{ name := "v", type := .dynamic, storage := .heapBoxed },
            { name := "_0", type := .int, storage := .stackOnly }] }
    let e : Expr :=
      .binary (.connect .and)
        (.binary (.compare .less)
          (.binary (.arith .add) (.index (.var "v") (.var "_0")) (.call "f" [.string "s"]))
          (.int 1))
        (.not .null)
    (∀ x, e.mentions x = true → ctx.table.IsTempName x → x ∈ ctx.table.names) ∧
      e.HasType ctx.table.typeOf? .bool ∧
      ∃ s ctx', Lower.resolve {} e ctx = .ok s ctx' ∧ s.type = .bool := by
  intro ctx e
  have hdeclared : ∀ x, e.mentions x = true → ctx.table.IsTempName x → x ∈ ctx.table.names := by
    intro x hx _
    have hx : "v" = x ∨ "_0" = x := by
      simpa [e, Expr.mentions, Expr.anyMentions] using hx
    rcases hx with rfl | rfl <;> decide
  have htyped : e.HasType ctx.table.typeOf? .bool := Expr.hasType_iff.mpr ⟨by decide, by decide⟩
  have hacceptance := expression_acceptance_typed e ctx {} hdeclared
  obtain ⟨s, ctx', hrun⟩ := hacceptance.1.mpr ⟨_, htyped⟩
  exact ⟨hdeclared, htyped, s, ctx', hrun, (hacceptance.2 s ctx' hrun _).2 htyped⟩

end BoxedLet
