import BoxedLet.Proofs.Growth

/-!
# BoxedLet.Proofs.Resolve

**Lowering an expression only grows the state**, whether it succeeds or fails, and the source it
returns is one of the forms of `Source.Fits` over what is visible then.

One lemma for each helper, in the order of `BoxedLet.Lowering.Resolve`, then one induction over
expressions (`resolve_quiet`). `Source.Stands` is what the helpers learn when they look up the type
of a source: which kind of code it is at that type.
-/

namespace BoxedLet

variable {span : Span}

/-! ### The type of a source -/

/-- What the code of a source is, given the type that looking it up has found. -/
structure Source.Stands (Γ : Typing) (s : Source) (t : StaticType) : Prop where
  box : t = .dynamic → s.code.IsBox Γ
  scalar : t.isNativeScalar = true → s.code.IsScalar Γ ∧ s.truth.IsScalar Γ
  text : t = .string → if s.type = .dynamic then s.code.IsBuffer Γ else s.code.IsBody

/-- What a source looks like to the strategies: its type, as a binding or as a value. -/
def Source.Shaped (Γ : Typing) (s : Source) (shape : Shape) : Prop :=
  s.Stands Γ shape.type ∧
    ((s.type = .dynamic ∧ shape = .binding shape.type) ∨
      (s.type ≠ .dynamic ∧ shape = .value s.type))

namespace Source.Fits

variable {V T : String → Prop} {ctx : Context} {s : Source}

/-- Looking up the type of a source succeeds, and changes nothing. -/
theorem subtype_eq (hs : s.Fits (Visible V T ctx.table)) :
    ∃ t, s.subtype span ctx = .ok t ctx ∧ s.Stands (Visible V T ctx.table) t ∧
      (s.type ≠ .dynamic → t = s.type) := by
  cases hs with
  | null => exact ⟨.null, rfl, ⟨by simp, fun h => absurd h (by decide), by simp⟩, fun _ => rfl⟩
  | emptyArray =>
      exact ⟨.emptyArray, rfl, ⟨by simp, fun h => absurd h (by decide), by simp⟩, fun _ => rfl⟩
  | string value =>
      exact ⟨.string, rfl, ⟨by simp, fun h => absurd h (by decide), fun _ => trivial⟩, fun _ => rfl⟩
  | @scalar t code truth ht hcode htruth =>
      refine ⟨t, ?_, ⟨?_, fun _ => ⟨hcode, htruth⟩, ?_⟩, fun _ => rfl⟩
      · cases t <;> simp [Source.subtype] at ht ⊢
      · rintro rfl
        simp at ht
      · rintro rfl
        simp at ht
  | @box p hp =>
      exact ⟨.dynamic, rfl, ⟨fun _ => hp, fun h => absurd h (by decide), by simp⟩, fun _ => rfl⟩
  | @var x t hx =>
      obtain ⟨symbol, hget, htype⟩ := SymbolTable.typeOf?_eq_some.mp hx.2
      refine ⟨t, ?_, ⟨?_, fun ht => ⟨⟨t, hx, ht⟩, ⟨t, hx, ht⟩⟩, ?_⟩, fun h => absurd rfl h⟩
      · simp only [Source.subtype, Source.ofVar, Lower.bind_apply, Lower.readSymbol_apply hget,
          Lower.pure_apply, htype]
      · rintro rfl
        exact hx
      · rintro rfl
        exact hx

/-- Finding the shape of a source changes nothing. It fails for a variable of a pseudo type. -/
theorem shape_quiet (hs : s.Fits (Visible V T ctx.table)) :
    Lower.Quiet V T (s.shape span) ctx fun shape ctx' =>
      ctx' = ctx ∧ s.Shaped (Visible V T ctx.table) shape := by
  obtain ⟨t, hsub, hstands, ht⟩ := hs.subtype_eq
  unfold Source.shape
  by_cases hdyn : s.type = .dynamic
  · rw [if_pos hdyn]
    refine .bind_ok hsub ?_
    by_cases hpseudo : t.isPseudo = true
    · rw [if_pos hpseudo]
      exact .fail _ _
    · rw [if_neg hpseudo]
      exact .pure ⟨rfl, hstands, .inl ⟨hdyn, rfl⟩⟩
  · rw [if_neg hdyn]
    exact .pure ⟨rfl, (ht hdyn) ▸ hstands, .inr ⟨hdyn, rfl⟩⟩

/-- Native values have one of four types; the other native types are those of variables only. -/
theorem scalar_type {Γ : Typing} (hs : s.Fits Γ) (hnative : s.type.isNativeScalar = true) :
    s.type ∈ [StaticType.int, .char, .double, .bool] := by
  cases hs with
  | scalar ht => exact ht
  | null | emptyArray | string | box | var => exact absurd hnative Bool.false_ne_true

end Source.Fits

/-! ### Boxes and keys -/

/-- Only native scalars have a kind of box. -/
theorem BoxKind.native_of_ofType? {t : StaticType} {kind : BoxKind}
    (h : BoxKind.ofType? t = some kind) : t.isNativeScalar = true := by
  cases t with
  | string | dynamic | null | emptyArray =>
      have hnone : (none : Option BoxKind) = some kind := h
      exact absurd hnone (by simp)
  | _ => rfl

/-- Only the type of truth values has boxes of their kind. -/
theorem BoxKind.bool_of_ofType? {t : StaticType} (h : BoxKind.ofType? t = some .bool) :
    t = .bool := by
  revert h
  cases t <;> decide

theorem Source.scalarCode_isScalar {Γ : Typing} {s : Source} (hcode : s.code.IsScalar Γ)
    (htruth : s.truth.IsScalar Γ) (kind : BoxKind) : (s.scalarCode kind).IsScalar Γ := by
  unfold Source.scalarCode
  split
  · exact htruth
  · exact hcode

namespace Source.Shaped

variable {Γ : Typing} {s : Source} {shape : Shape}

theorem type_of_value {t : StaticType} (h : s.Shaped Γ (.value t)) : s.type = t := by
  obtain ⟨-, ⟨-, habs⟩ | ⟨-, hvalue⟩⟩ := h
  · exact absurd habs (by simp)
  · exact (Shape.value.inj hvalue).symm

/-- A string value is a literal, by its body. -/
theorem literal (h : s.Shaped Γ (.value .string)) : s.code.IsBody := by
  obtain ⟨hstands, ⟨-, habs⟩ | ⟨hdyn, -⟩⟩ := h
  · exact absurd habs (by simp)
  · have htext := hstands.text rfl
    rwa [if_neg hdyn] at htext

/-- A string binding is a native string variable. -/
theorem buffer (h : s.Shaped Γ (.binding .string)) : s.code.IsBuffer Γ := by
  obtain ⟨hstands, ⟨hdyn, -⟩ | ⟨-, habs⟩⟩ := h
  · have htext := hstands.text rfl
    rwa [if_pos hdyn] at htext
  · exact absurd habs (by simp)

/-- A native scalar goes into a box of the kind of its type. -/
theorem scalar (h : s.Shaped Γ shape) {content : BoxContent}
    (hc : ((BoxKind.ofType? shape.type).map fun kind =>
      BoxContent.scalar kind (s.scalarCode kind)) = some content) : content.WellTyped Γ := by
  obtain ⟨kind, hkind, rfl⟩ := Option.map_eq_some_iff.mp hc
  obtain ⟨hcode, htruth⟩ := h.1.scalar (BoxKind.native_of_ofType? hkind)
  exact scalarCode_isScalar hcode htruth kind

/-- The box of a source is built from what its constructor expects. -/
theorem boxContent_wellTyped (h : s.Shaped Γ shape) {content : BoxContent}
    (hc : boxContent? shape s = some content) : content.WellTyped Γ := by
  unfold boxContent? at hc
  split at hc
  · obtain rfl := Option.some.inj hc
    trivial
  · obtain rfl := Option.some.inj hc
    exact h.literal
  · obtain rfl := Option.some.inj hc
    trivial
  · obtain rfl := Option.some.inj hc
    exact h.buffer
  · exact h.scalar hc
  · exact h.scalar hc

/-- An integer index makes a native key. -/
theorem longKey_wellTyped (h : s.Shaped Γ shape) {key : Key}
    (hk : (if shape.type.isInteger then some (Key.long s.code) else none) = some key) :
    key.WellTyped Γ := by
  by_cases hint : shape.type.isInteger = true
  · rw [if_pos hint] at hk
    obtain rfl := Option.some.inj hk
    refine (h.1.scalar ?_).1
    rw [StaticType.isNativeScalar, StaticType.isIntegral, hint]
    rfl
  · rw [if_neg hint] at hk
    exact absurd hk (by simp)

/-- An index makes a key of the kind it is passed as. -/
theorem key_wellTyped (h : s.Shaped Γ shape) {key : Key} (hk : Key.of? shape s = some key) :
    key.WellTyped Γ := by
  unfold Key.of? at hk
  split at hk
  · obtain rfl := Option.some.inj hk
    exact h.literal
  · obtain rfl := Option.some.inj hk
    exact h.buffer
  · obtain rfl := Option.some.inj hk
    exact h.1.box rfl
  · exact h.longKey_wellTyped hk
  · exact h.longKey_wellTyped hk

end Source.Shaped

namespace Lower

variable {V T : String → Prop} {ctx : Context} {s left right : Source}

theorem materialize_quiet (hs : s.Fits (Visible V T ctx.table)) :
    Quiet V T (materialize span s) ctx fun c ctx' => c.IsBox (Visible V T ctx'.table) := by
  refine .bind hs.shape_quiet ?_
  rintro shape _ - ⟨rfl, hshaped⟩
  by_cases hbox : shape = .binding .dynamic
  · subst hbox
    exact .pure (hshaped.1.box rfl)
  · -- everything else is boxed into a new temporary
    rw [if_neg hbox]
    cases hcontent : boxContent? shape s with
    | none => exact .fail _ _
    | some content =>
        refine .bind (.fillTemporary (fun _ => rfl) (fun _ => ⟨rfl, rfl⟩)
          (fun _ => hshaped.boxContent_wellTyped hcontent)) ?_
        intro p ctx' _ hp
        exact .pure hp

/-! ### Operands -/

/-- The code of a native operand is scalar. -/
theorem nativeOperand?_quiet (hs : s.Fits (Visible V T ctx.table)) :
    Quiet V T (nativeOperand? span s) ctx fun r ctx' =>
      ctx' = ctx ∧ ∀ t c, r = some (t, c) → c.IsScalar (Visible V T ctx.table) := by
  obtain ⟨t, hsub, hstands, -⟩ := hs.subtype_eq
  refine .bind_ok hsub ?_
  by_cases hnative : t.isNativeScalar = true
  · rw [if_pos hnative]
    refine .pure ⟨rfl, ?_⟩
    rintro t' c ⟨⟩
    obtain ⟨hcode, htruth⟩ := hstands.scalar hnative
    split
    · exact htruth
    · exact hcode
  · rw [if_neg hnative]
    exact .pure ⟨rfl, by simp⟩

theorem nativeOperands?_quiet (hl : left.Fits (Visible V T ctx.table))
    (hr : right.Fits (Visible V T ctx.table)) :
    Quiet V T (nativeOperands? span left right) ctx fun r ctx' =>
      ctx' = ctx ∧ ∀ lt l rt r', r = some ((lt, l), (rt, r')) →
        l.IsScalar (Visible V T ctx.table) ∧ r'.IsScalar (Visible V T ctx.table) := by
  refine .bind (nativeOperand?_quiet hl) ?_
  rintro l _ - ⟨rfl, hlc⟩
  refine .bind (nativeOperand?_quiet hr) ?_
  rintro r _ - ⟨rfl, hrc⟩
  split
  · rename_i l r
    refine .pure ⟨rfl, ?_⟩
    rintro lt lc rt rc ⟨⟩
    exact ⟨hlc lt lc rfl, hrc rt rc rfl⟩
  · exact .pure ⟨rfl, by simp⟩

theorem condition_quiet (hs : s.Fits (Visible V T ctx.table)) :
    Quiet V T (condition span s) ctx fun c ctx' => c.IsScalar (Visible V T ctx'.table) := by
  obtain ⟨t, hsub, hstands, ht⟩ := hs.subtype_eq
  refine .bind_ok hsub ?_
  by_cases hbool : s.type = .bool
  · rw [if_pos hbool]
    have hnative : t.isNativeScalar = true := by
      rw [ht (by simp [hbool]), hbool]
      rfl
    exact .pure (hstands.scalar hnative).2
  rw [if_neg hbool]
  by_cases hnull : s.type = .null
  · rw [if_pos hnull]
    exact .pure trivial
  rw [if_neg hnull]
  by_cases hdyn : t = .dynamic
  · rw [if_pos hdyn]
    refine .bind (.require _) fun _ ctx' hg _ => .pure ?_
    exact Code.IsBox.mono hg.visible (hstands.box hdyn)
  rw [if_neg hdyn]
  by_cases hnative : t.isNativeScalar = true
  · rw [if_pos hnative]
    exact .pure (hstands.scalar hnative).1
  · rw [if_neg hnative]
    exact .fail _ _

/-! ### Operators -/

theorem arithType_mem (l r : StaticType) :
    arithType l r ∈ [StaticType.int, .char, .double, .bool] := by
  unfold arithType
  split <;> decide

theorem boxedOp_quiet (op : BoxedOp) (hl : left.Fits (Visible V T ctx.table))
    (hr : right.Fits (Visible V T ctx.table)) :
    Quiet V T (boxedOp span op left right) ctx fun s ctx' => s.Fits (Visible V T ctx'.table) := by
  refine .bind (materialize_quiet hl) fun l ctx₁ hg₁ hlbox => ?_
  refine .bind (materialize_quiet (hr.mono hg₁.visible)) fun r ctx₂ hg₂ hrbox => ?_
  refine .bind (.require _) fun _ ctx₃ hg₃ _ => ?_
  have hlbox := Code.IsBox.mono (hg₂.trans hg₃).visible hlbox
  have hrbox := Code.IsBox.mono hg₃.visible hrbox
  exact .bind (.fillTemporary (fun _ => rfl) (fun _ => rfl) (fun _ => ⟨hlbox, hrbox⟩))
    fun p ctx₄ _ hp => .pure (.box hp)

theorem boxedCompare_quiet (op : Comparison) (hl : left.Fits (Visible V T ctx.table))
    (hr : right.Fits (Visible V T ctx.table)) :
    Quiet V T (boxedCompare span op left right) ctx
      fun s ctx' => s.Fits (Visible V T ctx'.table) := by
  refine .bind (materialize_quiet hl) fun l ctx₁ hg₁ hlbox => ?_
  refine .bind (materialize_quiet (hr.mono hg₁.visible)) fun r ctx₂ hg₂ hrbox => ?_
  refine .bind (.require _) fun _ ctx₃ hg₃ _ => .pure (.ofScalar (by decide) ⟨?_, ?_⟩)
  · exact Code.IsBox.mono (hg₂.trans hg₃).visible hlbox
  · exact Code.IsBox.mono hg₃.visible hrbox

theorem binary_quiet (op : BinaryOp) (hl : left.Fits (Visible V T ctx.table))
    (hr : right.Fits (Visible V T ctx.table)) :
    Quiet V T (binary span op left right) ctx fun s ctx' => s.Fits (Visible V T ctx'.table) := by
  cases op with
  | connect op =>
      refine .bind (condition_quiet hl) fun l ctx₁ hg₁ hlc => ?_
      refine .bind (condition_quiet (hr.mono hg₁.visible)) fun r ctx₂ hg₂ hrc => .pure ?_
      exact .ofScalar (by decide) ⟨Code.IsScalar.mono hg₂.visible hlc, hrc⟩
  | concat => exact boxedOp_quiet .concat hl hr
  | arith op =>
      refine .bind (nativeOperands?_quiet hl hr) ?_
      rintro operands _ - ⟨rfl, hops⟩
      split
      · exact .pure (.ofScalar (arithType_mem _ _) (hops _ _ _ _ rfl))
      · exact boxedOp_quiet (.arith op) hl hr
  | compare op =>
      refine .bind (nativeOperands?_quiet hl hr) ?_
      rintro operands _ - ⟨rfl, hops⟩
      split
      · exact .pure (.ofScalar (by decide) (hops _ _ _ _ rfl))
      · exact boxedCompare_quiet op hl hr

theorem negate_quiet (hs : s.Fits (Visible V T ctx.table)) :
    Quiet V T (negate span s) ctx fun s' ctx' => s'.Fits (Visible V T ctx'.table) :=
  .bind (condition_quiet hs) fun _ _ _ hc => .pure (.ofScalar (by decide) hc)

/-! ### Calls and accesses -/

theorem callFunction_quiet (name : String) {args : List Code}
    (hargs : ∀ c ∈ args, c.IsBox (Visible V T ctx.table)) :
    Quiet V T (callFunction name args) ctx fun s ctx' => s.Fits (Visible V T ctx'.table) := by
  refine .bind (.require _) fun _ ctx₁ hg₁ _ => ?_
  have hargs : ∀ c ∈ args, c.IsBox (Visible V T ctx₁.table) :=
    fun c hc => Code.IsBox.mono hg₁.visible (hargs c hc)
  exact .bind (.fillTemporary (fun _ => rfl) (fun _ => rfl) (fun _ => hargs))
    fun p ctx₂ _ hp => .pure (.box hp)

theorem readProperty_quiet (property : String) (hs : s.Fits (Visible V T ctx.table)) :
    Quiet V T (readProperty span s property) ctx
      fun s' ctx' => s'.Fits (Visible V T ctx'.table) := by
  obtain ⟨t, hsub, hstands, -⟩ := hs.subtype_eq
  refine .bind_ok hsub ?_
  by_cases hdyn : t = .dynamic
  · rw [if_pos hdyn]
    refine .bind (.require _) fun _ ctx₁ hg₁ _ => ?_
    have hbox := Code.IsBox.mono hg₁.visible (hstands.box hdyn)
    exact .bind (.fillTemporary (fun _ => rfl) (fun _ => rfl) (fun _ => hbox))
      fun p ctx₂ _ hp => .pure (.box hp)
  · rw [if_neg hdyn]
    exact .fail _ _

theorem checkIndexable_quiet (hs : s.Fits (Visible V T ctx.table)) :
    Quiet V T (checkIndexable span s) ctx fun _ ctx' =>
      ctx' = ctx ∧ s.code.IsBox (Visible V T ctx.table) := by
  obtain ⟨t, hsub, hstands, -⟩ := hs.subtype_eq
  refine .bind_ok hsub ?_
  by_cases hdyn : t = .dynamic
  · rw [if_pos hdyn]
    exact .pure ⟨rfl, hstands.box hdyn⟩
  · rw [if_neg hdyn]
    exact .fail _ _

theorem fetchElement_quiet {array index : Source}
    (ha : array.code.IsBox (Visible V T ctx.table)) (hi : index.Fits (Visible V T ctx.table)) :
    Quiet V T (fetchElement span array index) ctx
      fun s ctx' => s.Fits (Visible V T ctx'.table) := by
  refine .bind hi.shape_quiet ?_
  rintro shape _ - ⟨rfl, hshaped⟩
  cases hkey : Key.of? shape index with
  | none => exact .fail _ _
  | some key =>
      refine .bind (.require _) fun _ ctx₁ hg₁ _ => ?_
      have ha := Code.IsBox.mono hg₁.visible ha
      have hk := Key.WellTyped.mono hg₁.visible (hshaped.key_wellTyped hkey)
      exact .bind (.fillTemporary (fun _ => rfl) (fun _ => rfl) (fun _ => ⟨ha, hk⟩))
        fun p ctx₂ _ hp => .pure (.box hp)

/-! ### Expressions -/

theorem doubleLiteral_quiet (x : Float) :
    Quiet V T (doubleLiteral span x) ctx fun s ctx' => s.Fits (Visible V T ctx'.table) := by
  unfold doubleLiteral
  split
  · exact .pure (.ofScalar (by decide) trivial)
  · exact .fail _ _

theorem bareVariable_quiet {x : String} (hx : V x) :
    Quiet V T (bareVariable span x) ctx fun s ctx' => s.Fits (Visible V T ctx'.table) := by
  cases hget : ctx.table.get? x with
  | none =>
      intro _
      simp only [bareVariable, bind_apply, readSymbol_undeclared hget]
      exact .refl ctx
  | some symbol =>
      refine .bind_ok (readSymbol_apply hget) (.pure (.var (t := symbol.type) ⟨hx, ?_⟩))
      exact SymbolTable.typeOf?_eq_some.mpr ⟨symbol, hget, rfl⟩

mutual

/-- **Lowering an expression only grows the state**, and the source it returns reads nothing but
variables of the expression and new temporaries. -/
theorem resolve_quiet : ∀ (e : Expr) {ctx : Context}, (∀ x, e.mentions x = true → V x) →
    Quiet V T (resolve span e) ctx fun s ctx' => s.Fits (Visible V T ctx'.table)
  | .null, _, _ => .pure .null
  | .bool _, _, _ => .pure (.scalar (by decide) trivial trivial)
  | .int _, _, _ => .pure (.ofScalar (by decide) trivial)
  | .double x, _, _ => doubleLiteral_quiet x
  | .char _, _, _ => .pure (.ofScalar (by decide) trivial)
  | .string value, _, _ => .pure (.string value)
  | .emptyArray, _, _ => .pure .emptyArray
  | .var x, _, hV => bareVariable_quiet (hV x (by simp [Expr.mentions]))
  | .binary op l r, _, hV => by
      have hVl : ∀ x, l.mentions x = true → V x := fun x hx => hV x (by simp [Expr.mentions, hx])
      have hVr : ∀ x, r.mentions x = true → V x := fun x hx => hV x (by simp [Expr.mentions, hx])
      refine .bind (resolve_quiet l hVl) fun left ctx₁ _ hl => ?_
      refine .bind (resolve_quiet r hVr) fun right ctx₂ hg₂ hr => ?_
      exact binary_quiet op (hl.mono hg₂.visible) hr
  | .not e, _, hV =>
      .bind (resolve_quiet e fun x hx => hV x (by simp [Expr.mentions, hx]))
        fun _ _ _ hs => negate_quiet hs
  | .property e name, _, hV =>
      .bind (resolve_quiet e fun x hx => hV x (by simp [Expr.mentions, hx]))
        fun _ _ _ hs => readProperty_quiet name hs
  | .index a i, _, hV => by
      have hVa : ∀ x, a.mentions x = true → V x := fun x hx => hV x (by simp [Expr.mentions, hx])
      have hVi : ∀ x, i.mentions x = true → V x := fun x hx => hV x (by simp [Expr.mentions, hx])
      -- the array is checked before its index is lowered
      refine .bind (resolve_quiet a hVa) fun array ctx₁ _ ha => ?_
      refine .bind (checkIndexable_quiet ha) ?_
      rintro - _ - ⟨rfl, hbox⟩
      refine .bind (resolve_quiet i hVi) fun index ctx₂ hg₂ hi => ?_
      exact fetchElement_quiet (Code.IsBox.mono hg₂.visible hbox) hi
  | .call name args, _, hV =>
      .bind (resolveArgs_quiet args fun x hx => hV x (by simpa [Expr.mentions] using hx))
        fun _ _ _ hargs => callFunction_quiet name hargs

theorem resolveArgs_quiet : ∀ (es : List Expr) {ctx : Context},
    (∀ x, Expr.anyMentions x es = true → V x) →
    Quiet V T (resolveArgs span es) ctx fun args ctx' =>
      ∀ c ∈ args, c.IsBox (Visible V T ctx'.table)
  | [], _, _ => .pure (by simp)
  | e :: es, _, hV => by
      have hVe : ∀ x, e.mentions x = true → V x :=
        fun x hx => hV x (by simp [Expr.anyMentions, hx])
      have hVes : ∀ x, Expr.anyMentions x es = true → V x :=
        fun x hx => hV x (by simp [Expr.anyMentions, hx])
      -- an argument is boxed before the next one is lowered
      refine .bind (resolve_quiet e hVe) fun source ctx₁ _ hs => ?_
      refine .bind (materialize_quiet hs) fun arg ctx₂ _ harg => ?_
      refine .bind (resolveArgs_quiet es hVes) fun args ctx₃ hg₃ hargs => .pure ?_
      intro c hc
      rcases List.mem_cons.mp hc with rfl | hc
      · exact Code.IsBox.mono hg₃.visible harg
      · exact hargs c hc

end

/-- Growth alone, whatever the expression reads. -/
theorem resolve_grows {e : Expr} {ctx' : Context} (h : resolve span e ctx = .ok s ctx') :
    ctx.Grows (fun _ => True) (fun _ => True) ctx' := by
  have hquiet : Quiet (fun _ => True) (fun _ => True) (resolve span e) ctx fun _ _ => True :=
    (resolve_quiet e fun _ _ => trivial).mono fun _ _ _ _ => trivial
  have hquiet := hquiet fun _ _ => trivial
  rw [h] at hquiet
  exact hquiet.1

end Lower

/-! ### Bare variables and computed values -/

/-- The code computes a truth value. -/
def Code.IsTest : Code → Prop
  | .binary _ _ _ | .not _ | .compare _ _ _ => True
  | _ => False

/-- The source is no variable, and if it is a truth value, then a computed one. -/
def Source.Computed (s : Source) : Prop :=
  s.name? = none ∧ (s.type = .bool → s.code.IsTest)

namespace Lower

variable {α β : Type}

/-- Whatever the computation returns satisfies `post`. -/
def Returns (x : Lower α) (post : α → Prop) : Prop :=
  ∀ ctx a ctx', x ctx = .ok a ctx' → post a

namespace Returns

variable {post : α → Prop}

theorem pure {a : α} (h : post a) : Returns (pure a) post := by
  intro ctx b ctx' hrun
  obtain ⟨rfl, -⟩ : a = b ∧ ctx = ctx' := by simpa using hrun
  exact h

theorem fail (span : Span) (cause : Cause) : Returns (fail span cause) post := by
  intro ctx a ctx' hrun
  exact absurd hrun (by simp)

/-- Only the last part matters. -/
theorem bind {x : Lower β} {f : β → Lower α} (hf : ∀ b, Returns (f b) post) :
    Returns (x >>= f) post := by
  intro ctx a ctx' hrun
  rw [bind_apply] at hrun
  cases hx : x ctx with
  | error e c =>
      rw [hx] at hrun
      exact absurd hrun (by simp)
  | ok b c =>
      rw [hx] at hrun
      exact hf b c a ctx' hrun

end Returns

theorem computed_ofBox (p : Place) : Source.Computed (.ofBox p) := ⟨rfl, nofun⟩

theorem boxedOp_computed (op : BoxedOp) (left right : Source) :
    Returns (boxedOp span op left right) Source.Computed :=
  .bind fun _ => .bind fun _ => .bind fun _ => .bind fun p => .pure (computed_ofBox p)

theorem binary_computed (op : BinaryOp) (left right : Source) :
    Returns (binary span op left right) Source.Computed := by
  cases op with
  | connect c => exact .bind fun _ => .bind fun _ => .pure ⟨rfl, fun _ => trivial⟩
  | concat => exact boxedOp_computed .concat left right
  | arith o =>
      refine .bind fun operands => ?_
      split
      · exact .pure ⟨rfl, fun _ => trivial⟩
      · exact boxedOp_computed (.arith o) left right
  | compare c =>
      refine .bind fun operands => ?_
      split
      · exact .pure ⟨rfl, fun _ => trivial⟩
      · exact .bind fun _ => .bind fun _ => .bind fun _ => .pure ⟨rfl, fun _ => trivial⟩

/-- Only a variable is lowered to a variable, and only a literal to a truth value that is not
computed. -/
theorem resolve_computed : ∀ e : Expr,
    (∃ b, e = .bool b) ∨ (∃ x, e = .var x) ∨ Returns (resolve span e) Source.Computed
  | .bool b => .inl ⟨b, rfl⟩
  | .var x => .inr (.inl ⟨x, rfl⟩)
  | .null | .int _ | .char _ | .string _ | .emptyArray => .inr (.inr (.pure ⟨rfl, nofun⟩))
  | .double x => by
      refine .inr (.inr ?_)
      unfold resolve doubleLiteral
      split
      · exact .pure ⟨rfl, nofun⟩
      · exact .fail _ _
  | .binary op _ _ =>
      .inr (.inr (.bind fun left => .bind fun right => binary_computed op left right))
  | .not _ => .inr (.inr (.bind fun _ => .bind fun _ => .pure ⟨rfl, fun _ => trivial⟩))
  | .property _ _ => by
      refine .inr (.inr (.bind fun object => .bind fun t => ?_))
      split
      · exact .bind fun _ => .bind fun p => .pure (computed_ofBox p)
      · exact .fail _ _
  | .index _ _ => by
      refine .inr (.inr (.bind fun array => .bind fun _ => .bind fun index => .bind fun _ => ?_))
      split
      · exact .fail _ _
      · exact .bind fun _ => .bind fun p => .pure (computed_ofBox p)
  | .call _ _ =>
      .inr (.inr (.bind fun _ => .bind fun _ => .bind fun p => .pure (computed_ofBox p)))

/-- A variable stands for itself. -/
theorem resolve_var {x : String} {ctx ctx' : Context} {s : Source}
    (h : resolve span (.var x) ctx = .ok s ctx') : s = .ofVar x (.place (.var x)) ∧ ctx' = ctx := by
  unfold resolve bareVariable at h
  rw [bind_apply] at h
  cases hget : ctx.table.get? x with
  | none =>
      rw [readSymbol_undeclared hget] at h
      exact absurd h (by simp)
  | some symbol =>
      rw [readSymbol_apply hget] at h
      obtain ⟨rfl, rfl⟩ : .ofVar x (.place (.var x)) = s ∧ ctx = ctx' := by simpa using h
      exact ⟨rfl, rfl⟩

/-- Lowering an expression to a variable changes nothing. -/
theorem resolve_named {e : Expr} {ctx ctx' : Context} {s : Source} {x : String}
    (h : resolve span e ctx = .ok s ctx') (hname : s.name? = some x) : ctx' = ctx := by
  obtain ⟨b, rfl⟩ | ⟨y, rfl⟩ | hcomputed := resolve_computed e
  · obtain ⟨rfl, rfl⟩ : { type := .bool, code := .truth b, truth := .bit b } = s ∧ ctx = ctx' := by
      simpa [resolve] using h
    exact absurd hname (by simp)
  · exact (resolve_var h).2
  · rw [(hcomputed ctx s ctx' h).1] at hname
    exact absurd hname (by simp)

end Lower

end BoxedLet
