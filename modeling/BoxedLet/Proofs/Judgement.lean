import BoxedLet.Proofs.Meaning

/-!
# BoxedLet.Proofs.Judgement

**Lowering accepts the well-typed expressions.** Which expressions these are is a matter of declared
types alone (`Expr.isWellTyped`), and so is the shape of the source that an expression becomes
(`Expr.shape`).

Lowering allocates temporaries between its checks, so that the table against which it checks changes
under it. This makes no difference as long as no variable is mentioned that is undeclared and could
be taken for a temporary: then a later state is like the first one on all variables that matter
(`Context.LikeOn`). `Lower.Decides` says that a computation succeeds in every such state or in none,
and which of the two it is.
-/

namespace BoxedLet

variable {span : Span}

/-! ### Judgements by declared types -/

namespace Shape

/-- The shape of what is no bare variable. -/
def ofType (t : StaticType) : Shape :=
  if t = .dynamic then .binding .dynamic else .value t

theorem ofType_type (t : StaticType) : (ofType t).type = t := by
  unfold ofType
  split
  · rename_i ht
    exact ht.symm
  · rfl

/-- The shapes of values; a variable of a pseudo type is none. -/
def isUsable : Shape → Bool
  | value _ => true
  | binding t => !t.isPseudo

theorem isUsable_ofType (t : StaticType) : (ofType t).isUsable = true := by
  unfold ofType
  split <;> rfl

/-- The shapes that can be tested: the null literal, native scalars and boxes. -/
def isCondition (shape : Shape) : Bool :=
  shape == .value .null || shape.type == .dynamic || shape.type.isNativeScalar

/-- The shapes that can be the key of an array element. -/
def isKey (shape : Shape) : Bool :=
  shape.type.isInteger || shape.type == .string || shape.type == .dynamic

end Shape

/-- Whether an operator takes operands of these shapes. -/
def BinaryOp.admits (op : BinaryOp) (left right : Shape) : Bool :=
  match op with
  | .connect _ => left.isCondition && right.isCondition
  | .concat | .arith _ | .compare _ => left.isUsable && right.isUsable

namespace Expr

/-- The shape of the source that an expression becomes. -/
def shape (Γ : String → Option StaticType) : Expr → Shape
  | .var x => .binding ((Γ x).getD .dynamic)
  | e => .ofType (e.type Γ)

theorem shape_type (Γ : String → Option StaticType) (e : Expr) : (e.shape Γ).type = e.type Γ := by
  cases e with
  | var x => rfl
  | _ => exact Shape.ofType_type _

mutual

/-- Whether the expression is well-typed, given the declared types of variables. -/
def isWellTyped (Γ : String → Option StaticType) : Expr → Bool
  | .null | .bool _ | .int _ | .char _ | .string _ | .emptyArray => true
  | .double x => (Decimal.decode x).isOk
  | .var x => (Γ x).isSome
  | .binary op l r =>
    l.isWellTyped Γ && (r.isWellTyped Γ && op.admits (l.shape Γ) (r.shape Γ))
  | .not e => e.isWellTyped Γ && (e.shape Γ).isCondition
  | .property e _ => e.isWellTyped Γ && e.type Γ == .dynamic
  | .index a i =>
    a.isWellTyped Γ && (a.type Γ == .dynamic && (i.isWellTyped Γ && (i.shape Γ).isKey))
  | .call _ args => areWellTyped Γ args

/-- Whether all of the expressions are well-typed and can be passed as boxes. -/
def areWellTyped (Γ : String → Option StaticType) : List Expr → Bool
  | [] => true
  | e :: es => e.isWellTyped Γ && ((e.shape Γ).isUsable && areWellTyped Γ es)

end

end Expr

/-! ### States that are alike -/

/-- As far as the variables in `V` go, the second state is like the first, and stays so whatever
temporaries are allocated. -/
structure Context.LikeOn (V : String → Prop) (start ctx : Context) : Prop where
  options : ctx.options = start.options
  classDef : ctx.classDef = start.classDef
  typeOf? : ∀ x, V x → ctx.table.typeOf? x = start.table.typeOf? x
  unknown : ∀ x, V x → start.table.typeOf? x = none → ¬ ctx.table.IsTempName x

namespace Context.LikeOn

variable {V : String → Prop} {start ctx : Context}

theorem needing (h : start.LikeOn V ctx) (header : Header) :
    start.LikeOn V (ctx.needing header) :=
  { h with }

/-- A new temporary is not called like one of the variables: those that are in the table have other
names, and the others could not be temporaries. -/
theorem filling (h : start.LikeOn V ctx) (type : StaticType) (i : Instr) :
    start.LikeOn V (ctx.filling type i) := by
  refine ⟨h.options, h.classDef, ?_, h.unknown⟩
  intro x hx
  rw [← h.typeOf? x hx]
  by_cases hmem : x ∈ ctx.table.names
  · rw [SymbolTable.typeOf?, SymbolTable.get?_append rfl hmem]
    rfl
  · have hnone : ctx.table.get? x = none := SymbolTable.get?_eq_none_iff.mpr hmem
    have hunknown : start.table.typeOf? x = none := by
      rw [← h.typeOf? x hx, SymbolTable.typeOf?, hnone]
      rfl
    have hfresh : x ∉ (ctx.filling type i).table.names := by
      simp only [Context.filling, SymbolTable.newTemporary_names, List.mem_append,
        List.mem_singleton, not_or]
      refine ⟨hmem, ?_⟩
      rintro rfl
      exact h.unknown _ hx hunknown (SymbolTable.isTempName_nextName _)
    rw [SymbolTable.typeOf?, SymbolTable.get?_eq_none_iff.mpr hfresh, SymbolTable.typeOf?, hnone]

/-- A change of one symbol that keeps its name and type makes no difference. -/
theorem modify (h : start.LikeOn V ctx) (name : String) {f : Symbol → Symbol}
    (hf : ∀ s, (f s).name = s.name ∧ (f s).type = s.type) :
    start.LikeOn V { ctx with table := ctx.table.modify name f } := by
  refine { h with typeOf? := ?_ }
  intro x hx
  rw [SymbolTable.typeOf?_modify _ name x hf]
  exact h.typeOf? x hx

end Context.LikeOn

/-- The source has the shape, by the declared types of variables in `V`. -/
inductive Source.Has (V : String → Prop) (Γ : String → Option StaticType) (s : Source) :
    Shape → Prop
  | value (htype : s.type ≠ .dynamic) : Has V Γ s (.value s.type)
  | box (htype : s.type = .dynamic) (hname : s.name? = none) : Has V Γ s (.binding .dynamic)
  | var {x : String} {t : StaticType} (htype : s.type = .dynamic) (hname : s.name? = some x)
      (hx : V x) (hΓ : Γ x = some t) : Has V Γ s (.binding t)

namespace Source.Has

variable {V : String → Prop} {Γ : String → Option StaticType} {s : Source} {shape : Shape}

theorem ofCode {t : StaticType} (ht : t ≠ .dynamic) (c : Code) :
    (Source.ofCode t c).Has V Γ (.value t) :=
  .value ht

/-- A source is a value or a binding, by its own type. -/
theorem value_or_binding (h : s.Has V Γ shape) :
    s.type ≠ .dynamic ∧ shape = .value s.type ∨ s.type = .dynamic ∧ ∃ t, shape = .binding t := by
  cases h with
  | value htype => exact .inl ⟨htype, rfl⟩
  | box htype | var htype => exact .inr ⟨htype, _, rfl⟩

/-- No value is a box. -/
theorem ne_value_dynamic (h : s.Has V Γ shape) : shape ≠ .value .dynamic := by
  rcases h.value_or_binding with ⟨htype, rfl⟩ | ⟨-, t, rfl⟩
  · simpa using htype
  · simp

end Source.Has

/-- Everything but a box can be made one. -/
theorem boxContent?_isSome {shape : Shape} (s : Source) (hvalue : shape ≠ .value .dynamic)
    (hbinding : shape ≠ .binding .dynamic) (husable : shape.isUsable = true) :
    (boxContent? shape s).isSome = true := by
  cases shape with
  | value t =>
      cases t with
      | dynamic => exact absurd rfl hvalue
      | _ => rfl
  | binding t =>
      cases t with
      | dynamic => exact absurd rfl hbinding
      | null | emptyArray => exact absurd husable (by decide)
      | _ => rfl

namespace Lower

variable {α β : Type} {V : String → Prop} {start : Context}

/-! ### Decided computations -/

/-- In all states like `start`, the computation succeeds if the verdict is positive, with a result
that has the property, and fails if it is negative. -/
def Decides (V : String → Prop) (start : Context) (x : Lower α) (verdict : Bool)
    (post : α → Prop) : Prop :=
  ∀ ctx, start.LikeOn V ctx →
    match x ctx with
    | .ok a ctx' => verdict = true ∧ post a ∧ start.LikeOn V ctx'
    | .error _ _ => verdict = false

namespace Decides

variable {x : Lower α} {f : α → Lower β} {verdict verdict' : Bool} {post : α → Prop}
  {post' : β → Prop}

theorem pure {a : α} (h : post a) : Decides V start (pure a) true post :=
  fun _ hctx => ⟨rfl, h, hctx⟩

theorem fail (span : Span) (cause : Cause) :
    Decides V start (fail span cause : Lower α) false post :=
  fun _ _ => rfl

theorem bind (hx : Decides V start x verdict post)
    (hf : verdict = true → ∀ a, post a → Decides V start (f a) verdict' post') :
    Decides V start (x >>= f) (verdict && verdict') post' := by
  intro ctx hctx
  have hx := hx ctx hctx
  rw [bind_apply]
  cases hrun : x ctx with
  | error e ctx' =>
      rw [hrun] at hx
      dsimp only at hx ⊢
      rw [hx]
      rfl
  | ok a ctx' =>
      rw [hrun] at hx
      obtain ⟨hverdict, ha, hctx'⟩ := hx
      rw [hverdict, Bool.true_and]
      exact hf hverdict a ha ctx' hctx'

/-- A step that cannot fail, before others. -/
theorem bind_true (hx : Decides V start x true post)
    (hf : ∀ a, post a → Decides V start (f a) verdict post') :
    Decides V start (x >>= f) verdict post' :=
  hx.bind fun _ => hf

/-- A check, before steps that cannot fail. -/
theorem then_true (hx : Decides V start x verdict post)
    (hf : verdict = true → ∀ a, post a → Decides V start (f a) true post') :
    Decides V start (x >>= f) verdict post' := by
  rw [← Bool.and_true verdict]
  exact hx.bind hf

/-- A check of a condition. -/
theorem guard {c : Prop} [Decidable c] (span : Span) (cause : Cause)
    (hx : c → Decides V start x true post) :
    Decides V start (if c then x else Lower.fail span cause) (decide c) post := by
  split
  · rename_i hc
    rw [decide_eq_true hc]
    exact hx hc
  · rename_i hc
    rw [decide_eq_false hc]
    exact .fail span cause

theorem require (header : Header) : Decides V start (require header) true fun _ => True :=
  fun _ hctx => ⟨rfl, trivial, hctx.needing header⟩

theorem fillTemporary (type : StaticType) (instr : Place → Instr) :
    Decides V start (fillTemporary type instr) true fun _ => True := by
  intro ctx hctx
  rw [fillTemporary_apply]
  exact ⟨rfl, trivial, hctx.filling type _⟩

/-- A new box. -/
theorem newBox (instr : Place → Instr) :
    Decides V start (do return Source.ofBox (← Lower.fillTemporary .dynamic instr)) true
      fun s => s.Has V start.table.typeOf? (.binding .dynamic) :=
  (fillTemporary .dynamic instr).bind_true fun _ _ => .pure (.box rfl rfl)

end Decides

/-! ### The helpers -/

section Helpers

variable {s left right : Source} {shape l r : Shape}

theorem readSymbol_decides {x : String} (hx : V x) :
    Decides V start (readSymbol span x) (start.table.typeOf? x).isSome
      fun s => start.table.typeOf? x = some s.type := by
  intro ctx hctx
  rw [← hctx.typeOf? x hx]
  cases hget : ctx.table.get? x with
  | none =>
      rw [readSymbol_undeclared hget]
      simp [SymbolTable.typeOf?, hget]
  | some symbol =>
      have htype : ctx.table.typeOf? x = some symbol.type := by
        simp [SymbolTable.typeOf?, hget]
      rw [readSymbol_apply hget, htype]
      exact ⟨rfl, rfl, hctx⟩

theorem subtype_decides (hs : s.Has V start.table.typeOf? shape) :
    Decides V start (s.subtype span) true (· = shape.type) := by
  obtain ⟨type, code, truth, name?⟩ := s
  cases hs with
  | value htype =>
      cases type with
      | dynamic => exact absurd rfl htype
      | _ => exact .pure rfl
  | box htype hname =>
      obtain rfl : type = .dynamic := htype
      obtain rfl : name? = none := hname
      exact .pure rfl
  | @var x t htype hname hx hΓ =>
      obtain rfl : type = .dynamic := htype
      obtain rfl : name? = some x := hname
      have hread : Decides V start (readSymbol span x) (start.table.typeOf? x).isSome
          fun s => start.table.typeOf? x = some s.type := readSymbol_decides hx
      rw [hΓ] at hread
      exact hread.bind_true fun symbol hsymbol => .pure (Option.some.inj hsymbol).symm

theorem shape_decides (hs : s.Has V start.table.typeOf? shape) :
    Decides V start (s.shape span) shape.isUsable (· = shape) := by
  have hsubtype : Decides V start (s.subtype span) true (· = shape.type) := subtype_decides hs
  unfold Source.shape
  cases hs with
  | value htype =>
      rw [if_neg htype]
      exact .pure rfl
  | box htype hname =>
      rw [if_pos htype]
      refine hsubtype.bind_true ?_
      rintro t rfl
      exact .pure rfl
  | @var x t htype hname hx hΓ =>
      rw [if_pos htype]
      refine hsubtype.bind_true ?_
      rintro t rfl
      show Decides V start (if t.isPseudo = true then _ else _) (!t.isPseudo) _
      cases t.isPseudo with
      | true => exact .fail _ _
      | false => exact .pure rfl

theorem materialize_decides (hs : s.Has V start.table.typeOf? shape) :
    Decides V start (materialize span s) shape.isUsable fun _ => True := by
  refine (shape_decides hs).then_true ?_
  rintro husable _ rfl
  split
  · exact .pure trivial
  · rename_i hbinding
    have hcontent : (boxContent? _ s).isSome = true :=
      boxContent?_isSome s hs.ne_value_dynamic hbinding husable
    obtain ⟨content, hcontent⟩ := Option.isSome_iff_exists.mp hcontent
    rw [hcontent]
    exact (Decides.fillTemporary _ _).bind_true fun _ _ => .pure trivial

theorem nativeOperand?_decides (hs : s.Has V start.table.typeOf? shape) :
    Decides V start (nativeOperand? span s) true fun operand =>
      operand.map Prod.fst = if shape.type.isNativeScalar then some shape.type else none := by
  refine (subtype_decides hs).bind_true ?_
  rintro _ rfl
  split <;> exact .pure rfl

theorem nativeOperands?_decides (hl : left.Has V start.table.typeOf? l)
    (hr : right.Has V start.table.typeOf? r) :
    Decides V start (nativeOperands? span left right) true fun operands =>
      if l.type.isNativeScalar && r.type.isNativeScalar then
        ∃ c d, operands = some ((l.type, c), (r.type, d))
      else operands = none := by
  refine (nativeOperand?_decides hl).bind_true ?_
  intro lo hlo
  refine (nativeOperand?_decides hr).bind_true ?_
  intro ro hro
  cases hln : l.type.isNativeScalar with
  | false =>
      obtain rfl : lo = none := by simpa [hln] using hlo
      exact .pure rfl
  | true =>
      obtain ⟨c, rfl⟩ : ∃ c, lo = some (l.type, c) := by simpa [hln] using hlo
      cases hrn : r.type.isNativeScalar with
      | false =>
          obtain rfl : ro = none := by simpa [hrn] using hro
          exact .pure rfl
      | true =>
          obtain ⟨d, rfl⟩ : ∃ d, ro = some (r.type, d) := by simpa [hrn] using hro
          exact .pure ⟨c, d, rfl⟩

theorem condition_decides (hs : s.Has V start.table.typeOf? shape) :
    Decides V start (condition span s) shape.isCondition fun _ => True := by
  refine (subtype_decides hs).bind_true ?_
  rintro _ rfl
  rcases hs.value_or_binding with ⟨hdyn, rfl⟩ | ⟨hdyn, t, rfl⟩
  · cases htype : s.type with
    | dynamic => exact absurd htype hdyn
    | string | emptyArray => exact .fail _ _
    | _ => exact .pure trivial
  · rw [hdyn]
    cases t with
    | dynamic => exact (Decides.require _).bind_true fun _ _ => .pure trivial
    | string | null | emptyArray => exact .fail _ _
    | _ => exact .pure trivial

theorem boxedOp_decides (op : BoxedOp) (hl : left.Has V start.table.typeOf? l)
    (hr : right.Has V start.table.typeOf? r) :
    Decides V start (boxedOp span op left right) (l.isUsable && r.isUsable)
      fun s => s.Has V start.table.typeOf? (.binding .dynamic) := by
  refine (materialize_decides hl).bind fun _ _ _ => ?_
  refine (materialize_decides hr).then_true fun _ _ _ => ?_
  exact (Decides.require _).bind_true fun _ _ => .newBox _

theorem boxedCompare_decides (op : Comparison) (hl : left.Has V start.table.typeOf? l)
    (hr : right.Has V start.table.typeOf? r) :
    Decides V start (boxedCompare span op left right) (l.isUsable && r.isUsable)
      fun s => s.Has V start.table.typeOf? (.value .bool) := by
  refine (materialize_decides hl).bind fun _ _ _ => ?_
  refine (materialize_decides hr).then_true fun _ _ _ => ?_
  exact (Decides.require _).bind_true fun _ _ => .pure (.ofCode (by decide) _)

theorem isUsable_of_isNativeScalar (h : shape.type.isNativeScalar = true) :
    shape.isUsable = true := by
  cases shape with
  | value t => rfl
  | binding t =>
      cases t with
      | null | emptyArray => exact absurd h (by decide)
      | _ => rfl

/-- An operation on two native scalars, or else on two boxes. -/
theorem native_or_boxed {f : Option ((StaticType × Code) × (StaticType × Code)) → Lower Source}
    {post : Source → Prop} (hl : left.Has V start.table.typeOf? l)
    (hr : right.Has V start.table.typeOf? r)
    (hnative : (l.type.isNativeScalar && r.type.isNativeScalar) = true →
      ∀ c d, Decides V start (f (some ((l.type, c), (r.type, d)))) true post)
    (hboxed : (l.type.isNativeScalar && r.type.isNativeScalar) = false →
      Decides V start (f none) (l.isUsable && r.isUsable) post) :
    Decides V start (nativeOperands? span left right >>= f) (l.isUsable && r.isUsable) post := by
  refine (nativeOperands?_decides hl hr).bind_true ?_
  intro operands hoperands
  cases hboth : l.type.isNativeScalar && r.type.isNativeScalar with
  | true =>
      obtain ⟨c, d, rfl⟩ : ∃ c d, operands = some ((l.type, c), (r.type, d)) := by
        simpa [hboth] using hoperands
      obtain ⟨hln, hrn⟩ := Bool.and_eq_true_iff.mp hboth
      rw [isUsable_of_isNativeScalar hln, isUsable_of_isNativeScalar hrn]
      exact hnative hboth c d
  | false =>
      obtain rfl : operands = none := by simpa [hboth] using hoperands
      exact hboxed hboth

/-- **An operator takes the operands that it admits**, and its result has the type that it
declares. -/
theorem binary_decides (op : BinaryOp) (hl : left.Has V start.table.typeOf? l)
    (hr : right.Has V start.table.typeOf? r) :
    Decides V start (binary span op left right) (op.admits l r)
      fun s => s.Has V start.table.typeOf? (.ofType (op.type l.type r.type)) := by
  cases op with
  | connect c =>
      refine (condition_decides hl).bind fun _ _ _ => ?_
      exact (condition_decides hr).then_true fun _ _ _ => .pure (.ofCode (by decide) _)
  | concat => exact boxedOp_decides .concat hl hr
  | arith o =>
      refine native_or_boxed hl hr (fun hnative c d => ?_) fun hnative => ?_
      · have htype : (BinaryOp.arith o).type l.type r.type = arithType l.type r.type := by
          rw [BinaryOp.type, if_pos hnative]
          rfl
        have harith : arithType l.type r.type ≠ .dynamic := by
          unfold arithType
          split <;> decide
        rw [htype, Shape.ofType, if_neg harith]
        exact .pure (.ofCode harith _)
      · have htype : (BinaryOp.arith o).type l.type r.type = .dynamic := by
          rw [BinaryOp.type, hnative]
          rfl
        rw [htype]
        exact boxedOp_decides (.arith o) hl hr
  | compare c =>
      refine native_or_boxed hl hr (fun _ _ _ => ?_) fun _ => ?_
      · exact .pure (.ofCode (by decide) _)
      · exact boxedCompare_decides c hl hr

/-! ### Calls and accesses -/

theorem readProperty_decides (property : String) (hs : s.Has V start.table.typeOf? shape) :
    Decides V start (readProperty span s property) (shape.type == .dynamic)
      fun s => s.Has V start.table.typeOf? (.binding .dynamic) := by
  refine (subtype_decides hs).bind_true ?_
  rintro _ rfl
  exact .guard _ _ fun _ => (Decides.require _).bind_true fun _ _ => .newBox _

theorem checkIndexable_decides (hs : s.Has V start.table.typeOf? shape) :
    Decides V start (checkIndexable span s) (shape.type == .dynamic) fun _ => True := by
  refine (subtype_decides hs).bind_true ?_
  rintro _ rfl
  exact .guard _ _ fun _ => .pure trivial

/-- What is done with an index depends on whether it makes a key, and its shape says whether it
does. -/
theorem key_decides {f : Shape → Lower α} {post : α → Prop}
    (hs : s.Has V start.table.typeOf? shape)
    (hsome : ∀ key, Key.of? shape s = some key → Decides V start (f shape) true post)
    (hnone : Key.of? shape s = none → Decides V start (f shape) false post) :
    Decides V start (s.shape span >>= f) shape.isKey post := by
  have hkey : shape.isKey = (shape.isUsable && (Key.of? shape s).isSome) := by
    cases shape with
    | value t =>
        cases t with
        | dynamic => exact absurd rfl hs.ne_value_dynamic
        | _ => rfl
    | binding t => cases t <;> rfl
  rw [hkey]
  refine (shape_decides hs).bind ?_
  rintro - found rfl
  cases hof : Key.of? found s with
  | none => exact hnone hof
  | some key => exact hsome key hof

theorem fetchElement_decides {array : Source} (hs : s.Has V start.table.typeOf? shape) :
    Decides V start (fetchElement span array s) shape.isKey
      fun s => s.Has V start.table.typeOf? (.binding .dynamic) := by
  refine key_decides hs (fun key hof => ?_) fun hof => ?_
  · simp only [hof]
    exact (Decides.require _).bind_true fun _ _ => .newBox _
  · simp only [hof]
    exact .fail _ _

theorem doubleLiteral_decides (x : Float) :
    Decides V start (doubleLiteral span x) (Decimal.decode x).isOk
      fun s => s.Has V start.table.typeOf? (.value .double) := by
  unfold doubleLiteral
  cases Decimal.decode x with
  | ok value => exact .pure (.ofCode (by decide) _)
  | error other => exact .fail _ _

theorem bareVariable_decides {x : String} (hx : V x) :
    Decides V start (bareVariable span x) (start.table.typeOf? x).isSome
      fun s => s.Has V start.table.typeOf? (.binding ((start.table.typeOf? x).getD .dynamic)) := by
  refine (readSymbol_decides hx).then_true fun _ symbol hsymbol => ?_
  rw [hsymbol]
  exact .pure (.var rfl rfl hx hsymbol)

end Helpers

/-! ### Expressions -/

mutual

/-- **Lowering accepts exactly the well-typed expressions**, and turns them into sources of the shape
that their types determine. -/
theorem resolve_decides : ∀ {e : Expr}, (∀ x, e.mentions x = true → V x) →
    Decides V start (resolve span e) (e.isWellTyped start.table.typeOf?)
      fun s => s.Has V start.table.typeOf? (e.shape start.table.typeOf?)
  | .null, _ | .bool _, _ => .pure (.value (by simp))
  | .int _, _ | .char _, _ | .string _, _ | .emptyArray, _ => .pure (.ofCode (by decide) _)
  | .double x, _ => doubleLiteral_decides x
  | .var x, hV => bareVariable_decides (hV x (by simp [Expr.mentions]))
  | .binary op l r, hV => by
      have hl : ∀ x, l.mentions x = true → V x := by
        intro x hx
        exact hV x (by simp [Expr.mentions, hx])
      have hr : ∀ x, r.mentions x = true → V x := by
        intro x hx
        exact hV x (by simp [Expr.mentions, hx])
      refine (resolve_decides hl).bind fun _ left hleft => ?_
      refine (resolve_decides hr).bind fun _ right hright => ?_
      have hbinary : Decides V start (binary span op left right) _ _ :=
        binary_decides op hleft hright
      rw [Expr.shape_type, Expr.shape_type] at hbinary
      exact hbinary
  | .not e, hV => by
      have he : ∀ x, e.mentions x = true → V x := by
        intro x hx
        exact hV x (by simpa [Expr.mentions] using hx)
      refine (resolve_decides he).bind fun _ source hsource => ?_
      exact (condition_decides hsource).then_true fun _ _ _ => .pure (.ofCode (by decide) _)
  | .property e name, hV => by
      have he : ∀ x, e.mentions x = true → V x := by
        intro x hx
        exact hV x (by simpa [Expr.mentions] using hx)
      refine (resolve_decides he).bind fun _ object hobject => ?_
      have hread : Decides V start (readProperty span object name) _ _ :=
        readProperty_decides name hobject
      rw [Expr.shape_type] at hread
      exact hread
  | .index a i, hV => by
      have ha : ∀ x, a.mentions x = true → V x := by
        intro x hx
        exact hV x (by simp [Expr.mentions, hx])
      have hi : ∀ x, i.mentions x = true → V x := by
        intro x hx
        exact hV x (by simp [Expr.mentions, hx])
      refine (resolve_decides ha).bind fun _ array harray => ?_
      have hindexable : Decides V start (checkIndexable span array) _ _ :=
        checkIndexable_decides harray
      rw [Expr.shape_type] at hindexable
      refine hindexable.bind fun _ _ _ => ?_
      refine (resolve_decides hi).bind fun _ index hindex => ?_
      exact fetchElement_decides hindex
  | .call name args, hV => by
      have hargs : ∀ x, Expr.anyMentions x args = true → V x := by
        intro x hx
        exact hV x (by simpa [Expr.mentions] using hx)
      refine (resolveArgs_decides hargs).then_true fun _ codes _ => ?_
      exact (Decides.require _).bind_true fun _ _ => .newBox _

theorem resolveArgs_decides : ∀ {es : List Expr}, (∀ x, Expr.anyMentions x es = true → V x) →
    Decides V start (resolveArgs span es) (Expr.areWellTyped start.table.typeOf? es) fun _ => True
  | [], _ => .pure trivial
  | e :: es, hV => by
      have he : ∀ x, e.mentions x = true → V x := by
        intro x hx
        exact hV x (by simp [Expr.anyMentions, hx])
      have hes : ∀ x, Expr.anyMentions x es = true → V x := by
        intro x hx
        exact hV x (by simp [Expr.anyMentions, hx])
      refine (resolve_decides he).bind fun _ source hsource => ?_
      refine (materialize_decides hsource).bind fun _ _ _ => ?_
      exact (resolveArgs_decides hes).then_true fun _ _ _ => .pure trivial

end

end Lower

end BoxedLet
