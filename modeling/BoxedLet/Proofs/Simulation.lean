import BoxedLet.Proofs.Meaning
import BoxedLet.Proofs.Resolve

/-!
# BoxedLet.Proofs.Simulation

**Lowering an expression preserves its meaning.** Native code stays inline and is evaluated only
after everything has been emitted, while boxes are computed into temporaries at once. So the code
of an operand has to keep its value while the code of later operands is executed: it reads only
symbols that are in the table by then, and later instructions write only new ones. `Code.Yields`
says that code has a value not just in one store but in every store that agrees with it on the
names in the table.

`Lower.Means` follows a lowering computation together with the execution of what it emits. It is
closed under sequencing, and there is one lemma for each helper of the lowering, giving the matching
piece of `Expr.denote`.
-/

namespace BoxedLet

variable {span : Span}

variable {R : Runtime} {α β : Type} {ctx ctx' ctx'' : Context} {σ σ' σ'' : R.Store}

/-! ### Executions -/

/-- From one state and store to another by executing what has been emitted in between. -/
structure Context.Executes (R : Runtime) (ctx : Context) (σ : R.Store) (ctx' : Context)
    (σ' : R.Store) : Prop where
  code : ∃ emitted, ctx'.code = ctx.code ++ emitted ∧ execAll R emitted σ = some σ'
  symbols : ∃ temps, ctx'.table.symbols = ctx.table.symbols ++ temps
  options : ctx'.options = ctx.options
  keeps : ∀ n ∈ ctx.table.names, σ' n = σ n
  fits : R.Fits ctx'.table σ'

namespace Context.Executes

theorem refl (h : R.Fits ctx.table σ) : ctx.Executes R σ ctx σ :=
  ⟨⟨[], by simp, rfl⟩, ⟨[], by simp⟩, rfl, fun _ _ => rfl, h⟩

theorem names_subset (h : ctx.Executes R σ ctx' σ') {n : String} (hn : n ∈ ctx.table.names) :
    n ∈ ctx'.table.names := by
  obtain ⟨temps, hsymbols⟩ := h.symbols
  rw [SymbolTable.names, hsymbols, List.map_append]
  exact List.mem_append_left _ hn

theorem typeOf? (h : ctx.Executes R σ ctx' σ') {n : String} (hn : n ∈ ctx.table.names) :
    ctx'.table.typeOf? n = ctx.table.typeOf? n := by
  obtain ⟨temps, hsymbols⟩ := h.symbols
  rw [SymbolTable.typeOf?, SymbolTable.get?_append hsymbols hn]
  rfl

theorem trans (h₁ : ctx.Executes R σ ctx' σ') (h₂ : ctx'.Executes R σ' ctx'' σ'') :
    ctx.Executes R σ ctx'' σ'' := by
  obtain ⟨is, hcode₁, hexec₁⟩ := h₁.code
  obtain ⟨js, hcode₂, hexec₂⟩ := h₂.code
  obtain ⟨temps, hsymbols₁⟩ := h₁.symbols
  obtain ⟨more, hsymbols₂⟩ := h₂.symbols
  refine ⟨⟨is ++ js, ?_, ?_⟩, ⟨temps ++ more, ?_⟩, h₂.options.trans h₁.options, ?_, h₂.fits⟩
  · rw [hcode₂, hcode₁, List.append_assoc]
  · rw [execAll_append hexec₁, hexec₂]
  · rw [hsymbols₂, hsymbols₁, List.append_assoc]
  · intro n hn
    rw [h₂.keeps n (h₁.names_subset hn), h₁.keeps n hn]

/-- Asking for a header emits nothing. -/
theorem needing (hfits : R.Fits ctx.table σ) (h : Header) :
    ctx.Executes R σ (ctx.needing h) σ :=
  ⟨⟨[], by simp [Context.needing], rfl⟩, ⟨[], by simp [Context.needing]⟩, rfl, fun _ _ => rfl,
    hfits⟩

/-- A new boxed temporary changes no other symbol. -/
theorem filling {i : Instr} {b : R.Box} (hfits : R.Fits ctx.table σ)
    (hdst : i.written = .temp ctx.table.nextName) (hi : i.result R σ = some b) :
    ctx.Executes R σ (ctx.filling .dynamic i)
      (Runtime.update σ ctx.table.nextName (.box b)) := by
  refine ⟨⟨[i], rfl, ?_⟩, ⟨_, rfl⟩, rfl, ?_, ?_⟩
  · simp [execAll, Instr.exec, hi, hdst, Place.symbol]
  · intro n hn
    have hne : n ≠ ctx.table.nextName := fun h => ctx.table.nextName_not_mem_names (h ▸ hn)
    exact Runtime.update_of_ne σ _ hne
  · intro n t ht
    by_cases hn : n = ctx.table.nextName
    · subst hn
      rw [Runtime.update_self]
      obtain rfl : t = .dynamic := by
        simpa [Context.filling, SymbolTable.typeOf?, SymbolTable.get?_nextName,
          Symbol.ofTemporary] using ht.symm
      exact ⟨b, rfl⟩
    · -- any other symbol was there before, with the same type
      rw [Runtime.update_of_ne σ _ hn]
      apply hfits
      have hmem : n ∈ ctx.table.names := by
        have hmem := SymbolTable.mem_names_of_typeOf? ht
        simpa [Context.filling, hn] using hmem
      have hget : (ctx.filling .dynamic i).table.get? n = ctx.table.get? n :=
        SymbolTable.get?_append (ctx.table.newTemporary_symbols .dynamic) hmem
      rw [← ht, SymbolTable.typeOf?, SymbolTable.typeOf?, hget]

end Context.Executes

/-! ### The value of code and of a source -/

/-- The code has the value in every store that agrees with `σ` on the names. -/
def Code.Yields (R : Runtime) (names : List String) (σ : R.Store) (c : Code) (v : R.Value) : Prop :=
  ∀ σ' : R.Store, (∀ n ∈ names, σ' n = σ n) → c.eval R σ' = some v

theorem Code.Yields.eval {c : Code} {names : List String} {v : R.Value}
    (h : c.Yields R names σ v) : c.eval R σ = some v :=
  h σ fun _ _ => rfl

/-- The code of an operand keeps its value. -/
theorem Code.Yields.after {c : Code} {v : R.Value} (h : ctx.Executes R σ ctx' σ')
    (hc : c.Yields R ctx.table.names σ v) : c.Yields R ctx'.table.names σ' v :=
  fun τ hτ => hc τ fun n hn => (hτ n (h.names_subset hn)).trans (h.keeps n hn)

/-- The values of sources of that shape. -/
def Shape.Holds (R : Runtime) : Shape → R.Value → Prop
  | .value .string, v => ∃ s, v = .literal s
  | .value t, v | .binding t, v => R.Represents t v

theorem Runtime.Represents.scalar {t : StaticType} {v : R.Value} (h : R.Represents t v)
    (ht : t.isNativeScalar = true) : ∃ x, v = .scalar x := by
  cases t with
  | string | dynamic | null | emptyArray => exact absurd ht Bool.false_ne_true
  | _ => exact h

theorem Shape.Holds.scalar {shape : Shape} {v : R.Value} (h : shape.Holds R v)
    (ht : shape.type.isNativeScalar = true) : ∃ x, v = .scalar x := by
  unfold Shape.Holds at h
  split at h
  · exact absurd ht Bool.false_ne_true
  · exact h.scalar ht
  · exact h.scalar ht

theorem Shape.Holds.box {shape : Shape} {v : R.Value} (h : shape.Holds R v)
    (ht : shape.type = .dynamic) : ∃ b, v = .box b := by
  cases shape with
  | value t | binding t =>
      obtain rfl : t = .dynamic := ht
      exact h

/-- The shape of a source, by the table alone. -/
def Source.shapeIn (table : SymbolTable) (s : Source) : Option Shape :=
  if s.type = .dynamic then
    match s.name? with
    | some x => (table.typeOf? x).map .binding
    | none => some (.binding .dynamic)
  else some (.value s.type)

/-- The source stands for a value of the shape. -/
structure Source.Means (R : Runtime) (table : SymbolTable) (σ : R.Store) (s : Source)
    (shape : Shape) (v : R.Value) : Prop where
  shapeIn : s.shapeIn table = some shape
  holds : shape.Holds R v
  code : s.code.Yields R table.names σ v
  truth : shape.type = .bool → s.truth.Yields R table.names σ v

/-- The source stands for the result of an operation, of the type that is expected. -/
def Source.Denotes (R : Runtime) (t : StaticType) (result : Option R.Value) (s : Source)
    (ctx : Context) (σ : R.Store) : Prop :=
  ∃ shape v, result = some v ∧ shape.type = t ∧ s.Means R ctx.table σ shape v

namespace Source

variable {s : Source} {shape : Shape} {v : R.Value}

theorem shapeIn_after (h : ctx.Executes R σ ctx' σ') (hs : s.shapeIn ctx.table = some shape) :
    s.shapeIn ctx'.table = some shape := by
  unfold shapeIn at hs ⊢
  split
  · rename_i hdyn
    rw [if_pos hdyn] at hs
    cases hname : s.name? with
    | none =>
        rw [hname] at hs
        exact hs
    | some x =>
        rw [hname] at hs
        obtain ⟨t, ht, rfl⟩ := Option.map_eq_some_iff.mp hs
        simp only [h.typeOf? (SymbolTable.mem_names_of_typeOf? ht), ht, Option.map_some]
  · rename_i hdyn
    rwa [if_neg hdyn] at hs

theorem Means.after (h : ctx.Executes R σ ctx' σ') (hs : s.Means R ctx.table σ shape v) :
    s.Means R ctx'.table σ' shape v :=
  ⟨shapeIn_after h hs.shapeIn, hs.holds, hs.code.after h, fun ht => (hs.truth ht).after h⟩

/-- A value whose truth value needs no code of its own. -/
theorem Means.ofCode {t : StaticType} {c : Code} {table : SymbolTable} (ht : t ≠ .dynamic)
    (hv : (Shape.value t).Holds R v) (hc : c.Yields R table.names σ v) :
    (Source.ofCode t c).Means R table σ (.value t) v :=
  ⟨if_neg ht, hv, hc, fun _ => hc⟩

theorem subtype_of_shapeIn (h : s.shapeIn ctx.table = some shape) :
    s.subtype span ctx = .ok shape.type ctx := by
  obtain ⟨type, code, truth, name?⟩ := s
  unfold shapeIn at h
  by_cases hdyn : type = .dynamic
  · subst hdyn
    rw [if_pos rfl] at h
    cases name? with
    | none =>
        obtain rfl : Shape.binding .dynamic = shape := by simpa using h
        rfl
    | some x =>
        obtain ⟨t, ht, rfl⟩ := Option.map_eq_some_iff.mp h
        obtain ⟨symbol, hget, rfl⟩ := SymbolTable.typeOf?_eq_some.mp ht
        simp only [subtype, Lower.bind_apply, Lower.readSymbol_apply hget, Lower.pure_apply,
          Shape.type]
  · rw [if_neg hdyn] at h
    obtain rfl : Shape.value type = shape := by simpa using h
    cases type <;> first | rfl | exact absurd rfl hdyn

theorem type_of_shapeIn {table : SymbolTable} {t : StaticType}
    (h : s.shapeIn table = some shape) (ht : s.type = t) (hdyn : t ≠ .dynamic) :
    shape = .value t := by
  subst ht
  rw [shapeIn, if_neg hdyn] at h
  simpa using h.symm

end Source

/-! ### Computations with the execution of what they emit -/

namespace Lower

/-- If the computation succeeds, what it has emitted can be executed, and then `post` holds. -/
def Means (R : Runtime) (x : Lower α) (ctx : Context) (σ : R.Store)
    (post : α → Context → R.Store → Prop) : Prop :=
  R.Fits ctx.table σ → ∀ a ctx', x ctx = .ok a ctx' →
    ∃ σ', ctx.Executes R σ ctx' σ' ∧ post a ctx' σ'

namespace Means

variable {post : α → Context → R.Store → Prop} {post' : β → Context → R.Store → Prop}

theorem pure {a : α} (h : post a ctx σ) : Means R (pure a) ctx σ post := by
  intro hfits a' ctx' hrun
  obtain ⟨rfl, rfl⟩ : a = a' ∧ ctx = ctx' := by simpa using hrun
  exact ⟨σ, .refl hfits, h⟩

theorem fail (span : Span) (cause : Cause) : Means R (fail span cause : Lower α) ctx σ post := by
  intro _ a ctx' hrun
  exact absurd hrun (by simp)

/-- **Sequencing.** The second part runs in the store that the first has left. -/
theorem bind {x : Lower α} {f : α → Lower β} (hx : Means R x ctx σ post)
    (hf : ∀ a ctx' σ', ctx.Executes R σ ctx' σ' → post a ctx' σ' →
      Means R (f a) ctx' σ' post') :
    Means R (x >>= f) ctx σ post' := by
  intro hfits b ctx'' hrun
  rw [bind_apply] at hrun
  cases hrunx : x ctx with
  | error e ctx' =>
      rw [hrunx] at hrun
      exact absurd hrun (by simp)
  | ok a ctx' =>
      rw [hrunx] at hrun
      obtain ⟨σ', hexec, hpost⟩ := hx hfits a ctx' hrunx
      obtain ⟨σ'', hexec', hpost'⟩ := hf a ctx' σ' hexec hpost hexec.fits b ctx'' hrun
      exact ⟨σ'', hexec.trans hexec', hpost'⟩

/-- A first part that only looks something up. -/
theorem bind_ok {x : Lower α} {f : α → Lower β} {a : α} (hx : x ctx = .ok a ctx)
    (hf : Means R (f a) ctx σ post') : Means R (x >>= f) ctx σ post' := by
  unfold Means
  rw [bind_apply, hx]
  exact hf

theorem require (h : Header) : Means R (require h) ctx σ fun _ _ _ => True := by
  intro hfits a ctx' hrun
  obtain rfl : ctx.needing h = ctx' := by simpa using hrun
  exact ⟨σ, .needing hfits h, trivial⟩

/-- A new box is what its instruction computes. -/
theorem fillTemporary {instr : Place → Instr} {b : R.Box} (hdst : ∀ p, (instr p).written = p)
    (hi : ∀ p, (instr p).result R σ = some b) :
    Means R (fillTemporary .dynamic instr) ctx σ fun p ctx' σ' =>
      (Source.ofBox p).Means R ctx'.table σ' (.binding .dynamic) (.box b) := by
  intro hfits p ctx' hrun
  rw [fillTemporary_apply] at hrun
  obtain ⟨rfl, rfl⟩ : Place.temp ctx.table.nextName = p ∧
      ctx.filling .dynamic (instr (.temp ctx.table.nextName)) = ctx' := by simpa using hrun
  refine ⟨_, .filling hfits (hdst _) (hi _), rfl, ⟨b, rfl⟩, ?_, fun h => StaticType.noConfusion h⟩
  intro τ hτ
  have hmem : ctx.table.nextName ∈ (ctx.table.newTemporary .dynamic).2.names := by simp
  have hvalue := (hτ _ hmem).trans (Runtime.update_self σ _ _)
  exact congrArg some hvalue

end Means

variable {s left right : Source} {shape lshape rshape : Shape} {v a b : R.Value}

/-! ### Boxes -/

/-- Finding the shape of a source emits nothing. -/
theorem shape_means (hs : s.Means R ctx.table σ shape v) :
    Means R (s.shape span) ctx σ fun shape' ctx' σ' => shape' = shape ∧ ctx' = ctx ∧ σ' = σ := by
  unfold Source.shape
  by_cases hdyn : s.type = .dynamic
  · rw [if_pos hdyn]
    refine .bind_ok (Source.subtype_of_shapeIn hs.shapeIn) ?_
    split
    · exact .fail _ _
    · refine .pure ⟨?_, rfl, rfl⟩
      have hshape := hs.shapeIn
      rw [Source.shapeIn, if_pos hdyn] at hshape
      cases hname : s.name? with
      | none =>
          rw [hname] at hshape
          obtain rfl : Shape.binding .dynamic = shape := by simpa using hshape
          rfl
      | some x =>
          rw [hname] at hshape
          obtain ⟨t, -, rfl⟩ := Option.map_eq_some_iff.mp hshape
          rfl
  · rw [if_neg hdyn]
    exact .pure ⟨(Source.type_of_shapeIn hs.shapeIn rfl hdyn).symm, rfl, rfl⟩

/-- A native scalar goes into the box of the kind of its type. -/
theorem scalarContent_eval {content : BoxContent} (hs : s.Means R ctx.table σ shape v)
    (hc : ((BoxKind.ofType? shape.type).map fun kind =>
      BoxContent.scalar kind (s.scalarCode kind)) = some content) :
    ∃ b, R.toBox shape.type v = some b ∧ content.eval R σ = some b := by
  obtain ⟨kind, hkind, rfl⟩ := Option.map_eq_some_iff.mp hc
  obtain ⟨x, rfl⟩ := hs.holds.scalar (BoxKind.native_of_ofType? hkind)
  have hcode : (s.scalarCode kind).eval R σ = some (.scalar x) := by
    unfold Source.scalarCode
    split
    · rename_i hbool
      subst hbool
      exact (hs.truth (BoxKind.bool_of_ofType? hkind)).eval
    · exact hs.code.eval
  refine ⟨R.boxScalar kind x, ?_, ?_⟩
  · simp [Runtime.toBox, hkind]
  · simp [BoxContent.eval, hcode, Runtime.Value.scalar?]

/-- What a box is built from has the value of the source, in a box. -/
theorem boxContent_eval {content : BoxContent} (hs : s.Means R ctx.table σ shape v)
    (hc : boxContent? shape s = some content) :
    ∃ b, R.toBox shape.type v = some b ∧ content.eval R σ = some b := by
  have hcode := hs.code.eval
  unfold boxContent? at hc
  split at hc
  · obtain rfl := Option.some.inj hc
    obtain rfl : v = .null := hs.holds
    exact ⟨_, rfl, rfl⟩
  · obtain rfl := Option.some.inj hc
    obtain ⟨text, rfl⟩ := hs.holds
    exact ⟨_, rfl, by simp [BoxContent.eval, hcode, Runtime.Value.literal?]⟩
  · obtain rfl := Option.some.inj hc
    obtain rfl : v = .emptyArray := hs.holds
    exact ⟨_, rfl, rfl⟩
  · obtain rfl := Option.some.inj hc
    obtain ⟨text, rfl⟩ := hs.holds
    exact ⟨_, rfl, by simp [BoxContent.eval, hcode, Runtime.Value.text?]⟩
  · exact scalarContent_eval hs hc
  · exact scalarContent_eval hs hc

/-- A source is made a box of its value. -/
theorem materialize_means (hs : s.Means R ctx.table σ shape v) :
    Means R (materialize span s) ctx σ fun c ctx' σ' =>
      ∃ b, R.toBox shape.type v = some b ∧ c.Yields R ctx'.table.names σ' (.box b) := by
  refine .bind (shape_means hs) ?_
  rintro shape _ _ - ⟨rfl, rfl, rfl⟩
  by_cases hbox : shape = .binding .dynamic
  · -- a box stays where it is
    subst hbox
    obtain ⟨b, rfl⟩ := hs.holds
    exact .pure ⟨b, rfl, hs.code⟩
  · rw [if_neg hbox]
    cases hcontent : boxContent? shape s with
    | none => exact .fail _ _
    | some content =>
        obtain ⟨b, hb, heval⟩ := boxContent_eval hs hcontent
        refine .bind (.fillTemporary (fun _ => rfl) (fun _ => heval)) ?_
        intro p ctx' σ' _ hp
        exact .pure ⟨b, hb, hp.code⟩

/-! ### Operands -/

/-- A native operand is found exactly at native types. -/
theorem nativeOperand?_apply (span : Span) (hs : s.Means R ctx.table σ shape v) :
    ∃ c, nativeOperand? span s ctx =
        .ok (if shape.type.isNativeScalar then some (shape.type, c) else none) ctx ∧
      c.Yields R ctx.table.names σ v := by
  refine ⟨if s.type = .bool then s.truth else s.code, ?_, ?_⟩
  · simp only [nativeOperand?, bind_apply, Source.subtype_of_shapeIn hs.shapeIn]
    split <;> rfl
  · split
    · rename_i hbool
      obtain rfl := Source.type_of_shapeIn hs.shapeIn hbool (by decide)
      exact hs.truth rfl
    · exact hs.code

/-- Two native operands are found exactly if both types are native. -/
theorem nativeOperands?_apply (span : Span) (hl : left.Means R ctx.table σ lshape a)
    (hr : right.Means R ctx.table σ rshape b) :
    ∃ l r, nativeOperands? span left right ctx =
        .ok (if lshape.type.isNativeScalar && rshape.type.isNativeScalar then
          some ((lshape.type, l), (rshape.type, r)) else none) ctx ∧
      l.Yields R ctx.table.names σ a ∧ r.Yields R ctx.table.names σ b := by
  obtain ⟨l, hlrun, hl⟩ := nativeOperand?_apply span hl
  obtain ⟨r, hrrun, hr⟩ := nativeOperand?_apply span hr
  refine ⟨l, r, ?_, hl, hr⟩
  simp only [nativeOperands?, bind_apply, hlrun, hrrun]
  cases lshape.type.isNativeScalar <;> cases rshape.type.isNativeScalar <;> rfl

/-- The condition of a source has its truth value. -/
theorem condition_means (hs : s.Means R ctx.table σ shape v) :
    Means R (condition span s) ctx σ fun c ctx' σ' =>
      ∃ x, R.truth v = some x ∧ c.Yields R ctx'.table.names σ' (.scalar x) := by
  have htyped : ∀ t, s.type = t → t ≠ .dynamic → shape = .value t :=
    fun t ht hdyn => Source.type_of_shapeIn hs.shapeIn ht hdyn
  refine .bind_ok (Source.subtype_of_shapeIn hs.shapeIn) ?_
  by_cases hbool : s.type = .bool
  · rw [if_pos hbool]
    obtain rfl := htyped _ hbool (by decide)
    obtain ⟨x, rfl⟩ := hs.holds
    exact .pure ⟨x, rfl, hs.truth rfl⟩
  rw [if_neg hbool]
  by_cases hnull : s.type = .null
  · rw [if_pos hnull]
    obtain rfl := htyped _ hnull (by decide)
    obtain rfl : v = .null := hs.holds
    exact .pure ⟨_, rfl, fun _ _ => rfl⟩
  rw [if_neg hnull]
  by_cases hdyn : shape.type = .dynamic
  · rw [if_pos hdyn]
    obtain ⟨b, rfl⟩ := hs.holds.box hdyn
    refine .bind (.require _) fun _ ctx' σ' hexec _ => .pure ⟨_, rfl, ?_⟩
    intro τ hτ
    simp [Code.eval, (hs.code.after hexec) τ hτ, Runtime.Value.box?]
  rw [if_neg hdyn]
  by_cases hnative : shape.type.isNativeScalar = true
  · rw [if_pos hnative]
    obtain ⟨x, rfl⟩ := hs.holds.scalar hnative
    exact .pure ⟨x, rfl, hs.code⟩
  · rw [if_neg hnative]
    exact .fail _ _

/-! ### Operators -/

theorem boxedOp_means (op : BoxedOp) (hl : left.Means R ctx.table σ lshape a)
    (hr : right.Means R ctx.table σ rshape b) :
    Means R (boxedOp span op left right) ctx σ (Source.Denotes R .dynamic do
      let x ← R.toBox lshape.type a
      let y ← R.toBox rshape.type b
      some (.box (R.boxedOp op x y))) := by
  refine .bind (materialize_means hl) ?_
  rintro l ctx₁ σ₁ h₁ ⟨x, hx, hlx⟩
  refine .bind (materialize_means (hr.after h₁)) ?_
  rintro r ctx₂ σ₂ h₂ ⟨y, hy, hry⟩
  refine .bind (.require _) fun _ ctx₃ σ₃ h₃ _ => ?_
  have hleft := (hlx.after (h₂.trans h₃)).eval
  have hright := (hry.after h₃).eval
  refine .bind (.fillTemporary (b := R.boxedOp op x y) (fun _ => rfl) fun _ => ?_) ?_
  · simp [Instr.result, hleft, hright, Runtime.Value.box?]
  · intro p ctx₄ σ₄ _ hp
    exact .pure ⟨_, _, by simp [hx, hy], rfl, hp⟩

theorem boxedCompare_means (op : Comparison) (hl : left.Means R ctx.table σ lshape a)
    (hr : right.Means R ctx.table σ rshape b) :
    Means R (boxedCompare span op left right) ctx σ (Source.Denotes R .bool do
      let x ← R.toBox lshape.type a
      let y ← R.toBox rshape.type b
      some (.scalar (R.boxedCompare op x y))) := by
  refine .bind (materialize_means hl) ?_
  rintro l ctx₁ σ₁ h₁ ⟨x, hx, hlx⟩
  refine .bind (materialize_means (hr.after h₁)) ?_
  rintro r ctx₂ σ₂ h₂ ⟨y, hy, hry⟩
  refine .bind (.require _) fun _ ctx₃ σ₃ h₃ _ => .pure ?_
  refine ⟨_, .scalar (R.boxedCompare op x y), by simp [hx, hy], rfl,
    .ofCode (by decide) ⟨_, rfl⟩ ?_⟩
  intro τ hτ
  have hleft := hlx.after (h₂.trans h₃) τ hτ
  have hright := hry.after h₃ τ hτ
  simp [Code.eval, hleft, hright, Runtime.Value.box?]

/-- Native code has the value of the native operator. -/
theorem native_yields {op : BinaryOp} {l r : Code} {names : List String} {x y z : R.Scalar}
    (hl : l.Yields R names σ (.scalar x)) (hr : r.Yields R names σ (.scalar y))
    (hop : R.native? op x y = some z) :
    (Code.binary op l r).Yields R names σ (.scalar z) := by
  intro τ hτ
  simp [Code.eval, hl τ hτ, hr τ hτ, Runtime.Value.scalar?, hop]

/-- A binary operator on two sources has the value of the operator on their values. -/
theorem binary_means (op : BinaryOp) (hl : left.Means R ctx.table σ lshape a)
    (hr : right.Means R ctx.table σ rshape b) :
    Means R (binary span op left right) ctx σ (Source.Denotes R (op.type lshape.type rshape.type)
      (R.binary op lshape.type rshape.type a b)) := by
  cases op with
  | connect c =>
      refine .bind (condition_means hl) ?_
      rintro l ctx₁ σ₁ h₁ ⟨x, hx, hlx⟩
      refine .bind (condition_means (hr.after h₁)) ?_
      rintro r ctx₂ σ₂ h₂ ⟨y, hy, hry⟩
      refine .pure ⟨_, .scalar (R.connect c x y), by simp [Runtime.binary, hx, hy], rfl,
        .ofCode (by decide) ⟨_, rfl⟩ ?_⟩
      exact native_yields (hlx.after h₂) hry rfl
  | concat => exact boxedOp_means .concat hl hr
  | arith o =>
      obtain ⟨l, r, hrun, hlc, hrc⟩ := nativeOperands?_apply span hl hr
      refine .bind_ok hrun ?_
      cases hboth : lshape.type.isNativeScalar && rshape.type.isNativeScalar with
      | false =>
          simp only [Runtime.binary, BinaryOp.type, hboth]
          exact boxedOp_means (.arith o) hl hr
      | true =>
          obtain ⟨hlnative, hrnative⟩ := Bool.and_eq_true_iff.mp hboth
          obtain ⟨x, rfl⟩ := hl.holds.scalar hlnative
          obtain ⟨y, rfl⟩ := hr.holds.scalar hrnative
          have htype : BinaryOp.type (.arith o) lshape.type rshape.type =
              arithType lshape.type rshape.type := by
            simp [BinaryOp.type, hboth, arithType]
          have hmem := arithType_mem lshape.type rshape.type
          refine .pure ⟨.value (arithType lshape.type rshape.type), .scalar (R.arith o x y), ?_,
            htype.symm, .ofCode ?_ ?_ (native_yields hlc hrc rfl)⟩
          · simp [Runtime.binary, hboth, Runtime.Value.scalar?]
          · intro h
            rw [h] at hmem
            exact absurd hmem (by decide)
          · unfold arithType
            split
            · exact ⟨_, rfl⟩
            · exact ⟨_, rfl⟩
  | compare c =>
      obtain ⟨l, r, hrun, hlc, hrc⟩ := nativeOperands?_apply span hl hr
      refine .bind_ok hrun ?_
      cases hboth : lshape.type.isNativeScalar && rshape.type.isNativeScalar with
      | false =>
          simp only [Runtime.binary, hboth]
          exact boxedCompare_means c hl hr
      | true =>
          obtain ⟨hlnative, hrnative⟩ := Bool.and_eq_true_iff.mp hboth
          obtain ⟨x, rfl⟩ := hl.holds.scalar hlnative
          obtain ⟨y, rfl⟩ := hr.holds.scalar hrnative
          refine .pure ⟨_, .scalar (R.compare c x y), ?_, rfl,
            .ofCode (by decide) ⟨_, rfl⟩ (native_yields hlc hrc rfl)⟩
          simp [Runtime.binary, hboth, Runtime.Value.scalar?]

theorem negate_means (hs : s.Means R ctx.table σ shape v) :
    Means R (negate span s) ctx σ (Source.Denotes R .bool do
      let x ← R.truth v
      some (.scalar (R.negate x))) := by
  refine .bind (condition_means hs) ?_
  rintro c ctx₁ σ₁ _ ⟨x, hx, hc⟩
  refine .pure ⟨_, .scalar (R.negate x), by simp [hx], rfl, .ofCode (by decide) ⟨_, rfl⟩ ?_⟩
  intro τ hτ
  simp [Code.eval, hc τ hτ, Runtime.Value.scalar?]

/-! ### Calls and accesses -/

/-- The codes of the arguments have the boxes as their values, now and later. -/
def Passes (R : Runtime) (names : List String) (σ : R.Store) (args : List Code)
    (boxes : List R.Box) : Prop :=
  ∀ τ : R.Store, (∀ n ∈ names, τ n = σ n) → Code.evalBoxes R τ args = some boxes

theorem Passes.cons {c : Code} {cs : List Code} {names : List String} {box : R.Box}
    {boxes : List R.Box} (hc : c.Yields R names σ (.box box)) (hcs : Passes R names σ cs boxes) :
    Passes R names σ (c :: cs) (box :: boxes) := by
  intro τ hτ
  simp [Code.evalBoxes, hc τ hτ, hcs τ hτ, Runtime.Value.box?]

theorem callFunction_means (name : String) {args : List Code} {boxes : List R.Box}
    (hargs : Passes R ctx.table.names σ args boxes) :
    Means R (callFunction name args) ctx σ
      (Source.Denotes R .dynamic (some (.box (R.call name boxes)))) := by
  refine .bind (.require _) fun _ ctx₁ σ₁ h₁ _ => ?_
  have heval := hargs σ₁ h₁.keeps
  refine .bind (.fillTemporary (b := R.call name boxes) (fun _ => rfl) fun _ => ?_) ?_
  · simp [Instr.result, heval]
  · intro p ctx₂ σ₂ _ hp
    exact .pure ⟨_, _, rfl, rfl, hp⟩

theorem readProperty_means (property : String) (hs : s.Means R ctx.table σ shape v) :
    Means R (readProperty span s property) ctx σ (Source.Denotes R .dynamic do
      let object ← v.box?
      some (.box (R.readProperty object property))) := by
  refine .bind_ok (Source.subtype_of_shapeIn hs.shapeIn) ?_
  by_cases hdyn : shape.type = .dynamic
  · rw [if_pos hdyn]
    obtain ⟨object, rfl⟩ := hs.holds.box hdyn
    refine .bind (.require _) fun _ ctx₁ σ₁ h₁ _ => ?_
    have hobject := (hs.code.after h₁).eval
    refine .bind (.fillTemporary (b := R.readProperty object property) (fun _ => rfl)
      fun _ => ?_) ?_
    · simp [Instr.result, hobject, Runtime.Value.box?]
    · intro p ctx₂ σ₂ _ hp
      exact .pure ⟨_, _, rfl, rfl, hp⟩
  · rw [if_neg hdyn]
    exact .fail _ _

theorem checkIndexable_means (hs : s.Means R ctx.table σ shape v) :
    Means R (checkIndexable span s) ctx σ fun _ ctx' σ' =>
      ctx' = ctx ∧ σ' = σ ∧ ∃ array, v = .box array := by
  refine .bind_ok (Source.subtype_of_shapeIn hs.shapeIn) ?_
  by_cases hdyn : shape.type = .dynamic
  · rw [if_pos hdyn]
    exact .pure ⟨rfl, rfl, hs.holds.box hdyn⟩
  · rw [if_neg hdyn]
    exact .fail _ _

/-- An integer index reads the element under its value. -/
theorem longKey_fetch {key : Key} (hs : s.Means R ctx.table σ shape v)
    (hkey : (if shape.type.isInteger then some (Key.long s.code) else none) = some key)
    (array : R.Box) :
    ∃ element, R.element array v = some element ∧
      ∀ τ : R.Store, (∀ n ∈ ctx.table.names, τ n = σ n) → key.fetch R τ array = some element := by
  by_cases hint : shape.type.isInteger = true
  · rw [if_pos hint] at hkey
    obtain rfl := Option.some.inj hkey
    have hnative : shape.type.isNativeScalar = true := by
      simp [StaticType.isNativeScalar, StaticType.isIntegral, hint]
    obtain ⟨x, rfl⟩ := hs.holds.scalar hnative
    exact ⟨_, rfl, fun τ hτ => by simp [Key.fetch, hs.code τ hτ, Runtime.Value.scalar?]⟩
  · rw [if_neg hint] at hkey
    exact absurd hkey (by simp)

/-- A key reads the element under the value of the index. -/
theorem key_fetch {key : Key} (hs : s.Means R ctx.table σ shape v)
    (hkey : Key.of? shape s = some key) (array : R.Box) :
    ∃ element, R.element array v = some element ∧
      ∀ τ : R.Store, (∀ n ∈ ctx.table.names, τ n = σ n) → key.fetch R τ array = some element := by
  unfold Key.of? at hkey
  split at hkey
  · obtain rfl := Option.some.inj hkey
    obtain ⟨text, rfl⟩ := hs.holds
    exact ⟨_, rfl, fun τ hτ => by simp [Key.fetch, hs.code τ hτ, Runtime.Value.literal?]⟩
  · obtain rfl := Option.some.inj hkey
    obtain ⟨text, rfl⟩ := hs.holds
    exact ⟨_, rfl, fun τ hτ => by simp [Key.fetch, hs.code τ hτ, Runtime.Value.text?]⟩
  · obtain rfl := Option.some.inj hkey
    obtain ⟨b, rfl⟩ := hs.holds
    exact ⟨_, rfl, fun τ hτ => by simp [Key.fetch, hs.code τ hτ, Runtime.Value.box?]⟩
  · exact longKey_fetch hs hkey array
  · exact longKey_fetch hs hkey array

theorem fetchElement_means {array index : Source} {box : R.Box}
    (ha : array.code.Yields R ctx.table.names σ (.box box))
    (hi : index.Means R ctx.table σ shape v) :
    Means R (fetchElement span array index) ctx σ (Source.Denotes R .dynamic do
      let element ← R.element box v
      some (.box element)) := by
  refine .bind (shape_means hi) ?_
  rintro shape _ _ - ⟨rfl, rfl, rfl⟩
  cases hkey : Key.of? shape index with
  | none => exact .fail _ _
  | some key =>
      obtain ⟨element, helement, hfetch⟩ := key_fetch hi hkey box
      refine .bind (.require _) fun _ ctx₁ σ₁ h₁ _ => ?_
      have harray := (ha.after h₁).eval
      refine .bind (.fillTemporary (b := element) (fun _ => rfl) fun _ => ?_) ?_
      · simp [Instr.result, harray, Runtime.Value.box?, hfetch σ₁ h₁.keeps]
      · intro p ctx₂ σ₂ _ hp
        exact .pure ⟨_, _, by simp [helement], rfl, hp⟩

/-! ### Expressions -/

/-- The variable is declared and has the type and the value that the meaning of the expression gives
it. -/
def Knows (R : Runtime) (Γ : String → Option StaticType) (σ₀ : R.Store) (ctx : Context)
    (σ : R.Store) (x : String) : Prop :=
  x ∈ ctx.table.names ∧ ctx.table.typeOf? x = Γ x ∧ σ x = σ₀ x

variable {Γ : String → Option StaticType} {σ₀ : R.Store}

theorem Knows.after {x : String} (h : ctx.Executes R σ ctx' σ') (hx : Knows R Γ σ₀ ctx σ x) :
    Knows R Γ σ₀ ctx' σ' x :=
  ⟨h.names_subset hx.1, (h.typeOf? hx.1).trans hx.2.1, (h.keeps x hx.1).trans hx.2.2⟩

/-- Code that is a literal has the same value in every store. -/
theorem literal_means {t : StaticType} {c : Code} (ht : t ≠ .dynamic)
    (hv : (Shape.value t).Holds R v) (hc : ∀ τ : R.Store, c.eval R τ = some v) :
    Means R (pure (Source.ofCode t c)) ctx σ (Source.Denotes R t (some v)) :=
  .pure ⟨_, v, rfl, rfl, .ofCode ht hv fun τ _ => hc τ⟩

theorem doubleLiteral_means (x : Float) :
    Means R (doubleLiteral span x) ctx σ
      (Source.Denotes R .double (some (.scalar (R.double x)))) := by
  unfold doubleLiteral
  split
  · exact literal_means (by decide) ⟨_, rfl⟩ fun _ => rfl
  · exact .fail _ _

theorem bareVariable_means {x : String} (hx : Knows R Γ σ₀ ctx σ x) :
    Means R (bareVariable span x) ctx σ
      (Source.Denotes R ((Γ x).getD .dynamic) (some (σ₀ x))) := by
  obtain ⟨hmem, htype, hvalue⟩ := hx
  intro hfits
  cases hget : ctx.table.get? x with
  | none => exact absurd hmem (SymbolTable.get?_eq_none_iff.mp hget)
  | some symbol =>
      have hΓ : ctx.table.typeOf? x = some symbol.type :=
        SymbolTable.typeOf?_eq_some.mpr ⟨symbol, hget, rfl⟩
      refine Means.bind_ok (readSymbol_apply hget) (.pure ?_) hfits
      have hcode : (Code.place (.var x)).Yields R ctx.table.names σ (σ₀ x) :=
        fun τ hτ => congrArg some ((hτ x hmem).trans hvalue)
      refine ⟨.binding symbol.type, σ₀ x, rfl, ?_, ?_, ?_, hcode, fun _ => hcode⟩
      · rw [← htype, hΓ]
        rfl
      · simp [Source.shapeIn, Source.ofVar, hΓ]
      · exact hvalue ▸ hfits x symbol.type hΓ

mutual

/-- Lowering an expression gives a source that stands for the value of the expression, once what has
been emitted is executed. -/
theorem resolve_means : ∀ (e : Expr) {ctx : Context} {σ : R.Store},
    (∀ x, e.mentions x = true → Knows R Γ σ₀ ctx σ x) →
    Means R (resolve span e) ctx σ (Source.Denotes R (e.type Γ) (e.denote R Γ σ₀))
  | .null, _, _, _ =>
      .pure ⟨.value .null, .null, rfl, rfl, rfl, rfl, fun _ _ => rfl, nofun⟩
  | .bool _, _, _, _ =>
      .pure ⟨.value .bool, _, rfl, rfl, rfl, ⟨_, rfl⟩, fun _ _ => rfl, fun _ _ _ => rfl⟩
  | .int _, _, _, _ => literal_means (by decide) ⟨_, rfl⟩ fun _ => rfl
  | .double x, _, _, _ => doubleLiteral_means x
  | .char _, _, _, _ => literal_means (by decide) ⟨_, rfl⟩ fun _ => rfl
  | .string _, _, _, _ => literal_means (by decide) ⟨_, rfl⟩ fun _ => rfl
  | .emptyArray, _, _, _ => literal_means (by decide) rfl fun _ => rfl
  | .var x, _, _, hx => bareVariable_means (hx x (by simp [Expr.mentions]))
  | .binary op l r, _, _, hx => by
      have hxl : ∀ x, l.mentions x = true → Knows R Γ σ₀ _ _ x :=
        fun x h => hx x (by simp [Expr.mentions, h])
      refine .bind (resolve_means l hxl) ?_
      rintro left ctx₁ σ₁ h₁ ⟨lshape, a, ha, hlt, hl⟩
      have hxr : ∀ x, r.mentions x = true → Knows R Γ σ₀ ctx₁ σ₁ x :=
        fun x h => (hx x (by simp [Expr.mentions, h])).after h₁
      refine .bind (resolve_means r hxr) ?_
      rintro right ctx₂ σ₂ h₂ ⟨rshape, b, hb, hrt, hr⟩
      -- the left operand keeps its value while the right one is computed
      have hbinary : Means R (binary span op left right) ctx₂ σ₂ _ :=
        binary_means op (hl.after h₂) hr
      rw [hlt, hrt] at hbinary
      simpa [Expr.denote, Expr.type, ha, hb] using hbinary
  | .not e, _, _, hx => by
      have hxe : ∀ x, e.mentions x = true → Knows R Γ σ₀ _ _ x :=
        fun x h => hx x (by simp [Expr.mentions, h])
      refine .bind (resolve_means e hxe) ?_
      rintro s ctx₁ σ₁ h₁ ⟨shape, v, hv, -, hs⟩
      simpa [Expr.denote, Expr.type, hv] using negate_means hs
  | .property e name, _, _, hx => by
      have hxe : ∀ x, e.mentions x = true → Knows R Γ σ₀ _ _ x :=
        fun x h => hx x (by simp [Expr.mentions, h])
      refine .bind (resolve_means e hxe) ?_
      rintro s ctx₁ σ₁ h₁ ⟨shape, v, hv, -, hs⟩
      simpa [Expr.denote, Expr.type, hv] using readProperty_means name hs
  | .index a i, _, _, hx => by
      have hxa : ∀ x, a.mentions x = true → Knows R Γ σ₀ _ _ x :=
        fun x h => hx x (by simp [Expr.mentions, h])
      refine .bind (resolve_means a hxa) ?_
      rintro array ctx₁ σ₁ h₁ ⟨ashape, va, hva, -, harray⟩
      refine .bind (checkIndexable_means harray) ?_
      rintro _ _ _ - ⟨rfl, rfl, box, rfl⟩
      have hxi : ∀ x, i.mentions x = true → Knows R Γ σ₀ _ _ x :=
        fun x h => (hx x (by simp [Expr.mentions, h])).after h₁
      refine .bind (resolve_means i hxi) ?_
      rintro index ctx₂ σ₂ h₂ ⟨ishape, vi, hvi, -, hindex⟩
      simpa [Expr.denote, Expr.type, hva, hvi, Runtime.Value.box?] using
        fetchElement_means (harray.code.after h₂) hindex
  | .call name args, _, _, hx => by
      have hxs : ∀ x, Expr.anyMentions x args = true → Knows R Γ σ₀ _ _ x :=
        fun x h => hx x (by simp [Expr.mentions, h])
      refine .bind (resolveArgs_means args hxs) ?_
      rintro codes ctx₁ σ₁ h₁ ⟨boxes, hboxes, hpass⟩
      simpa [Expr.denote, Expr.type, hboxes] using callFunction_means name hpass

/-- The arguments of a call are the boxes of their values. -/
theorem resolveArgs_means : ∀ (es : List Expr) {ctx : Context} {σ : R.Store},
    (∀ x, Expr.anyMentions x es = true → Knows R Γ σ₀ ctx σ x) →
    Means R (resolveArgs span es) ctx σ fun args ctx' σ' =>
      ∃ boxes, Expr.denoteArgs R Γ σ₀ es = some boxes ∧ Passes R ctx'.table.names σ' args boxes
  | [], _, _, _ => .pure ⟨[], rfl, fun _ _ => rfl⟩
  | e :: es, _, _, hx => by
      have hxe : ∀ x, e.mentions x = true → Knows R Γ σ₀ _ _ x :=
        fun x h => hx x (by simp [Expr.anyMentions, h])
      refine .bind (resolve_means e hxe) ?_
      rintro s ctx₁ σ₁ h₁ ⟨shape, v, hv, htype, hs⟩
      refine .bind (materialize_means hs) ?_
      rintro c ctx₂ σ₂ h₂ ⟨box, hbox, hc⟩
      -- only temporaries have been written, so that the other arguments read the same values
      have hxes : ∀ x, Expr.anyMentions x es = true → Knows R Γ σ₀ ctx₂ σ₂ x :=
        fun x h => (hx x (by simp [Expr.anyMentions, h])).after (h₁.trans h₂)
      refine .bind (resolveArgs_means es hxes) ?_
      rintro cs ctx₃ σ₃ h₃ ⟨boxes, hboxes, hcs⟩
      rw [htype] at hbox
      refine .pure ⟨box :: boxes, ?_, .cons (hc.after h₃) hcs⟩
      simp [Expr.denoteArgs, hv, hbox, hboxes]

end

/-- The same for an expression of declared variables, with their values before it is lowered. -/
theorem resolve_denotes {e : Expr} {s : Source}
    (hdeclared : ∀ x, e.mentions x = true → x ∈ ctx.table.names) (hfits : R.Fits ctx.table σ)
    (hrun : resolve span e ctx = .ok s ctx') :
    ∃ σ', ctx.Executes R σ ctx' σ' ∧
      s.Denotes R (e.type ctx.table.typeOf?) (e.denote R ctx.table.typeOf? σ) ctx' σ' :=
  resolve_means e (fun x hx => ⟨hdeclared x hx, rfl, rfl⟩) hfits s ctx' hrun

end Lower

/-- **Lowering an expression preserves its meaning.** What is emitted can be executed in order, in
every store that fits the table, and then the code of the source has the value of the expression, on
both of its readings if it is a truth value. No symbol that was there changes its value. -/
theorem resolve_preserves_meaning (R : Runtime) (span : Span) {e : Expr} {ctx ctx' : Context}
    {s : Source} {σ : R.Store} (hdeclared : ∀ x, e.mentions x = true → x ∈ ctx.table.names)
    (hfits : R.Fits ctx.table σ) (hrun : Lower.resolve span e ctx = .ok s ctx') :
    ∃ emitted σ' v,
      ctx'.code = ctx.code ++ emitted ∧
      ctx'.lines = ctx.lines ++ emitted.map (Instr.line ctx.options) ∧
      execAll R emitted σ = some σ' ∧
      e.denote R ctx.table.typeOf? σ = some v ∧
      s.code.eval R σ' = some v ∧
      (s.type = .bool → s.truth.eval R σ' = some v) ∧
      ∀ x ∈ ctx.table.names, σ' x = σ x := by
  obtain ⟨σ', hexec, shape, v, hv, -, hs⟩ := Lower.resolve_denotes hdeclared hfits hrun
  obtain ⟨emitted, hcode, hall⟩ := hexec.code
  have hlines := Context.lines_of_code_append hcode hexec.options
  refine ⟨emitted, σ', v, hcode, hlines, hall, hv, hs.code.eval, fun hbool => ?_, hexec.keeps⟩
  obtain rfl := Source.type_of_shapeIn hs.shapeIn hbool (by decide)
  exact (hs.truth rfl).eval

/-- A runtime in which scalars and boxes are integers, and a call adds up its arguments. -/
def Runtime.integers : Runtime where
  Scalar := Int
  Text := String
  Box := Int
  bit b := if b then 1 else 0
  long n := n.toInt
  double _ := 0
  char c := c.toNat
  arith
    | .add, x, y => x + y
    | .sub, x, y => x - y
    | .mul, x, y => x * y
    | .div, x, y => x / y
  compare
    | .less, x, y => if x < y then 1 else 0
    | _, _, _ => 0
  connect _ x y := x * y
  negate x := 1 - x
  boxNull := 0
  boxEmptyArray := 0
  boxLiteral s := s.length
  boxText s := s.length
  boxScalar _ x := x
  boxedOp
    | .arith .add, x, y => x + y
    | _, x, _ => x
  boxedTest _ x y := x - y
  isTrue x := x
  call _ args := args.foldl (· + ·) 0
  readProperty x _ := x
  fetch x y := x + y
  fetchLong x y := x + y
  sized s := s
  fetchString x s := x + s.length

/-- `n * 2 + sum(v, n)` with a native `n` and a boxed `v`: the product is native and inline, the sum
is computed on boxes. -/
theorem resolve_preserves_meaning_sum :
    let ctx : Context :=
      { table.symbols :=
          [{ name := "n", type := .int, storage := .stackOnly },
            { name := "v", type := .dynamic, storage := .heapBoxed }] }
    let e : Expr := .binary (.arith .add) (.binary (.arith .mul) (.var "n") (.int 2))
      (.call "sum" [.var "v", .var "n"])
    let σ : Runtime.integers.Store := fun x =>
      if x = "n" then .scalar (3 : Int) else .box (4 : Int)
    ∃ s ctx' emitted σ', Lower.resolve {} e ctx = .ok s ctx' ∧ ctx'.code = emitted ∧
      execAll Runtime.integers emitted σ = some σ' ∧
      s.code.eval Runtime.integers σ' = some (.box (13 : Int)) ∧ σ' "n" = .scalar (3 : Int) := by
  intro ctx e σ
  have hdeclared : ∀ x, e.mentions x = true → x ∈ ctx.table.names := by
    intro x hx
    have hx : x = "n" ∨ x = "v" := by
      simp only [e, Expr.mentions, Expr.anyMentions, Bool.or_eq_true, beq_iff_eq,
        Bool.or_false] at hx
      grind
    rcases hx with rfl | rfl <;> decide
  have hfits : Runtime.integers.Fits ctx.table σ := by
    intro n t ht
    have hmem : n ∈ ["n", "v"] := SymbolTable.mem_names_of_typeOf? ht
    have hmem : n = "n" ∨ n = "v" := by simpa using hmem
    rcases hmem with rfl | rfl
    · obtain rfl : StaticType.int = t := Option.some.inj ht
      exact ⟨(3 : Int), rfl⟩
    · obtain rfl : StaticType.dynamic = t := Option.some.inj ht
      exact ⟨(4 : Int), rfl⟩
  obtain ⟨emitted, σ', v, hcode, -, hexec, hdenote, heval, -, hkeeps⟩ :=
    resolve_preserves_meaning Runtime.integers {} hdeclared hfits rfl
  obtain rfl : v = .box (13 : Int) := Option.some.inj hdenote.symm
  exact ⟨_, _, emitted, σ', rfl, hcode, hexec, heval, hkeeps "n" (by decide)⟩

end BoxedLet
