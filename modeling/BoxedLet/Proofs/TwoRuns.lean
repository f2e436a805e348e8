import BoxedLet.Proofs.Growth

/-!
# BoxedLet.Proofs.TwoRuns

**Two lowerings of one expression, side by side.** They start in two states that need not be equal,
and allocate their temporaries under names of their own. What the two runs produce is compared up to
a renaming `ρ` of temporaries (`Code.mapTemps`): with the identity the names have to coincide, with
a constant function they do not matter.

Lowering an expression reads the declared types of the variables that it mentions, and changes the
state only by asking for headers and by filling temporaries. A relation between states that is kept
by these two steps, and that gives the mentioned variables `V` the same types, is therefore kept by
the whole lowering (`Context.Tracks`). `Lower.Follows` says so of two computations; it is closed
under sequencing, so that `resolve_follows` is one induction over the expression with one lemma for
each helper of the lowering.
-/

namespace BoxedLet

variable {span span' : Span}

/-! ### Renaming temporaries -/

section MapTemps

variable (ρ : String → String)

/-- The location, with temporaries renamed. -/
def Place.mapTemps : Place → Place
  | .var x => .var x
  | .temp n => .temp (ρ n)

/-- The code, with temporaries renamed. -/
def Code.mapTemps : Code → Code
  | .place p => .place (p.mapTemps ρ)
  | .binary op l r => .binary op l.mapTemps r.mapTemps
  | .not c => .not c.mapTemps
  | .cast kind grouped c => .cast kind grouped c.mapTemps
  | .nonZero c => .nonZero c.mapTemps
  | .compare op l r => .compare op l.mapTemps r.mapTemps
  | .isTrue c => .isTrue c.mapTemps
  | .coerce kind c => .coerce kind c.mapTemps
  | c => c

/-- The content, with temporaries renamed. -/
def BoxContent.mapTemps : BoxContent → BoxContent
  | .null => .null
  | .emptyArray => .emptyArray
  | .string body => .string (body.mapTemps ρ)
  | .buffer source => .buffer (source.mapTemps ρ)
  | .scalar kind value => .scalar kind (value.mapTemps ρ)

/-- The key, with temporaries renamed. -/
def Key.mapTemps : Key → Key
  | .long value => .long (value.mapTemps ρ)
  | .literal body => .literal (body.mapTemps ρ)
  | .buffer source => .buffer (source.mapTemps ρ)
  | .boxed value => .boxed (value.mapTemps ρ)

/-- What a string is written from, with temporaries renamed. -/
def StringSource.mapTemps : StringSource → StringSource
  | .char value => .char (value.mapTemps ρ)
  | .long value => .long (value.mapTemps ρ)
  | .buffer source => .buffer (source.mapTemps ρ)
  | .literal body => .literal (body.mapTemps ρ)

/-- The instruction, with temporaries renamed. -/
def Instr.mapTemps : Instr → Instr
  | .store dst op value => .store (dst.mapTemps ρ) op (value.mapTemps ρ)
  | .step dst direction => .step (dst.mapTemps ρ) direction
  | .init dst first => .init (dst.mapTemps ρ) first
  | .separate dst => .separate (dst.mapTemps ρ)
  | .build dst inFrame content => .build (dst.mapTemps ρ) inFrame (content.mapTemps ρ)
  | .copy dst source => .copy (dst.mapTemps ρ) (source.mapTemps ρ)
  | .inPlace dst op source => .inPlace (dst.mapTemps ρ) op (source.mapTemps ρ)
  | .bump dst inFrame direction => .bump (dst.mapTemps ρ) inFrame direction
  | .writeString dst mode source => .writeString (dst.mapTemps ρ) mode (source.mapTemps ρ)
  | .boxed dst op left right =>
    .boxed (dst.mapTemps ρ) op (left.mapTemps ρ) (right.mapTemps ρ)
  | .call dst name args => .call (dst.mapTemps ρ) name (args.map (Code.mapTemps ρ))
  | .readProperty dst object property =>
    .readProperty (dst.mapTemps ρ) (object.mapTemps ρ) property
  | .fetch dst array key => .fetch (dst.mapTemps ρ) (array.mapTemps ρ) (key.mapTemps ρ)
  | .append dst value => .append (dst.mapTemps ρ) (value.mapTemps ρ)
  | .update dst key value => .update (dst.mapTemps ρ) (key.mapTemps ρ) (value.mapTemps ρ)
  | .setProperty dst property value => .setProperty (dst.mapTemps ρ) property (value.mapTemps ρ)
  | .appendProperty dst property value =>
    .appendProperty (dst.mapTemps ρ) property (value.mapTemps ρ)
  | .updateProperty dst property key value =>
    .updateProperty (dst.mapTemps ρ) property (key.mapTemps ρ) (value.mapTemps ρ)

end MapTemps

@[simp] theorem Place.mapTemps_id (p : Place) : p.mapTemps id = p := by
  cases p <;> rfl

@[simp] theorem Code.mapTemps_id (c : Code) : c.mapTemps id = c := by
  induction c with
  | place p => rw [mapTemps, p.mapTemps_id]
  | binary op l r ihl ihr => rw [mapTemps, ihl, ihr]
  | compare op l r ihl ihr => rw [mapTemps, ihl, ihr]
  | not c ih => rw [mapTemps, ih]
  | cast kind grouped c ih => rw [mapTemps, ih]
  | nonZero c ih => rw [mapTemps, ih]
  | isTrue c ih => rw [mapTemps, ih]
  | coerce kind c ih => rw [mapTemps, ih]
  | _ => rfl

@[simp] theorem Instr.mapTemps_id (i : Instr) : i.mapTemps id = i := by
  have hargs : ∀ args : List Code, args.map (Code.mapTemps id) = args := fun args =>
    (List.map_congr_left fun c _ => c.mapTemps_id).trans (List.map_id args)
  have hcontent : ∀ content : BoxContent, content.mapTemps id = content := by
    intro content
    cases content <;> simp [BoxContent.mapTemps]
  have hkey : ∀ key : Key, key.mapTemps id = key := by
    intro key
    cases key <;> simp [Key.mapTemps]
  have hsource : ∀ source : StringSource, source.mapTemps id = source := by
    intro source
    cases source <;> simp [StringSource.mapTemps]
  cases i <;> simp [mapTemps, hargs, hcontent, hkey, hsource]

/-- The two sources differ at most in the names of temporaries, and the variable that they are, if
they are one, is in `V`. -/
structure Source.Like (V : String → Prop) (ρ : String → String) (s s' : Source) : Prop where
  type : s'.type = s.type
  code : s'.code.mapTemps ρ = s.code.mapTemps ρ
  truth : s'.truth.mapTemps ρ = s.truth.mapTemps ρ
  name : s'.name? = s.name?
  known : ∀ x, s.name? = some x → V x

namespace Source.Like

variable {V : String → Prop} {ρ : String → String} {s s' : Source}

theorem ofCode {c c' : Code} (t : StaticType) (h : c'.mapTemps ρ = c.mapTemps ρ) :
    Source.Like V ρ (.ofCode t c) (.ofCode t c') :=
  ⟨rfl, h, h, rfl, nofun⟩

theorem ofBox {p p' : Place} (h : p'.mapTemps ρ = p.mapTemps ρ) :
    Source.Like V ρ (.ofBox p) (.ofBox p') :=
  ofCode .dynamic (congrArg Code.place h)

theorem refl (hV : ∀ x, V x) (s : Source) : Source.Like V ρ s s :=
  ⟨rfl, rfl, rfl, rfl, fun x _ => hV x⟩

/-- Where temporaries keep their names, like sources are equal. -/
theorem eq_of_id (h : Source.Like V id s s') : s = s' := by
  obtain ⟨htype, hcode, htruth, hname, -⟩ := h
  simp only [Code.mapTemps_id] at hcode htruth
  cases s
  cases s'
  simp_all

theorem scalarCode (h : Source.Like V ρ s s') (kind : BoxKind) :
    (s'.scalarCode kind).mapTemps ρ = (s.scalarCode kind).mapTemps ρ := by
  unfold Source.scalarCode
  split
  · exact h.truth
  · exact h.code

theorem boxContent? (h : Source.Like V ρ s s') (shape : Shape) :
    (BoxedLet.boxContent? shape s').map (BoxContent.mapTemps ρ) =
      (BoxedLet.boxContent? shape s).map (BoxContent.mapTemps ρ) := by
  have hscalar : ∀ t, ((BoxKind.ofType? t).map fun kind =>
        BoxContent.scalar kind (s'.scalarCode kind)).map (BoxContent.mapTemps ρ) =
      ((BoxKind.ofType? t).map fun kind =>
        BoxContent.scalar kind (s.scalarCode kind)).map (BoxContent.mapTemps ρ) := by
    intro t
    cases BoxKind.ofType? t with
    | none => rfl
    | some kind => simp only [Option.map_some, BoxContent.mapTemps, h.scalarCode kind]
  unfold BoxedLet.boxContent?
  split
  · rfl
  · simp only [Option.map_some, BoxContent.mapTemps, h.code]
  · rfl
  · simp only [Option.map_some, BoxContent.mapTemps, h.code]
  · exact hscalar _
  · exact hscalar _

theorem key (h : Source.Like V ρ s s') (shape : Shape) :
    (Key.of? shape s').map (Key.mapTemps ρ) = (Key.of? shape s).map (Key.mapTemps ρ) := by
  have hlong : ∀ t : StaticType,
      (if t.isInteger then some (Key.long s'.code) else none).map (Key.mapTemps ρ) =
        (if t.isInteger then some (Key.long s.code) else none).map (Key.mapTemps ρ) := by
    intro t
    split
    · simp only [Option.map_some, Key.mapTemps, h.code]
    · rfl
  unfold Key.of?
  split
  · simp only [Option.map_some, Key.mapTemps, h.code]
  · simp only [Option.map_some, Key.mapTemps, h.code]
  · simp only [Option.map_some, Key.mapTemps, h.code]
  · exact hlong _
  · exact hlong _

end Source.Like

/-- Two options with the same image are both empty or both filled. -/
theorem option_cases_of_map_eq {α β : Type} {g : α → β} {o o' : Option α}
    (h : o'.map g = o.map g) :
    o = none ∧ o' = none ∨ ∃ a a', o = some a ∧ o' = some a' ∧ g a' = g a := by
  cases o with
  | none => exact .inl ⟨rfl, Option.map_eq_none_iff.mp h⟩
  | some a =>
      obtain ⟨a', rfl, ha⟩ := Option.map_eq_some_iff.mp h
      exact .inr ⟨a, a', rfl, rfl, ha⟩

/-! ### Two computations -/

namespace Lower

variable {α β : Type} {R : Context → Context → Prop}

/-- From related states, the two computations either return related results or fail for the same
cause, and end in related states again. -/
def Follows (R : Context → Context → Prop) (S : α → α → Prop) (x x' : Lower α) : Prop :=
  ∀ ctx ctx', R ctx ctx' →
    match x ctx, x' ctx' with
    | .ok a c, .ok b c' => S a b ∧ R c c'
    | .error a c, .error b c' => b.cause = a.cause ∧ R c c'
    | _, _ => False

namespace Follows

variable {S : α → α → Prop} {S' : β → β → Prop} {x x' : Lower α} {f f' : α → Lower β}
  {ctx ctx' : Context}

/-- The two outcomes, in the form in which they are used. -/
theorem run (h : Follows R S x x') (hR : R ctx ctx') :
    (∃ a b c c', x ctx = .ok a c ∧ x' ctx' = .ok b c' ∧ S a b ∧ R c c') ∨
      ∃ e e' c c', x ctx = .error e c ∧ x' ctx' = .error e' c' ∧ e'.cause = e.cause ∧ R c c' := by
  have h := h ctx ctx' hR
  cases hrun : x ctx <;> cases hrun' : x' ctx' <;> rw [hrun, hrun'] at h
  · exact .inl ⟨_, _, _, _, rfl, rfl, h⟩
  · exact h.elim
  · exact h.elim
  · exact .inr ⟨_, _, _, _, rfl, rfl, h⟩

theorem mono {S₂ : α → α → Prop} (h : Follows R S x x') (hS : ∀ a b, S a b → S₂ a b) :
    Follows R S₂ x x' := by
  intro ctx ctx' hR
  obtain ⟨a, b, c, c', hrun, hrun', hab, hR⟩ | ⟨e, e', c, c', hrun, hrun', hfail⟩ := h.run hR
  · rw [hrun, hrun']
    exact ⟨hS a b hab, hR⟩
  · rw [hrun, hrun']
    exact hfail

theorem pure {a b : α} (h : S a b) : Follows R S (pure a) (pure b) :=
  fun _ _ hR => ⟨h, hR⟩

theorem fail (span span' : Span) (cause : Cause) :
    Follows R S (fail span cause) (fail span' cause) :=
  fun _ _ hR => ⟨rfl, hR⟩

/-- **Sequencing.** -/
theorem bind (hx : Follows R S x x') (hf : ∀ a b, S a b → Follows R S' (f a) (f' b)) :
    Follows R S' (x >>= f) (x' >>= f') := by
  intro ctx ctx' hR
  rw [bind_apply, bind_apply]
  obtain ⟨a, b, c, c', hrun, hrun', hS, hR⟩ | ⟨e, e', c, c', hrun, hrun', hfail⟩ := hx.run hR
  · rw [hrun, hrun']
    exact hf a b hS c c' hR
  · rw [hrun, hrun']
    exact hfail

/-- Sequencing after a part with equal results. -/
theorem bind_eq (hx : Follows R Eq x x') (hf : ∀ a, Follows R S' (f a) (f' a)) :
    Follows R S' (x >>= f) (x' >>= f') :=
  hx.bind fun a _ h => h ▸ hf a

theorem ite {p : Prop} [Decidable p] {y y' : Lower α} (hx : p → Follows R S x x')
    (hy : ¬ p → Follows R S y y') :
    Follows R S (if p then x else y) (if p then x' else y') := by
  by_cases h : p
  · rw [if_pos h, if_pos h]
    exact hx h
  · rw [if_neg h, if_neg h]
    exact hy h

end Follows

end Lower

/-! ### Relations that lowering an expression keeps -/

/-- The relation gives the variables in `V` the same types, and is kept by what lowering an
expression does to the state. -/
structure Context.Tracks (V : String → Prop) (ρ : String → String)
    (R : Context → Context → Prop) : Prop where
  typeOf? : ∀ {ctx ctx'}, R ctx ctx' → ∀ x, V x → ctx'.table.typeOf? x = ctx.table.typeOf? x
  nextName : ∀ {ctx ctx'}, R ctx ctx' → ρ ctx'.table.nextName = ρ ctx.table.nextName
  needing : ∀ {ctx ctx'}, R ctx ctx' → ∀ h, R (ctx.needing h) (ctx'.needing h)
  filling : ∀ {ctx ctx'}, R ctx ctx' → ∀ (type : StaticType) {i i' : Instr},
    i'.mapTemps ρ = i.mapTemps ρ → R (ctx.filling type i) (ctx'.filling type i')

namespace Lower

variable {α : Type} {V : String → Prop} {ρ : String → String} {R : Context → Context → Prop}
  (hR : Context.Tracks V ρ R)
include hR

theorem require_follows (h : Header) : Follows R Eq (require h) (require h) :=
  fun _ _ hctx => ⟨rfl, hR.needing hctx h⟩

theorem fillTemporary_follows (type : StaticType) {instr instr' : Place → Instr}
    (hinstr : ∀ p p' : Place, p'.mapTemps ρ = p.mapTemps ρ →
      (instr' p').mapTemps ρ = (instr p).mapTemps ρ) :
    Follows R (fun p p' => p'.mapTemps ρ = p.mapTemps ρ) (fillTemporary type instr)
      (fillTemporary type instr') := by
  intro ctx ctx' hctx
  have hplace : (Place.temp ctx'.table.nextName).mapTemps ρ =
      (Place.temp ctx.table.nextName).mapTemps ρ :=
    congrArg Place.temp (hR.nextName hctx)
  rw [fillTemporary_apply, fillTemporary_apply]
  exact ⟨hplace, hR.filling hctx type (hinstr _ _ hplace)⟩

/-- A box that is computed into a new temporary. -/
theorem fillBox_follows {instr instr' : Place → Instr}
    (hinstr : ∀ p p' : Place, p'.mapTemps ρ = p.mapTemps ρ →
      (instr' p').mapTemps ρ = (instr p).mapTemps ρ) :
    Follows R (Source.Like V ρ)
      (fillTemporary .dynamic instr >>= fun p => pure (.ofBox p))
      (fillTemporary .dynamic instr' >>= fun p => pure (.ofBox p)) :=
  .bind (fillTemporary_follows hR .dynamic hinstr) fun _ _ hp => .pure (.ofBox hp)

/-- Of a symbol that is read, only its type may be used. -/
theorem readSymbol_follows {x : String} (hx : V x) {S : α → α → Prop} {f f' : StaticType → Lower α}
    (hf : ∀ t, Follows R S (f t) (f' t)) :
    Follows R S (readSymbol span x >>= fun s => f s.type)
      (readSymbol span' x >>= fun s => f' s.type) := by
  intro ctx ctx' hctx
  have htype := hR.typeOf? hctx x hx
  cases hget : ctx.table.get? x with
  | none =>
      have hget' : ctx'.table.get? x = none := by
        simpa [SymbolTable.typeOf?, hget] using htype
      rw [bind_apply, bind_apply, readSymbol_undeclared hget, readSymbol_undeclared hget']
      exact ⟨rfl, hctx⟩
  | some s =>
      obtain ⟨s', hget', hs'⟩ : ∃ s', ctx'.table.get? x = some s' ∧ s'.type = s.type := by
        rw [← SymbolTable.typeOf?_eq_some, htype]
        exact SymbolTable.typeOf?_eq_some.mpr ⟨s, hget, rfl⟩
      simp only [bind_apply, readSymbol_apply hget, readSymbol_apply hget', hs']
      exact hf s.type ctx ctx' hctx

/-! ### The helpers -/

section Helpers

variable {s s' left left' right right' : Source}

theorem subtype_follows (h : s.Like V ρ s') : Follows R Eq (s.subtype span) (s'.subtype span') := by
  have hsame : s'.subtype span' = s.subtype span' := by
    simp only [Source.subtype, h.type, h.name]
  rw [hsame]
  unfold Source.subtype
  split
  · rename_i x _ hname
    exact readSymbol_follows hR (h.known x hname) fun t => .pure rfl
  · exact .pure rfl

theorem shape_follows (h : s.Like V ρ s') : Follows R Eq (s.shape span) (s'.shape span') := by
  unfold Source.shape
  rw [h.type]
  refine .ite (fun _ => ?_) fun _ => .pure rfl
  refine .bind_eq (subtype_follows hR h) fun t => ?_
  exact .ite (fun _ => .fail _ _ _) fun _ => .pure rfl

theorem materialize_follows (h : s.Like V ρ s') :
    Follows R (fun c c' => c'.mapTemps ρ = c.mapTemps ρ) (materialize span s)
      (materialize span' s') := by
  refine .bind_eq (shape_follows hR h) fun shape => ?_
  refine .ite (fun _ => .pure h.code) fun _ => ?_
  obtain ⟨hc, hc'⟩ | ⟨c, c', hc, hc', hcontent⟩ := option_cases_of_map_eq (h.boxContent? shape)
  · rw [hc, hc']
    exact .fail _ _ _
  · rw [hc, hc']
    refine .bind (fillTemporary_follows hR _ fun p p' hp => ?_) fun p p' hp => ?_
    · simp only [Instr.mapTemps, hp, hcontent]
    · exact .pure (congrArg Code.place hp)

/-- The type and code of a native operand, with temporaries renamed. -/
def operandTemps (ρ : String → String) (operand : StaticType × Code) : StaticType × Code :=
  (operand.1, operand.2.mapTemps ρ)

theorem nativeOperand?_follows (h : s.Like V ρ s') :
    Follows R (fun o o' => o'.map (operandTemps ρ) = o.map (operandTemps ρ)) (nativeOperand? span s)
      (nativeOperand? span' s') := by
  refine .bind_eq (subtype_follows hR h) fun t => ?_
  refine .ite (fun _ => .pure ?_) fun _ => .pure rfl
  rw [h.type]
  split
  · simp only [Option.map_some, operandTemps, h.truth]
  · simp only [Option.map_some, operandTemps, h.code]

theorem nativeOperands?_follows (hl : left.Like V ρ left') (hr : right.Like V ρ right') :
    Follows R (fun o o' => o'.map (Prod.map (operandTemps ρ) (operandTemps ρ)) =
      o.map (Prod.map (operandTemps ρ) (operandTemps ρ))) (nativeOperands? span left right)
      (nativeOperands? span' left' right') := by
  refine .bind (nativeOperand?_follows hR hl) fun l l' hleft => ?_
  refine .bind (nativeOperand?_follows hR hr) fun r r' hright => ?_
  obtain ⟨rfl, rfl⟩ | ⟨a, a', rfl, rfl, ha⟩ := option_cases_of_map_eq hleft
  · exact .pure rfl
  obtain ⟨rfl, rfl⟩ | ⟨b, b', rfl, rfl, hb⟩ := option_cases_of_map_eq hright
  · exact .pure rfl
  · refine .pure ?_
    simp only [Option.map_some, Prod.map, ha, hb]

theorem condition_follows (h : s.Like V ρ s') :
    Follows R (fun c c' => c'.mapTemps ρ = c.mapTemps ρ) (condition span s)
      (condition span' s') := by
  unfold condition
  rw [h.type]
  refine .bind_eq (subtype_follows hR h) fun t => ?_
  refine .ite (fun _ => .pure h.truth) fun _ => ?_
  refine .ite (fun _ => .pure rfl) fun _ => ?_
  refine .ite (fun _ => ?_) fun _ => ?_
  · refine .bind_eq (require_follows hR _) fun _ => .pure ?_
    simp only [Code.mapTemps, h.code]
  · exact .ite (fun _ => .pure h.code) fun _ => .fail _ _ _

theorem boxedOp_follows (op : BoxedOp) (hl : left.Like V ρ left') (hr : right.Like V ρ right') :
    Follows R (Source.Like V ρ) (boxedOp span op left right) (boxedOp span' op left' right') := by
  refine .bind (materialize_follows hR hl) fun l l' hl => ?_
  refine .bind (materialize_follows hR hr) fun r r' hr => ?_
  refine .bind_eq (require_follows hR _) fun _ => fillBox_follows hR fun p p' hp => ?_
  simp only [Instr.mapTemps, hp, hl, hr]

theorem boxedCompare_follows (op : Comparison) (hl : left.Like V ρ left')
    (hr : right.Like V ρ right') :
    Follows R (Source.Like V ρ) (boxedCompare span op left right)
      (boxedCompare span' op left' right') := by
  refine .bind (materialize_follows hR hl) fun l l' hl => ?_
  refine .bind (materialize_follows hR hr) fun r r' hr => ?_
  refine .bind_eq (require_follows hR _) fun _ => .pure (.ofCode .bool ?_)
  simp only [Code.mapTemps, hl, hr]

theorem binary_follows (op : BinaryOp) (hl : left.Like V ρ left') (hr : right.Like V ρ right') :
    Follows R (Source.Like V ρ) (binary span op left right) (binary span' op left' right') := by
  -- a native operator, once both operands are known to be native
  have hnative : ∀ {t : StaticType} {l l' r r' : Code}, l'.mapTemps ρ = l.mapTemps ρ →
      r'.mapTemps ρ = r.mapTemps ρ →
      Source.Like V ρ (.ofCode t (.binary op l r)) (.ofCode t (.binary op l' r')) := by
    intro t l l' r r' hl hr
    refine .ofCode t ?_
    simp only [Code.mapTemps, hl, hr]
  cases op with
  | connect c =>
      refine .bind (condition_follows hR hl) fun l l' hl => ?_
      refine .bind (condition_follows hR hr) fun r r' hr => .pure (.ofCode .bool ?_)
      simp only [Code.mapTemps, hl, hr]
  | concat => exact boxedOp_follows hR .concat hl hr
  | arith op =>
      refine .bind (nativeOperands?_follows hR hl hr) fun o o' ho => ?_
      obtain ⟨rfl, rfl⟩ | ⟨⟨⟨lt, l⟩, rt, r⟩, ⟨⟨lt', l'⟩, rt', r'⟩, rfl, rfl, hpair⟩ :=
        option_cases_of_map_eq ho
      · exact boxedOp_follows hR (.arith op) hl hr
      · simp only [Prod.map, operandTemps, Prod.mk.injEq] at hpair
        obtain ⟨⟨rfl, hl⟩, rfl, hr⟩ := hpair
        exact .pure (hnative hl hr)
  | compare c =>
      refine .bind (nativeOperands?_follows hR hl hr) fun o o' ho => ?_
      obtain ⟨rfl, rfl⟩ | ⟨⟨⟨lt, l⟩, rt, r⟩, ⟨⟨lt', l'⟩, rt', r'⟩, rfl, rfl, hpair⟩ :=
        option_cases_of_map_eq ho
      · exact boxedCompare_follows hR c hl hr
      · simp only [Prod.map, operandTemps, Prod.mk.injEq] at hpair
        obtain ⟨⟨rfl, hl⟩, rfl, hr⟩ := hpair
        exact .pure (hnative hl hr)

theorem negate_follows (h : s.Like V ρ s') :
    Follows R (Source.Like V ρ) (negate span s) (negate span' s') := by
  refine .bind (condition_follows hR h) fun c c' hc => .pure (.ofCode .bool ?_)
  simp only [Code.mapTemps, hc]

theorem callFunction_follows (name : String) {args args' : List Code}
    (h : args'.map (Code.mapTemps ρ) = args.map (Code.mapTemps ρ)) :
    Follows R (Source.Like V ρ) (callFunction name args) (callFunction name args') := by
  refine .bind_eq (require_follows hR _) fun _ => fillBox_follows hR fun p p' hp => ?_
  simp only [Instr.mapTemps, hp, h]

theorem readProperty_follows (property : String) (h : s.Like V ρ s') :
    Follows R (Source.Like V ρ) (readProperty span s property)
      (readProperty span' s' property) := by
  refine .bind_eq (subtype_follows hR h) fun t => ?_
  refine .ite (fun _ => ?_) fun _ => .fail _ _ _
  refine .bind_eq (require_follows hR _) fun _ => fillBox_follows hR fun p p' hp => ?_
  simp only [Instr.mapTemps, hp, h.code]

theorem checkIndexable_follows (h : s.Like V ρ s') :
    Follows R Eq (checkIndexable span s) (checkIndexable span' s') := by
  refine .bind_eq (subtype_follows hR h) fun t => ?_
  exact .ite (fun _ => .pure rfl) fun _ => .fail _ _ _

theorem fetchElement_follows (hl : left.Like V ρ left') (hr : right.Like V ρ right') :
    Follows R (Source.Like V ρ) (fetchElement span left right)
      (fetchElement span' left' right') := by
  refine .bind_eq (shape_follows hR hr) fun shape => ?_
  obtain ⟨hk, hk'⟩ | ⟨k, k', hk, hk', hkey⟩ := option_cases_of_map_eq (hr.key shape)
  · rw [hk, hk', hr.type]
    exact .fail _ _ _
  · rw [hk, hk']
    refine .bind_eq (require_follows hR _) fun _ => fillBox_follows hR fun p p' hp => ?_
    simp only [Instr.mapTemps, hp, hl.code, hkey]

omit hR in
theorem doubleLiteral_follows (x : Float) :
    Follows R (Source.Like V ρ) (doubleLiteral span x) (doubleLiteral span' x) := by
  unfold doubleLiteral
  split
  · exact .pure (.ofCode .double rfl)
  · exact .fail _ _ _

theorem bareVariable_follows {x : String} (hx : V x) :
    Follows R (Source.Like V ρ) (bareVariable span x) (bareVariable span' x) := by
  refine readSymbol_follows hR hx fun _ => .pure ⟨rfl, rfl, rfl, rfl, fun y hy => ?_⟩
  obtain rfl : x = y := Option.some.inj hy
  exact hx

end Helpers

/-! ### Expressions -/

mutual

/-- **Lowering an expression keeps the relation**, and the two results differ at most in the names
of temporaries. -/
theorem resolve_follows : ∀ e : Expr, (∀ x, e.mentions x = true → V x) →
    Follows R (Source.Like V ρ) (resolve span e) (resolve span' e)
  | .null | .bool _ | .int _ | .char _ | .string _ | .emptyArray =>
      fun _ => .pure ⟨rfl, rfl, rfl, rfl, nofun⟩
  | .double x => fun _ => doubleLiteral_follows x
  | .var x => fun hV => bareVariable_follows hR (hV x (by simp [Expr.mentions]))
  | .binary op l r => by
      intro hV
      have hl := resolve_follows l fun x hx => hV x (by simp [Expr.mentions, hx])
      have hr := resolve_follows r fun x hx => hV x (by simp [Expr.mentions, hx])
      exact hl.bind fun _ _ hl => hr.bind fun _ _ hr => binary_follows hR op hl hr
  | .not e => fun hV => (resolve_follows e hV).bind fun _ _ h => negate_follows hR h
  | .property e name => fun hV =>
      (resolve_follows e hV).bind fun _ _ h => readProperty_follows hR name h
  | .index a i => by
      intro hV
      have ha := resolve_follows a fun x hx => hV x (by simp [Expr.mentions, hx])
      have hi := resolve_follows i fun x hx => hV x (by simp [Expr.mentions, hx])
      refine ha.bind fun _ _ ha => .bind_eq (checkIndexable_follows hR ha) fun _ => ?_
      exact hi.bind fun _ _ hi => fetchElement_follows hR ha hi
  | .call name args => fun hV =>
      (resolveArgs_follows args hV).bind fun _ _ h => callFunction_follows hR name h

theorem resolveArgs_follows : ∀ es : List Expr, (∀ x, Expr.anyMentions x es = true → V x) →
    Follows R (fun cs cs' => cs'.map (Code.mapTemps ρ) = cs.map (Code.mapTemps ρ))
      (resolveArgs span es) (resolveArgs span' es)
  | [] => fun _ => .pure rfl
  | e :: es => by
      intro hV
      have he := resolve_follows e fun x hx => hV x (by simp [Expr.anyMentions, hx])
      have hes := resolveArgs_follows es fun x hx => hV x (by simp [Expr.anyMentions, hx])
      refine he.bind fun _ _ he => (materialize_follows hR he).bind fun c c' hc => ?_
      refine hes.bind fun cs cs' hcs => .pure ?_
      simp only [List.map_cons, hc, hcs]

end

end Lower

end BoxedLet
