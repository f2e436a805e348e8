import BoxedLet.Proofs.Bookkeeping
import BoxedLet.Proofs.Declarations

/-!
# BoxedLet.Proofs.Extension

**Runs only extend the state.** Whatever calls are made, and whether or not they fail, lines and
headers are added at the end of what is there, and so are symbols, all of them temporaries. What can
become of a symbol that is there is said by `Symbol.Becomes`: its declaration is fixed, its notes
are set and never taken back, and no more than a count of attempts happens to one that may not be
written.

`SymbolTable.Extends` holds for each operation on the table and is transitive. A call is a sequence
of such operations, on both outcomes (`Context.attempt_extends`), a run is a sequence of calls
(`Context.attempts_extends`), and a statement is a run that may break off.

For whole function bodies this means that compilation is compositional: what is compiled first
decides about all that comes before what is compiled later (`lowerAssignments_append_ok`,
`lowerAssignments_append_error`).
-/

namespace BoxedLet

/-! ### Symbols -/

/-- What can become of a symbol. It is `exposed` if a call has it as its destination. -/
structure Symbol.Becomes (exposed : Prop) (s s' : Symbol) : Prop where
  name : s'.name = s.name
  type : s'.type = s.type
  storage : s'.storage = s.storage
  readOnly : s'.readOnly = s.readOnly
  temporary : s'.temporary = s.temporary
  initialized : s.initialized = true → s'.initialized = true
  mustInitToNull : s.mustInitToNull = true → s'.mustInitToNull = true
  /-- A native scalar is never asked to be null on entry. -/
  native : s.type.isNativeScalar = true → s'.mustInitToNull = s.mustInitToNull
  /-- Attempts to write a symbol that may not be written are counted, and leave no other trace. -/
  frozen : s.readOnly = true → s' = { s with mutationCount := s'.mutationCount }
  unexposed : ¬ exposed → s' = s

namespace Symbol

variable {exposed : Prop} {s s' s'' : Symbol}

namespace Becomes

theorem refl (exposed : Prop) (s : Symbol) : s.Becomes exposed s :=
  ⟨rfl, rfl, rfl, rfl, rfl, id, id, fun _ => rfl, fun _ => rfl, fun _ => rfl⟩

theorem trans (h₁ : s.Becomes exposed s') (h₂ : s'.Becomes exposed s'') :
    s.Becomes exposed s'' where
  name := h₂.name.trans h₁.name
  type := h₂.type.trans h₁.type
  storage := h₂.storage.trans h₁.storage
  readOnly := h₂.readOnly.trans h₁.readOnly
  temporary := h₂.temporary.trans h₁.temporary
  initialized h := h₂.initialized (h₁.initialized h)
  mustInitToNull h := h₂.mustInitToNull (h₁.mustInitToNull h)
  native h := (h₂.native (h₁.type ▸ h)).trans (h₁.native h)
  frozen h := by
    have hfirst := h₁.frozen h
    have hsecond := h₂.frozen (h₁.readOnly.trans h)
    calc s'' = { s' with mutationCount := s''.mutationCount } := hsecond
      _ = { s with mutationCount := s''.mutationCount } := by rw [hfirst]
  unexposed h := (h₂.unexposed h).trans (h₁.unexposed h)

theorem counted (h : exposed) (count : UInt32) :
    s.Becomes exposed { s with mutationCount := count } :=
  ⟨rfl, rfl, rfl, rfl, rfl, id, id, fun _ => rfl, fun _ => rfl, fun hn => absurd h hn⟩

theorem marked (h : exposed) (hwritable : s.readOnly = false) :
    s.Becomes exposed { s with initialized := true } := by
  refine ⟨rfl, rfl, rfl, rfl, rfl, fun _ => rfl, id, fun _ => rfl, fun hreadOnly => ?_,
    fun hn => absurd h hn⟩
  exact absurd (hreadOnly.symm.trans hwritable) (by simp)

/-- Only a destination that is a box or a string is asked to be null on entry. -/
theorem noted (h : exposed) (hwritable : s.readOnly = false)
    (htype : s.type.isNativeScalar = false) (inits : UInt32) :
    s.Becomes exposed { s with mustInitToNull := true, variantInits := inits } := by
  refine ⟨rfl, rfl, rfl, rfl, rfl, id, fun _ => rfl, fun hnative => ?_, fun hreadOnly => ?_,
    fun hn => absurd h hn⟩
  · exact absurd (hnative.symm.trans htype) (by simp)
  · exact absurd (hreadOnly.symm.trans hwritable) (by simp)

end Becomes

/-- The two forms of a temporary: a box on the heap that starts out as null, and a native scalar in
the frame. -/
structure IsTemporary (s : Symbol) : Prop where
  temporary : s.temporary = true
  writable : s.readOnly = false
  form : s.type = .dynamic ∧ s.storage = .heapBoxed ∧ s.mustInitToNull = true ∨
    s.type ∈ [.int, .char, .double, .bool] ∧ s.storage = .stackOnly ∧ s.mustInitToNull = false

theorem isTemporary_ofTemporary {i : Instr} {type : StaticType} (h : i.Computes type)
    (name : String) : (Symbol.ofTemporary name type).IsTemporary := by
  have htype : type = .dynamic ∨ type ∈ [.int, .char, .double, .bool] := by
    cases i with
    | build => exact .inl h.2
    | boxed | call | readProperty | fetch => exact .inl h
    | store => exact .inr h.2
    | _ => exact h.elim
  refine ⟨rfl, rfl, ?_⟩
  rcases htype with rfl | htype
  · exact .inl ⟨rfl, rfl, rfl⟩
  · refine .inr ⟨htype, ?_⟩
    simp only [List.mem_cons, List.not_mem_nil, or_false] at htype
    rcases htype with rfl | rfl | rfl | rfl <;> exact ⟨rfl, rfl⟩

/-- A temporary keeps its form, even as the destination of a call. -/
theorem IsTemporary.becomes (h : s.IsTemporary) (hs : s.Becomes exposed s') : s'.IsTemporary := by
  refine ⟨hs.temporary.trans h.temporary, hs.readOnly.trans h.writable, ?_⟩
  rw [hs.type, hs.storage]
  rcases h.form with ⟨htype, hstorage, hnull⟩ | ⟨htype, hstorage, hnull⟩
  · exact .inl ⟨htype, hstorage, hs.mustInitToNull hnull⟩
  · have hnative : s.type.isNativeScalar = true := by
      simp only [List.mem_cons, List.not_mem_nil, or_false] at htype
      rcases htype with htype | htype | htype | htype <;> rw [htype] <;> rfl
    exact .inr ⟨htype, hstorage, (hs.native hnative).trans hnull⟩

end Symbol

/-! ### Tables -/

namespace SymbolTable

variable {D : String → Prop} {t t' t'' : SymbolTable} {name : String}

/-- Where names are distinct, a symbol is found under its own name. -/
theorem get?_of_mem (hnodup : t.names.Nodup) {s : Symbol} (hs : s ∈ t.symbols) :
    t.get? s.name = some s := by
  obtain ⟨before, after, hsymbols⟩ := List.append_of_mem hs
  have hother : ∀ s' ∈ before, s'.name ≠ s.name := by
    intro s' hs' hname
    rw [names, hsymbols, List.map_append, List.nodup_append] at hnodup
    exact hnodup.2.2 s'.name (List.mem_map_of_mem hs') s.name (by simp) hname
  rw [get?, List.find?_eq_some_iff_append]
  exact ⟨by simp, before, after, hsymbols, fun s' hs' => by simpa using hother s' hs'⟩

/-- A name that is not taken may be added. -/
theorem nodup_names_concat (hnodup : t.names.Nodup) (hname : name ∉ t.names) :
    (t.names ++ [name]).Nodup := by
  rw [List.nodup_append]
  refine ⟨hnodup, by simp, fun x hx y hy hxy => hname ?_⟩
  rw [List.mem_singleton] at hy
  exact hy ▸ hxy ▸ hx

theorem nodup_declare (h : t.names.Nodup) (s : Symbol) : (t.declare s).names.Nodup := by
  unfold declare declare?
  by_cases htaken : t.contains s.name = true
  · rw [if_pos htaken]
    exact h
  · rw [if_neg htaken, Option.getD_some, names_push]
    exact nodup_names_concat h fun hmem => htaken ((t.contains_iff_mem_names _).mpr hmem)

/-- The second table comes from the first by adding temporaries at the end and by changing symbols,
of which those in `D` are exposed. -/
structure Extends (D : String → Prop) (t t' : SymbolTable) : Prop where
  symbols : ∃ (change : Symbol → Symbol) (added : List Symbol),
    t'.symbols = t.symbols.map change ++ added ∧
      (∀ s ∈ t.symbols, s.Becomes (D s.name) (change s)) ∧ ∀ s ∈ added, s.IsTemporary
  nodup : t.names.Nodup → t'.names.Nodup
  mustGrowStack : t.mustGrowStack = true → t'.mustGrowStack = true

namespace Extends

theorem refl (D : String → Prop) (t : SymbolTable) : t.Extends D t :=
  ⟨⟨id, [], by simp, fun s _ => .refl _ s, by simp⟩, id, id⟩

theorem trans (h₁ : t.Extends D t') (h₂ : t'.Extends D t'') : t.Extends D t'' := by
  refine ⟨?_, fun h => h₂.nodup (h₁.nodup h), fun h => h₂.mustGrowStack (h₁.mustGrowStack h)⟩
  obtain ⟨f, added, hsymbols, hold, hadded⟩ := h₁.symbols
  obtain ⟨g, more, hsymbols', hold', hmore⟩ := h₂.symbols
  have hmem : ∀ s, s ∈ t'.symbols ↔ s ∈ t.symbols.map f ∨ s ∈ added := by
    intro s
    rw [hsymbols, List.mem_append]
  refine ⟨g ∘ f, added.map g ++ more, ?_, fun s hs => ?_, fun s hs => ?_⟩
  · rw [hsymbols', hsymbols, List.map_append, List.map_map, List.append_assoc]
  · -- the name decides whether the symbol is exposed, and it stays
    have hfirst := hold s hs
    have hsecond := hold' (f s) ((hmem _).mpr (.inl (List.mem_map_of_mem hs)))
    rw [hfirst.name] at hsecond
    exact hfirst.trans hsecond
  · rcases List.mem_append.mp hs with hs | hs
    · obtain ⟨s₀, hs₀, rfl⟩ := List.mem_map.mp hs
      exact (hadded s₀ hs₀).becomes (hold' s₀ ((hmem s₀).mpr (.inr hs₀)))
    · exact hmore s hs

theorem growStack (h : t.Extends D t') : t.Extends D t'.growStack :=
  ⟨h.symbols, h.nodup, fun _ => rfl⟩

end Extends

/-- A change of the symbol of one name. -/
theorem extends_modify (hnodup : t.names.Nodup) {f : Symbol → Symbol}
    (hname : ∀ s, (f s).name = s.name)
    (hf : ∀ s, t.get? name = some s → s.Becomes (D name) (f s)) :
    t.Extends D (t.modify name f) := by
  refine ⟨⟨fun s => if s.name == name then f s else s, [], by simp [modify], fun s hs => ?_,
    by simp⟩, fun h => (t.names_modify name f hname).symm ▸ h, id⟩
  by_cases hs' : s.name = name
  · subst hs'
    simpa using hf s (get?_of_mem hnodup hs)
  · simpa [hs'] using Symbol.Becomes.refl _ s

theorem extends_countWrite (hnodup : t.names.Nodup) (hD : D name) :
    t.Extends D (t.countWrite name) :=
  extends_modify hnodup (fun _ => rfl) fun s _ => .counted hD (s.mutationCount + 1)

theorem extends_newTemporary {i : Instr} {type : StaticType} (h : i.Computes type) :
    t.Extends D (t.newTemporary type).2 := by
  have hadded := Symbol.isTemporary_ofTemporary h t.nextName
  refine ⟨⟨id, [.ofTemporary t.nextName type], by simp, fun s _ => .refl _ s, by simpa⟩, ?_, id⟩
  intro hnodup
  rw [newTemporary_names]
  exact nodup_names_concat hnodup t.nextName_not_mem_names

/-- The symbol of that name, if there is one, may be written. -/
def Writable (t : SymbolTable) (name : String) : Prop :=
  ∀ s, t.get? name = some s → s.readOnly = false

theorem extends_markInitialized (hnodup : t.names.Nodup) (hD : D name)
    (hwritable : t.Writable name) : t.Extends D (t.markInitialized name) :=
  extends_modify hnodup (fun _ => rfl) fun s hs => .marked hD (hwritable s hs)

theorem writable_modify {f : Symbol → Symbol} {n : String}
    (hf : ∀ s, (f s).name = s.name ∧ (f s).readOnly = s.readOnly) (h : t.Writable n) :
    (t.modify name f).Writable n := by
  intro s hs
  rw [get?_modify t name n fun s => (hf s).1, Option.map_eq_some_iff] at hs
  obtain ⟨s₀, hs₀, rfl⟩ := hs
  have hreadOnly := h s₀ hs₀
  split
  · exact (hf s₀).2.trans hreadOnly
  · exact hreadOnly

/-- Only boxes and strings are asked to be null on entry. -/
theorem extends_requireNull (hnodup : t.names.Nodup) (hD : D name)
    (hdest : ∀ s, t.get? name = some s →
      s.readOnly = false ∧ (s.type = .dynamic ∨ s.type = .string)) :
    t.Extends D (t.requireNull name) := by
  refine extends_modify hnodup (fun _ => rfl) fun s hs => ?_
  obtain ⟨hwritable, htype⟩ := hdest s hs
  have hnative : s.type.isNativeScalar = false := by
    rcases htype with htype | htype <;> rw [htype] <;> rfl
  exact .noted hD hwritable hnative s.variantInits

/-- What an instruction at the end of an assignment notes about the destination. -/
theorem extends_book {i : Instr} {kind : TargetKind} (hnodup : t.names.Nodup) (hD : D name)
    (hi : i.written = .var name)
    (hdest : ∀ s, t.get? name = some s → s.readOnly = false ∧ i.Expects kind s.type s.storage) :
    t.Extends D (i.book t) := by
  cases i with
  | init dst first =>
      obtain rfl : dst = .var name := hi
      have hcount : t.Extends D (t.countInit name) := by
        refine extends_modify hnodup (fun _ => rfl) fun s hs => ?_
        obtain ⟨hwritable, -, htype, -⟩ := hdest s hs
        exact .noted hD hwritable (by rw [htype]; rfl) (s.variantInits + 1)
      exact hcount.growStack
  | copy dst source =>
      obtain rfl : dst = .var name := hi
      have hnull : t.Extends D (t.requireNull name) :=
        extends_requireNull hnodup hD fun s hs => ⟨(hdest s hs).1, .inl (hdest s hs).2.2⟩
      exact hnull.growStack
  | writeString dst mode source =>
      obtain rfl : dst = .var name := hi
      exact extends_requireNull hnodup hD fun s hs => ⟨(hdest s hs).1, .inr (hdest s hs).2.2⟩
  | inPlace => exact (Extends.refl D t).growStack
  | _ => exact .refl D t

theorem extends_foldl_book {tail : List Instr} {kind : TargetKind} (hnodup : t.names.Nodup)
    (hD : D name) (htail : ∀ i ∈ tail, i.written = .var name)
    (hdest : ∀ s, t.get? name = some s →
      s.readOnly = false ∧ ∀ i ∈ tail, i.Expects kind s.type s.storage) :
    t.Extends D (tail.foldl Instr.book t) := by
  induction tail generalizing t with
  | nil => exact .refl D t
  | cons i tail ih =>
      have hi : i.written = .var name := htail i (by simp)
      have hnodup' : (i.book t).names.Nodup := by
        rw [Instr.names_book]
        exact hnodup
      -- a note changes neither the declaration of the destination nor what may follow
      have hdest' : ∀ s, (i.book t).get? name = some s →
          s.readOnly = false ∧ ∀ j ∈ tail, j.Expects kind s.type s.storage := by
        intro s hs
        cases hs₀ : t.get? name with
        | none =>
            have hnone : name ∉ (i.book t).names := by
              rw [Instr.names_book]
              exact get?_eq_none_iff.mp hs₀
            exact absurd (mem_names_of_get? hs) hnone
        | some s₀ =>
            rw [Instr.get?_book hi hs₀, Option.some.injEq] at hs
            subst hs
            obtain ⟨hwritable, hexpects⟩ := hdest s₀ hs₀
            exact ⟨hwritable, fun j hj => hexpects j (by simp [hj])⟩
      have hstep : t.Extends D (i.book t) :=
        extends_book hnodup hD hi fun s hs => ⟨(hdest s hs).1, (hdest s hs).2 i (by simp)⟩
      exact hstep.trans (ih hnodup' (fun j hj => htail j (by simp [hj])) hdest')

end SymbolTable

/-! ### Calls -/

/-- Either the destination is refused at once, or it may be written. -/
theorem assignment_refused_or_writable (a : Assignment) (ctx : Context) :
    (∃ e, Lower.assignment a ctx = .error e (ctx.counting a.destination)) ∨
      (ctx.counting a.destination).table.Writable a.destination := by
  obtain ⟨e, hcheck⟩ | ⟨dest, hcheck, hget⟩ := Lower.checkedDestination_cases a ctx
  · exact .inl ⟨e, by simp only [Lower.assignment, Lower.bind_apply, hcheck]⟩
  · obtain ⟨-, -, hwritable, -⟩ := Lower.checkedDestination_ok_iff.mp hcheck
    refine .inr fun s hs => ?_
    obtain rfl : dest = s := Option.some.inj (hget.symm.trans hs)
    exact hwritable

namespace Context

variable {D V T : String → Prop} {a : Assignment} {ctx ctx' ctx'' : Context}

theorem Grows.extends_table (h : ctx.Grows V T ctx') : ctx.table.Extends D ctx'.table := by
  induction h with
  | refl => exact .refl D _
  | needing _ _ ih => exact ih
  | filling _ _ _ htype _ ih => exact ih.trans (SymbolTable.extends_newTemporary htype)

theorem Grows.writable (h : ctx.Grows V T ctx') {name : String} (hname : name ∈ ctx.table.names)
    (hwritable : ctx.table.Writable name) : ctx'.table.Writable name := by
  intro s hs
  rw [h.get? hname] at hs
  exact hwritable s hs

section Lowering

variable {lowered : Context} (hnodup : ctx.table.names.Nodup) (hD : D a.destination)
  (hgrows : (ctx.counting a.destination).Grows V T lowered)
include hnodup hD hgrows

theorem extends_lowered : ctx.table.Extends D lowered.table :=
  (SymbolTable.extends_countWrite hnodup hD).trans hgrows.extends_table

variable (hdeclared : a.destination ∈ ctx.table.names)
  (hwritable : (ctx.counting a.destination).table.Writable a.destination)
include hdeclared hwritable

/-- Marking the destination, and lowering more. -/
theorem extends_marked (hmore : (lowered.marking a.destination).Grows V T ctx') :
    ctx.table.Extends D ctx'.table ∧ ctx'.table.Writable a.destination := by
  have hlowered := extends_lowered hnodup hD hgrows
  have hcounted : a.destination ∈ (ctx.counting a.destination).table.names := by
    simpa [counting] using hdeclared
  have hkept : lowered.table.Writable a.destination := hgrows.writable hcounted hwritable
  have hmarked : lowered.table.Extends D (lowered.marking a.destination).table :=
    SymbolTable.extends_markInitialized (hlowered.nodup hnodup) hD hkept
  refine ⟨(hlowered.trans hmarked).trans hmore.extends_table, hmore.writable ?_ ?_⟩
  · simpa [marking] using hgrows.names_subset hcounted
  · exact SymbolTable.writable_modify (fun _ => ⟨rfl, rfl⟩) hkept

end Lowering

/-- The second state comes from the first by adding instructions and headers at the end and by
extending the table. -/
structure Extends (D : String → Prop) (ctx ctx' : Context) : Prop where
  options : ctx'.options = ctx.options
  code : ctx.code <+: ctx'.code
  headers : ctx.headers.toList <+: ctx'.headers.toList
  table : ctx.table.Extends D ctx'.table

namespace Extends

theorem refl (D : String → Prop) (ctx : Context) : ctx.Extends D ctx :=
  ⟨rfl, List.prefix_refl _, List.prefix_refl _, .refl D _⟩

theorem trans (h₁ : ctx.Extends D ctx') (h₂ : ctx'.Extends D ctx'') : ctx.Extends D ctx'' :=
  ⟨h₂.options.trans h₁.options, h₁.code.trans h₂.code, h₁.headers.trans h₂.headers,
    h₁.table.trans h₂.table⟩

/-- Lines are added at the end. -/
theorem lines (h : ctx.Extends D ctx') : ctx.lines <+: ctx'.lines := by
  obtain ⟨more, hcode⟩ := h.code
  rw [lines_of_code_append hcode.symm h.options]
  exact List.prefix_append _ _

end Extends

/-- A failing call, which is cut back to what had been emitted before. -/
theorem Stops.extends_rollback (h : ctx.Stops a ctx') (htable : ctx.table.Extends D ctx'.table) :
    ctx.Extends D (ctx'.rollback ctx.checkpoint) := by
  have hcode := rollback_code h.code
  have hheaders := rollback_headers h.headers
  exact ⟨h.options, hcode ▸ List.prefix_refl _, hheaders ▸ List.prefix_refl _, htable⟩

theorem Completes.extends (h : ctx.Completes a ctx') (hnodup : ctx.table.names.Nodup)
    (hD : D a.destination)
    (hwritable : (ctx.counting a.destination).table.Writable a.destination) :
    ctx.Extends D ctx' := by
  obtain ⟨hdeclared, lowered, ready, tail, hgrows, hready, hends, -⟩ := h
  obtain ⟨htable, hkept⟩ := extends_marked hnodup hD hgrows hdeclared hwritable hready
  have hnoted : ready.table.Extends D ctx'.table := by
    rw [hends.table]
    exact SymbolTable.extends_foldl_book (htable.nodup hnodup) hD
      (fun i hi => (hends.closing.forall_mem i hi).1)
      fun s hs => ⟨hkept s hs, hends.expects s hs⟩
  have hcode : ready.code <+: ctx'.code := hends.code ▸ List.prefix_append _ _
  exact ⟨hends.options.trans (hready.options.trans hgrows.options),
    (hgrows.code.trans hready.code).trans hcode,
    (hgrows.headers.trans hready.headers).trans hends.headers, htable.trans hnoted⟩

/-- **Every call extends the state**, whether or not it fails. -/
theorem attempt_extends (hnodup : ctx.table.names.Nodup) (hD : D a.destination) :
    ctx.Extends D (ctx.attempt a) := by
  have hcounted : ctx.table.Extends D (ctx.counting a.destination).table :=
    SymbolTable.extends_countWrite hnodup hD
  obtain ⟨e, hrefused⟩ | hwritable := assignment_refused_or_writable a ctx
  · have hrun := lowerAssignment_apply a ctx
    rw [hrefused] at hrun
    rw [attempt_of_error hrun]
    exact Stops.extends_rollback ⟨_, .refl _, .inl rfl⟩ hcounted
  cases hrun : lowerAssignment a ctx with
  | ok u ctx' =>
      rw [attempt_of_ok hrun]
      exact (completes_of_ok hrun).extends hnodup hD hwritable
  | error e ctx' =>
      rw [attempt_of_error hrun]
      obtain ⟨stopped, hstops, rfl⟩ := stops_of_error hrun
      refine hstops.extends_rollback ?_
      obtain ⟨lowered, hgrows, rfl | ⟨hdeclared, hmore⟩⟩ := hstops
      · exact extends_lowered hnodup hD hgrows
      · exact (extends_marked hnodup hD hgrows hdeclared hwritable hmore).1

/-- **Every run extends the state.** -/
theorem attempts_extends {calls : List Assignment} (hnodup : ctx.table.names.Nodup)
    (hD : ∀ a ∈ calls, D a.destination) : ctx.Extends D (ctx.attempts calls) := by
  induction calls generalizing ctx with
  | nil => exact .refl D ctx
  | cons a calls ih =>
      have hstep : ctx.Extends D (ctx.attempt a) := attempt_extends hnodup (hD a (by simp))
      have hrest := ih (hstep.table.nodup hnodup) fun b hb => hD b (by simp [hb])
      exact hstep.trans hrest

end Context

/-! ### Statements that break off -/

/-- Lowering assignments up to the first failure leaves the state of a run behind, whatever the
outcome is. -/
theorem lowerAssignments_attempts (calls : List Assignment) (ctx : Context) :
    ∃ made, made <+: calls ∧
      ((∃ e, lowerAssignments calls ctx = .error e (ctx.attempts made)) ∨
        lowerAssignments calls ctx = .ok () (ctx.attempts made)) := by
  induction calls generalizing ctx with
  | nil => exact ⟨[], List.prefix_refl _, .inr rfl⟩
  | cons a calls ih =>
      simp only [lowerAssignments, bind, EStateM.bind]
      cases hrun : lowerAssignment a ctx with
      | ok u mid =>
          obtain ⟨made, hmade, hrest⟩ := ih mid
          refine ⟨a :: made, List.cons_prefix_cons.mpr ⟨rfl, hmade⟩, ?_⟩
          rw [Context.attempts_cons, Context.attempt_of_ok hrun]
          exact hrest
      | error e mid =>
          refine ⟨[a], by simp, .inl ⟨e, ?_⟩⟩
          rw [Context.attempts_cons, Context.attempts_nil, Context.attempt_of_error hrun]

/-- What can be asked for: an assignment alone, or a statement. -/
inductive Call
  | assignment (a : Assignment)
  | statement (s : LetStatement)
  deriving Repr, Inhabited

namespace Call

/-- Lowers what is asked for. -/
def lower : Call → Lower Unit
  | assignment a => lowerAssignment a
  | statement s => lowerStatement s

/-- The variables that a call may write. -/
def destinations : Call → List String
  | assignment a => [a.destination]
  | statement s => s.assignments.map Assignment.destination

end Call

namespace Context

/-- The state that a call leaves behind. -/
def after (ctx : Context) (c : Call) : Context :=
  stateOf (c.lower ctx)

/-- The states that can be reached from an empty table by entering classes, declaring variables and
making calls, in any order. -/
inductive Reachable : Context → Prop
  | ofOptions (o : Options) : Reachable (.ofOptions o)
  | withClass {ctx : Context} (c : ClassDef) (h : Reachable ctx) : Reachable (ctx.withClass c)
  | declare {ctx : Context} (d : Declaration) (h : Reachable ctx) :
      Reachable { ctx with table := ctx.table.declare d.symbol }
  | after {ctx : Context} (c : Call) (h : Reachable ctx) : Reachable (ctx.after c)

variable {D : String → Prop} {ctx : Context}

/-- Every call extends the state. -/
theorem after_extends {c : Call} (hnodup : ctx.table.names.Nodup)
    (hD : ∀ name ∈ c.destinations, D name) : ctx.Extends D (ctx.after c) := by
  cases c with
  | assignment a =>
      have hafter : ctx.after (.assignment a) = ctx.attempt a := by
        simp only [after, attempt, Call.lower]
        cases lowerAssignment a ctx <;> rfl
      rw [hafter]
      exact attempt_extends hnodup (hD a.destination (by simp [Call.destinations]))
  | statement s =>
      obtain ⟨made, hmade, hrun⟩ := lowerAssignments_attempts s.assignments ctx
      have hafter : ctx.after (.statement s) = ctx.attempts made := by
        rcases hrun with ⟨e, hrun⟩ | hrun <;>
          simp only [after, Call.lower, lowerStatement, hrun, stateOf]
      rw [hafter]
      refine attempts_extends hnodup fun a ha => hD a.destination ?_
      exact List.mem_map_of_mem (hmade.subset ha)

/-- **No two symbols have one name**, in whatever state. -/
theorem Reachable.nodup (h : ctx.Reachable) : ctx.table.names.Nodup := by
  induction h with
  | ofOptions o => exact List.nodup_nil
  | withClass c _ ih =>
      simp only [Context.withClass, SymbolTable.names_markInitialized]
      exact SymbolTable.nodup_declare ih _
  | declare d _ ih => exact SymbolTable.nodup_declare ih _
  | @after ctx c _ ih =>
      have hextends : ctx.Extends (fun _ => True) (ctx.after c) :=
        after_extends ih fun _ _ => trivial
      exact hextends.table.nodup ih

/-- Calls extend the state, however many there are. -/
theorem foldl_after_extends {calls : List Call} (hnodup : ctx.table.names.Nodup)
    (hD : ∀ c ∈ calls, ∀ name ∈ c.destinations, D name) :
    ctx.Extends D (calls.foldl after ctx) := by
  induction calls generalizing ctx with
  | nil => exact .refl D ctx
  | cons c calls ih =>
      have hstep : ctx.Extends D (ctx.after c) := after_extends hnodup (hD c (by simp))
      have hrest := ih (hstep.table.nodup hnodup) fun c' hc' => hD c' (by simp [hc'])
      exact hstep.trans hrest

/-- **Runs only extend the state.** Lines and headers are added at the end. The symbols stay in
their places, under distinct names, with temporaries added behind them, and become no more than
`Symbol.Becomes` allows; those that no call has as its destination stay as they are. Room for
tracked boxes, once asked for, stays asked for. -/
theorem calls_only_extend (h : ctx.Reachable) (calls : List Call) :
    let final := calls.foldl after ctx
    ctx.lines <+: final.lines ∧ ctx.headers.toList <+: final.headers.toList ∧
      (ctx.table.mustGrowStack = true → final.table.mustGrowStack = true) ∧
      final.table.names.Nodup ∧
      (∀ s ∈ final.table.symbols, final.table.get? s.name = some s) ∧
      ∃ (change : Symbol → Symbol) (added : List Symbol),
        final.table.symbols = ctx.table.symbols.map change ++ added ∧
        (∀ s ∈ ctx.table.symbols,
          s.Becomes (∃ c ∈ calls, s.name ∈ c.destinations) (change s)) ∧
        ∀ s ∈ added, s.IsTemporary := by
  have hextends : ctx.Extends (fun name => ∃ c ∈ calls, name ∈ c.destinations)
      (calls.foldl after ctx) :=
    foldl_after_extends h.nodup fun c hc name hname => ⟨c, hc, hname⟩
  have hnodup := hextends.table.nodup h.nodup
  exact ⟨hextends.lines, hextends.headers, hextends.table.mustGrowStack, hnodup,
    fun s hs => SymbolTable.get?_of_mem hnodup hs, hextends.table.symbols⟩

/-- Three calls in a method: one that fails at its second argument, when the first is in a temporary
already, a statement that breaks off at a variable that may not be written, and one that
succeeds. -/
theorem calls_only_extend_mixed :
    let method := (Context.ofOptions {}).withClass { name := "Person" }
    let k : Declaration := { name := "k", type := .int, readOnly := true }
    let v : Declaration := { name := "v", type := .dynamic }
    let ctx := { method with table := (method.table.declare k.symbol).declare v.symbol }
    let args : List Expr := [.int 1, .var "x"]
    let undeclared : Assignment :=
      { target := .whole, destination := "v", source := some (.call "f" args) }
    let append : Assignment := { target := .append, destination := "v", source := some (.int 1) }
    let refused : Assignment := { target := .whole, destination := "k", source := some (.int 2) }
    let copy : Assignment := { target := .whole, destination := "v", source := some (.var "k") }
    let calls : List Call :=
      [.assignment undeclared, .statement ⟨[append, refused]⟩, .assignment copy]
    ctx.Reachable ∧ (calls.foldl after ctx).table.names = ["this", "k", "v", "_0", "_1"] ∧
      ∃ (change : Symbol → Symbol) (added : List Symbol),
        (calls.foldl after ctx).table.symbols = ctx.table.symbols.map change ++ added ∧
        (∀ s ∈ ctx.table.symbols,
          s.Becomes (∃ c ∈ calls, s.name ∈ c.destinations) (change s)) ∧
        ∀ s ∈ added, s.IsTemporary := by
  intro method k v ctx args undeclared append refused copy calls
  have hreachable : ctx.Reachable := .declare v (.declare k (.withClass _ (.ofOptions {})))
  obtain ⟨-, -, -, -, -, hsymbols⟩ := calls_only_extend hreachable calls
  exact ⟨hreachable, by decide, hsymbols⟩

end Context

/-! ### Function bodies -/

section Append

variable {calls more : List Assignment} {ctx ctx' : Context}

/-- What is lowered up to the end is lowered up to the end before anything that follows. -/
theorem lowerAssignments_append_ok (h : lowerAssignments (calls ++ more) ctx = .ok () ctx') :
    ∃ mid, lowerAssignments calls ctx = .ok () mid ∧ lowerAssignments more mid = .ok () ctx' := by
  rw [lowerAssignments_append] at h
  simp only [bind, EStateM.bind] at h
  cases hfirst : lowerAssignments calls ctx with
  | ok u mid =>
      rw [hfirst] at h
      exact ⟨mid, rfl, h⟩
  | error e mid =>
      rw [hfirst] at h
      exact absurd h (by simp)

/-- A failure is not changed by anything that would follow. -/
theorem lowerAssignments_append_error {e : LowerError}
    (h : lowerAssignments calls ctx = .error e ctx') :
    lowerAssignments (calls ++ more) ctx = .error e ctx' := by
  rw [lowerAssignments_append]
  simp only [bind, EStateM.bind, h]

end Append

/-- A function body starts in a state that can be reached. -/
theorem Context.initial_reachable (options : Options) (classDef : Option ClassDef)
    (declarations : List Declaration) :
    (Context.initial options classDef declarations).Reachable := by
  have hdeclare : ∀ ctx : Context, ctx.Reachable →
      Context.Reachable
        { ctx with table := declarations.foldl (fun t d => t.declare d.symbol) ctx.table } := by
    induction declarations with
    | nil => exact fun ctx h => h
    | cons d declarations ih => exact fun ctx h => ih _ (.declare d h)
  cases classDef with
  | none => exact hdeclare _ (.ofOptions options)
  | some c => exact hdeclare _ (.withClass c (.ofOptions options))

namespace CompilationUnit

variable {u : CompilationUnit}

/-- The state in which the statements of a body are lowered. -/
def start (u : CompilationUnit) : Context :=
  .initial u.options u.classDef u.declarations

theorem compile_eq_ok_iff {out : Compiled} :
    u.compile = .ok out ↔
      ∃ ctx, lowerAssignments u.assignments u.start = .ok () ctx ∧ ctx.compiled = out := by
  simp only [compile, lowerStatements_eq, assignments, start]
  cases lowerAssignments (u.statements.flatMap LetStatement.assignments)
    (Context.initial u.options u.classDef u.declarations) <;> simp

theorem compile_eq_error_iff {e : LowerError} :
    u.compile = .error e ↔ ∃ ctx, lowerAssignments u.assignments u.start = .error e ctx := by
  simp only [compile, lowerStatements_eq, assignments, start]
  cases lowerAssignments (u.statements.flatMap LetStatement.assignments)
    (Context.initial u.options u.classDef u.declarations) <;> simp

/-- Code is only added to by what follows. -/
theorem compiled_prefix {ctx : Context} {more : List Assignment} (hnodup : ctx.table.names.Nodup) :
    ctx.compiled.headers <+: (ctx.attempts more).compiled.headers ∧
      ctx.compiled.lines <+: (ctx.attempts more).compiled.lines := by
  have hextends : ctx.Extends (fun _ => True) (ctx.attempts more) :=
    Context.attempts_extends hnodup fun _ _ => trivial
  exact ⟨hextends.headers, hextends.lines⟩

/-- **Compilation is compositional** in the sequence of assignments. How they are grouped into
statements makes no difference. A body that compiles does so up to every assignment, and its code
begins with the code up to there; one that fails fails in the same way whatever is put behind it. -/
theorem compile_compositional (u : CompilationUnit) (first whole : List LetStatement)
    (more : List Assignment)
    (h : whole.flatMap LetStatement.assignments =
      first.flatMap LetStatement.assignments ++ more) :
    (more = [] → { u with statements := whole }.compile = { u with statements := first }.compile) ∧
      (∀ out, { u with statements := whole }.compile = .ok out →
        ∃ out', { u with statements := first }.compile = .ok out' ∧
          out'.headers <+: out.headers ∧ out'.lines <+: out.lines) ∧
      ∀ e, { u with statements := first }.compile = .error e →
        { u with statements := whole }.compile = .error e := by
  refine ⟨fun hmore => ?_, fun out hout => ?_, fun e he => ?_⟩
  · simp only [compile, lowerStatements_eq, h, hmore, List.append_nil]
  · obtain ⟨final, hfinal, rfl⟩ := compile_eq_ok_iff.mp hout
    simp only [assignments, h] at hfinal
    obtain ⟨mid, hfirst, hrest⟩ := lowerAssignments_append_ok hfinal
    refine ⟨mid.compiled, compile_eq_ok_iff.mpr ⟨mid, hfirst, rfl⟩, ?_⟩
    rw [lowerAssignments_ok hrest]
    refine compiled_prefix ?_
    have hstart : u.start.table.names.Nodup :=
      (Context.initial_reachable u.options u.classDef u.declarations).nodup
    have hmid : u.start.Extends (fun _ => True) mid := by
      rw [lowerAssignments_ok hfirst]
      exact Context.attempts_extends hstart fun _ _ => trivial
    exact hmid.table.nodup hstart
  · obtain ⟨ctx, hctx⟩ := compile_eq_error_iff.mp he
    refine compile_eq_error_iff.mpr ⟨ctx, ?_⟩
    simp only [assignments, h]
    exact lowerAssignments_append_error hctx

/-- `v[] = 1` alone, and followed by `v = "a"` in another grouping, with a statement of no
assignment. -/
theorem compile_compositional_regrouped :
    let u : CompilationUnit := { declarations := [{ name := "v", type := .dynamic }] }
    let a : Assignment := { target := .append, destination := "v", source := some (.int 1) }
    let b : Assignment := { target := .whole, destination := "v", source := some (.string "a") }
    ∃ out out', { u with statements := [⟨[]⟩, ⟨[a, b]⟩] }.compile = .ok out ∧
      { u with statements := [⟨[a]⟩] }.compile = .ok out' ∧
      out'.headers <+: out.headers ∧ out'.lines <+: out.lines := by
  intro u a b
  obtain ⟨-, hprefix, -⟩ := compile_compositional u [⟨[a]⟩] [⟨[]⟩, ⟨[a, b]⟩] [b] rfl
  have hcompiled : ∃ out, { u with statements := [⟨[]⟩, ⟨[a, b]⟩] }.compile = .ok out := ⟨_, rfl⟩
  obtain ⟨out, hout⟩ := hcompiled
  obtain ⟨out', hout', hcode⟩ := hprefix out hout
  exact ⟨out, out', hout, hout', hcode⟩

end CompilationUnit

end BoxedLet
