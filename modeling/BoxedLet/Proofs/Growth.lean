import BoxedLet.Lowering.Resolve
import BoxedLet.Proofs.Fresh
import BoxedLet.Proofs.Typing

/-!
# BoxedLet.Proofs.Growth

**What lowering an expression can do to the state.** It can ask for a header, and it can allocate a
temporary together with the instruction that fills it; nothing else. `Context.Grows` is the
reflexive and transitive closure of these two steps, and every fact about what stays as it was is
an induction over it.

A filling instruction reads only what is `Visible`: variables from a set `V`, which will be those
that the expression mentions, and temporaries from a set `T`, which will be those that were not in
the table when the assignment began.

`Lower.Quiet` says that a computation grows the state on every outcome, failure included. It is
closed under sequencing (`Lower.Quiet.bind`), so that `resolve_quiet` is one induction over the
expression with one lemma for each helper of the lowering.
-/

namespace BoxedLet

variable {span : Span}

/-! ### Reading the table -/

namespace SymbolTable

/-- The declared type of a symbol. -/
def typeOf? (t : SymbolTable) (name : String) : Option StaticType :=
  (t.get? name).map Symbol.type

theorem get?_eq_none_iff {t : SymbolTable} {name : String} :
    t.get? name = none ↔ name ∉ t.names := by
  simp [get?, names]

theorem name_of_get? {t : SymbolTable} {name : String} {s : Symbol} (h : t.get? name = some s) :
    s.name = name := by
  simpa using List.find?_some h

theorem mem_names_of_get? {t : SymbolTable} {name : String} {s : Symbol}
    (h : t.get? name = some s) : name ∈ t.names := by
  have hs : s ∈ t.symbols := List.mem_of_find?_eq_some h
  exact name_of_get? h ▸ List.mem_map_of_mem hs

theorem typeOf?_eq_some {t : SymbolTable} {name : String} {type : StaticType} :
    t.typeOf? name = some type ↔ ∃ s, t.get? name = some s ∧ s.type = type := by
  simp [typeOf?]

theorem mem_names_of_typeOf? {t : SymbolTable} {name : String} {type : StaticType}
    (h : t.typeOf? name = some type) : name ∈ t.names := by
  obtain ⟨s, hs, -⟩ := typeOf?_eq_some.mp h
  exact mem_names_of_get? hs

/-- Symbols added at the end do not hide earlier ones. -/
theorem get?_append {t t' : SymbolTable} {more : List Symbol} {name : String}
    (h : t'.symbols = t.symbols ++ more) (hmem : name ∈ t.names) :
    t'.get? name = t.get? name := by
  unfold get?
  rw [h, List.find?_append]
  cases hs : t.get? name with
  | none => exact absurd hmem (get?_eq_none_iff.mp hs)
  | some s =>
      unfold get? at hs
      rw [hs]
      rfl

theorem get?_nextName (t : SymbolTable) (type : StaticType) :
    (t.newTemporary type).2.get? t.nextName = some (.ofTemporary t.nextName type) := by
  have hnone : t.symbols.find? (fun s => s.name == t.nextName) = none :=
    get?_eq_none_iff.mpr t.nextName_not_mem_names
  unfold get?
  rw [newTemporary_symbols, List.find?_append, hnone]
  simp [Symbol.ofTemporary]

/-- What allocating a temporary does to lookups. -/
theorem get?_newTemporary (t : SymbolTable) (type : StaticType) (n : String) :
    (t.newTemporary type).2.get? n =
      if n = t.nextName then some (.ofTemporary t.nextName type) else t.get? n := by
  split
  · rename_i hn
    rw [hn, get?_nextName]
  · rename_i hn
    have hne : (Symbol.ofTemporary t.nextName type).name ≠ n := Ne.symm hn
    unfold get?
    rw [newTemporary_symbols, List.find?_append, List.find?_cons_of_neg (by simpa using hne),
      List.find?_nil, Option.or_none]

/-- What a change of one symbol that keeps its name does to lookups. -/
theorem get?_modify (t : SymbolTable) (name n : String) {f : Symbol → Symbol}
    (hf : ∀ s, (f s).name = s.name) :
    (t.modify name f).get? n = (t.get? n).map fun s => if s.name == name then f s else s := by
  have hname : ∀ s, (if s.name == name then f s else s).name = s.name := by
    intro s
    split
    · exact hf s
    · rfl
  have hkey : ((fun s : Symbol => s.name == n) ∘ fun s => if s.name == name then f s else s) =
      fun s => s.name == n := by
    funext s
    rw [Function.comp_apply, hname]
  simp only [get?, modify, List.find?_map, hkey]

theorem get?_modify_self {t : SymbolTable} {name : String} {s : Symbol} {f : Symbol → Symbol}
    (hf : ∀ s, (f s).name = s.name) (h : t.get? name = some s) :
    (t.modify name f).get? name = some (f s) := by
  rw [get?_modify t name name hf, h, Option.map_some, name_of_get? h,
    if_pos (beq_self_eq_true name)]

theorem get?_modify_of_ne {t : SymbolTable} {name n : String} {f : Symbol → Symbol}
    (hf : ∀ s, (f s).name = s.name) (h : n ≠ name) :
    (t.modify name f).get? n = t.get? n := by
  rw [get?_modify t name n hf]
  cases hget : t.get? n with
  | none => rfl
  | some s =>
      have hname : s.name ≠ name := name_of_get? hget ▸ h
      simp [hname]

/-- A change that keeps names and types keeps all types. -/
theorem typeOf?_modify (t : SymbolTable) (name n : String) {f : Symbol → Symbol}
    (hf : ∀ s, (f s).name = s.name ∧ (f s).type = s.type) :
    (t.modify name f).typeOf? n = t.typeOf? n := by
  have htype : Symbol.type ∘ (fun s => if s.name == name then f s else s) = Symbol.type := by
    funext s
    rw [Function.comp_apply]
    split
    · exact (hf s).2
    · rfl
  rw [typeOf?, get?_modify t name n fun s => (hf s).1, Option.map_map, htype, typeOf?]

@[simp] theorem typeOf?_markInitialized (t : SymbolTable) (name n : String) :
    (t.markInitialized name).typeOf? n = t.typeOf? n :=
  t.typeOf?_modify name n fun _ => ⟨rfl, rfl⟩

end SymbolTable

/-! ### Growth of the state -/

/-- What the code of an assignment may read: variables in `V` and temporaries in `T`, at the types
that the table gives them. -/
def Visible (V T : String → Prop) (table : SymbolTable) : Typing
  | .var x, t => V x ∧ table.typeOf? x = some t
  | .temp n, t => T n ∧ table.typeOf? n = some t

theorem Visible.of_typeOf? {V T : String → Prop} {t t' : SymbolTable}
    (h : ∀ n, t'.typeOf? n = t.typeOf? n) (p : Place) (type : StaticType)
    (hp : Visible V T t p type) : Visible V T t' p type := by
  cases p with
  | var x => exact ⟨hp.1, (h x).trans hp.2⟩
  | temp n => exact ⟨hp.1, (h n).trans hp.2⟩

namespace Context

/-- The state after asking for a header. -/
def needing (ctx : Context) (h : Header) : Context :=
  { ctx with headers := ctx.headers.insert h }

/-- The state after allocating a temporary and emitting the instruction that fills it. -/
def filling (ctx : Context) (type : StaticType) (i : Instr) : Context :=
  { ctx with table := (ctx.table.newTemporary type).2, code := ctx.code ++ [i] }

/-- The second state comes from the first by asking for headers and filling new temporaries. -/
inductive Grows (V T : String → Prop) : Context → Context → Prop
  | refl (ctx : Context) : Grows V T ctx ctx
  | needing {ctx ctx' : Context} (h : Header) (hg : Grows V T ctx ctx') :
      Grows V T ctx (ctx'.needing h)
  | filling {ctx ctx' : Context} {type : StaticType} {i : Instr} (hg : Grows V T ctx ctx')
      (hnew : T ctx'.table.nextName) (hdst : i.written = .temp ctx'.table.nextName)
      (htype : i.Computes type) (hi : i.WellTyped (Visible V T ctx'.table)) :
      Grows V T ctx (ctx'.filling type i)

namespace Grows

variable {V T : String → Prop} {ctx ctx' ctx'' : Context}

theorem trans (h₁ : Grows V T ctx ctx') (h₂ : Grows V T ctx' ctx'') : Grows V T ctx ctx'' := by
  induction h₂ with
  | refl => exact h₁
  | needing h _ ih => exact .needing h ih
  | filling _ hnew hdst htype hi ih => exact .filling ih hnew hdst htype hi

/-- Symbols are only added, at the end, and each of them is a new temporary. -/
theorem symbols (h : Grows V T ctx ctx') :
    ∃ temps, ctx'.table.symbols = ctx.table.symbols ++ temps ∧
      ∀ s ∈ temps, s.temporary = true ∧ s.name ∉ ctx.table.names := by
  induction h with
  | refl => exact ⟨[], by simp, by simp⟩
  | needing _ _ ih => exact ih
  | @filling ctx' type i _ _ _ _ _ ih =>
      obtain ⟨temps, hsymbols, htemps⟩ := ih
      refine ⟨temps ++ [.ofTemporary ctx'.table.nextName type], ?_, ?_⟩
      · simp [Context.filling, hsymbols]
      · intro s hs
        rcases List.mem_append.mp hs with hs | hs
        · exact htemps s hs
        · obtain rfl := List.mem_singleton.mp hs
          refine ⟨rfl, fun hmem => ctx'.table.nextName_not_mem_names ?_⟩
          rw [SymbolTable.names, hsymbols, List.map_append]
          exact List.mem_append_left _ hmem

theorem names_subset (h : Grows V T ctx ctx') {n : String} (hn : n ∈ ctx.table.names) :
    n ∈ ctx'.table.names := by
  obtain ⟨temps, hsymbols, -⟩ := h.symbols
  rw [SymbolTable.names, hsymbols, List.map_append]
  exact List.mem_append_left _ hn

theorem get? (h : Grows V T ctx ctx') {n : String} (hn : n ∈ ctx.table.names) :
    ctx'.table.get? n = ctx.table.get? n := by
  obtain ⟨temps, hsymbols, -⟩ := h.symbols
  exact SymbolTable.get?_append hsymbols hn

/-- What was visible stays visible, at the same type. -/
theorem visible (h : Grows V T ctx ctx') (p : Place) (t : StaticType)
    (hp : Visible V T ctx.table p t) : Visible V T ctx'.table p t := by
  have htype : ∀ n, ctx.table.typeOf? n = some t → ctx'.table.typeOf? n = some t := by
    intro n hn
    rw [SymbolTable.typeOf?, h.get? (SymbolTable.mem_names_of_typeOf? hn)]
    exact hn
  cases p with
  | var x => exact ⟨hp.1, htype x hp.2⟩
  | temp n => exact ⟨hp.1, htype n hp.2⟩

theorem options (h : Grows V T ctx ctx') : ctx'.options = ctx.options := by
  induction h with
  | refl => rfl
  | needing _ _ ih => exact ih
  | filling _ _ _ _ _ ih => exact ih

theorem classDef (h : Grows V T ctx ctx') : ctx'.classDef = ctx.classDef := by
  induction h with
  | refl => rfl
  | needing _ _ ih => exact ih
  | filling _ _ _ _ _ ih => exact ih

theorem tempPrefix (h : Grows V T ctx ctx') : ctx'.table.tempPrefix = ctx.table.tempPrefix := by
  induction h with
  | refl => rfl
  | needing _ _ ih => exact ih
  | filling _ _ _ _ _ ih => exact ih

/-- Names that are added are names of temporaries. -/
theorem isTempName (h : Grows V T ctx ctx') {n : String} (hn : n ∈ ctx'.table.names) :
    n ∈ ctx.table.names ∨ ctx.table.IsTempName n := by
  induction h with
  | refl => exact .inl hn
  | needing _ _ ih => exact ih hn
  | @filling ctx' type i hg _ _ _ _ ih =>
      have hn : n ∈ ctx'.table.names ∨ n = ctx'.table.nextName := by
        simpa [Context.filling] using hn
      rcases hn with hn | rfl
      · exact ih hn
      · exact .inr ((SymbolTable.isTempName_congr hg.tempPrefix).mp
          ctx'.table.isTempName_nextName)

theorem length_names (h : Grows V T ctx ctx') :
    ctx.table.names.length ≤ ctx'.table.names.length := by
  obtain ⟨temps, hsymbols, -⟩ := h.symbols
  simp [hsymbols]

/-- The counter moves only where a temporary is added. -/
theorem nextTemp (h : Grows V T ctx ctx')
    (hlength : ctx'.table.names.length ≤ ctx.table.names.length) :
    ctx'.table.nextTemp = ctx.table.nextTemp := by
  induction h with
  | refl => rfl
  | needing _ _ ih => exact ih hlength
  | @filling ctx' type i hg _ _ _ _ _ =>
      have hle := hg.length_names
      simp only [Context.filling, SymbolTable.newTemporary_names, List.length_append,
        List.length_singleton] at hlength
      omega

theorem mustGrowStack (h : Grows V T ctx ctx') :
    ctx'.table.mustGrowStack = ctx.table.mustGrowStack := by
  induction h with
  | refl => rfl
  | needing _ _ ih => exact ih
  | filling _ _ _ _ _ ih => exact ih

/-- Headers are only added, at the end. -/
theorem headers (h : Grows V T ctx ctx') : ctx.headers.toList <+: ctx'.headers.toList := by
  induction h with
  | refl => exact List.prefix_refl _
  | needing h _ ih => exact ih.trans (OrderedSet.toList_prefix_insert _ h)
  | filling _ _ _ _ _ ih => exact ih

/-- Instructions are only added, at the end. -/
theorem code (h : Grows V T ctx ctx') : ctx.code <+: ctx'.code := by
  induction h with
  | refl => exact List.prefix_refl _
  | needing _ _ ih => exact ih
  | filling _ _ _ _ _ ih => exact ih.trans (List.prefix_append _ _)

/-- What is emitted fills temporaries: each is new, and has the type of what is computed into it. -/
theorem emitted (h : Grows V T ctx ctx') :
    ∃ fills, ctx'.code = ctx.code ++ fills ∧
      ∀ i ∈ fills, i.WellTyped (Visible V T ctx'.table) ∧
        ∃ n s, i.written = .temp n ∧ T n ∧ ctx'.table.get? n = some s ∧ i.Computes s.type := by
  induction h with
  | refl => exact ⟨[], by simp, by simp⟩
  | needing _ _ ih => exact ih
  | @filling ctx' type i hg hnew hdst htype hi ih =>
      obtain ⟨fills, hcode, hfills⟩ := ih
      have hstep : ctx'.Grows V T (ctx'.filling type i) :=
        .filling (.refl _) hnew hdst htype hi
      refine ⟨fills ++ [i], by simp [Context.filling, hcode], fun j hj => ?_⟩
      rcases List.mem_append.mp hj with hj | hj
      · obtain ⟨htyped, n, s, hwritten, hn, hget, hcomputes⟩ := hfills j hj
        have hget' := (hstep.get? (SymbolTable.mem_names_of_get? hget)).trans hget
        exact ⟨htyped.mono hstep.visible, n, s, hwritten, hn, hget', hcomputes⟩
      · obtain rfl := List.mem_singleton.mp hj
        exact ⟨hi.mono hstep.visible, _, _, hdst, hnew, ctx'.table.get?_nextName type, htype⟩

end Grows

end Context

/-! ### Computations that only grow the state -/

namespace Lower

variable {α β : Type} {V T : String → Prop} {ctx : Context}

section Apply

variable {ε : Type}

theorem bind_apply (x : LowerOr ε α) (f : α → LowerOr ε β) (ctx : Context) :
    (x >>= f) ctx =
      match x ctx with
      | .ok a ctx' => f a ctx'
      | .error e ctx' => .error e ctx' := by
  simp only [bind, EStateM.bind]
  cases x ctx <;> rfl

@[simp] theorem pure_apply (a : α) (ctx : Context) :
    (pure a : LowerOr ε α) ctx = .ok a ctx := rfl

@[simp] theorem get_apply (ctx : Context) : (get : LowerOr ε Context) ctx = .ok ctx ctx := rfl

@[simp] theorem modifyTable_apply (f : SymbolTable → SymbolTable) (ctx : Context) :
    (modifyTable f : LowerOr ε Unit) ctx = .ok () { ctx with table := f ctx.table } := rfl

@[simp] theorem require_apply (h : Header) (ctx : Context) :
    (require h : LowerOr ε Unit) ctx = .ok () (ctx.needing h) := rfl

end Apply

@[simp] theorem fail_apply (span : Span) (cause : Cause) (ctx : Context) :
    (fail span cause : Lower α) ctx = .error ⟨cause, span.location⟩ ctx := rfl

@[simp] theorem emit_apply (i : Instr) (ctx : Context) :
    emit i ctx = .ok () { ctx with code := ctx.code ++ [i] } := rfl

@[simp] theorem fillTemporary_apply (type : StaticType) (instr : Place → Instr) (ctx : Context) :
    fillTemporary type instr ctx =
      .ok (.temp ctx.table.nextName) (ctx.filling type (instr (.temp ctx.table.nextName))) := rfl

theorem readSymbol_apply {name : String} {s : Symbol} (h : ctx.table.get? name = some s) :
    readSymbol span name ctx = .ok s ctx := by
  simp only [readSymbol, bind_apply, get_apply, h, pure_apply]

theorem readSymbol_undeclared {name : String} (h : ctx.table.get? name = none) :
    readSymbol span name ctx = .error ⟨.undeclaredVariable name .read, span.location⟩ ctx := by
  simp only [readSymbol, bind_apply, get_apply, h, fail_apply]

/-- Started in `ctx`, the computation only grows the state, whether or not it fails, and what it
returns satisfies `post`. Names that are still free count as new. -/
def Quiet (V T : String → Prop) (x : Lower α) (ctx : Context) (post : α → Context → Prop) : Prop :=
  (∀ n, n ∉ ctx.table.names → T n) →
    match x ctx with
    | .ok a ctx' => ctx.Grows V T ctx' ∧ post a ctx'
    | .error _ ctx' => ctx.Grows V T ctx'

namespace Quiet

variable {post : α → Context → Prop} {post' : β → Context → Prop}

theorem pure {a : α} (h : post a ctx) : Quiet V T (pure a) ctx post :=
  fun _ => ⟨.refl ctx, h⟩

theorem fail (span : Span) (cause : Cause) : Quiet V T (fail span cause : Lower α) ctx post :=
  fun _ => .refl ctx

/-- **Sequencing.** What the first part has made visible is visible to the second. -/
theorem bind {x : Lower α} {f : α → Lower β} (hx : Quiet V T x ctx post)
    (hf : ∀ a ctx', ctx.Grows V T ctx' → post a ctx' → Quiet V T (f a) ctx' post') :
    Quiet V T (x >>= f) ctx post' := by
  intro hfree
  have hx := hx hfree
  rw [bind_apply]
  cases hrun : x ctx with
  | error e ctx' =>
      rw [hrun] at hx
      exact hx
  | ok a ctx' =>
      rw [hrun] at hx
      have hfree' : ∀ n, n ∉ ctx'.table.names → T n :=
        fun n hn => hfree n (fun hmem => hn (hx.1.names_subset hmem))
      have hf := hf a ctx' hx.1 hx.2 hfree'
      dsimp only
      cases hrun' : f a ctx' with
      | error e ctx'' =>
          rw [hrun'] at hf
          exact hx.1.trans hf
      | ok b ctx'' =>
          rw [hrun'] at hf
          exact ⟨hx.1.trans hf.1, hf.2⟩

theorem mono {x : Lower α} {post₂ : α → Context → Prop} (hx : Quiet V T x ctx post)
    (h : ∀ a ctx', ctx.Grows V T ctx' → post a ctx' → post₂ a ctx') :
    Quiet V T x ctx post₂ := by
  intro hfree
  have hx := hx hfree
  cases hrun : x ctx with
  | error e ctx' =>
      rw [hrun] at hx
      exact hx
  | ok a ctx' =>
      rw [hrun] at hx
      exact ⟨hx.1, h a ctx' hx.1 hx.2⟩

/-- A first part that only looks something up. -/
theorem bind_ok {x : Lower α} {f : α → Lower β} {a : α} (hx : x ctx = .ok a ctx)
    (hf : Quiet V T (f a) ctx post') : Quiet V T (x >>= f) ctx post' := by
  unfold Quiet
  rw [bind_apply, hx]
  exact hf

theorem require (h : Header) :
    Quiet V T (require h) ctx fun _ _ => True := by
  intro _
  rw [require_apply]
  exact ⟨.needing h (.refl ctx), trivial⟩

/-- A new temporary is visible once it is filled. -/
theorem fillTemporary {type : StaticType} {instr : Place → Instr}
    (hdst : ∀ p, (instr p).written = p) (htype : ∀ p, (instr p).Computes type)
    (hi : ∀ p, (instr p).WellTyped (Visible V T ctx.table)) :
    Quiet V T (fillTemporary type instr) ctx fun p ctx' => Visible V T ctx'.table p type := by
  intro hfree
  have hnew : T ctx.table.nextName := hfree _ ctx.table.nextName_not_mem_names
  rw [fillTemporary_apply]
  refine ⟨.filling (.refl ctx) hnew (hdst _) (htype _) (hi _), hnew, ?_⟩
  exact SymbolTable.typeOf?_eq_some.mpr ⟨_, ctx.table.get?_nextName type, rfl⟩

end Quiet

end Lower

end BoxedLet
