import BoxedLet.Proofs.Declarations

/-!
# BoxedLet.Proofs.Scope

**Which names an accepted function body can use.** Lowering looks up every variable that it compiles,
so that in a body that compiles each of them is in the table, and stays there to the end
(`mem_names_of_ok`). The table starts with what the body declares and gains temporaries only.

Lookups do not tell the two apart. A name that the body has not declared is therefore accepted as
soon as it is the name of a temporary that an earlier assignment, or an earlier operand, has
reserved (`undeclared_temporary_accepted`); no other undeclared name is.
-/

namespace BoxedLet

variable {span : Span}

namespace Lower

variable {α β : Type} {W W' : String → Prop}

/-- If the computation succeeds, then all names that were in the table and all names in `W` are in
the table. -/
def Finds (W : String → Prop) (x : Lower α) : Prop :=
  ∀ ctx a ctx', x ctx = .ok a ctx' → ∀ n, n ∈ ctx.table.names ∨ W n → n ∈ ctx'.table.names

namespace Finds

theorem mono {x : Lower α} (h : Finds W x) (hW : ∀ n, W' n → W n) : Finds W' x :=
  fun ctx a ctx' hrun n hn => h ctx a ctx' hrun n (hn.imp_right (hW n))

/-- **Sequencing.** What the first part has found is found. -/
theorem bind {x : Lower α} {f : α → Lower β} (hx : Finds W x) (hf : ∀ a, Finds W' (f a)) :
    Finds (fun n => W n ∨ W' n) (x >>= f) := by
  intro ctx b ctx' hrun n hn
  rw [bind_apply] at hrun
  cases hmid : x ctx with
  | error e mid =>
      rw [hmid] at hrun
      cases hrun
  | ok a mid =>
      rw [hmid] at hrun
      refine hf a mid b ctx' hrun n ?_
      rcases hn with hn | hn | hn
      · exact .inl (hx ctx a mid hmid n (.inl hn))
      · exact .inl (hx ctx a mid hmid n (.inr hn))
      · exact .inr hn

/-- The first part alone finds what is asked for. -/
theorem bind_left {x : Lower α} {f : α → Lower β} (hx : Finds W x)
    (hf : ∀ a, Finds (fun _ => False) (f a)) : Finds W (x >>= f) :=
  (hx.bind hf).mono fun _ => .inl

/-- The second part alone finds what is asked for. -/
theorem bind_right {x : Lower α} {f : α → Lower β} (hx : Finds (fun _ => False) x)
    (hf : ∀ a, Finds W (f a)) : Finds W (x >>= f) :=
  (hx.bind hf).mono fun _ => .inr

theorem fail (span : Span) (cause : Cause) : Finds W (fail span cause : Lower α) :=
  fun _ _ _ hrun => nomatch hrun

/-- A computation that keeps the table finds nothing new. -/
theorem of_table {x : Lower α} (h : ∀ ctx a ctx', x ctx = .ok a ctx' →
    ctx'.table.names = ctx.table.names) : Finds (fun _ => False) x :=
  fun ctx a ctx' hrun _ hn => h ctx a ctx' hrun ▸ hn.resolve_right id

theorem pure (a : α) : Finds (fun _ => False) (pure a : Lower α) := by
  refine of_table fun ctx b ctx' hrun => ?_
  cases hrun
  rfl

end Finds

/-- One state twice, in which the name is in the table. -/
def Holding (n : String) (ctx ctx' : Context) : Prop :=
  ctx' = ctx ∧ n ∈ ctx.table.names

theorem holding_tracks (n : String) : Context.Tracks (fun _ => True) id (Holding n) where
  typeOf? h x _ := by rw [h.1]
  nextName h := by rw [h.1]
  needing h header := ⟨by rw [h.1], h.2⟩
  filling h type i i' hi := by
    obtain ⟨rfl, hn⟩ := h
    rw [Instr.mapTemps_id, Instr.mapTemps_id] at hi
    refine ⟨by rw [hi], ?_⟩
    simp only [Context.filling, SymbolTable.newTemporary_names, List.mem_append]
    exact .inl hn

/-- What lowering an expression does to the state loses no name. -/
theorem Finds.of_follows {S : α → α → Prop} {x : Lower α}
    (h : ∀ n, Follows (Holding n) S x x) : Finds (fun _ => False) x := by
  intro ctx a ctx' hrun n hn
  obtain ⟨_, _, c, _, hok, -, -, -, hmem⟩ | ⟨e, _, c, _, hfail, -⟩ :=
    (h n).run ⟨rfl, hn.resolve_right id⟩
  · cases hrun.symm.trans hok
    exact hmem
  · cases hrun.symm.trans hfail

/-! ### Expressions -/

theorem materialize_finds (s : Source) : Finds (fun _ => False) (materialize span s) :=
  .of_follows fun n => materialize_follows (holding_tracks n) (.refl (fun _ => trivial) s)

theorem bareVariable_finds (x : String) : Finds (fun n => x = n) (bareVariable span x) := by
  rintro ctx s ctx' hrun n hn
  unfold bareVariable at hrun
  rw [bind_apply] at hrun
  cases hget : ctx.table.get? x with
  | none =>
      rw [readSymbol_undeclared hget] at hrun
      cases hrun
  | some symbol =>
      rw [readSymbol_apply hget] at hrun
      cases hrun
      rcases hn with hn | rfl
      · exact hn
      · exact SymbolTable.mem_names_of_get? hget

mutual

/-- **Every variable of an expression that is lowered is in the table.** -/
theorem resolve_finds : ∀ e : Expr, Finds (fun n => e.mentions n = true) (resolve span e)
  | .null | .bool _ | .int _ | .char _ | .string _ | .emptyArray =>
      (Finds.pure _).mono fun _ => nofun
  | .double x => by
      unfold resolve doubleLiteral
      split
      · exact (Finds.pure _).mono fun _ => nofun
      · exact .fail _ _
  | .var x => (bareVariable_finds x).mono fun n hn => by simpa [Expr.mentions] using hn
  | .binary op l r => by
      have hop : ∀ left right, Finds (fun _ => False) (binary span op left right) :=
        fun left right => .of_follows fun n => binary_follows (holding_tracks n) op
          (.refl (fun _ => trivial) left) (.refl (fun _ => trivial) right)
      refine Finds.mono ((resolve_finds l).bind fun left => (resolve_finds r).bind_left (hop left))
        fun n hn => ?_
      simpa [Expr.mentions] using hn
  | .not e => (resolve_finds e).bind_left fun s =>
      .of_follows fun n => negate_follows (holding_tracks n) (.refl (fun _ => trivial) s)
  | .property e name => (resolve_finds e).bind_left fun s =>
      .of_follows fun n => readProperty_follows (holding_tracks n) name (.refl (fun _ => trivial) s)
  | .index a i => by
      have hcheck : ∀ array, Finds (fun _ => False) (checkIndexable span array) := fun array =>
        .of_follows fun n =>
          checkIndexable_follows (holding_tracks n) (.refl (fun _ => trivial) array)
      have hfetch : ∀ array index, Finds (fun _ => False) (fetchElement span array index) :=
        fun array index => .of_follows fun n => fetchElement_follows (holding_tracks n)
          (.refl (fun _ => trivial) array) (.refl (fun _ => trivial) index)
      refine Finds.mono ((resolve_finds a).bind fun array => (hcheck array).bind_right fun _ =>
        (resolve_finds i).bind_left (hfetch array)) fun n hn => ?_
      simpa [Expr.mentions] using hn
  | .call name args => (resolveArgs_finds args).bind_left fun codes =>
      .of_follows fun n => callFunction_follows (holding_tracks n) name rfl

theorem resolveArgs_finds : ∀ es : List Expr,
    Finds (fun n => Expr.anyMentions n es = true) (resolveArgs span es)
  | [] => (Finds.pure _).mono fun _ => nofun
  | e :: es => by
      refine Finds.mono ((resolve_finds e).bind fun source => (materialize_finds source).bind_right
        fun _ => (resolveArgs_finds es).bind_left fun _ => .pure _) fun n hn => ?_
      simpa [Expr.anyMentions] using hn

end

/-! ### Assignments -/

theorem shape_finds (s : Source) : Finds (fun _ => False) (s.shape span) :=
  .of_follows fun n => shape_follows (holding_tracks n) (.refl (fun _ => trivial) s)

theorem require_emit_finds (header : Header) (i : Instr) :
    Finds (fun _ => False) (require header >>= fun _ => emit i) := by
  refine .of_table fun ctx u ctx' hrun => ?_
  cases hrun
  rfl

/-- A check that returns nothing new. -/
theorem check_finds {p : Prop} [Decidable p] (a : α) (span : Span) (cause : Cause) :
    Finds (fun _ => False) (if p then pure a else fail span cause) := by
  split
  · exact .pure a
  · exact .fail span cause

theorem updateKey_finds (index : Expr) :
    Finds (fun n => index.mentions n = true) (updateKey span index) := by
  refine (resolve_finds index).bind_left fun i => (shape_finds i).bind_right fun shape => ?_
  split
  · exact .pure _
  · exact .fail _ _

theorem propertyKey_finds (index : Expr) :
    Finds (fun n => index.mentions n = true) (propertyKey span index) :=
  (resolve_finds index).bind_left fun i => (shape_finds i).bind_right fun _ => check_finds _ _ _

/-- **Every variable of an index that is lowered is in the table.** -/
theorem assignSource_finds {a : Assignment} {index e : Expr} {dest : Symbol} {source : Source}
    (hindex : a.target.index? = some index) :
    Finds (fun n => index.mentions n = true) (assignSource dest a e source) := by
  unfold assignSource
  cases htarget : a.target with
  | element i =>
      obtain rfl : i = index := by simpa [htarget, Target.index?] using hindex
      refine (check_finds _ _ _).bind_right fun _ => (check_finds _ _ _).bind_right fun _ => ?_
      refine (updateKey_finds i).bind_left fun key => ?_
      refine (materialize_finds source).bind_right fun _ => ?_
      exact require_emit_finds _ _
  | propertyElement name i =>
      obtain rfl : i = index := by simpa [htarget, Target.index?] using hindex
      refine (check_finds _ _ _).bind_right fun _ => (check_finds _ _ _).bind_right fun _ => ?_
      refine (propertyKey_finds i).bind_left fun key => ?_
      refine ((shape_finds source).bind_right fun _ => check_finds _ _ _).bind_right fun _ => ?_
      exact require_emit_finds _ _
  | whole | append | property | propertyAppend => simp [htarget, Target.index?] at hindex

theorem Finishes.names_subset {V T : String → Prop} {kind : TargetKind} {dest : Symbol}
    {idle : Prop} {x : Lower Unit} {ctx ctx' : Context}
    (hx : Finishes V T kind dest idle x ctx) (hfree : ∀ n, n ∉ ctx.table.names → T n)
    (hholds : ctx.table.Holds dest) (hrun : x ctx = .ok () ctx') {n : String}
    (hn : n ∈ ctx.table.names) : n ∈ ctx'.table.names := by
  have hx := hx hfree hholds
  rw [hrun] at hx
  obtain ⟨mid, tail, hgrows, hends, -⟩ := hx
  rw [hends.table, Instr.names_foldl_book]
  exact hgrows.names_subset hn

/-- The source and the target of an assignment that succeeds. -/
theorem source_of_ok {a : Assignment} {ctx ctx' : Context} (h : assignment a ctx = .ok () ctx')
    (hstep : a.operator.isStep = false) :
    ∃ dest e source lowered,
      (ctx.counting a.destination).table.get? a.destination = some dest ∧ a.source = some e ∧
        resolve a.span e (ctx.counting a.destination) = .ok source lowered ∧
        assignSource dest a e source (lowered.marking a.destination) = .ok () ctx' := by
  obtain ⟨e, hcheck⟩ | ⟨dest, hcheck, hget⟩ := checkedDestination_cases a ctx
  · simp only [assignment, bind_apply, hcheck] at h
    cases h
  cases hsource : a.source with
  | none =>
      simp only [assignment, bind_apply, hcheck, hstep, Bool.false_eq_true, if_false, hsource,
        fail_apply] at h
      cases h
  | some e =>
      cases hresolve : resolve a.span e (ctx.counting a.destination) with
      | error error lowered =>
          simp only [assignment, bind_apply, hcheck, hstep, Bool.false_eq_true, if_false, hsource,
            hresolve] at h
          cases h
      | ok source lowered =>
          rw [assignment_of_source hcheck hstep hsource hresolve,
            SymbolTable.name_of_get? hget] at h
          exact ⟨dest, e, source, lowered, hget, rfl, hresolve, h⟩

end Lower

/-- The names that an assignment compiles: its destination, and what it reads unless it is a step,
which looks at no source. -/
def Assignment.Compiles (a : Assignment) (x : String) : Prop :=
  x = a.destination ∨ a.operator.isStep = false ∧ a.Reads x

/-- **An assignment that succeeds has found every name that it compiles** in the table. -/
theorem mem_names_of_ok {a : Assignment} {ctx ctx' : Context} {x : String}
    (h : lowerAssignment a ctx = .ok () ctx') (hx : a.Compiles x) : x ∈ ctx'.table.names := by
  obtain ⟨emitted, hadv⟩ := (completes_of_ok h).advances
  obtain rfl | ⟨hstep, hreads⟩ := hx
  · exact hadv.names_subset (completes_of_ok h).1
  obtain ⟨dest, e, source, lowered, hget, hsource, hresolve, hassign⟩ :=
    Lower.source_of_ok (lowerAssignment_ok_iff.mp h) hstep
  obtain ⟨e', he', hmention⟩ | ⟨i, hi, hmention⟩ := hreads
  · obtain rfl : e = e' := Option.some.inj (hsource.symm.trans he')
    have hlowered : x ∈ (lowered.marking a.destination).table.names := by
      simpa [Context.marking] using Lower.resolve_finds e _ _ _ hresolve x (.inr hmention)
    -- what is left only adds names
    have hquiet : Lower.Quiet (fun _ => True) (fun _ => True) (Lower.resolve a.span e)
        (ctx.counting a.destination) _ := Lower.resolve_quiet e fun _ _ => trivial
    have hquiet := hquiet fun _ _ => trivial
    rw [hresolve] at hquiet
    obtain ⟨hgrows, hfits⟩ := hquiet
    have hmarked : source.Fits (Visible (fun _ => True) (fun _ => True)
        (lowered.marking a.destination).table) :=
      hfits.mono (Visible.of_typeOf? fun n => by simp [Context.marking])
    have hfinishes : Lower.Finishes (fun _ => True) (fun _ => True) a.target.kind dest
        (source.name? = some dest.name) (Lower.assignSource dest a e source)
        (lowered.marking a.destination) :=
      Lower.assignSource_finishes hmarked (fun _ _ _ _ => trivial) fun _ _ _ h => h
    exact hfinishes.names_subset (fun _ _ => trivial) (hgrows.holds_marking hget) hassign hlowered
  · exact Lower.assignSource_finds hi _ _ _ hassign x (.inr hmention)

/-! ### Function bodies -/

/-- Assignments that are all lowered have found every name that they compile. -/
theorem mem_names_of_lowerAssignments {calls : List Assignment} {ctx final : Context}
    {a : Assignment} {x : String} (h : lowerAssignments calls ctx = .ok () final) (ha : a ∈ calls)
    (hx : a.Compiles x) : x ∈ final.table.names := by
  induction calls generalizing ctx with
  | nil => simp at ha
  | cons b calls ih =>
      simp only [lowerAssignments, bind, EStateM.bind] at h
      cases hrun : lowerAssignment b ctx with
      | error e mid =>
          rw [hrun] at h
          cases h
      | ok u mid =>
          rw [hrun] at h
          rcases List.mem_cons.mp ha with rfl | ha
          · rw [lowerAssignments_ok h]
            exact Context.attempts_names_subset calls (mem_names_of_ok hrun hx)
          · exact ih h ha

namespace Context

/-- A table with the same names gains nothing. -/
theorem GainsTemporaries.keeps {start : Context} {t t' : SymbolTable}
    (h : start.GainsTemporaries t) (hkeeps : t.Keeps t')
    (hnames : ∀ n ∈ t'.names, n ∈ t.names) : start.GainsTemporaries t' := by
  intro n s hfree hs
  cases hs₀ : t.get? n with
  | none =>
      have hmem := hnames n (SymbolTable.mem_names_of_get? hs)
      exact absurd hmem (SymbolTable.get?_eq_none_iff.mp hs₀)
  | some s₀ =>
      obtain ⟨s', hs', halike⟩ := hkeeps n s₀ hs₀
      obtain rfl : s' = s := Option.some.inj (hs'.symm.trans hs)
      exact halike.temporary.trans (h n s₀ hfree hs₀)

/-- **A call adds temporaries only.** -/
theorem attempt_gains (ctx : Context) (a : Assignment) :
    ctx.GainsTemporaries (ctx.attempt a).table := by
  have hmarking : ∀ lowered : Context, ctx.GainsTemporaries lowered.table →
      ctx.GainsTemporaries (lowered.marking a.destination).table :=
    fun lowered h => h.modify a.destination (fun _ => rfl) fun _ => rfl
  cases hrun : lowerAssignment a ctx with
  | ok u ctx' =>
      rw [attempt_of_ok hrun]
      obtain ⟨-, lowered, ready, tail, hgrows, hready, hends, -⟩ := completes_of_ok hrun
      have hgains := (hmarking _ ((GainsTemporaries.counting ctx _).grows hgrows)).grows hready
      rw [hends.table]
      refine hgains.keeps (SymbolTable.keeps_foldl_book tail _) fun n hn => ?_
      rwa [Instr.names_foldl_book] at hn
  | error e ctx' =>
      rw [attempt_of_error hrun]
      obtain ⟨stopped, ⟨lowered, hgrows, hstop⟩, rfl⟩ := stops_of_error hrun
      have hgains := (GainsTemporaries.counting ctx _).grows hgrows
      obtain rfl | ⟨-, hmore⟩ := hstop
      · exact hgains
      · have hstopped := (hmarking _ hgains).grows hmore
        exact hstopped

/-- **A run adds temporaries only.** -/
theorem attempts_gains (start : Context) (calls : List Assignment) :
    start.GainsTemporaries (start.attempts calls).table := by
  refine attempts_induction (P := fun ctx => start.GainsTemporaries ctx.table)
    (fun ctx a h => ?_) calls fun n s hfree hs => absurd (SymbolTable.mem_names_of_get? hs) hfree
  intro n s hfree hs
  obtain ⟨emitted, hadv⟩ := ctx.attempt_advances a
  cases hs₀ : ctx.table.get? n with
  | none => exact ctx.attempt_gains a n s (SymbolTable.get?_eq_none_iff.mp hs₀) hs
  | some s₀ =>
      obtain ⟨s', hs', halike⟩ := hadv.keeps n s₀ hs₀
      obtain rfl : s' = s := Option.some.inj (hs'.symm.trans hs)
      exact halike.temporary.trans (h n s₀ hfree hs₀)

/-- Names that a run adds have the form of temporaries. -/
theorem attempts_isTempName (start : Context) (calls : List Assignment) :
    (start.attempts calls).table.tempPrefix = start.table.tempPrefix ∧
      ∀ n ∈ (start.attempts calls).table.names,
        n ∈ start.table.names ∨ start.table.IsTempName n := by
  refine attempts_induction (P := fun ctx => ctx.table.tempPrefix = start.table.tempPrefix ∧
    ∀ n ∈ ctx.table.names, n ∈ start.table.names ∨ start.table.IsTempName n) (fun ctx a h => ?_)
    calls ⟨rfl, fun n hn => .inl hn⟩
  obtain ⟨emitted, hadv⟩ := ctx.attempt_advances a
  refine ⟨hadv.tempPrefix.trans h.1, fun n hn => ?_⟩
  rcases hadv.names n hn with hn | hn
  · exact h.2 n hn
  · exact .inr ((SymbolTable.isTempName_congr h.1).mp hn)

end Context

namespace CompilationUnit

/-- The names that a function body declares itself. -/
def Declares (u : CompilationUnit) (x : String) : Prop :=
  (∃ d ∈ u.declarations, d.name = x) ∨ u.classDef.isSome ∧ x = u.options.implicitReceiver

instance (u : CompilationUnit) (x : String) : Decidable (u.Declares x) :=
  inferInstanceAs (Decidable (_ ∨ _))

/-- The temporaries that a function body has reserved when it has been lowered. -/
def Reserves (u : CompilationUnit) (x : String) : Prop :=
  ∃ final s, lowerStatements u.statements (.initial u.options u.classDef u.declarations) =
      .ok () final ∧ final.table.get? x = some s ∧ s.temporary = true ∧
    ∃ k : Nat, x = u.options.tempPrefix ++ toString k

theorem declares_of_mem_names {u : CompilationUnit} {x : String}
    (h : x ∈ (Context.initial u.options u.classDef u.declarations).table.names) : u.Declares x := by
  by_cases hreceiver : u.classDef.isSome ∧ x = u.options.implicitReceiver
  · exact .inr hreceiver
  · cases hs : (Context.initial u.options u.classDef u.declarations).table.get? x with
    | none => exact absurd h (SymbolTable.get?_eq_none_iff.mp hs)
    | some s =>
        rw [Context.get?_initial, if_neg hreceiver] at hs
        obtain ⟨d, hd, -⟩ := Option.map_eq_some_iff.mp hs
        exact .inl ⟨d, List.mem_of_find?_eq_some hd, by simpa using List.find?_some hd⟩

/-- **The names of an accepted function body.** If it compiles, then every name that it compiles is
one that it declares itself or the name of a temporary that it has reserved. -/
theorem compiled_names_declared_or_reserved {u : CompilationUnit} {out : Compiled} {a : Assignment}
    {x : String} (h : u.compile = .ok out) (ha : a ∈ u.assignments) (hx : a.Compiles x) :
    u.Declares x ∨ u.Reserves x := by
  let start := Context.initial u.options u.classDef u.declarations
  obtain ⟨final, hrun⟩ : ∃ final, lowerStatements u.statements start = .ok () final := by
    unfold compile at h
    cases hrun : lowerStatements u.statements start with
    | ok _ final => exact ⟨final, rfl⟩
    | error e final =>
        simp only [start] at hrun
        rw [hrun] at h
        cases h
  have hcalls := hrun
  rw [lowerStatements_eq] at hcalls
  have hmem : x ∈ final.table.names := mem_names_of_lowerAssignments hcalls ha hx
  by_cases hstart : x ∈ start.table.names
  · exact .inl (declares_of_mem_names hstart)
  have hfinal := lowerAssignments_ok hcalls
  cases hs : final.table.get? x with
  | none => exact absurd hmem (SymbolTable.get?_eq_none_iff.mp hs)
  | some s =>
      rw [hfinal] at hs hmem
      have htemporary := start.attempts_gains _ x s hstart hs
      obtain ⟨k, hk⟩ := ((start.attempts_isTempName _).2 x hmem).resolve_left hstart
      have hstem := (Context.initial_starts u.options u.classDef u.declarations).tempPrefix
      refine .inr ⟨final, s, hrun, hfinal ▸ hs, htemporary, k, ?_⟩
      rw [hk, SymbolTable.tempName, hstem]

/-- `v[] = 1` and then, in a statement of its own, `v = _0`: the temporary of the first statement
stands for a variable in the second. -/
def temporaryUnit : CompilationUnit where
  declarations := [{ name := "v", type := .dynamic }]
  statements :=
    [{ assignments := [{ target := .append, destination := "v", source := some (.int 1) }] },
      { assignments := [{ target := .whole, destination := "v", source := some (.var "_0") }] }]

/-- The name that is accepted in it without a declaration is one that it has reserved. -/
theorem compiled_names_declared_or_reserved_temporary :
    (∃ out, temporaryUnit.compile = .ok out) ∧ ¬ temporaryUnit.Declares "_0" ∧
      temporaryUnit.Reserves "_0" := by
  have hdeclares : ¬ temporaryUnit.Declares "_0" := by decide
  have hcompiled : ∃ out, temporaryUnit.compile = .ok out := ⟨_, rfl⟩
  obtain ⟨out, hrun⟩ := hcompiled
  have hnames : temporaryUnit.Declares "_0" ∨ temporaryUnit.Reserves "_0" :=
    compiled_names_declared_or_reserved hrun (List.mem_cons_of_mem _ List.mem_cons_self)
      (.inr ⟨rfl, .inl ⟨.var "_0", rfl, by decide⟩⟩)
  exact ⟨⟨out, hrun⟩, hdeclares, hnames.resolve_left hdeclares⟩

/-- **A name that is not declared is accepted**, and shows up in the emitted code. -/
theorem undeclared_temporary_accepted :
    (∃ out, temporaryUnit.compile = .ok out ∧
      out.lines = ["ZVAL_LONG(_0, 1);", "zephir_array_append(&v, _0, PH_SEPARATE);",
        "ZEPHIR_CPY_WRT(v, _0);"]) ∧
      (∃ a ∈ temporaryUnit.assignments, a.Compiles "_0") ∧ ¬ temporaryUnit.Declares "_0" := by
  refine ⟨⟨_, rfl, by decide⟩, ⟨_, List.mem_cons_of_mem _ List.mem_cons_self, ?_⟩, by decide⟩
  exact .inr ⟨rfl, .inl ⟨.var "_0", rfl, by decide⟩⟩

end CompilationUnit

end BoxedLet
