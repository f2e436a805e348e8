import BoxedLet.Proofs.Matching

/-!
# BoxedLet.Proofs.Failures

**Failed assignments are invisible to later ones.** A call that fails leaves its destination's write
count, a mark that the destination has a value, and the temporaries that it had already reserved. No
later call looks at the first two, and later calls can notice the third only by the names of their
own temporaries.

A run is compared with the same run without some of its failing calls. Both are given by one list,
in which each call is marked as kept or dropped. The states of the two runs match after every call
(`Context.Matches.runs`): a call that is kept keeps them matching because it goes the same way in
both runs, and a call that is dropped because its failure changes nothing that is matched.
-/

namespace BoxedLet

namespace Context

/-! ### What a failing call leaves behind -/

section Stops

variable {a : Assignment} {ctx ctx' : Context}

theorem map_gist_get?_modify {t : SymbolTable} {f : Symbol → Symbol} (name x : String)
    (hname : ∀ s, (f s).name = s.name) (hgist : ∀ s, (f s).gist = s.gist) :
    ((t.modify name f).get? x).map Symbol.gist = (t.get? x).map Symbol.gist := by
  rw [SymbolTable.get?_modify t name x hname, Option.map_map]
  congr 1
  funext s
  rw [Function.comp_apply]
  split
  · exact hgist s
  · rfl

theorem map_gist_get?_counting (ctx : Context) (name x : String) :
    ((ctx.counting name).table.get? x).map Symbol.gist = (ctx.table.get? x).map Symbol.gist :=
  map_gist_get?_modify (f := fun s => { s with mutationCount := s.mutationCount + 1 }) name x
    (fun _ => rfl) fun _ => rfl

theorem map_gist_get?_marking (ctx : Context) (name x : String) :
    ((ctx.marking name).table.get? x).map Symbol.gist = (ctx.table.get? x).map Symbol.gist :=
  map_gist_get?_modify (f := fun s => { s with initialized := true }) name x (fun _ => rfl)
    fun _ => rfl

/-- The gist of every symbol that was there is the same. -/
theorem Stops.gist (h : ctx.Stops a ctx') {x : String} (hx : x ∈ ctx.table.names) :
    (ctx'.table.get? x).map Symbol.gist = (ctx.table.get? x).map Symbol.gist := by
  obtain ⟨lowered, hgrows, hstop⟩ := h
  have hcounted : x ∈ (ctx.counting a.destination).table.names := by
    simpa [counting] using hx
  have hlowered : (lowered.table.get? x).map Symbol.gist = (ctx.table.get? x).map Symbol.gist := by
    rw [hgrows.get? hcounted, map_gist_get?_counting]
  obtain rfl | ⟨-, hmore⟩ := hstop
  · exact hlowered
  · have hmarked : x ∈ (lowered.marking a.destination).table.names := by
      simpa [marking] using hgrows.names_subset hcounted
    rw [hmore.get? hmarked, map_gist_get?_marking, hlowered]

/-- A call that reserves no temporary leaves the counter where it was. -/
theorem Stops.nextTemp (h : ctx.Stops a ctx') (hnames : ctx'.table.names = ctx.table.names) :
    ctx'.table.nextTemp = ctx.table.nextTemp := by
  obtain ⟨lowered, hgrows, hstop⟩ := h
  have hcounted : (ctx.counting a.destination).table.names = ctx.table.names := by
    simp [counting]
  have hmarked : (lowered.marking a.destination).table.names = lowered.table.names := by
    simp [marking]
  have hlowered := hgrows.length_names
  obtain rfl | ⟨-, hmore⟩ := hstop
  · exact hgrows.nextTemp (by simp [hcounted, hnames])
  · have hready := hmore.length_names
    rw [hcounted] at hlowered
    rw [hmarked, hnames] at hready
    have hlast : ctx'.table.nextTemp = lowered.table.nextTemp :=
      hmore.nextTemp (by rw [hmarked, hnames]; exact hlowered)
    exact hlast.trans (hgrows.nextTemp (by rw [hcounted]; exact hready))

end Stops

/-- What is settled stays settled. -/
theorem Settled.advances {V : String → Prop} {a : Assignment} {ctx ctx' : Context}
    {emitted : List Instr} (h : ctx.Settled V) (hadv : ctx.Advances a ctx' emitted) :
    ctx'.Settled V := by
  intro x hx htemp
  exact hadv.names_subset (h x hx ((SymbolTable.isTempName_congr hadv.tempPrefix).mp htemp))

/-! ### Runs with and without failing calls -/

/-- A call whose failure reserves only temporaries that cannot be noticed can be left out. -/
theorem Matches.dropped {V : String → Prop} {ρ : String → String} {full thin : Context}
    {a : Assignment} {e : LowerError} (h : full.Matches V ρ thin)
    (hfails : full.verdict a = .error e)
    (hreserves : (∀ m n, ρ m = ρ n) ∧ full.Settled V ∨
      (full.attempt a).table.names = full.table.names) :
    (full.attempt a).Matches V ρ thin := by
  obtain ⟨full', hrun⟩ : ∃ full', lowerAssignment a full = .error e full' := by
    unfold verdict at hfails
    cases hrun : lowerAssignment a full with
    | ok u full' =>
        rw [hrun] at hfails
        cases hfails
    | error e' full' =>
        rw [hrun] at hfails
        cases hfails
        exact ⟨full', rfl⟩
  rw [attempt_of_error hrun] at hreserves ⊢
  obtain ⟨stopped, hstops, rfl⟩ := stops_of_error hrun
  have hadv := hstops.advances
  have htable : (stopped.rollback full.checkpoint).table = stopped.table := rfl
  -- no name in `V` is new
  have hnew : ∀ x, V x → x ∈ stopped.table.names → x ∈ full.table.names := by
    intro x hx hmem
    obtain ⟨-, hsettled⟩ | hnames := hreserves
    · exact (hadv.names x hmem).elim id (hsettled x hx)
    · exact hnames ▸ hmem
  refine ⟨h.options.trans hadv.options.symm, h.classDef.trans hadv.classDef.symm, ?_, ?_,
    h.tempPrefix.trans hadv.tempPrefix.symm, h.mustGrowStack.trans hstops.mustGrowStack.symm,
    fun x hx => ?_, ?_⟩
  · rw [rollback_headers hstops.headers, h.headers]
  · rw [rollback_code hstops.code, h.code]
  · rw [h.symbols x hx, htable]
    by_cases hmem : x ∈ full.table.names
    · exact (hstops.gist hmem).symm
    · rw [SymbolTable.get?_eq_none_iff.mpr hmem,
        SymbolTable.get?_eq_none_iff.mpr fun hmem' => hmem (hnew x hx hmem')]
  · obtain ⟨hconst, hsettled⟩ | hnames := hreserves
    · exact .inl ⟨hconst, hsettled.advances hadv⟩
    · refine h.fresh.imp (fun ⟨hconst, hsettled⟩ => ⟨hconst, hsettled.advances hadv⟩)
        fun ⟨hnext, htaken⟩ => ⟨hnext.trans (hstops.nextTemp hnames).symm, fun k => ?_⟩
      rw [SymbolTable.tempName_congr hadv.tempPrefix, hnames]
      exact htaken k

end Context

/-- The calls of a run. Each is marked as kept or dropped. -/
abbrev Plan := List (Assignment × Bool)

namespace Plan

/-- All calls, in order. -/
def all (plan : Plan) : List Assignment :=
  plan.map Prod.fst

/-- The calls that are kept. -/
def kept (plan : Plan) : List Assignment :=
  (plan.filter Prod.snd).map Prod.fst

/-- Every call that is dropped fails in the run of all calls. -/
def DropsFailures (start : Context) (plan : Plan) : Prop :=
  ∀ before a after, plan = before ++ (a, false) :: after →
    ∃ e, (start.attempts (all before)).verdict a = .error e

/-- No call that is dropped reserves a temporary in the run of all calls. -/
def DropsNoTemporary (start : Context) (plan : Plan) : Prop :=
  ∀ before a after, plan = before ++ (a, false) :: after →
    ((start.attempts (all before)).attempt a).table.names = (start.attempts (all before)).table.names

variable {start : Context} {plan : Plan} {a : Assignment} {keep : Bool}

@[simp] theorem all_nil : all [] = [] := rfl

@[simp] theorem kept_nil : kept [] = [] := rfl

@[simp] theorem all_cons : all ((a, keep) :: plan) = a :: all plan := rfl

@[simp] theorem kept_cons :
    kept ((a, keep) :: plan) = if keep then a :: kept plan else kept plan := by
  cases keep <;> rfl

theorem DropsFailures.tail (h : DropsFailures start ((a, keep) :: plan)) :
    DropsFailures (start.attempt a) plan := by
  intro before b after hplan
  have hb := h ((a, keep) :: before) b after (by rw [hplan, List.cons_append])
  rwa [all_cons, Context.attempts_cons] at hb

theorem DropsNoTemporary.tail (h : DropsNoTemporary start ((a, keep) :: plan)) :
    DropsNoTemporary (start.attempt a) plan := by
  intro before b after hplan
  have hb := h ((a, keep) :: before) b after (by rw [hplan, List.cons_append])
  rwa [all_cons, Context.attempts_cons] at hb

end Plan

/-- **The two runs match after every call.** -/
theorem Context.Matches.runs {V : String → Prop} {ρ : String → String} {plan : Plan}
    {full thin : Context} (h : full.Matches V ρ thin)
    (hV : ∀ call ∈ plan, ∀ x, x = call.1.destination ∨ call.1.Reads x → V x)
    (hfails : plan.DropsFailures full)
    (hreserves : (∀ m n, ρ m = ρ n) ∧ full.Settled V ∨ plan.DropsNoTemporary full) :
    (full.attempts plan.all).Matches V ρ (thin.attempts plan.kept) := by
  induction plan generalizing full thin with
  | nil => exact h
  | cons call plan ih =>
      obtain ⟨a, keep⟩ := call
      have hV' : ∀ call ∈ plan, ∀ x, x = call.1.destination ∨ call.1.Reads x → V x :=
        fun call hcall => hV call (List.mem_cons_of_mem _ hcall)
      have hreserves' : (∀ m n, ρ m = ρ n) ∧ (full.attempt a).Settled V ∨
          Plan.DropsNoTemporary (full.attempt a) plan := by
        obtain ⟨emitted, hadv⟩ := full.attempt_advances a
        exact hreserves.imp (fun ⟨hconst, hsettled⟩ => ⟨hconst, hsettled.advances hadv⟩)
          Plan.DropsNoTemporary.tail
      rw [Plan.all_cons, Plan.kept_cons, Context.attempts_cons]
      cases keep with
      | true =>
          have hcall := h.call (hV (a, true) List.mem_cons_self)
          rw [if_pos rfl, Context.attempts_cons]
          exact ih hcall.2 hV' hfails.tail hreserves'
      | false =>
          obtain ⟨e, he⟩ := hfails [] a plan rfl
          have hdropped := h.dropped he (hreserves.imp_right fun hnone => hnone [] a plan rfl)
          rw [if_neg Bool.false_ne_true]
          exact ih hdropped hV' hfails.tail hreserves'

/-- The lines that a call adds. -/
def Context.emitted (ctx : Context) (a : Assignment) : List String :=
  (ctx.attempt a).lines.drop ctx.lines.length

/-- **Failed assignments are invisible to later ones.** Every call that is kept returns the same in
both runs and adds the same number of lines. The headers, the stack requirement and what is known
about the boxes of all symbols that were there come out equal, and the emitted code but for the
names of temporaries. If the dropped calls reserved no temporaries, the text is the same. -/
theorem failed_calls_invisible {start : Context} {plan : Plan}
    (hdeclared : ∀ call ∈ plan, ∀ x, x = call.1.destination ∨ call.1.Reads x →
      start.table.IsTempName x → x ∈ start.table.names)
    (hfails : plan.DropsFailures start) :
    (∀ before a after, plan = before ++ (a, true) :: after →
      let full := start.attempts (Plan.all before)
      let thin := start.attempts (Plan.kept before)
      thin.verdict a = full.verdict a ∧ (thin.emitted a).length = (full.emitted a).length) ∧
    let full := start.attempts plan.all
    let thin := start.attempts plan.kept
    thin.headers = full.headers ∧ thin.table.mustGrowStack = full.table.mustGrowStack ∧
      (∀ x ∈ start.table.names, ∃ s s', full.table.get? x = some s ∧
        thin.table.get? x = some s' ∧ s'.mustInitToNull = s.mustInitToNull ∧
        s'.variantInits = s.variantInits) ∧
      thin.code.map (Instr.mapTemps fun _ => "") = full.code.map (Instr.mapTemps fun _ => "") ∧
      (plan.DropsNoTemporary start → thin.lines = full.lines) := by
  let V : String → Prop := fun x => x ∈ start.table.names ∨ ¬ start.table.IsTempName x
  have hV : ∀ call ∈ plan, ∀ x, x = call.1.destination ∨ call.1.Reads x → V x := by
    intro call hcall x hx
    by_cases htemp : start.table.IsTempName x
    · exact .inl (hdeclared call hcall x hx htemp)
    · exact .inr htemp
  have hsettled : start.Settled V := fun x hx htemp => hx.resolve_right fun h => h htemp
  have hblind : (∀ m n : String, (fun _ => "") m = (fun _ => "") n) ∧ start.Settled V :=
    ⟨fun _ _ => rfl, hsettled⟩
  refine ⟨fun before a after hplan => ?_, ?_⟩
  · have hbefore : (start.attempts (Plan.all before)).Matches V (fun _ => "")
        (start.attempts (Plan.kept before)) := by
      refine (Context.Matches.refl V _ start).runs (fun call hcall => hV call ?_) ?_ (.inl hblind)
      · rw [hplan]
        exact List.mem_append_left _ hcall
      · intro first b rest hfirst
        exact hfails first b (rest ++ (a, true) :: after) (by rw [hplan, hfirst]; simp)
    have hcall := hbefore.call (hV (a, true) (by rw [hplan]; simp))
    refine ⟨hcall.1, ?_⟩
    simp only [Context.emitted, List.length_drop, hbefore.length_lines, hcall.2.length_lines]
  · have hend := (Context.Matches.refl V (fun _ => "") start).runs hV hfails (.inl hblind)
    refine ⟨hend.headers, hend.mustGrowStack, fun x hx => ?_, hend.code, fun hnone => ?_⟩
    · have hmem := Context.attempts_names_subset plan.all hx
      cases hs : (start.attempts plan.all).table.get? x with
      | none => exact absurd hmem (SymbolTable.get?_eq_none_iff.mp hs)
      | some s =>
          obtain ⟨s', hs', hgist⟩ := hend.get? (.inl hx) hs
          simp only [Symbol.gist, Symbol.mk.injEq] at hgist
          obtain ⟨-, -, -, -, -, hnull, -, hinits, -⟩ := hgist
          exact ⟨s, s', rfl, hs', hnull, hinits⟩
    · exact ((Context.Matches.refl V id start).runs hV hfails (.inr hnone)).lines

/-- `b += count(v)` fails after it has reserved `_0`, so that `v[] = 1` has to do with `_1`; without
the failed call it gets `_0`. The later `u = 1` fails in the same way in both runs. -/
theorem failed_calls_invisible_append :
    let start : Context :=
      { table.symbols :=
          [{ name := "b", type := .bool, storage := .stackOnly },
            { name := "v", type := .dynamic, storage := .heapBoxed }] }
    let failing : Assignment :=
      { target := .whole, destination := "b", operator := .addAssign,
        source := some (.call "count" [.var "v"]) }
    let append : Assignment := { target := .append, destination := "v", source := some (.int 1) }
    let undeclared : Assignment := { target := .whole, destination := "u", source := some (.int 1) }
    let full := start.attempts [failing, append]
    let thin := start.attempts [append]
    full.lines = ["ZVAL_LONG(_1, 1);", "zephir_array_append(&v, _1, PH_SEPARATE);"] ∧
      thin.lines = ["ZVAL_LONG(_0, 1);", "zephir_array_append(&v, _0, PH_SEPARATE);"] ∧
      (∃ e, full.verdict undeclared = .error e ∧ thin.verdict undeclared = .error e) ∧
      (thin.attempt undeclared).headers = (full.attempt undeclared).headers := by
  intro start failing append undeclared full thin
  let plan : Plan := [(failing, false), (append, true), (undeclared, true)]
  have hdeclared : ∀ call ∈ plan, ∀ x, x = call.1.destination ∨ call.1.Reads x →
      start.table.IsTempName x → x ∈ start.table.names := by
    rintro call hcall x hx ⟨k, hk⟩
    -- a temporary starts with an underscore, and none of the three variables does
    have hfirst : x.toList.head? = some '_' := by
      have hstem : start.table.tempPrefix.toList = ['_'] := by decide
      rw [hk, SymbolTable.toList_tempName, hstem]
      rfl
    have hname : x = "b" ∨ x = "v" ∨ x = "u" := by
      simp only [plan, List.mem_cons, List.not_mem_nil, or_false] at hcall
      rcases hcall with rfl | rfl | rfl <;>
        obtain rfl | ⟨e, he, hmention⟩ | ⟨i, hi, -⟩ := hx
      · exact .inl rfl
      · cases he
        simp only [Expr.mentions, Expr.anyMentions, Bool.or_false, beq_iff_eq] at hmention
        exact .inr (.inl hmention.symm)
      · cases hi
      · exact .inr (.inl rfl)
      · cases he
        simp [Expr.mentions] at hmention
      · cases hi
      · exact .inr (.inr rfl)
      · cases he
        simp [Expr.mentions] at hmention
      · cases hi
    rcases hname with rfl | rfl | rfl <;> exact absurd hfirst (by decide)
  have hfails : plan.DropsFailures start := by
    intro before a after hplan
    rcases before with _ | ⟨_, _ | ⟨_, _ | ⟨_, before⟩⟩⟩
    · obtain ⟨rfl, -⟩ : failing = a ∧ _ := by simpa [plan] using hplan
      exact ⟨_, rfl⟩
    all_goals simp [plan] at hplan
  have hinvisible := failed_calls_invisible hdeclared hfails
  have hlast : thin.verdict undeclared = full.verdict undeclared :=
    (hinvisible.1 [(failing, false), (append, true)] undeclared [] rfl).1
  refine ⟨by decide, by decide, ?_, ?_⟩
  · have herror : full.verdict undeclared =
        .error ⟨.undeclaredVariable "u" .mutate, undeclared.span.location⟩ := by rfl
    exact ⟨_, herror, hlast.trans herror⟩
  · simpa [plan, full, thin] using hinvisible.2.1

end BoxedLet
