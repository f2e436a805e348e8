import BoxedLet.Proofs.Ending

/-!
# BoxedLet.Proofs.Course

**The course of an assignment.** It counts the write of its destination, lowers its source, marks
the destination as having a value, may lower more, and then writes the destination. It can fail
anywhere on this way but the end. `Context.Completes` and `Context.Stops` describe the two outcomes
by the states in between, and `assignment_course` shows that there is no third.
-/

namespace BoxedLet

variable {span : Span}

/-- The variables that an assignment reads: those of its source and those of its index. -/
def Assignment.Reads (a : Assignment) (x : String) : Prop :=
  (∃ e, a.source = some e ∧ e.mentions x = true) ∨
    ∃ i, a.target.index? = some i ∧ i.mentions x = true

namespace Context

/-- The names that are not taken. -/
def Free (ctx : Context) (name : String) : Prop :=
  name ∉ ctx.table.names

/-- The state after counting a write of the variable. -/
def counting (ctx : Context) (name : String) : Context :=
  { ctx with table := ctx.table.countWrite name }

/-- The state after recording that the variable has a value. -/
def marking (ctx : Context) (name : String) : Context :=
  { ctx with table := ctx.table.markInitialized name }

/-- How far an assignment has come when it fails: its source has been lowered, at least in part, and
then perhaps its destination has been marked and more has been lowered. -/
def Stops (a : Assignment) (ctx ctx' : Context) : Prop :=
  ∃ lowered, (ctx.counting a.destination).Grows a.Reads ctx.Free lowered ∧
    (ctx' = lowered ∨ a.destination ∈ ctx.table.names ∧
      (lowered.marking a.destination).Grows a.Reads ctx.Free ctx')

/-- The way of an assignment that succeeds: its source is lowered, its destination is marked, more
may be lowered, and then the destination is written, unless nothing at all is emitted. -/
def Completes (a : Assignment) (ctx ctx' : Context) : Prop :=
  a.destination ∈ ctx.table.names ∧
  ∃ lowered ready tail, (ctx.counting a.destination).Grows a.Reads ctx.Free lowered ∧
    (lowered.marking a.destination).Grows a.Reads ctx.Free ready ∧
    ready.Ends (Visible a.Reads ctx.Free ready.table) a.target.kind a.destination tail ctx' ∧
    (tail = [] → ctx'.code = ctx.code)

/-- What an assignment emits: what its source, its index and its ending do. -/
theorem code_of_course {ctx lowered ready ctx' : Context} {name : String}
    {fills more tail : List Instr} (hlowered : lowered.code = (ctx.counting name).code ++ fills)
    (hready : ready.code = (lowered.marking name).code ++ more)
    (hends : ctx'.code = ready.code ++ tail) :
    ctx'.code = ctx.code ++ (fills ++ more ++ tail) := by
  have hcounting : (ctx.counting name).code = ctx.code := rfl
  have hmarking : (lowered.marking name).code = lowered.code := rfl
  rw [hends, hready, hmarking, hlowered, hcounting]
  simp only [List.append_assoc]

end Context

/-- Lowering the source and marking the destination keep what the ending asks about it. -/
theorem Context.Grows.holds_marking {V T : String → Prop} {ctx lowered : Context} {name : String}
    {dest : Symbol} (h : ctx.Grows V T lowered) (hget : ctx.table.get? name = some dest) :
    (lowered.marking name).table.Holds dest := by
  have hlowered := (h.get? (SymbolTable.mem_names_of_get? hget)).trans hget
  have hmarked : (lowered.marking name).table.get? name = some { dest with initialized := true } :=
    SymbolTable.get?_modify_self (fun _ => rfl) hlowered
  rw [SymbolTable.Holds, SymbolTable.name_of_get? hget]
  exact ⟨_, hmarked, rfl, rfl⟩

namespace Lower

variable {a : Assignment} {ctx : Context} {name : String} {dest : Symbol}

/-! ### The destination -/

theorem writeSymbol_apply (h : (ctx.counting name).table.get? name = some dest) :
    writeSymbol span name ctx = .ok dest (ctx.counting name) := by
  simp only [Context.counting] at h
  simp only [writeSymbol, bind_apply, modifyTable_apply, get_apply, h, pure_apply,
    Context.counting]

theorem writeSymbol_undeclared (h : (ctx.counting name).table.get? name = none) :
    writeSymbol span name ctx =
      .error ⟨.undeclaredVariable name .mutate, span.location⟩ (ctx.counting name) := by
  simp only [Context.counting] at h
  simp only [writeSymbol, bind_apply, modifyTable_apply, get_apply, h, fail_apply,
    Context.counting]

/-- Checking the destination counts the write, whatever it finds. -/
theorem checkedDestination_apply
    (h : (ctx.counting a.destination).table.get? a.destination = some dest) :
    checkedDestination a ctx =
      if dest.readOnly then
        .error ⟨.readOnlyWrite dest.name, a.span.location⟩ (ctx.counting a.destination)
      else if ctx.options.isReceiver dest.name && !a.target.isProperty then
        .error ⟨.readOnlyWrite dest.name, a.span.location⟩ (ctx.counting a.destination)
      else if dest.type.isPseudo then
        .error ⟨.unknownDestination dest.name dest.type, a.span.location⟩
          (ctx.counting a.destination)
      else .ok dest (ctx.counting a.destination) := by
  simp only [checkedDestination, bind_apply, writeSymbol_apply h]
  split
  · rfl
  simp only [bind_apply, get_apply, Context.counting]
  split
  · rfl
  split <;> rfl

theorem checkedDestination_cases (a : Assignment) (ctx : Context) :
    (∃ e, checkedDestination a ctx = .error e (ctx.counting a.destination)) ∨
      ∃ dest, checkedDestination a ctx = .ok dest (ctx.counting a.destination) ∧
        (ctx.counting a.destination).table.get? a.destination = some dest := by
  cases hget : (ctx.counting a.destination).table.get? a.destination with
  | none =>
      refine .inl ⟨⟨.undeclaredVariable a.destination .mutate, a.span.location⟩, ?_⟩
      simp only [checkedDestination, bind_apply, writeSymbol_undeclared hget]
  | some dest =>
      rw [checkedDestination_apply hget]
      split
      · exact .inl ⟨_, rfl⟩
      split
      · exact .inl ⟨_, rfl⟩
      split
      · exact .inl ⟨_, rfl⟩
      · exact .inr ⟨dest, rfl, rfl⟩

/-- The destinations that are accepted: variables in the table that may be written, have a type to be
written with and are not the receiver itself. -/
theorem checkedDestination_ok_iff {start : Context} :
    checkedDestination a ctx = .ok dest start ↔
      start = ctx.counting a.destination ∧ start.table.get? a.destination = some dest ∧
        dest.readOnly = false ∧ dest.type.isPseudo = false ∧
        (ctx.options.isReceiver a.destination = true → a.target.isProperty = true) := by
  cases hget : (ctx.counting a.destination).table.get? a.destination with
  | none =>
      have herror : checkedDestination a ctx =
          .error ⟨.undeclaredVariable a.destination .mutate, a.span.location⟩
            (ctx.counting a.destination) := by
        simp only [checkedDestination, bind_apply, writeSymbol_undeclared hget]
      refine ⟨fun h => ?_, ?_⟩
      · rw [herror] at h
        cases h
      · rintro ⟨rfl, hdest, -⟩
        exact absurd (hget.symm.trans hdest) (by simp)
  | some found =>
      have hname : found.name = a.destination := SymbolTable.name_of_get? hget
      have hproperty : (ctx.options.isReceiver a.destination && !a.target.isProperty) = false ↔
          (ctx.options.isReceiver a.destination = true → a.target.isProperty = true) := by
        cases ctx.options.isReceiver a.destination <;> simp
      rw [checkedDestination_apply hget, hname, ← hproperty]
      constructor
      · intro h
        grind
      · rintro ⟨rfl, hdest, hreadOnly, hpseudo, hreceiver⟩
        obtain rfl : found = dest := Option.some.inj (hget.symm.trans hdest)
        rw [hreadOnly, hreceiver, hpseudo]
        rfl

/-- Once its source is lowered, an assignment is what writes the source to the target. -/
theorem assignment_of_source {e : Expr} {source : Source} {start lowered : Context}
    (hcheck : checkedDestination a ctx = .ok dest start) (hstep : a.operator.isStep = false)
    (hsource : a.source = some e) (hresolve : resolve a.span e start = .ok source lowered) :
    assignment a ctx = assignSource dest a e source (lowered.marking dest.name) := by
  simp only [assignment, bind_apply, hcheck, hstep, Bool.false_eq_true, if_false, hsource,
    hresolve, modifyTable_apply]
  rfl

/-! ### Both outcomes -/

/-- Where writing the destination can end, once the source has been lowered. -/
theorem course_of_finishes {x : Lower Unit} {lowered : Context} {idle : Prop}
    (hget : (ctx.counting a.destination).table.get? a.destination = some dest)
    (hgrows : (ctx.counting a.destination).Grows a.Reads ctx.Free lowered)
    (hidle : idle → lowered.code = ctx.code)
    (hx : Finishes a.Reads ctx.Free a.target.kind dest idle x (lowered.marking a.destination)) :
    match x (lowered.marking a.destination) with
    | .ok _ ctx' => ctx.Completes a ctx'
    | .error _ ctx' => ctx.Stops a ctx' := by
  have hdeclared := SymbolTable.mem_names_of_get? hget
  have hname : dest.name = a.destination := SymbolTable.name_of_get? hget
  have hholds := hgrows.holds_marking hget
  replace hdeclared : a.destination ∈ ctx.table.names := by
    simpa [Context.counting] using hdeclared
  have hfree : ∀ n, n ∉ (lowered.marking a.destination).table.names → ctx.Free n := by
    intro n hn hmem
    apply hn
    simp only [Context.marking, SymbolTable.names_markInitialized]
    apply hgrows.names_subset
    simpa [Context.counting] using hmem
  have hx := hx hfree hholds
  cases hrun : x (lowered.marking a.destination) with
  | error e ctx' =>
      rw [hrun] at hx
      exact ⟨lowered, hgrows, .inr ⟨hdeclared, hx⟩⟩
  | ok u ctx' =>
      rw [hrun, hname] at hx
      obtain ⟨ready, tail, hready, hends, htail⟩ := hx
      refine ⟨hdeclared, lowered, ready, tail, hgrows, hready, hends, fun h => ?_⟩
      exact (htail h).2.trans (hidle (htail h).1)

/-- **The course of an assignment**, on both outcomes. -/
theorem assignment_course (a : Assignment) (ctx : Context) :
    match assignment a ctx with
    | .ok _ ctx' => ctx.Completes a ctx'
    | .error _ ctx' => ctx.Stops a ctx' := by
  let start := ctx.counting a.destination
  have hstop : ctx.Stops a start := ⟨start, .refl _, .inl rfl⟩
  obtain ⟨e, hcheck⟩ | ⟨dest, hcheck, hget⟩ := checkedDestination_cases a ctx
  · simp only [assignment, bind_apply, hcheck]
    exact hstop
  have hdest : dest.name = a.destination := SymbolTable.name_of_get? hget
  simp only [assignment, bind_apply, hcheck]
  by_cases hstep : a.operator.isStep = true
  · -- a step has no source: the destination is marked at once
    rw [if_pos hstep]
    cases htarget : a.target with
    | whole =>
        have hfinish : Finishes a.Reads ctx.Free a.target.kind dest False
            (assignStep a.span dest a.operator) (start.marking a.destination) := by
          rw [htarget]
          exact assignStep_finishes
        simp only [bind_apply, modifyTable_apply, hdest]
        exact course_of_finishes hget (.refl _) False.elim hfinish
    | _ => exact hstop
  rw [if_neg hstep]
  cases hsource : a.source with
  | none => exact hstop
  | some expr =>
      have hV : ∀ x, expr.mentions x = true → a.Reads x :=
        fun x hx => .inl ⟨expr, hsource, hx⟩
      have hfree : ∀ n, n ∉ start.table.names → ctx.Free n := by
        intro n hn
        simpa [start, Context.counting, Context.Free] using hn
      have hquiet : Quiet a.Reads ctx.Free (resolve a.span expr) start _ := resolve_quiet expr hV
      have hresolve := hquiet hfree
      simp only [bind_apply]
      cases hrun : resolve a.span expr start with
      | error e lowered =>
          -- the destination is not marked yet
          rw [hrun] at hresolve
          exact ⟨lowered, hresolve, .inl rfl⟩
      | ok source lowered =>
          rw [hrun] at hresolve
          obtain ⟨hgrows, hfits⟩ := hresolve
          have hmarked : source.Fits
              (Visible a.Reads ctx.Free (lowered.marking a.destination).table) :=
            hfits.mono (Visible.of_typeOf? fun n => by simp [Context.marking])
          have hfinish : Finishes a.Reads ctx.Free a.target.kind dest
              (source.name? = some dest.name) (assignSource dest a expr source)
              (lowered.marking a.destination) :=
            assignSource_finishes hmarked (fun i hi x hx => .inr ⟨i, hi, hx⟩) fun _ _ _ h => h
          -- only a bare variable is a variable's own source, and costs nothing
          have hidle : source.name? = some dest.name → lowered.code = ctx.code := by
            intro hname
            rw [resolve_named hrun hname]
            rfl
          simp only [modifyTable_apply, hdest]
          exact course_of_finishes hget hgrows hidle hfinish

end Lower

theorem lowerAssignment_apply (a : Assignment) (ctx : Context) :
    lowerAssignment a ctx =
      match Lower.assignment a ctx with
      | .ok u ctx' => .ok u ctx'
      | .error e ctx' => .error e (ctx'.rollback ctx.checkpoint) := by
  simp only [lowerAssignment, Lower.atomically]
  cases Lower.assignment a ctx <;> rfl

/-- Cutting back after a failure does not turn it into a success. -/
theorem lowerAssignment_ok_iff {a : Assignment} {ctx ctx' : Context} :
    lowerAssignment a ctx = .ok () ctx' ↔ Lower.assignment a ctx = .ok () ctx' := by
  rw [lowerAssignment_apply]
  cases Lower.assignment a ctx <;> simp

theorem lowerAssignment_ok {a : Assignment} {ctx ctx' : Context}
    (h : Lower.assignment a ctx = .ok () ctx') : lowerAssignment a ctx = .ok () ctx' :=
  lowerAssignment_ok_iff.mpr h

/-- An assignment that succeeds completes. -/
theorem completes_of_ok {a : Assignment} {ctx ctx' : Context}
    (h : lowerAssignment a ctx = .ok () ctx') : ctx.Completes a ctx' := by
  have hcourse := Lower.assignment_course a ctx
  rw [lowerAssignment_ok_iff.mp h] at hcourse
  exact hcourse

/-- An assignment that fails leaves the state in which it stopped, cut back to what had been
emitted before. -/
theorem stops_of_error {a : Assignment} {ctx ctx' : Context} {e : LowerError}
    (h : lowerAssignment a ctx = .error e ctx') :
    ∃ stopped, ctx.Stops a stopped ∧ ctx' = stopped.rollback ctx.checkpoint := by
  have hcourse := Lower.assignment_course a ctx
  rw [lowerAssignment_apply] at h
  cases hrun : Lower.assignment a ctx with
  | ok u ctx'' =>
      rw [hrun] at h
      exact absurd h (by simp)
  | error e' ctx'' =>
      rw [hrun] at h hcourse
      simp only [EStateM.Result.error.injEq] at h
      exact ⟨ctx'', hcourse, h.2.symm⟩

end BoxedLet
