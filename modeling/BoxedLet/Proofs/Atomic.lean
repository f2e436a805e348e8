import BoxedLet.Proofs.Course

/-!
# BoxedLet.Proofs.Atomic

**A failing assignment is atomic.** Rolling back only cuts the emitted instructions and the headers
back to the lengths they had before; it never touches the symbol table. That this restores both
lists rests on lowering being append-only up to the point where it fails, and that the table needs
no restoring rests on every change of a symbol, other than counting the write and marking the
destination, coming after the last step that can fail. Both are in `Context.Stops`.
-/

namespace BoxedLet

namespace Context

variable {a : Assignment} {ctx ctx' : Context}

/-! ### A state in which an assignment stops -/

namespace Stops

/-- Where an assignment stops, instructions have only been added. -/
theorem code (h : ctx.Stops a ctx') : ctx.code <+: ctx'.code := by
  obtain ⟨lowered, hgrows, rfl | ⟨-, hmore⟩⟩ := h
  · exact hgrows.code
  · exact hgrows.code.trans hmore.code

/-- Where an assignment stops, headers have only been added. -/
theorem headers (h : ctx.Stops a ctx') : ctx.headers.toList <+: ctx'.headers.toList := by
  obtain ⟨lowered, hgrows, rfl | ⟨-, hmore⟩⟩ := h
  · exact hgrows.headers
  · exact hgrows.headers.trans hmore.headers

theorem options (h : ctx.Stops a ctx') : ctx'.options = ctx.options := by
  obtain ⟨lowered, hgrows, rfl | ⟨-, hmore⟩⟩ := h
  · exact hgrows.options
  · exact hmore.options.trans hgrows.options

theorem classDef (h : ctx.Stops a ctx') : ctx'.classDef = ctx.classDef := by
  obtain ⟨lowered, hgrows, rfl | ⟨-, hmore⟩⟩ := h
  · exact hgrows.classDef
  · exact hmore.classDef.trans hgrows.classDef

/-- No step that can still fail asks for room for tracked boxes. -/
theorem mustGrowStack (h : ctx.Stops a ctx') :
    ctx'.table.mustGrowStack = ctx.table.mustGrowStack := by
  obtain ⟨lowered, hgrows, rfl | ⟨-, hmore⟩⟩ := h
  · exact hgrows.mustGrowStack
  · exact hmore.mustGrowStack.trans hgrows.mustGrowStack

end Stops

/-- Marking a declared destination leaves the temporaries alone that were added since. -/
theorem symbols_marking {lowered : Context} {name : String} {before temps : List Symbol}
    (hsymbols : lowered.table.symbols = before ++ temps) (htemps : ∀ t ∈ temps, t.name ≠ name) :
    (lowered.marking name).table.symbols =
      before.map (fun s => if s.name = name then { s with initialized := true } else s) ++
        temps := by
  have hkeep : temps.map (fun s => if s.name = name then { s with initialized := true } else s) =
      temps := by
    refine (List.map_congr_left fun t ht => ?_).trans (List.map_id temps)
    rw [if_neg (htemps t ht)]
    rfl
  simp only [marking, SymbolTable.markInitialized, SymbolTable.modify, hsymbols, List.map_append,
    beq_iff_eq]
  rw [hkeep]

/-- Where an assignment stops, only two things have happened to the symbols that were there: the
write of the destination has been counted, and it may have been marked. -/
theorem Stops.symbols (h : ctx.Stops a ctx') :
    ∃ (marked : Bool) (temps : List Symbol),
      ctx'.table.symbols = ctx.table.symbols.map (fun s =>
        if s.name = a.destination then
          { s with
            mutationCount := s.mutationCount + 1
            initialized := s.initialized || marked }
        else s) ++ temps ∧
      ∀ t ∈ temps, t.temporary = true ∧ t.name ∉ ctx.table.names := by
  obtain ⟨lowered, hgrows, hstop⟩ := h
  obtain ⟨temps, hsymbols, htemps⟩ := hgrows.symbols
  have hnew : ∀ t ∈ temps, t.temporary = true ∧ t.name ∉ ctx.table.names := by
    simpa [counting] using htemps
  simp only [counting, SymbolTable.countWrite, SymbolTable.modify, beq_iff_eq] at hsymbols
  obtain rfl | ⟨hdeclared, hmore⟩ := hstop
  · refine ⟨false, temps, ?_, hnew⟩
    simpa using hsymbols
  · obtain ⟨temps', hsymbols', htemps'⟩ := hmore.symbols
    -- the temporaries of the source are not the destination, and stay unmarked
    have hother : ∀ t ∈ temps, t.name ≠ a.destination := by
      rintro t ht hname
      exact (hnew t ht).2 (hname ▸ hdeclared)
    refine ⟨true, temps ++ temps', ?_, ?_⟩
    · rw [hsymbols', symbols_marking hsymbols hother, List.map_map, List.append_assoc]
      congr 1
      refine List.map_congr_left fun s _ => ?_
      by_cases hs : s.name = a.destination <;> simp [hs]
    · intro t ht
      rcases List.mem_append.mp ht with ht | ht
      · exact hnew t ht
      · refine ⟨(htemps' t ht).1, fun hmem => (htemps' t ht).2 ?_⟩
        simp only [marking, SymbolTable.names_markInitialized]
        apply hgrows.names_subset
        simpa [counting] using hmem

/-! ### Rolling back -/

/-- Cutting back a list that has only been extended restores it. -/
theorem rollback_code (h : ctx.code <+: ctx'.code) :
    (ctx'.rollback ctx.checkpoint).code = ctx.code :=
  (List.prefix_iff_eq_take.mp h).symm

theorem rollback_headers (h : ctx.headers.toList <+: ctx'.headers.toList) :
    (ctx'.rollback ctx.checkpoint).headers = ctx.headers := by
  have htake := (List.prefix_iff_eq_take.mp h).symm
  simp only [rollback, checkpoint, OrderedSet.truncate, htake]

end Context

/-! ### Failing assignments -/

/-- **A failing assignment is atomic.** What has been emitted, the headers and the stack requirement
are what they were. Of the symbols that were there, only the destination changes: its write is
counted, and it may be marked as having a value. All other entries of the table are new
temporaries. -/
theorem failing_assignment_atomic {a : Assignment} {ctx ctx' : Context} {e : LowerError}
    (h : lowerAssignment a ctx = .error e ctx') :
    ctx'.code = ctx.code ∧ ctx'.lines = ctx.lines ∧ ctx'.headers = ctx.headers ∧
      ctx'.options = ctx.options ∧ ctx'.classDef = ctx.classDef ∧
      ctx'.table.mustGrowStack = ctx.table.mustGrowStack ∧
      ∃ (marked : Bool) (temps : List Symbol),
        ctx'.table.symbols = ctx.table.symbols.map (fun s =>
          if s.name = a.destination then
            { s with
              mutationCount := s.mutationCount + 1
              initialized := s.initialized || marked }
          else s) ++ temps ∧
        ∀ t ∈ temps, t.temporary = true ∧ t.name ∉ ctx.table.names := by
  obtain ⟨stopped, hstops, rfl⟩ := stops_of_error h
  have hcode := Context.rollback_code hstops.code
  have hlines : (stopped.rollback ctx.checkpoint).lines = ctx.lines := by
    have hoptions : (stopped.rollback ctx.checkpoint).options = ctx.options := hstops.options
    simp only [Context.lines, hcode, hoptions]
  exact ⟨hcode, hlines, Context.rollback_headers hstops.headers, hstops.options, hstops.classDef,
    hstops.mustGrowStack, hstops.symbols⟩

/-- `b += count(v)` with a boolean `b` and a boxed `v` fails after the call has been lowered. -/
theorem failing_assignment_atomic_call :
    let ctx : Context :=
      { table.symbols :=
          [{ name := "b", type := .bool, storage := .stackOnly },
            { name := "v", type := .dynamic, storage := .heapBoxed }]
        code := [.store (.var "b") .set (.bit true)]
        headers := ⟨[.operators]⟩ }
    let a : Assignment :=
      { target := .whole, destination := "b", operator := .addAssign,
        source := some (.call "count" [.var "v"]) }
    ∃ e ctx', lowerAssignment a ctx = .error e ctx' ∧ ctx'.lines = ctx.lines ∧
      ctx'.headers = ctx.headers ∧ ctx'.table.names = ["b", "v", "_0"] := by
  intro ctx a
  have hrun : ∃ e ctx', lowerAssignment a ctx = .error e ctx' ∧
      ctx'.table.names = ["b", "v", "_0"] :=
    ⟨_, _, rfl, by decide⟩
  obtain ⟨e, ctx', h, hnames⟩ := hrun
  obtain ⟨-, hlines, hheaders, -⟩ := failing_assignment_atomic h
  exact ⟨e, ctx', h, hlines, hheaders, hnames⟩

end BoxedLet
