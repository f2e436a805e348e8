import BoxedLet.Proofs.Allocation
import BoxedLet.Proofs.Bookkeeping
import BoxedLet.Proofs.Emission
import BoxedLet.Proofs.Extension

/-!
# BoxedLet.Proofs.Limits

**What limits of the machine a function body can run into.** Of the numbers that lowering computes,
three are counters and the others are sizes of lines. The counter of the search for temporaries is
bounded by the size of the body (`Context.attempts_length`), and the two counters of a symbol by the
number of assignments (`Context.CountsUpTo.attempts`), so that no counter wraps in a body of fewer
than `UInt32.size` assignments.

Lines are bounded by nothing. Lowering breaks off exactly where it emits an instruction whose line
no text can hold, and else it is what it is without limits (`CompilationUnit.compile?_cases`).
-/

namespace BoxedLet

open Instr

/-! ### Breaking off -/

/-- What lowering the assignment emits, even if it fails later on. -/
def Assignment.emitted (a : Assignment) (ctx : Context) : List Instr :=
  (stateOf (Lower.assignment a ctx)).code.drop ctx.code.length

namespace Context

variable {a : Assignment} {calls : List Assignment} {ctx mid : Context}

/-- An assignment of the run emits an instruction whose line no text can hold, even if it fails
later on, and all before it succeed. -/
def Overflows (ctx : Context) (calls : List Assignment) : Prop :=
  ∃ before a after mid, calls = before ++ a :: after ∧
    lowerAssignments before ctx = .ok () mid ∧
    ∃ i ∈ a.emitted mid, i.Overfull ctx.options

theorem not_overflows_nil (ctx : Context) : ¬ ctx.Overflows [] := by
  intro h
  obtain ⟨before, a, after, mid, hcalls, -⟩ := h
  simp at hcalls

/-- What is emitted is what the code ends with. -/
theorem Mirrored.emitted_eq {emitted : List Instr} {r : EStateM.Result Halt Context Unit}
    (h : ctx.Mirrored emitted (Lower.assignment a ctx) r) : a.emitted ctx = emitted := by
  rw [Assignment.emitted, h.code, List.drop_left]

theorem options_of_ok (h : lowerAssignment a ctx = .ok () mid) : mid.options = ctx.options := by
  obtain ⟨emitted, hmirrored⟩ := Lower.assignment_mirrors a ctx
  have hoptions := hmirrored.options
  rwa [lowerAssignment_ok_iff.mp h] at hoptions

/-- A run overflows at its first assignment or behind it. -/
theorem overflows_cons :
    ctx.Overflows (a :: calls) ↔
      (∃ i ∈ a.emitted ctx, i.Overfull ctx.options) ∨
        ∃ mid, lowerAssignment a ctx = .ok () mid ∧ mid.Overflows calls := by
  constructor
  · intro h
    obtain ⟨before, b, after, last, hcalls, hbefore, hover⟩ := h
    cases before with
    | nil =>
        obtain ⟨rfl, -⟩ := List.cons.inj hcalls
        cases hbefore
        exact .inl hover
    | cons c before =>
        obtain ⟨rfl, hrest⟩ := List.cons.inj hcalls
        rw [lowerAssignments, Lower.bind_apply] at hbefore
        cases hrun : lowerAssignment a ctx with
        | ok u mid =>
            rw [hrun] at hbefore
            rw [← options_of_ok hrun] at hover
            exact .inr ⟨mid, rfl, before, b, after, last, hrest, hbefore, hover⟩
        | error e mid =>
            rw [hrun] at hbefore
            cases hbefore
  · intro h
    obtain hover | ⟨mid, hrun, before, b, after, last, hcalls, hbefore, hover⟩ := h
    · exact ⟨[], a, calls, ctx, rfl, rfl, hover⟩
    · rw [options_of_ok hrun] at hover
      refine ⟨a :: before, b, after, last, by rw [hcalls]; rfl, ?_, hover⟩
      rw [lowerAssignments, Lower.bind_apply, hrun]
      exact hbefore

end Context

/-- **An assignment breaks off exactly if it emits a line that does not fit**, and else it is
lowered as if there was no limit. -/
theorem lowerAssignment_cases (a : Assignment) (ctx : Context) :
    (∃ i ∈ a.emitted ctx, i.Overfull ctx.options) ∧
        (∃ ctx', lowerAssignment a ctx = .error Halt.brokenOff ctx') ∨
      ¬ (∃ i ∈ a.emitted ctx, i.Overfull ctx.options) ∧
        lowerAssignment a ctx = unlimited (lowerAssignment a ctx) := by
  obtain ⟨emitted, hmirrored⟩ := Lower.assignment_mirrors a ctx
  rw [hmirrored.emitted_eq]
  obtain ⟨hfits, hrun⟩ | ⟨hover, ctx', hrun⟩ := hmirrored.outcome
  · refine .inr ⟨by simpa using hfits, ?_⟩
    rw [lowerAssignment, Lower.atomically, hrun, lowerAssignment, Lower.atomically]
    cases Lower.assignment a ctx <;> rfl
  · refine .inl ⟨hover, ctx'.rollback ctx.checkpoint, ?_⟩
    rw [lowerAssignment, Lower.atomically, hrun]

/-- **A run breaks off exactly if it overflows**, and else it is what it is without a limit. -/
theorem lowerAssignments_cases (calls : List Assignment) (ctx : Context) :
    ctx.Overflows calls ∧ (∃ ctx', lowerAssignments calls ctx = .error Halt.brokenOff ctx') ∨
      ¬ ctx.Overflows calls ∧
        lowerAssignments calls ctx = unlimited (lowerAssignments calls ctx) := by
  induction calls generalizing ctx with
  | nil => exact .inr ⟨ctx.not_overflows_nil, rfl⟩
  | cons a calls ih =>
      rw [Context.overflows_cons, lowerAssignments, lowerAssignments, Lower.bind_apply,
        Lower.bind_apply]
      obtain ⟨hover, ctx', hrun⟩ | ⟨hfits, hrun⟩ := lowerAssignment_cases a ctx
      · rw [hrun]
        exact .inl ⟨.inl hover, ctx', rfl⟩
      · rw [hrun]
        cases hlower : (lowerAssignment a : Lower Unit) ctx with
        | error e mid => simp [hfits, unlimited]
        | ok u mid => simpa [hfits, unlimited] using ih mid

/-- **A run that succeeds overflows if a line of what it emitted does not fit.** -/
theorem overflows_iff_of_ok {calls : List Assignment} {ctx final : Context}
    (hrun : lowerAssignments calls ctx = .ok () final) :
    ∃ emitted, final.code = ctx.code ++ emitted ∧
      (ctx.Overflows calls ↔ ∃ i ∈ emitted, i.Overfull ctx.options) := by
  induction calls generalizing ctx with
  | nil =>
      cases hrun
      exact ⟨[], by simp, by simp [Context.not_overflows_nil]⟩
  | cons a calls ih =>
      rw [lowerAssignments, Lower.bind_apply] at hrun
      cases hfirst : lowerAssignment a ctx with
      | error e mid =>
          rw [hfirst] at hrun
          cases hrun
      | ok u mid =>
          rw [hfirst] at hrun
          obtain ⟨first, hmirrored⟩ := Lower.assignment_mirrors a ctx
          obtain ⟨second, hsecond, hiff⟩ := ih hrun
          have hmid : mid.code = ctx.code ++ first := by
            have hcode := hmirrored.code
            rwa [lowerAssignment_ok_iff.mp hfirst] at hcode
          refine ⟨first ++ second, by rw [hsecond, hmid, List.append_assoc], ?_⟩
          simp only [Context.overflows_cons, hmirrored.emitted_eq, hfirst,
            EStateM.Result.ok.injEq, true_and, exists_eq_left', hiff, Context.options_of_ok hfirst,
            List.mem_append, or_and_right, exists_or]

/-! ### Counters of symbols -/

/-- Adding to a counter does not wrap below its end. -/
theorem toNat_add_ofNat {count : UInt32} {n : Nat} (h : count.toNat + n < UInt32.size) :
    (count + UInt32.ofNat n).toNat = count.toNat + n := by
  rw [UInt32.toNat_add, UInt32.toNat_ofNat', Nat.add_mod_mod]
  exact Nat.mod_eq_of_lt h

namespace Context

variable {V T : String → Prop} {a : Assignment} {ctx ctx' : Context} {x : String} {s : Symbol}

/-- A symbol that lowering adds is a temporary that has been written once. -/
theorem Grows.ofTemporary (h : ctx.Grows V T ctx') (hx : x ∉ ctx.table.names)
    (hs : ctx'.table.get? x = some s) : ∃ type, s = .ofTemporary x type := by
  induction h with
  | refl => exact absurd (SymbolTable.mem_names_of_get? hs) hx
  | needing _ _ ih => exact ih hs
  | @filling ctx' type _ _ _ _ _ _ ih =>
      simp only [Context.filling, SymbolTable.get?_newTemporary] at hs
      split at hs
      · rename_i hname
        rw [hname]
        exact ⟨type, (Option.some.inj hs).symm⟩
      · exact ih hs

section New

variable {lowered ready : Context} (hx : x ∉ ctx.table.names)
  (hgrows : (ctx.counting a.destination).Grows V T lowered)
include hx hgrows

theorem ofTemporary_lowered (hs : lowered.table.get? x = some s) :
    ∃ type, s = .ofTemporary x type :=
  hgrows.ofTemporary (by simpa [counting] using hx) hs

/-- Marking the destination, which was there before, is no change of it. -/
theorem ofTemporary_ready (hdest : a.destination ∈ ctx.table.names)
    (hready : (lowered.marking a.destination).Grows V T ready)
    (hs : ready.table.get? x = some s) : ∃ type, s = .ofTemporary x type := by
  by_cases hlowered : x ∈ lowered.table.names
  · have hne : x ≠ a.destination := fun hname => hx (hname ▸ hdest)
    have hmarked : (lowered.marking a.destination).table.get? x = lowered.table.get? x :=
      SymbolTable.get?_modify_of_ne (fun _ => rfl) hne
    rw [hready.get? (by simpa [marking] using hlowered), hmarked] at hs
    exact ofTemporary_lowered hx hgrows hs
  · exact hready.ofTemporary (by simpa [marking] using hlowered) hs

end New

/-- **A symbol that a call adds has been written once**, and no box has been initialized for it. -/
theorem attempt_new (hx : x ∉ ctx.table.names) (hs : (ctx.attempt a).table.get? x = some s) :
    s.mutationCount = 1 ∧ s.variantInits = 0 := by
  cases hrun : lowerAssignment a ctx with
  | error e ctx' =>
      rw [attempt_of_error hrun] at hs
      obtain ⟨stopped, ⟨lowered, hgrows, hstop⟩, rfl⟩ := stops_of_error hrun
      have hstopped : stopped.table.get? x = some s := hs
      have htemporary : ∃ type, s = .ofTemporary x type := by
        obtain rfl | ⟨hdest, hmore⟩ := hstop
        · exact ofTemporary_lowered hx hgrows hstopped
        · exact ofTemporary_ready hx hgrows hdest hmore hstopped
      obtain ⟨type, rfl⟩ := htemporary
      exact ⟨rfl, rfl⟩
  | ok u ctx' =>
      rw [attempt_of_ok hrun] at hs
      obtain ⟨hdest, lowered, ready, tail, hgrows, hready, hends, -⟩ := completes_of_ok hrun
      cases hs₀ : ready.table.get? x with
      | none =>
          have hnone : x ∉ ctx'.table.names := by
            rw [hends.table, Instr.names_foldl_book]
            exact SymbolTable.get?_eq_none_iff.mp hs₀
          exact absurd (SymbolTable.mem_names_of_get? hs) hnone
      | some s₀ =>
          -- the ending notes nothing about symbols other than the destination
          have hflags : tail.filterMap (initFlag? x) = [] := by
            rcases hends.initFlags hs₀ with hflags | ⟨-, hname, -⟩
            · exact hflags
            · exact absurd (hname ▸ hdest) hx
          rw [hends.table, get?_foldl_book (fun i hi => (hends.closing.forall_mem i hi).1) hs₀,
            hflags, Option.some.injEq] at hs
          obtain ⟨type, rfl⟩ := ofTemporary_ready hx hgrows hdest hready hs₀
          subst hs
          exact ⟨rfl, rfl⟩

/-- No counter of a symbol has gone beyond `n`. -/
def CountsUpTo (n : Nat) (ctx : Context) : Prop :=
  ∀ x s, ctx.table.get? x = some s → s.mutationCount.toNat ≤ n ∧ s.variantInits.toNat ≤ n

/-- What a call adds to the counters of a symbol, as numbers. -/
structure Counts (a : Assignment) (ctx ctx' : Context) (x : String) (s s' : Symbol) : Prop where
  found : ctx'.table.get? x = some s'
  writes : s'.mutationCount.toNat =
    s.mutationCount.toNat + if a.destination = x then 1 else 0
  inits : ∃ emitted, ctx'.code = ctx.code ++ emitted ∧
    s'.variantInits.toNat = s.variantInits.toNat + (emitted.filterMap (initFlag? x)).length ∧
    (emitted.filterMap (initFlag? x)).length ≤ 1

/-- **A call counts without wrapping**, where counters are not at their end. -/
theorem CountsUpTo.counts {n : Nat} (h : ctx.CountsUpTo n) (hn : n + 1 < UInt32.size)
    (a : Assignment) (hs : ctx.table.get? x = some s) :
    ∃ s', Counts a ctx (ctx.attempt a) x s s' := by
  obtain ⟨hwrites, hinits⟩ := h x s hs
  obtain ⟨emitted, hbooks⟩ := ctx.attempt_books a
  obtain ⟨initialized, hs'⟩ := hbooks.symbol x s hs
  have hflags : (emitted.filterMap (initFlag? x)).length ≤ 1 := by
    rcases hbooks.inits x s hs with hnone | ⟨hone, -⟩
    · simp [hnone]
    · simp [hone]
  refine ⟨_, hs', toNat_add_ofNat ?_, emitted, hbooks.code, toNat_add_ofNat ?_, hflags⟩
  · split <;> omega
  · omega

/-- One call more can count one more. -/
theorem CountsUpTo.attempt {n : Nat} (h : ctx.CountsUpTo n) (hn : n + 1 < UInt32.size)
    (a : Assignment) : (ctx.attempt a).CountsUpTo (n + 1) := by
  intro x s' hs'
  cases hs : ctx.table.get? x with
  | none =>
      obtain ⟨hwrites, hinits⟩ := attempt_new (SymbolTable.get?_eq_none_iff.mp hs) hs'
      rw [hwrites, hinits]
      exact ⟨by simp, by simp⟩
  | some s =>
      obtain ⟨s'', hcounts⟩ := h.counts hn a hs
      obtain rfl : s'' = s' := Option.some.inj (hcounts.found.symm.trans hs')
      obtain ⟨emitted, -, hinits, hflags⟩ := hcounts.inits
      have hbefore := h x s hs
      rw [hcounts.writes, hinits]
      exact ⟨by split <;> omega, by omega⟩

/-- **A run counts at most one for each of its calls.** -/
theorem CountsUpTo.attempts {n : Nat} {calls : List Assignment} (h : ctx.CountsUpTo n)
    (hn : n + calls.length < UInt32.size) :
    (ctx.attempts calls).CountsUpTo (n + calls.length) := by
  induction calls generalizing ctx n with
  | nil => exact h
  | cons a calls ih =>
      simp only [List.length_cons] at hn
      have hrest := ih (h.attempt (by omega) a) (by omega)
      rw [List.length_cons, attempts_cons, ← Nat.add_assoc, Nat.add_right_comm]
      exact hrest

end Context

/-! ### Function bodies -/

namespace CompilationUnit

variable (u : CompilationUnit)

theorem start_options : u.start.options = u.options :=
  (Context.initial_starts u.options u.classDef u.declarations).options

/-- An assignment that is reached emits an instruction whose line no text can hold. -/
def Overflows : Prop :=
  u.start.Overflows u.assignments

/-- **Compiling breaks off exactly if the body overflows**, and else it is what it is without a
limit. -/
theorem compile?_cases :
    u.Overflows ∧ u.compile? = none ∨ ¬ u.Overflows ∧ u.compile? = some u.compile := by
  rw [compile?, compile, lowerStatements_eq, lowerStatements_eq]
  obtain ⟨hover, ctx', hrun⟩ | ⟨hfits, hrun⟩ := lowerAssignments_cases u.assignments u.start
  · rw [assignments, start] at hrun
    rw [hrun]
    exact .inl ⟨hover, rfl⟩
  · rw [assignments, start] at hrun
    rw [hrun]
    refine .inr ⟨hfits, ?_⟩
    cases (lowerAssignments (u.statements.flatMap LetStatement.assignments) : Lower Unit)
      (Context.initial u.options u.classDef u.declarations) <;> rfl

theorem compile?_eq_none_iff : u.compile? = none ↔ u.Overflows := by
  obtain ⟨hover, hrun⟩ | ⟨hfits, hrun⟩ := u.compile?_cases
  · simp [hrun, hover]
  · simp [hrun, hfits]

theorem compile?_eq_some (h : ¬ u.Overflows) : u.compile? = some u.compile := by
  obtain ⟨hover, -⟩ | ⟨-, hrun⟩ := u.compile?_cases
  · exact absurd hover h
  · exact hrun

/-- A body that would compile breaks off if one of its lines does not fit. -/
theorem compile?_eq_none_iff_of_ok {out : Compiled} (h : u.compile = .ok out) :
    u.compile? = none ↔ ∃ line ∈ out.lines,
      textCapacity < 2 * u.options.listing.marginSize ∨ textCapacity < line.utf8ByteSize := by
  obtain ⟨final, hfinal, rfl⟩ := compile_eq_ok_iff.mp h
  have hstart := Context.initial_starts u.options u.classDef u.declarations
  obtain ⟨emitted, hcode, hiff⟩ := overflows_iff_of_ok hfinal
  have hemitted : final.code = emitted := by
    rw [hcode, start, hstart.code, List.nil_append]
  have hoptions : final.options = u.options := by
    rw [lowerAssignments_ok hfinal, Context.attempts_options, start_options]
  rw [compile?_eq_none_iff, Overflows, hiff, u.start_options, Context.compiled, Context.lines_eq,
    hemitted, hoptions]
  simp [Instr.Overfull]

/-- The counter of the search for temporaries is bounded by the number of symbols, and that by the
size of what has been lowered. -/
theorem nextTemp_le (calls : List Assignment) :
    (u.start.attempts calls).table.nextTemp ≤ (u.start.attempts calls).table.symbols.length ∧
      (u.start.attempts calls).table.symbols.length ≤
        u.declarations.length + 1 + 2 * Assignment.sizeAll calls := by
  have hconsumed : u.start.table.Consumed := by
    obtain ⟨symbols, hstart⟩ := Context.initial_eq u.options u.classDef u.declarations
    intro k hk
    rw [start, hstart] at hk
    exact absurd hk (Nat.not_lt_zero k)
  have hlength : u.start.table.symbols.length ≤ u.declarations.length + 1 :=
    Context.length_initial u.options u.classDef u.declarations
  have hrun := u.start.attempts_length calls
  exact ⟨(Context.attempts_consumed hconsumed calls).nextTemp_le, by omega⟩

/-- Nothing has been counted before the first assignment. -/
theorem start_countsUpTo : u.start.CountsUpTo 0 := by
  intro x s hs
  rcases Context.mem_initial (List.mem_of_find?_eq_some hs) with rfl | ⟨d, -, rfl⟩
  · exact ⟨Nat.le_refl 0, Nat.le_refl 0⟩
  · exact ⟨Nat.le_refl 0, Nat.le_refl 0⟩

/-- The counters of symbols count exactly, if there are fewer assignments than they can count. -/
theorem counts_of_length_lt {before after : List Assignment} {a : Assignment} {x : String}
    {s : Symbol} (hcalls : u.assignments = before ++ a :: after)
    (hlength : u.assignments.length < UInt32.size)
    (hs : (u.start.attempts before).table.get? x = some s) :
    ∃ s', Context.Counts a (u.start.attempts before) (u.start.attempts (before ++ [a])) x s s' := by
  have hbefore : before.length + 1 < UInt32.size := by
    rw [hcalls, List.length_append, List.length_cons] at hlength
    omega
  have hcounts : (u.start.attempts before).CountsUpTo (0 + before.length) :=
    u.start_countsUpTo.attempts (by omega)
  rw [Nat.zero_add] at hcounts
  rw [Context.attempts_append]
  exact hcounts.counts hbefore a hs

/-- **What limits a function body can run into.** Compiling it returns what it returns without
limits, unless an assignment that is reached emits an instruction whose line no text can hold:
twice the margin, or the margin with the rest of the line, is more than the most that a text can
have room for. A body that would compile breaks off if that is so of a line of its code. No counter
is a limit: the one of the search for temporaries is bounded by the number of symbols, and that by
the size of what has been lowered, and the counters of symbols count without wrapping as long as
there are fewer assignments than a counter can count. -/
theorem compile_breaks_off_iff :
    (u.compile? = some u.compile ∨ u.compile? = none) ∧
      (u.compile? = none ↔ ∃ before a after mid, u.assignments = before ++ a :: after ∧
        lowerAssignments before u.start = .ok () mid ∧
        ∃ i ∈ a.emitted mid,
          textCapacity < 2 * u.options.listing.marginSize ∨
            textCapacity < u.options.listing.marginSize + (i.render u.options).utf8ByteSize) ∧
      (∀ out, u.compile = .ok out → (u.compile? = none ↔ ∃ line ∈ out.lines,
        textCapacity < 2 * u.options.listing.marginSize ∨ textCapacity < line.utf8ByteSize)) ∧
      (∀ calls, (u.start.attempts calls).table.nextTemp ≤
          (u.start.attempts calls).table.symbols.length ∧
        (u.start.attempts calls).table.symbols.length ≤
          u.declarations.length + 1 + 2 * Assignment.sizeAll calls) ∧
      ∀ before a after, u.assignments = before ++ a :: after →
        u.assignments.length < UInt32.size →
        ∀ x s, (u.start.attempts before).table.get? x = some s →
          ∃ s', Context.Counts a (u.start.attempts before) (u.start.attempts (before ++ [a]))
            x s s' := by
  have hreturns : u.compile? = some u.compile ∨ u.compile? = none := by
    obtain ⟨-, hrun⟩ | ⟨-, hrun⟩ := u.compile?_cases
    · exact .inr hrun
    · exact .inl hrun
  refine ⟨hreturns, ?_, fun _ hout => u.compile?_eq_none_iff_of_ok hout, u.nextTemp_le,
    fun _ _ _ hcalls hlength _ _ hs => u.counts_of_length_lt hcalls hlength hs⟩
  rw [compile?_eq_none_iff, Overflows, Context.Overflows, u.start_options]
  simp only [Instr.Overfull, Instr.utf8ByteSize_line]

/-- `v = f(1, w)` with an undeclared `w`, in a body whose lines are indented as deep as a level can
say. -/
def marginUnit : CompilationUnit where
  options := { indentLevel := 18446744073709551615 }
  declarations := [{ name := "v", type := .dynamic }]
  statements :=
    [{ assignments :=
        [{ target := .whole, destination := "v",
           source := some (.call "f" [.int 1, .var "w"]) }] }]

/-- **A margin that is too long breaks the lowering off**, here at the first argument, before the
undeclared one would have been reported. -/
theorem margin_breaks_off :
    (∃ e, marginUnit.compile = .error e ∧ e.cause = .undeclaredVariable "w" .read) ∧
      marginUnit.compile? = none :=
  ⟨⟨_, rfl, rfl⟩, rfl⟩

/-- A margin of half a text is too long already, as a full text doubles. -/
example : CompilationUnit.compile?
    { marginUnit with options := { indentLevel := 4611686018427387904 } } = none := by
  rfl

end CompilationUnit

end BoxedLet
