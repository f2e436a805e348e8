import BoxedLet.Proofs.Runs
import Mathlib.Data.List.Induction

/-!
# BoxedLet.Proofs.Bookkeeping

**The table counts what is emitted.** Of each variable it counts how often it was the destination of a
call and how often its box is initialized by emitted code, and it notes whether the variable has to
be null on entry and whether the frame needs room for tracked boxes.

What is counted is read off instructions: `Instr.initFlag?`, `Instr.marksNull` and
`Instr.growsStack`. Instructions that fill temporaries count nothing, and those at the end of an
assignment count what `Instr.book` notes. `Context.Books` says what one call adds to the books, on
both outcomes, and `Context.Ledger` what they contain after a run.
-/

namespace BoxedLet

/-! ### What is counted -/

namespace Instr

/-- Whether the instruction initializes the box of the variable for the first time or again. -/
def initFlag? (x : String) : Instr → Option Bool
  | init dst first => if dst = .var x then some first else none
  | _ => none

/-- The instructions after which their variable has to be null on entry. -/
def marksNull : Instr → Bool
  | init _ _ | copy _ _ | writeString _ _ _ => true
  | _ => false

/-- The instructions that need room for tracked boxes. -/
def growsStack : Instr → Bool
  | init _ _ | copy _ _ | inPlace _ _ _ => true
  | _ => false

theorem initFlag?_eq_some {i : Instr} {x : String} {first : Bool} :
    i.initFlag? x = some first ↔ i = .init (.var x) first := by
  cases i with
  | init dst flag => simp [initFlag?]
  | _ => simp [initFlag?]

/-- Filling a temporary counts nothing. -/
theorem Computes.counts_nothing {i : Instr} {t : StaticType} (h : i.Computes t) :
    (∀ x, i.initFlag? x = none) ∧ i.marksNull = false ∧ i.growsStack = false := by
  cases i with
  | build | boxed | call | readProperty | fetch | store => exact ⟨fun _ => rfl, rfl, rfl⟩
  | _ => exact h.elim

/-- Behind instructions that fill temporaries, an ending counts what it counts alone. -/
theorem counts_append {fills : List Instr} (hfills : ∀ i ∈ fills, ∃ t, i.Computes t)
    (tail : List Instr) :
    (∀ x, (fills ++ tail).filterMap (initFlag? x) = tail.filterMap (initFlag? x)) ∧
      (fills ++ tail).any marksNull = tail.any marksNull ∧
      (fills ++ tail).any growsStack = tail.any growsStack := by
  induction fills with
  | nil => simp
  | cons i fills ih =>
      obtain ⟨t, hcomputes⟩ := hfills i (by simp)
      obtain ⟨hflag, hnull, hstack⟩ := hcomputes.counts_nothing
      obtain ⟨ihflags, ihnull, ihstack⟩ := ih fun j hj => hfills j (by simp [hj])
      refine ⟨fun x => ?_, ?_, ?_⟩
      · rw [List.cons_append, List.filterMap_cons_none (hflag x), ihflags]
      · rw [List.cons_append, List.any_cons, hnull, ihnull, Bool.false_or]
      · rw [List.cons_append, List.any_cons, hstack, ihstack, Bool.false_or]

/-- Only preparations initialize a box. -/
theorem initFlag?_of_not_preparation {i : Instr} (h : i.isPreparation = false) (x : String) :
    i.initFlag? x = none := by
  cases i with
  | init dst first => simp [isPreparation] at h
  | _ => rfl

/-! ### What an ending notes -/

/-- What noting an instruction does to a symbol. -/
theorem get?_book {t : SymbolTable} {i : Instr} {dest x : String} {s : Symbol}
    (hi : i.written = .var dest) (hs : t.get? x = some s) :
    (i.book t).get? x = some { s with
      mustInitToNull := s.mustInitToNull || (decide (dest = x) && i.marksNull)
      variantInits := s.variantInits + UInt32.ofNat (i.initFlag? x).toList.length } := by
  -- the symbol is that of the written variable or it is not looked at
  have hmodify : ∀ f : Symbol → Symbol, (∀ s, (f s).name = s.name) →
      (t.modify dest f).get? x = some (if dest = x then f s else s) := by
    intro f hf
    by_cases hx : dest = x
    · subst hx
      rw [SymbolTable.get?_modify_self hf hs, if_pos rfl]
    · rw [SymbolTable.get?_modify_of_ne hf (Ne.symm hx), hs, if_neg hx]
  cases i with
  | init dst first =>
      obtain rfl : dst = .var dest := hi
      have hget := hmodify
        (fun s => { s with mustInitToNull := true, variantInits := s.variantInits + 1 })
        fun _ => rfl
      by_cases hx : dest = x <;> simpa [book, SymbolTable.countInit, SymbolTable.growStack,
        SymbolTable.get?, initFlag?, marksNull, hx] using hget
  | copy dst source =>
      obtain rfl : dst = .var dest := hi
      have hget := hmodify (fun s => { s with mustInitToNull := true }) fun _ => rfl
      by_cases hx : dest = x <;> simpa [book, SymbolTable.requireNull, SymbolTable.growStack,
        SymbolTable.get?, initFlag?, marksNull, hx] using hget
  | writeString dst mode source =>
      obtain rfl : dst = .var dest := hi
      have hget := hmodify (fun s => { s with mustInitToNull := true }) fun _ => rfl
      by_cases hx : dest = x <;> simpa [book, SymbolTable.requireNull, initFlag?, marksNull, hx]
        using hget
  | inPlace => simpa [book, SymbolTable.growStack, SymbolTable.get?, initFlag?, marksNull] using hs
  | _ => simpa [book, initFlag?, marksNull] using hs

variable {dest : String} {tail : List Instr}

/-- What noting an ending does to a symbol. -/
theorem get?_foldl_book {t : SymbolTable} {x : String} {s : Symbol}
    (htail : ∀ i ∈ tail, i.written = .var dest) (hs : t.get? x = some s) :
    (tail.foldl book t).get? x = some { s with
      mustInitToNull := s.mustInitToNull || (decide (dest = x) && tail.any marksNull)
      variantInits := s.variantInits + UInt32.ofNat (tail.filterMap (initFlag? x)).length } := by
  induction tail generalizing t s with
  | nil => simpa using hs
  | cons i tail ih =>
      have hi : i.written = .var dest := htail i (by simp)
      have htail' : ∀ j ∈ tail, j.written = .var dest := fun j hj => htail j (by simp [hj])
      have hcount : (i.initFlag? x).toList.length + (tail.filterMap (initFlag? x)).length =
          ((i :: tail).filterMap (initFlag? x)).length := by
        cases hflag : i.initFlag? x with
        | none => simp [hflag]
        | some first => simp [hflag, Nat.add_comm]
      rw [List.foldl_cons, ih htail' (get?_book hi hs)]
      simp only [List.any_cons, ← hcount, UInt32.ofNat_add, UInt32.add_assoc, Bool.or_assoc,
        Bool.and_or_distrib_left]

/-- What noting an ending does to the stack requirement. -/
theorem mustGrowStack_foldl_book (t : SymbolTable) (htail : ∀ i ∈ tail, i.written = .var dest) :
    (tail.foldl book t).mustGrowStack = (t.mustGrowStack || tail.any growsStack) := by
  induction tail generalizing t with
  | nil => simp
  | cons i tail ih =>
      have hi : i.written = .var dest := htail i (by simp)
      have hstep : (i.book t).mustGrowStack = (t.mustGrowStack || i.growsStack) := by
        cases i with
        | init dst | copy dst =>
            obtain rfl : dst = .var dest := hi
            simp [book, SymbolTable.growStack, growsStack]
        | inPlace => simp [book, SymbolTable.growStack, growsStack]
        | writeString dst =>
            obtain rfl : dst = .var dest := hi
            simp [book, SymbolTable.requireNull, SymbolTable.modify, growsStack]
        | _ => simp [book, growsStack]
      rw [List.foldl_cons, ih _ fun j hj => htail j (by simp [hj]), hstep, List.any_cons,
        Bool.or_assoc]

end Instr

open Instr

namespace Context

variable {a : Assignment} {ctx ctx' : Context} {x : String} {s : Symbol}

/-- An ending initializes at most one box, once: the box of the destination, if the destination as a
whole is a box on the heap. -/
theorem Ends.initFlags {Γ : Typing} {kind : TargetKind} {dest : String} {tail : List Instr}
    (h : ctx.Ends Γ kind dest tail ctx') (hs : ctx.table.get? x = some s) :
    tail.filterMap (initFlag? x) = [] ∨
      tail.filterMap (initFlag? x) = [s.variantInits == 0] ∧ dest = x ∧ kind = .whole ∧
        s.type = .dynamic ∧ s.storage = .heapBoxed := by
  obtain ⟨hclosing, hexpects, hinits⟩ := h
  cases hclosing with
  | nothing => exact .inl rfl
  | one _ hprep _ => exact .inl (by simp [initFlag?_of_not_preparation hprep])
  | @two p i _ hpdst _ hprep _ =>
      cases hflag : p.initFlag? x with
      | none => exact .inl (by simp [hflag, initFlag?_of_not_preparation hprep])
      | some first =>
          obtain rfl := initFlag?_eq_some.mp hflag
          obtain rfl : x = dest := Place.var.inj hpdst
          have hfirst : first = (s.variantInits == 0) := hinits s hs first (by simp)
          have hbox := hexpects s hs _ (List.mem_cons_self ..)
          refine .inr ⟨?_, rfl, hbox⟩
          rw [← hfirst, List.filterMap_cons_some hflag,
            List.filterMap_cons_none (initFlag?_of_not_preparation hprep x), List.filterMap_nil]

/-! ### What a call adds to the books -/

/-- All that a call adds to the books, besides what it emits. -/
structure Books (a : Assignment) (ctx ctx' : Context) (emitted : List Instr) : Prop where
  code : ctx'.code = ctx.code ++ emitted
  symbol : ∀ x s, ctx.table.get? x = some s → ∃ initialized,
    ctx'.table.get? x = some { s with
      initialized
      mutationCount := s.mutationCount + UInt32.ofNat (if a.destination = x then 1 else 0)
      mustInitToNull := s.mustInitToNull || (decide (a.destination = x) && emitted.any marksNull)
      variantInits := s.variantInits + UInt32.ofNat (emitted.filterMap (initFlag? x)).length }
  /-- A box on the heap is initialized at most once, for the first time if it never was before. -/
  inits : ∀ x s, ctx.table.get? x = some s → emitted.filterMap (initFlag? x) = [] ∨
    emitted.filterMap (initFlag? x) = [s.variantInits == 0] ∧
      s.type = .dynamic ∧ s.storage = .heapBoxed
  /-- The receiver is never initialized, and temporaries are not, unless they are destinations. -/
  initialized : ∀ dst first, .init dst first ∈ emitted →
    ∃ y ∈ ctx.table.names, dst = .var y ∧ ctx.options.isReceiver y = false
  stack : ctx'.table.mustGrowStack = (ctx.table.mustGrowStack || emitted.any growsStack)
  succeeds : emitted ≠ [] → lowerAssignment a ctx = .ok () ctx'

/-- The symbol of a variable after counting a write. -/
theorem get?_counting (hs : ctx.table.get? x = some s) (name : String) :
    (ctx.counting name).table.get? x = some { s with
      mutationCount := s.mutationCount + UInt32.ofNat (if name = x then 1 else 0) } := by
  by_cases hx : name = x
  · subst hx
    rw [if_pos rfl]
    exact SymbolTable.get?_modify_self (fun _ => rfl) hs
  · rw [if_neg hx]
    have hget : (ctx.counting name).table.get? x = ctx.table.get? x :=
      SymbolTable.get?_modify_of_ne (fun _ => rfl) (Ne.symm hx)
    simpa using hget.trans hs

/-- The symbol of a variable after marking one. -/
theorem get?_marking (hs : ctx.table.get? x = some s) (name : String) :
    ∃ initialized, (ctx.marking name).table.get? x = some { s with initialized } := by
  by_cases hx : name = x
  · subst hx
    exact ⟨true, SymbolTable.get?_modify_self (fun _ => rfl) hs⟩
  · have hget : (ctx.marking name).table.get? x = ctx.table.get? x :=
      SymbolTable.get?_modify_of_ne (fun _ => rfl) (Ne.symm hx)
    exact ⟨s.initialized, hget.trans hs⟩

section Along

variable {V T : String → Prop} {lowered ready : Context} {name : String}
  (hgrows : (ctx.counting name).Grows V T lowered)
include hgrows

/-- Lowering the source changes no count but that of the write. -/
theorem get?_lowered (hs : ctx.table.get? x = some s) :
    lowered.table.get? x = some { s with
      mutationCount := s.mutationCount + UInt32.ofNat (if name = x then 1 else 0) } := by
  have hcounted := get?_counting hs name
  exact (hgrows.get? (SymbolTable.mem_names_of_get? hcounted)).trans hcounted

/-- Nor does what is lowered once the destination has been marked. -/
theorem get?_ready (hready : (lowered.marking name).Grows V T ready)
    (hs : ctx.table.get? x = some s) : ∃ initialized,
      ready.table.get? x = some { s with
        initialized
        mutationCount := s.mutationCount + UInt32.ofNat (if name = x then 1 else 0) } := by
  obtain ⟨initialized, hmarked⟩ := get?_marking (get?_lowered hgrows hs) name
  exact ⟨initialized, (hready.get? (SymbolTable.mem_names_of_get? hmarked)).trans hmarked⟩

end Along

/-- The receiver as a whole is no destination. -/
theorem not_isReceiver_of_ok (hrun : lowerAssignment a ctx = .ok () ctx')
    (hkind : a.target.kind = .whole) : ctx.options.isReceiver a.destination = false := by
  obtain ⟨e, hcheck⟩ | ⟨dest, hcheck, -⟩ := Lower.checkedDestination_cases a ctx
  · rw [lowerAssignment_apply] at hrun
    simp only [Lower.assignment, Lower.bind_apply, hcheck] at hrun
    cases hrun
  · obtain ⟨-, -, -, -, hreceiver⟩ := Lower.checkedDestination_ok_iff.mp hcheck
    have hproperty : a.target.isProperty = false := by
      cases htarget : a.target with
      | whole => rfl
      | _ => simp [htarget, Target.kind] at hkind
    simpa [hproperty] using hreceiver

/-- A call that succeeds. -/
theorem books_of_ok (hrun : lowerAssignment a ctx = .ok () ctx') :
    ∃ emitted, ctx.Books a ctx' emitted := by
  obtain ⟨hdest, lowered, ready, tail, hgrows, hready, hends, -⟩ := completes_of_ok hrun
  obtain ⟨fills, hcode, hfills⟩ := hgrows.emitted
  obtain ⟨more, hcode', hmore⟩ := hready.emitted
  have hwritten : ∀ i ∈ tail, i.written = .var a.destination :=
    fun i hi => (hends.closing.forall_mem i hi).1
  have hcomputes : ∀ i ∈ fills ++ more, ∃ t, i.Computes t := by
    intro i hi
    rcases List.mem_append.mp hi with hi | hi
    · obtain ⟨-, n, s, -, -, -, hi⟩ := hfills i hi
      exact ⟨_, hi⟩
    · obtain ⟨-, n, s, -, -, -, hi⟩ := hmore i hi
      exact ⟨_, hi⟩
  obtain ⟨hflags, hnull, hstack⟩ := counts_append hcomputes tail
  refine ⟨fills ++ more ++ tail, ?_, fun x s hs => ?_, fun x s hs => ?_, fun dst first hinit => ?_,
    ?_, fun _ => hrun⟩
  · exact code_of_course hcode hcode' hends.code
  · obtain ⟨initialized, hget⟩ := get?_ready hgrows hready hs
    refine ⟨initialized, ?_⟩
    rw [hends.table, get?_foldl_book hwritten hget, hnull, hflags]
  · obtain ⟨initialized, hget⟩ := get?_ready hgrows hready hs
    rw [hflags]
    refine (hends.initFlags hget).imp_right ?_
    rintro ⟨hflag, -, -, htype, hstorage⟩
    exact ⟨hflag, htype, hstorage⟩
  · rcases List.mem_append.mp hinit with hinit | hinit
    · obtain ⟨t, hinit⟩ := hcomputes _ hinit
      exact hinit.elim
    · cases hs : ctx.table.get? a.destination with
      | none => exact absurd hdest (SymbolTable.get?_eq_none_iff.mp hs)
      | some s =>
          obtain ⟨initialized, hget⟩ := get?_ready hgrows hready hs
          obtain ⟨hkind, -⟩ := hends.expects _ hget _ hinit
          exact ⟨a.destination, hdest, hwritten _ hinit, not_isReceiver_of_ok hrun hkind⟩
  · have hbefore : ready.table.mustGrowStack = ctx.table.mustGrowStack :=
      hready.mustGrowStack.trans hgrows.mustGrowStack
    rw [hends.table, mustGrowStack_foldl_book _ hwritten, hbefore, hstack]

/-- A call that fails counts the write and nothing else. -/
theorem books_of_error {e : LowerError} (hrun : lowerAssignment a ctx = .error e ctx') :
    ctx.Books a ctx' [] := by
  obtain ⟨stopped, hstops, rfl⟩ := stops_of_error hrun
  have hcode := rollback_code hstops.code
  refine ⟨by simpa using hcode, fun x s hs => ?_, fun x s hs => .inl rfl, by simp, ?_, by simp⟩
  · obtain ⟨lowered, hgrows, rfl | ⟨-, hmore⟩⟩ := hstops
    · exact ⟨s.initialized, by simpa [rollback] using get?_lowered hgrows hs⟩
    · obtain ⟨initialized, hget⟩ := get?_ready hgrows hmore hs
      exact ⟨initialized, by simpa [rollback] using hget⟩
  · simpa [rollback] using hstops.mustGrowStack

/-- **What a call adds to the books**, on both outcomes. -/
theorem attempt_books (ctx : Context) (a : Assignment) :
    ∃ emitted, ctx.Books a (ctx.attempt a) emitted := by
  cases hrun : lowerAssignment a ctx with
  | ok u ctx' =>
      rw [attempt_of_ok hrun]
      exact books_of_ok hrun
  | error e ctx' =>
      rw [attempt_of_error hrun]
      exact ⟨[], books_of_error hrun⟩

/-! ### What the books contain after a run -/

/-- A call of the run, with the destination `x`, succeeds and emits an instruction with the given
property. -/
def Emits (start : Context) (calls : List Assignment) (x : String) (P : Instr → Prop) : Prop :=
  ∃ before a after ctx' emitted, calls = before ++ a :: after ∧ a.destination = x ∧
    lowerAssignment a (start.attempts before) = .ok () ctx' ∧
    ctx'.code = (start.attempts before).code ++ emitted ∧ ∃ i ∈ emitted, P i

variable {start : Context} {calls : List Assignment} {emitted : List Instr}

theorem not_emits_nil {P : Instr → Prop} : ¬ start.Emits [] x P := by
  rintro ⟨before, a, after, ctx', emitted, hcalls, -⟩
  simp at hcalls

/-- What one more call contributes. -/
theorem emits_concat {P : Instr → Prop}
    (hbooks : (start.attempts calls).Books a ((start.attempts calls).attempt a) emitted) :
    start.Emits (calls ++ [a]) x P ↔
      start.Emits calls x P ∨ a.destination = x ∧ ∃ i ∈ emitted, P i := by
  constructor
  · rintro ⟨before, b, after, ctx'', more, hcalls, hdest, hrun, hcode, hP⟩
    rcases List.eq_nil_or_concat after with rfl | ⟨after, c, rfl⟩
    · -- it is the last call
      obtain ⟨rfl, hb⟩ := List.append_inj' hcalls rfl
      obtain rfl := List.singleton_inj.mp hb
      have hmore : emitted = more := by
        have hemitted := hbooks.code
        rw [attempt_of_ok hrun, hcode] at hemitted
        exact (List.append_cancel_left hemitted).symm
      exact .inr ⟨hdest, hmore ▸ hP⟩
    · have hcalls : calls ++ [a] = before ++ b :: after ++ [c] := by simpa using hcalls
      obtain ⟨rfl, -⟩ := List.append_inj' hcalls rfl
      exact .inl ⟨before, b, after, ctx'', more, rfl, hdest, hrun, hcode, hP⟩
  · rintro (⟨before, b, after, ctx'', more, rfl, hrest⟩ | ⟨hdest, i, hi, hP⟩)
    · exact ⟨before, b, after ++ [a], ctx'', more, by simp, hrest⟩
    · have hne : emitted ≠ [] := List.ne_nil_of_mem hi
      exact ⟨calls, a, [], _, emitted, rfl, hdest, hbooks.succeeds hne, hbooks.code, i, hi, hP⟩

/-- The books about a variable after a run from `start`. Counters are numbers modulo `2 ^ 32`. -/
structure Ledger (start : Context) (calls : List Assignment) (x : String) (s : Symbol) : Prop where
  inits : ∃ n ≤ calls.length, s.variantInits = UInt32.ofNat n ∧
    (start.attempts calls).code.filterMap (initFlag? x) =
      (List.range n).map (fun k => UInt32.ofNat k == 0) ∧
    (n ≠ 0 → s.type = .dynamic ∧ s.storage = .heapBoxed)
  writes : s.mutationCount = UInt32.ofNat (calls.countP (·.destination = x))
  null : s.mustInitToNull = true ↔ start.Emits calls x (marksNull · = true)

/-- **One more call.** -/
theorem Ledger.step (h : start.Ledger calls x s)
    (hs : (start.attempts calls).table.get? x = some s) (a : Assignment) :
    ∃ s', (start.attempts (calls ++ [a])).table.get? x = some s' ∧ s'.type = s.type ∧
      s'.storage = s.storage ∧ start.Ledger (calls ++ [a]) x s' := by
  obtain ⟨emitted, hbooks⟩ := (start.attempts calls).attempt_books a
  obtain ⟨initialized, hs'⟩ := hbooks.symbol x s hs
  have hrun : start.attempts (calls ++ [a]) = (start.attempts calls).attempt a :=
    attempts_append start calls [a]
  rw [hrun]
  refine ⟨_, hs', rfl, rfl, ?_, ?_, ?_⟩
  · obtain ⟨n, hn, hcount, hflags, hbox⟩ := h.inits
    rw [hrun, hbooks.code, List.filterMap_append, hflags]
    rcases hbooks.inits x s hs with hnone | ⟨hone, hbox'⟩
    · refine ⟨n, by simp; omega, ?_, ?_, hbox⟩
      · simp [hnone, hcount]
      · simp [hnone]
    · refine ⟨n + 1, by simpa using hn, ?_, ?_, fun _ => hbox'⟩
      · simp [hone, hcount]
      · rw [hone, hcount, List.range_succ, List.map_append]
        rfl
  · simp [h.writes, List.countP_append, List.countP_cons]
  · rw [emits_concat hbooks, ← h.null]
    simp

/-- **A run keeps exact books**, if it starts with empty ones. -/
theorem attempts_ledger (hcode : start.code = []) (hs : start.table.get? x = some s)
    (hinits : s.variantInits = 0) (hwrites : s.mutationCount = 0) (hnull : s.mustInitToNull = false)
    (calls : List Assignment) :
    ∃ s', (start.attempts calls).table.get? x = some s' ∧ s'.type = s.type ∧
      s'.storage = s.storage ∧ start.Ledger calls x s' := by
  induction calls using List.reverseRecOn with
  | nil =>
      refine ⟨s, hs, rfl, rfl, ⟨0, by simp, hinits, by simp [hcode], by simp⟩, by simp [hwrites], ?_⟩
      simp [hnull, not_emits_nil]
  | append_singleton calls a ih =>
      obtain ⟨s', hs', htype, hstorage, hledger⟩ := ih
      obtain ⟨s'', hs'', htype', hstorage', hledger'⟩ := hledger.step hs' a
      exact ⟨s'', hs'', htype'.trans htype, hstorage'.trans hstorage, hledger'⟩

/-- Only variables are initialized, and the receiver is not. -/
theorem attempts_initialized (hcode : start.code = []) (calls : List Assignment) {dst : Place}
    {first : Bool} (h : .init dst first ∈ (start.attempts calls).code) :
    ∃ y ∈ (start.attempts calls).table.names, dst = .var y ∧
      start.options.isReceiver y = false := by
  rw [← attempts_options start calls]
  refine attempts_induction (P := fun ctx => ∀ dst first, .init dst first ∈ ctx.code →
    ∃ y ∈ ctx.table.names, dst = .var y ∧ ctx.options.isReceiver y = false)
    (fun ctx a hctx dst first hinit => ?_) calls (by simp [hcode]) dst first h
  obtain ⟨emitted, hbooks⟩ := ctx.attempt_books a
  -- the instruction is an old one or one of the call
  have hold : ∃ y ∈ ctx.table.names, dst = .var y ∧ ctx.options.isReceiver y = false := by
    rw [hbooks.code] at hinit
    rcases List.mem_append.mp hinit with hinit | hinit
    · exact hctx dst first hinit
    · exact hbooks.initialized dst first hinit
  obtain ⟨y, hy, hdst, hreceiver⟩ := hold
  have hoptions : (ctx.attempt a).options = ctx.options := attempts_options ctx [a]
  refine ⟨y, ?_, hdst, hoptions ▸ hreceiver⟩
  cases hs : ctx.table.get? y with
  | none => exact absurd hy (SymbolTable.get?_eq_none_iff.mp hs)
  | some s =>
      obtain ⟨initialized, hs'⟩ := hbooks.symbol y s hs
      exact SymbolTable.mem_names_of_get? hs'

/-- The frame needs room for tracked boxes if an instruction does. -/
theorem attempts_mustGrowStack (hstart : ctx.table.mustGrowStack = ctx.code.any growsStack)
    (calls : List Assignment) :
    (ctx.attempts calls).table.mustGrowStack = (ctx.attempts calls).code.any growsStack := by
  refine attempts_induction (P := fun ctx => ctx.table.mustGrowStack = ctx.code.any growsStack)
    (fun ctx a h => ?_) calls hstart
  obtain ⟨emitted, hbooks⟩ := ctx.attempt_books a
  rw [hbooks.stack, hbooks.code, List.any_append, h]

end Context

end BoxedLet
