import BoxedLet.CompilationUnit
import BoxedLet.Proofs.Atomic
import BoxedLet.Proofs.Operands

/-!
# BoxedLet.Proofs.Runs

**Assignments in a row.** A call lowers one assignment and leaves a state behind, whether it succeeds
or fails; a run makes one call after the other. Lowering the statements of a function body, if it
succeeds, is a run of all their assignments (`lowerStatements_ok`).

`Context.Advances` says all that a call can do to the state, on both outcomes, as far as later
calls depend on it: it emits instructions that are typed by the new table, of which a failing call
emits none, and adds temporaries to the table. What every call keeps, every run keeps
(`Context.attempts_induction`).
-/

namespace BoxedLet

/-- The implicit receiver of a method. -/
def Symbol.ofReceiver (o : Options) : Symbol where
  name := o.implicitReceiver
  type := .dynamic
  storage := .heapBoxed
  initialized := true

/-- Declaring changes nothing but the symbols. -/
theorem SymbolTable.foldl_declare_eq (declarations : List Declaration) (t : SymbolTable) :
    ∃ symbols, declarations.foldl (fun t d => t.declare d.symbol) t = { t with symbols } := by
  induction declarations generalizing t with
  | nil => exact ⟨t.symbols, rfl⟩
  | cons d declarations ih =>
      obtain ⟨symbols, hsymbols⟩ := ih (t.declare d.symbol)
      refine ⟨symbols, hsymbols.trans ?_⟩
      unfold declare declare?
      split <;> rfl

namespace Context

/-- The state that a call leaves behind. -/
def attempt (ctx : Context) (a : Assignment) : Context :=
  match lowerAssignment a ctx with
  | .ok _ ctx' => ctx'
  | .error _ ctx' => ctx'

/-- The state that a run leaves behind. -/
def attempts (ctx : Context) (calls : List Assignment) : Context :=
  calls.foldl attempt ctx

variable {a : Assignment} {ctx ctx' : Context} {e : LowerError}

theorem attempt_of_ok (h : lowerAssignment a ctx = .ok () ctx') : ctx.attempt a = ctx' := by
  simp only [attempt, h]

theorem attempt_of_error (h : lowerAssignment a ctx = .error e ctx') : ctx.attempt a = ctx' := by
  simp only [attempt, h]

@[simp] theorem attempts_nil (ctx : Context) : ctx.attempts [] = ctx := rfl

@[simp] theorem attempts_cons (ctx : Context) (a : Assignment) (calls : List Assignment) :
    ctx.attempts (a :: calls) = (ctx.attempt a).attempts calls := rfl

theorem attempts_append (ctx : Context) (before after : List Assignment) :
    ctx.attempts (before ++ after) = (ctx.attempts before).attempts after :=
  List.foldl_append

/-- What every call keeps, every run keeps. -/
theorem attempts_induction {P : Context → Prop} (hstep : ∀ ctx a, P ctx → P (ctx.attempt a))
    (calls : List Assignment) (h : P ctx) : P (ctx.attempts calls) := by
  induction calls generalizing ctx with
  | nil => exact h
  | cons a calls ih => exact ih (hstep ctx a h)

/-! ### Where a run starts -/

theorem mem_foldl_declare {declarations : List Declaration} {t : SymbolTable} {s : Symbol}
    (h : s ∈ (declarations.foldl (fun t d => t.declare d.symbol) t).symbols) :
    s ∈ t.symbols ∨ ∃ d ∈ declarations, s = d.symbol := by
  induction declarations generalizing t with
  | nil => exact .inl h
  | cons d declarations ih =>
      rcases ih h with hs | ⟨d', hd', hs⟩
      · -- a declaration adds its symbol at most
        have hs : s ∈ t.symbols ∨ s = d.symbol := by
          dsimp only at hs
          unfold SymbolTable.declare SymbolTable.declare? at hs
          split at hs
          · exact .inl hs
          · simpa [SymbolTable.push] using hs
        exact hs.imp_right fun hs => ⟨d, by simp, hs⟩
      · exact .inr ⟨d', by simp [hd'], hs⟩

/-- A function body starts with the implicit receiver, if it is a method, and what is declared. -/
theorem mem_initial {options : Options} {classDef : Option ClassDef}
    {declarations : List Declaration} {s : Symbol}
    (h : s ∈ (Context.initial options classDef declarations).table.symbols) :
    s = .ofReceiver options ∨ ∃ d ∈ declarations, s = d.symbol := by
  rcases mem_foldl_declare h with hs | hs
  · cases classDef with
    | none => simp [Context.ofOptions] at hs
    | some c =>
        have hs : s = .ofReceiver options := by
          simpa [Symbol.ofReceiver, Context.ofOptions, Context.withClass, SymbolTable.declare,
            SymbolTable.declare?, SymbolTable.contains, SymbolTable.push,
            SymbolTable.markInitialized, SymbolTable.modify] using hs
        exact .inl hs
  · exact .inr hs

/-- All but the symbols of the state in which a function body starts. -/
theorem initial_eq (options : Options) (classDef : Option ClassDef)
    (declarations : List Declaration) :
    ∃ symbols, Context.initial options classDef declarations =
      { options, classDef, table := { symbols, tempPrefix := options.tempPrefix } } := by
  cases classDef with
  | none =>
      obtain ⟨symbols, hsymbols⟩ :=
        SymbolTable.foldl_declare_eq declarations (Context.ofOptions options).table
      exact ⟨symbols, by simp only [Context.initial, hsymbols]; rfl⟩
  | some c =>
      obtain ⟨symbols, hsymbols⟩ :=
        SymbolTable.foldl_declare_eq declarations ((Context.ofOptions options).withClass c).table
      exact ⟨symbols, by simp only [Context.initial, hsymbols]; rfl⟩

/-- Under the given options, nothing has been lowered yet. -/
structure Starts (o : Options) (ctx : Context) : Prop where
  options : ctx.options = o
  code : ctx.code = []
  headers : ctx.headers = {}
  tempPrefix : ctx.table.tempPrefix = o.tempPrefix
  mustGrowStack : ctx.table.mustGrowStack = false

theorem initial_starts (options : Options) (classDef : Option ClassDef)
    (declarations : List Declaration) :
    (Context.initial options classDef declarations).Starts options := by
  obtain ⟨symbols, hinitial⟩ := initial_eq options classDef declarations
  rw [hinitial]
  exact ⟨rfl, rfl, rfl, rfl, rfl⟩

/-! ### What a call can do -/

/-- All that a call can do to the state, as far as later calls depend on it. -/
structure Advances (a : Assignment) (ctx ctx' : Context) (emitted : List Instr) : Prop where
  code : ctx'.code = ctx.code ++ emitted
  options : ctx'.options = ctx.options
  classDef : ctx'.classDef = ctx.classDef
  tempPrefix : ctx'.table.tempPrefix = ctx.table.tempPrefix
  keeps : ctx.table.Keeps ctx'.table
  names : ∀ n ∈ ctx'.table.names, n ∈ ctx.table.names ∨ ctx.table.IsTempName n
  typed : ∀ i ∈ emitted, i.WellTyped ctx'.table.typing ∧ i.WritesTyped ctx'.table a.target.kind

section Names

variable {V T : String → Prop} {lowered ctx'' : Context} {n : String}
  (hgrows : (ctx.counting a.destination).Grows V T lowered)
include hgrows

/-- Names that lowering the source adds to the table are names of temporaries. -/
theorem isTempName_of_lowered (hn : n ∈ lowered.table.names) :
    n ∈ ctx.table.names ∨ ctx.table.IsTempName n := by
  rcases hgrows.isTempName hn with hn | hn
  · exact .inl (by simpa [counting] using hn)
  · exact .inr hn

/-- So are those that are added once the destination has been marked. -/
theorem isTempName_of_marked (hmore : (lowered.marking a.destination).Grows V T ctx'')
    (hn : n ∈ ctx''.table.names) : n ∈ ctx.table.names ∨ ctx.table.IsTempName n := by
  have hstem : (lowered.marking a.destination).table.tempPrefix = ctx.table.tempPrefix :=
    hgrows.tempPrefix
  rcases hmore.isTempName hn with hn | hn
  · simp only [marking, SymbolTable.names_markInitialized] at hn
    exact isTempName_of_lowered hgrows hn
  · exact .inr ((SymbolTable.isTempName_congr hstem).mp hn)

end Names

theorem foldl_book_tempPrefix (tail : List Instr) (t : SymbolTable) :
    (tail.foldl Instr.book t).tempPrefix = t.tempPrefix := by
  induction tail generalizing t with
  | nil => rfl
  | cons i tail ih =>
      rw [List.foldl_cons, ih]
      unfold Instr.book
      split <;> rfl

theorem Completes.advances (h : ctx.Completes a ctx') : ∃ emitted, ctx.Advances a ctx' emitted := by
  obtain ⟨hkeeps, hoptions, emitted, hcode, htyped⟩ := h.emitted
  obtain ⟨-, lowered, ready, tail, hgrows, hready, hends, -⟩ := h
  refine ⟨emitted, hcode, hoptions, ?_, ?_, hkeeps, fun n hn => ?_, htyped⟩
  · exact hends.classDef.trans (hready.classDef.trans hgrows.classDef)
  · rw [hends.table, foldl_book_tempPrefix, hready.tempPrefix]
    exact hgrows.tempPrefix
  · rw [hends.table, Instr.names_foldl_book] at hn
    exact isTempName_of_marked hgrows hready hn

/-- A failing call emits nothing. -/
theorem Stops.advances {stopped : Context} (h : ctx.Stops a stopped) :
    ctx.Advances a (stopped.rollback ctx.checkpoint) [] := by
  have hcode := rollback_code h.code
  obtain ⟨lowered, hgrows, hstop⟩ := id h
  have hcounted : ctx.table.Keeps (ctx.counting a.destination).table :=
    SymbolTable.keeps_countWrite _ _
  refine ⟨by simpa using hcode, h.options, h.classDef, ?_, ?_, ?_, by simp⟩
  · obtain rfl | ⟨-, hmore⟩ := hstop
    · exact hgrows.tempPrefix
    · exact hmore.tempPrefix.trans hgrows.tempPrefix
  · obtain rfl | ⟨-, hmore⟩ := hstop
    · exact hcounted.trans hgrows.keeps
    · have hmarked : lowered.table.Keeps (lowered.marking a.destination).table :=
        SymbolTable.keeps_markInitialized _ _
      exact ((hcounted.trans hgrows.keeps).trans hmarked).trans hmore.keeps
  · intro n hn
    obtain rfl | ⟨-, hmore⟩ := hstop
    · exact isTempName_of_lowered hgrows hn
    · exact isTempName_of_marked hgrows hmore hn

/-- **Every call advances the state.** -/
theorem attempt_advances (ctx : Context) (a : Assignment) :
    ∃ emitted, ctx.Advances a (ctx.attempt a) emitted := by
  cases hrun : lowerAssignment a ctx with
  | ok u ctx' =>
      rw [attempt_of_ok hrun]
      exact (completes_of_ok hrun).advances
  | error e ctx' =>
      rw [attempt_of_error hrun]
      obtain ⟨stopped, hstops, rfl⟩ := stops_of_error hrun
      exact ⟨[], hstops.advances⟩

/-- No name leaves the table. -/
theorem Advances.names_subset {emitted : List Instr} (h : ctx.Advances a ctx' emitted) {n : String}
    (hn : n ∈ ctx.table.names) : n ∈ ctx'.table.names := by
  cases hs : ctx.table.get? n with
  | none => exact absurd hn (SymbolTable.get?_eq_none_iff.mp hs)
  | some s =>
      obtain ⟨s', hs', -⟩ := h.keeps n s hs
      exact SymbolTable.mem_names_of_get? hs'

theorem attempts_names_subset {n : String} (calls : List Assignment) (hn : n ∈ ctx.table.names) :
    n ∈ (ctx.attempts calls).table.names := by
  refine attempts_induction (P := fun ctx' => n ∈ ctx'.table.names) (fun ctx' a h => ?_) calls hn
  obtain ⟨emitted, hadv⟩ := ctx'.attempt_advances a
  exact hadv.names_subset h

theorem attempts_options (ctx : Context) (calls : List Assignment) :
    (ctx.attempts calls).options = ctx.options := by
  refine attempts_induction (P := fun ctx' => ctx'.options = ctx.options) (fun ctx' a h => ?_)
    calls rfl
  obtain ⟨emitted, hadv⟩ := ctx'.attempt_advances a
  exact hadv.options.trans h

/-! ### Names in emitted text -/

/-- Every name that emitted text shows for a variable or a temporary has the property. The one name
that need not have it is the source name of the implicit receiver, because emitted text never shows
it. -/
structure Named (N : String → Prop) (ctx : Context) : Prop where
  receiver : N ctx.options.receiverSymbol
  temps : ∀ n, ctx.table.IsTempName n → N n
  symbols : ∀ n s, ctx.table.get? n = some s →
    N n ∨ ctx.options.isReceiver n = true ∧ s.temporary = false
  written : ∀ i ∈ ctx.code, N (i.written.render ctx.options)

namespace Named

variable {N : String → Prop} {emitted : List Instr}

/-- What the table knows is shown under such a name. -/
theorem render (h : ctx.Named N) {p : Place} {t : StaticType} (hp : ctx.table.typing p t) :
    N (p.render ctx.options) := by
  cases p with
  | var x =>
      obtain ⟨s, hs, -⟩ := SymbolTable.typeOf?_eq_some.mp hp
      rw [Place.render, Options.renderName]
      split
      · exact h.receiver
      · rename_i hreceiver
        exact (h.symbols x s hs).resolve_right fun hx => hreceiver hx.1
  | temp n =>
      obtain ⟨s, hs, htemp, -⟩ := hp
      -- a temporary is never the receiver
      refine (h.symbols n s hs).resolve_right fun hn => ?_
      exact absurd (htemp.symm.trans hn.2) (by decide)

/-- **A call keeps names.** -/
theorem advances (h : ctx.Named N) (hadv : ctx.Advances a ctx' emitted) : ctx'.Named N := by
  have hsymbols : ∀ n s, ctx'.table.get? n = some s →
      N n ∨ ctx'.options.isReceiver n = true ∧ s.temporary = false := by
    intro n s hs
    rw [hadv.options]
    rcases hadv.names n (SymbolTable.mem_names_of_get? hs) with hn | hn
    · cases hs₀ : ctx.table.get? n with
      | none => exact absurd hn (SymbolTable.get?_eq_none_iff.mp hs₀)
      | some s₀ =>
          obtain ⟨s', hs', halike⟩ := hadv.keeps n s₀ hs₀
          obtain rfl : s' = s := Option.some.inj (hs'.symm.trans hs)
          rw [halike.temporary]
          exact h.symbols n s₀ hs₀
    · exact .inl (h.temps n hn)
  have htemps : ∀ n, ctx'.table.IsTempName n → N n :=
    fun n hn => h.temps n ((SymbolTable.isTempName_congr hadv.tempPrefix).mp hn)
  -- all but the new instructions
  have hbefore : Named N { ctx' with code := ctx.code } :=
    ⟨hadv.options ▸ h.receiver, htemps, hsymbols, hadv.options ▸ h.written⟩
  refine { hbefore with written := fun i hi => ?_ }
  rw [hadv.code] at hi
  rcases List.mem_append.mp hi with hi | hi
  · exact hbefore.written i hi
  · obtain ⟨t, hwritten, -⟩ := (hadv.typed i hi).2.admits
    exact hbefore.render hwritten

/-- **A run keeps names.** -/
theorem attempts (h : ctx.Named N) (calls : List Assignment) : (ctx.attempts calls).Named N := by
  refine attempts_induction (fun ctx a h => ?_) calls h
  obtain ⟨emitted, hadv⟩ := ctx.attempt_advances a
  exact h.advances hadv

/-- The names that a run starts with. -/
theorem initial {options : Options} {classDef : Option ClassDef} {declarations : List Declaration}
    (hreceiver : N options.receiverSymbol)
    (htemps : ∀ t : SymbolTable, t.tempPrefix = options.tempPrefix → ∀ n, t.IsTempName n → N n)
    (hnames : ∀ d ∈ declarations, N d.name) :
    (Context.initial options classDef declarations).Named N := by
  have hstart := Context.initial_starts options classDef declarations
  refine ⟨hstart.options.symm ▸ hreceiver, htemps _ hstart.tempPrefix, fun n s hs => ?_, ?_⟩
  · obtain rfl := SymbolTable.name_of_get? hs
    rw [hstart.options]
    rcases Context.mem_initial (List.mem_of_find?_eq_some hs) with rfl | ⟨d, hd, rfl⟩
    · exact .inr ⟨by simp [Symbol.ofReceiver, Options.isReceiver], rfl⟩
    · exact .inl (hnames d hd)
  · rw [hstart.code]
    simp

end Named

end Context

/-! ### Statements -/

/-- Assignments that are lowered one after the other, up to the end, are a run. -/
theorem lowerAssignments_ok {calls : List Assignment} {ctx ctx' : Context}
    (h : lowerAssignments calls ctx = .ok () ctx') : ctx' = ctx.attempts calls := by
  induction calls generalizing ctx with
  | nil =>
      cases h
      rfl
  | cons a calls ih =>
      simp only [lowerAssignments, bind, EStateM.bind] at h
      cases hrun : lowerAssignment a ctx with
      | ok u mid =>
          rw [hrun] at h
          rw [Context.attempts_cons, Context.attempt_of_ok hrun]
          exact ih h
      | error e mid =>
          rw [hrun] at h
          cases h

theorem lowerAssignments_append {ε : Type} [Exits ε] (calls more : List Assignment) :
    (lowerAssignments (calls ++ more) : LowerOr ε Unit) =
      lowerAssignments calls >>= fun _ => lowerAssignments more := by
  induction calls with
  | nil => rfl
  | cons a calls ih => simp only [List.cons_append, lowerAssignments, ih, bind_assoc]

/-- Lowering statements is lowering all their assignments, one after the other. -/
theorem lowerStatements_eq {ε : Type} [Exits ε] (statements : List LetStatement) :
    (lowerStatements statements : LowerOr ε Unit) =
      lowerAssignments (statements.flatMap LetStatement.assignments) := by
  induction statements with
  | nil => rfl
  | cons s statements ih =>
      rw [List.flatMap_cons, lowerAssignments_append, ← ih]
      rfl

/-- **Statements that are lowered up to the end are a run** of all their assignments. -/
theorem lowerStatements_ok {statements : List LetStatement} {ctx ctx' : Context}
    (h : lowerStatements statements ctx = .ok () ctx') :
    ctx' = ctx.attempts (statements.flatMap LetStatement.assignments) := by
  rw [lowerStatements_eq] at h
  exact lowerAssignments_ok h

end BoxedLet
