import BoxedLet.Proofs.Bookkeeping
import BoxedLet.Proofs.LineText

/-!
# BoxedLet.Proofs.BookedLines

**The books are exact**, as far as one can tell from the emitted text.

A line that initializes the box of a variable is recognized by its whole text, which works for any
prefix of temporaries. The other lines that count are recognized by the primitive that they invoke.
Primitives are told apart by how their names end: no name of a primitive that counts is the end of
the name of another primitive, or the other way round.
-/

namespace BoxedLet

open Lexical Instr

/-! ### Primitives that count -/

/-- The macros that need room for tracked boxes. -/
def trackingMacros : List String :=
  ["INIT_VAR", "INIT_NVAR", "CPY_WRT", "ADD_ASSIGN", "SUB_ASSIGN"]

/-- The macro that initializes a box, for the first time or again. -/
def initMacro (first : Bool) : String :=
  if first then "INIT_VAR" else "INIT_NVAR"

theorem initMacro_mem (first : Bool) : initMacro first ∈ trackingMacros := by
  cases first <;> decide

theorem initMacro_inj {a b : Bool} (h : initMacro a = initMacro b) : a = b := by
  revert h
  cases a <;> cases b <;> decide

/-- The macros after which a variable has to be null on entry. -/
def nullingMacros : List String :=
  ["INIT_VAR", "INIT_NVAR", "CPY_WRT"]

/-- The functions that write native strings. -/
def stringFunctions : List String :=
  ["str_assign", "str_assign_char", "str_assign_long",
    "str_append", "str_append_char", "str_append_long"]

namespace Options

/-- Whether the line invokes one of the macros or one of the functions. -/
def invokes (o : Options) (macros functions : List String) (line : String) : Bool :=
  macros.any (fun name => callee? line == some (o.kernelMacro name)) ||
    functions.any fun name => callee? line == some (o.kernelFunction name)

theorem suffix_of_mem_spellings {o : Options} {name f : String} (h : f ∈ o.spellings name) :
    name.toList <:+ f.toList := by
  rcases List.mem_cons.mp h with rfl | h
  · exact List.suffix_refl _
  rcases List.mem_cons.mp h with rfl | h
  · rw [kernelFunction, String.toList_append]
    exact List.suffix_append _ _
  · obtain rfl := List.mem_singleton.mp h
    rw [kernelMacro, String.toList_append]
    exact List.suffix_append _ _

/-- Nothing else is called like a primitive that counts, whatever the kernel prefix is. -/
theorem eq_of_mem_spellings {o : Options} {name other f : String}
    (hname : name ∈ trackingMacros ++ stringFunctions) (hother : other ∈ preparations ++ primitives)
    (hf : f ∈ o.spellings name) (hf' : f ∈ o.spellings other) : other = name := by
  have hends : ∀ m ∈ trackingMacros ++ stringFunctions, ∀ n ∈ preparations ++ primitives,
      m.toList <:+ n.toList ∨ n.toList <:+ m.toList → n = m := by decide
  exact hends name hname other hother
    (List.suffix_or_suffix_of_suffix (suffix_of_mem_spellings hf) (suffix_of_mem_spellings hf'))

end Options

namespace Instr

variable {o : Options} {i : Instr} {f name : String}

/-- The name of a primitive that counts, from what is invoked. -/
theorem primitive?_of_callee (hname : name ∈ trackingMacros ++ stringFunctions)
    (hf : f ∈ o.spellings name) (h : (i.invoked o).map Prod.fst = some f) :
    i.primitive? o = some name := by
  obtain ⟨⟨f, byRef, args⟩, hinvoked, rfl⟩ := Option.map_eq_some_iff.mp h
  obtain ⟨other, hother, hf'⟩ := primitive?_of_invoked hinvoked
  have hmem : other ∈ preparations ++ primitives := by
    cases hprep : i.isPreparation with
    | true => exact List.mem_append_left _ (primitive?_of_isPreparation hprep hother)
    | false => exact List.mem_append_right _ (primitive?_mem hprep hother)
  rw [hother, Options.eq_of_mem_spellings hname hmem hf hf']

/-- What counts, by the names of primitives. -/
theorem counts_eq (o : Options) (i : Instr) :
    i.growsStack = (i.primitive? o).any (· ∈ trackingMacros) ∧
      i.marksNull = (i.primitive? o).any (· ∈ nullingMacros ++ stringFunctions) := by
  cases i with
  | init dst first => cases first <;> exact ⟨rfl, rfl⟩
  | build dst inFrame content =>
      cases content with
      | scalar kind value => cases kind <;> exact ⟨rfl, rfl⟩
      | _ => exact ⟨rfl, rfl⟩
  | inPlace dst op source => cases op <;> exact ⟨rfl, rfl⟩
  | bump dst inFrame direction => cases direction <;> exact ⟨rfl, rfl⟩
  | writeString dst mode source => cases mode <;> cases source <;> exact ⟨rfl, rfl⟩
  | boxed dst op l r =>
      cases op with
      | arith op => cases op <;> exact ⟨rfl, rfl⟩
      | concat => exact ⟨rfl, rfl⟩
  | fetch dst array key => cases key <;> exact ⟨rfl, rfl⟩
  | update dst key value => cases key <;> exact ⟨rfl, rfl⟩
  | setProperty dst property value =>
      simp only [primitive?]
      split <;> exact ⟨rfl, rfl⟩
  | _ => exact ⟨rfl, rfl⟩

/-- How primitives that count are spelled. -/
theorem callee_of_primitive? (h : i.primitive? o = some name) :
    (name ∈ trackingMacros → (i.invoked o).map Prod.fst = some (o.kernelMacro name)) ∧
      (name ∈ stringFunctions → (i.invoked o).map Prod.fst = some (o.kernelFunction name)) := by
  obtain ⟨hgrows, hnull⟩ := counts_eq o i
  constructor
  · intro hname
    have hgrows : i.growsStack = true := by simpa [h, hname] using hgrows
    cases i with
    | init | copy | inPlace =>
        cases h
        rfl
    | _ => simp [growsStack] at hgrows
  · intro hname
    have hnull : i.marksNull = true := by simpa [h, hname] using hnull
    cases i with
    | init dst first =>
        cases h
        exact absurd hname (by cases first <;> decide)
    | copy =>
        cases h
        exact absurd hname (by decide)
    | writeString =>
        cases h
        rfl
    | _ => simp [marksNull] at hnull

end Instr

/-! ### Lines that count -/

section Lines

variable {o : Options} {i : Instr} (hindent : o.indent.toList.all isBlank = true)
  (hkernel : isIdentifier o.kernelPrefix = true)
include hindent hkernel

/-- A line invokes a primitive that counts if its instruction does. -/
theorem invokes_line {macros functions : List String} (hdst : isWord (i.written.render o) = true)
    (hmacros : ∀ name ∈ macros, name ∈ trackingMacros)
    (hfunctions : ∀ name ∈ functions, name ∈ stringFunctions) :
    o.invokes macros functions (i.line o) = (i.primitive? o).any (· ∈ macros ++ functions) := by
  have hcallee := callee?_line hindent hkernel hdst
  rw [Bool.eq_iff_iff]
  simp only [Options.invokes, hcallee, Bool.or_eq_true, List.any_eq_true, beq_iff_eq,
    Option.any_eq_true, decide_eq_true_eq, List.mem_append]
  constructor
  · rintro (⟨name, hname, hf⟩ | ⟨name, hname, hf⟩)
    · exact ⟨name, primitive?_of_callee (List.mem_append_left _ (hmacros name hname))
        (by simp [Options.spellings]) hf, .inl hname⟩
    · exact ⟨name, primitive?_of_callee (List.mem_append_right _ (hfunctions name hname))
        (by simp [Options.spellings]) hf, .inr hname⟩
  · rintro ⟨name, hprimitive, hname | hname⟩
    · exact .inl ⟨name, hname, (callee_of_primitive? hprimitive).1 (hmacros name hname)⟩
    · exact .inr ⟨name, hname, (callee_of_primitive? hprimitive).2 (hfunctions name hname)⟩

/-- **What counts is recognized by what lines invoke**, if locations are words. -/
theorem counts_line (hdst : isWord (i.written.render o) = true) :
    o.invokes trackingMacros [] (i.line o) = i.growsStack ∧
      o.invokes nullingMacros stringFunctions (i.line o) = i.marksNull := by
  obtain ⟨hgrows, hnull⟩ := counts_eq o i
  constructor
  · rw [invokes_line hindent hkernel hdst (fun _ h => h) (by simp), hgrows, List.append_nil]
  · rw [invokes_line hindent hkernel hdst (by decide) (fun _ h => h), hnull]

omit hindent hkernel in
theorem init_body_toList (p : Place) (first : Bool) :
    ((Instr.init p first).body o).toList =
      (o.kernelMacro (initMacro first)).toList ++
        '(' :: ((p.render o).toList ++ [')']) := by
  simp [Instr.body, invocation, initMacro]

omit hindent in
/-- A native assignment or step is not written like an initialization. -/
theorem native_ne_init {x : String} {first : Bool} (hx : isWord (o.renderName x) = true)
    (hnative : i.invoked o = none) :
    (i.body o).toList ≠ ((Instr.init (.var x) first).body o).toList := by
  intro hbody
  -- an initialization is made of words and parentheses only
  have hchars : ∀ c ∈ (i.body o).toList, isWordChar c = true ∨ c = '(' ∨ c = ')' := by
    intro c hc
    have hmacro : isRuntimePart (o.kernelMacro (initMacro first)) = true :=
      kernelMacro_isRuntimePart (isWordChar_of_isIdentifier hkernel) (by cases first <;> decide)
    rw [hbody, init_body_toList] at hc
    have hc : c ∈ (o.kernelMacro (initMacro first)).toList ∨ c = '(' ∨
        c ∈ (o.renderName x).toList ∨ c = ')' := by
      simpa [Place.render] using hc
    rcases hc with hc | hc | hc | hc
    · exact .inl (isWordChar_of_isWord (Bool.and_eq_true_iff.mp hmacro).1 c hc)
    · exact .inr (.inl hc)
    · exact .inl (isWordChar_of_isWord hx c hc)
    · exact .inr (.inr hc)
  cases i with
  | store dst op value =>
      have hblank := hchars ' ' (by simp [Instr.body])
      exact absurd hblank (by decide)
  | step dst direction =>
      cases direction with
      | increment =>
          have hplus := hchars '+' (by simp [Instr.body, Step.token])
          exact absurd hplus (by decide)
      | decrement =>
          have hminus := hchars '-' (by simp [Instr.body, Step.token])
          exact absurd hminus (by decide)
  | _ => simp [Instr.invoked] at hnative

/-- **The line that initializes a box** is the line of no other instruction. -/
theorem eq_init_of_line {x : String} {first : Bool} (hx : isWord (o.renderName x) = true)
    (h : i.line o = (Instr.init (.var x) first).line o) :
    ∃ dst, i = .init dst first ∧ dst.render o = o.renderName x := by
  have hbody : (i.body o).toList = ((Instr.init (.var x) first).body o).toList := by
    have h := congrArg String.toList h
    simpa [Instr.line, Instr.render] using h
  cases hinvoked : i.invoked o with
  | none => exact absurd hbody (native_ne_init hkernel hx hinvoked)
  | some call =>
      obtain ⟨f, byRef, args⟩ := call
      have hf : f = o.kernelMacro (initMacro first) := by
        have hcallee := callee?_of_invoked hindent hkernel hinvoked
        have hinit : callee? ((Instr.init (.var x) first).line o) = _ :=
          callee?_of_invoked hindent hkernel rfl
        rw [h, hinit] at hcallee
        exact (Option.some.inj hcallee).symm
      have hprimitive : i.primitive? o = some (initMacro first) :=
        primitive?_of_callee (f := f) (List.mem_append_left _ (initMacro_mem first))
          (by simp [Options.spellings, hf]) (by rw [hinvoked, Option.map_some])
      have hgrows : i.growsStack = true := by
        rw [(counts_eq o i).1, hprimitive]
        simpa using initMacro_mem first
      cases i with
      | init dst flag =>
          obtain rfl : flag = first := initMacro_inj (Option.some.inj hprimitive)
          refine ⟨dst, rfl, String.toList_injective ?_⟩
          rw [init_body_toList, init_body_toList] at hbody
          simpa [Place.render] using hbody
      | copy =>
          have hmacro : "CPY_WRT" = initMacro first := Option.some.inj hprimitive
          exact absurd hmacro (by cases first <;> decide)
      | inPlace dst op source =>
          have hmacro : op.macroName = initMacro first := Option.some.inj hprimitive
          exact absurd hmacro (by cases op <;> cases first <;> decide)
      | _ => simp [growsStack] at hgrows

end Lines

/-! ### The books of a run -/

/-- The line that invokes a kernel macro on the variable alone. -/
def Options.macroLine (o : Options) (name x : String) : String :=
  repeated o.indent o.indentLevel.toNat ++
    (Text.upper o.kernelPrefix ++ "_" ++ name ++ "(" ++ o.renderName x ++ ");")

/-- Whether the line initializes the box of the variable. -/
def Options.isInitLine (o : Options) (x line : String) : Bool :=
  line == o.macroLine "INIT_VAR" x || line == o.macroLine "INIT_NVAR" x

theorem line_init_var (o : Options) (x : String) (first : Bool) :
    (Instr.init (.var x) first).line o = o.macroLine (initMacro first) x := by
  simp [Instr.line, render, body, invocation, Options.kernelMacro, Place.render,
    Options.macroLine, initMacro, String.append_assoc]

theorem Options.isInitLine_iff {o : Options} {x line : String} :
    o.isInitLine x line = true ↔ ∃ first, line = (Instr.init (.var x) first).line o := by
  simp [isInitLine, line_init_var, initMacro, or_comm]

/-- The lines that initialize a box are those of the instructions that do, if no other instruction
has such a line. -/
theorem filter_isInitLine {o : Options} {x : String} {code : List Instr}
    (hcode : ∀ i ∈ code, ∀ first, i.line o = (Instr.init (.var x) first).line o →
      i = .init (.var x) first) :
    (code.map (Instr.line o)).filter (o.isInitLine x) =
      (code.filterMap (initFlag? x)).map fun first => (Instr.init (.var x) first).line o := by
  induction code with
  | nil => rfl
  | cons i code ih =>
      have ih := ih fun j hj => hcode j (by simp [hj])
      rw [List.map_cons]
      cases hflag : i.initFlag? x with
      | none =>
          have hother : ¬ o.isInitLine x (i.line o) = true := by
            intro hline
            obtain ⟨first, hline⟩ := Options.isInitLine_iff.mp hline
            have hinit := initFlag?_eq_some.mpr (hcode i (by simp) first hline)
            exact absurd (hflag.symm.trans hinit) (by simp)
          rw [List.filter_cons_of_neg hother, ih, List.filterMap_cons_none hflag]
      | some first =>
          obtain rfl := initFlag?_eq_some.mp hflag
          have hline : o.isInitLine x ((Instr.init (.var x) first).line o) = true :=
            Options.isInitLine_iff.mpr ⟨first, rfl⟩
          rw [List.filter_cons_of_pos hline, ih, List.filterMap_cons_some hflag, List.map_cons]

/-- **The books about a variable** after a run, exactly. -/
structure Context.Accounts (start : Context) (calls : List Assignment) (x : String) (s : Symbol) :
    Prop where
  /-- Initializations are counted, and the first is told from all others. -/
  inits : (start.attempts calls).code.filterMap (initFlag? x) =
    (List.range s.variantInits.toNat).map (· == 0)
  /-- They are told by their lines, unless the variable is the receiver and shown under the name of
  another one. -/
  lines : (start.options.isReceiver x = true →
      start.options.receiverSymbol ∈ (start.attempts calls).table.names →
      start.options.receiverSymbol = x) →
    (start.attempts calls).lines.filter (start.options.isInitLine x) =
      (List.range s.variantInits.toNat).map fun k =>
        start.options.macroLine (if k = 0 then "INIT_VAR" else "INIT_NVAR") x
  /-- Only boxes on the heap are initialized. -/
  boxed : s.storage = .stackOnly ∨ s.type ≠ .dynamic → s.variantInits = 0
  /-- Calls are counted, whether they succeed or not. -/
  writes : s.mutationCount.toNat = calls.countP (·.destination = x)
  null : s.mustInitToNull = true ↔ start.Emits calls x (marksNull · = true)

/-- The books of fewer than `2 ^ 32` calls. -/
theorem Context.Ledger.accounts {start : Context} {calls : List Assignment} {x : String}
    {s : Symbol} (h : start.Ledger calls x s) (hcode : start.code = [])
    (hindent : start.options.indent.toList.all isBlank = true)
    (hkernel : isIdentifier start.options.kernelPrefix = true)
    (hx : isWord (start.options.renderName x) = true) (hcalls : calls.length < UInt32.size) :
    start.Accounts calls x s := by
  have hsize : UInt32.size = 4294967296 := rfl
  obtain ⟨n, hn, hcount, hflags, hbox⟩ := h.inits
  have htoNat : s.variantInits.toNat = n := by
    rw [hcount, UInt32.toNat_ofNat', Nat.mod_eq_of_lt (by omega)]
  have hinits : (start.attempts calls).code.filterMap (initFlag? x) =
      (List.range s.variantInits.toNat).map (· == 0) := by
    rw [hflags, htoNat]
    refine List.map_congr_left fun k hk => ?_
    have hk : k < 2 ^ 32 := by
      have := List.mem_range.mp hk
      omega
    rw [Bool.eq_iff_iff, beq_iff_eq, beq_iff_eq, ← UInt32.toNat_inj, UInt32.toNat_ofNat',
      Nat.mod_eq_of_lt hk]
    rfl
  refine ⟨hinits, fun hreceiver => ?_, fun hno => ?_, ?_, h.null⟩
  · rw [Context.lines_eq, Context.attempts_options, filter_isInitLine ?_, hinits, List.map_map]
    · refine List.map_congr_left fun k _ => ?_
      simp [line_init_var, initMacro]
    · intro i hi first hline
      obtain ⟨dst, rfl, hdst⟩ := eq_init_of_line hindent hkernel hx hline
      obtain ⟨y, hy, rfl, hother⟩ := Context.attempts_initialized hcode calls hi
      have hyx : y = start.options.renderName x := by
        simpa [Place.render, Options.renderName, hother] using hdst
      cases hself : start.options.isReceiver x with
      | true =>
          have hsymbol : start.options.renderName x = start.options.receiverSymbol :=
            if_pos hself
          rw [hsymbol] at hyx
          rw [hyx, hreceiver hself (hyx ▸ hy)]
      | false =>
          have hsymbol : start.options.renderName x = x := by simp [Options.renderName, hself]
          rw [hyx, hsymbol]
  · by_cases hzero : n = 0
    · rw [hcount, hzero]
      rfl
    · obtain ⟨htype, hstorage⟩ := hbox hzero
      rcases hno with hstack | htype'
      · exact absurd (hstorage.symm.trans hstack) (by simp)
      · exact absurd htype htype'
  · rw [h.writes, UInt32.toNat_ofNat', Nat.mod_eq_of_lt]
    have := List.countP_le_length (p := fun a => decide (a.destination = x)) (l := calls)
    omega

/-- **Bookkeeping is exact over whole runs**, of calls that succeed or fail in any order. The table
counts the initializations of each declared variable, of which the first is marked as such, and the
calls that it was the destination of. It knows whether the variable has to be null on entry, and
whether the frame needs room for tracked boxes. If temporaries are spelled with word characters, the
instructions that these depend on are recognized by the primitives that their lines invoke. -/
theorem run_keeps_exact_books {options : Options} {classDef : Option ClassDef}
    {declarations : List Declaration} {calls : List Assignment}
    (hkernel : isIdentifier options.kernelPrefix = true)
    (hreceiver : isIdentifier options.receiverSymbol = true)
    (hindent : options.indent.toList.all isBlank = true)
    (hnames : ∀ d ∈ declarations, isIdentifier d.name = true) (hcalls : calls.length < UInt32.size) :
    let start := Context.initial options classDef declarations
    let final := start.attempts calls
    (∀ x d, start.table.get? x = some d → ∃ s, final.table.get? x = some s ∧ s.type = d.type ∧
      s.storage = d.storage ∧ start.Accounts calls x s) ∧
    (final.table.mustGrowStack = true ↔ ∃ i ∈ final.code, i.growsStack = true) ∧
    (isSpelled options.tempPrefix = true → ∀ i ∈ final.code,
      options.invokes trackingMacros [] (i.line options) = i.growsStack ∧
      options.invokes nullingMacros stringFunctions (i.line options) = i.marksNull) := by
  intro start final
  have hstart := Context.initial_starts options classDef declarations
  have hword : ∀ {s : String}, isIdentifier s = true → isWord s = true :=
    fun h => (Bool.and_eq_true_iff.mp h).1
  refine ⟨fun x d hd => ?_, ?_, fun htemp i hi => ?_⟩
  · -- what is declared has empty books
    have hempty : d.variantInits = 0 ∧ d.mutationCount = 0 ∧ d.mustInitToNull = false ∧
        isWord (options.renderName x) = true := by
      obtain rfl := SymbolTable.name_of_get? hd
      rcases Context.mem_initial (List.mem_of_find?_eq_some hd) with rfl | ⟨d, hmem, rfl⟩
      · refine ⟨rfl, rfl, rfl, ?_⟩
        simpa [Symbol.ofReceiver, Options.renderName, Options.isReceiver] using hword hreceiver
      · refine ⟨rfl, rfl, rfl, ?_⟩
        unfold Options.renderName
        split
        · exact hword hreceiver
        · exact hword (hnames d hmem)
    obtain ⟨hinits, hwrites, hnull, hx⟩ := hempty
    obtain ⟨s, hs, htype, hstorage, hledger⟩ :=
      Context.attempts_ledger hstart.code hd hinits hwrites hnull calls
    refine ⟨s, hs, htype, hstorage, hledger.accounts hstart.code ?_ ?_ ?_ hcalls⟩
    · rw [hstart.options]
      exact hindent
    · rw [hstart.options]
      exact hkernel
    · rw [hstart.options]
      exact hx
  · have hgrow : start.table.mustGrowStack = start.code.any growsStack := by
      rw [hstart.mustGrowStack, hstart.code]
      rfl
    rw [Context.attempts_mustGrowStack hgrow calls, List.any_eq_true]
  · have hnamed : start.Named (isWord · = true) :=
      .initial (hword hreceiver)
        (fun t ht n hn => SymbolTable.isWord_of_isTempName (ht ▸ htemp) hn)
        fun d hd => hword (hnames d hd)
    have hdst := (hnamed.attempts calls).written i hi
    rw [Context.attempts_options, hstart.options] at hdst
    exact counts_line hindent hkernel hdst

/-- A box that is rebuilt, with a call that fails in between after lowering a part of its source, and
a string. -/
theorem run_keeps_exact_books_retry :
    let calls : List Assignment :=
      [{ target := .whole, destination := "v", source := some (.int 1) },
        { target := .whole, destination := "v",
          source := some (.call "f" [.int 2, .var "w"]) },
        { target := .whole, destination := "v", source := some .null },
        { target := .whole, destination := "s", source := some (.string "a") }]
    ∃ start v s, start = Context.initial {} none
        [{ name := "v", type := .dynamic }, { name := "s", type := .string }] ∧
      (start.attempts calls).lines =
        ["ZEPHIR_INIT_VAR(v);", "ZVAL_LONG(v, 1);", "ZEPHIR_INIT_NVAR(v);", "ZVAL_NULL(v);",
          "zephir_str_assign(s, \"a\", sizeof(\"a\")-1);"] ∧
      (start.attempts calls).table.get? "v" = some v ∧
      (v.variantInits, v.mutationCount) = (2, 3) ∧ start.Accounts calls "v" v ∧
      (start.attempts calls).table.get? "s" = some s ∧
      (s.variantInits, s.mustInitToNull) = (0, true) ∧ start.Accounts calls "s" s ∧
      ∃ i ∈ (start.attempts calls).code, i.growsStack = true := by
  intro calls
  obtain ⟨hbooks, hstack, -⟩ := @run_keeps_exact_books {} none
    [{ name := "v", type := .dynamic }, { name := "s", type := .string }] calls (by decide)
    (by decide) (by decide) (by decide) (by decide)
  obtain ⟨v, hgetv, -, -, hbooksv⟩ := hbooks "v" _ rfl
  obtain ⟨s, hgets, -, -, hbookss⟩ := hbooks "s" _ rfl
  clear hbooks
  generalize hstart : Context.initial {} none
    [{ name := "v", type := .dynamic }, { name := "s", type := .string }] = start at *
  have hlines : (start.attempts calls).lines =
      ["ZEPHIR_INIT_VAR(v);", "ZVAL_LONG(v, 1);", "ZEPHIR_INIT_NVAR(v);", "ZVAL_NULL(v);",
        "zephir_str_assign(s, \"a\", sizeof(\"a\")-1);"] := by
    rw [← hstart]
    decide +kernel
  have hv : ((start.attempts calls).table.get? "v").map
      (fun v => (v.variantInits, v.mutationCount)) = some (2, 3) := by
    rw [← hstart]
    decide +kernel
  have hs : ((start.attempts calls).table.get? "s").map
      (fun s => (s.variantInits, s.mustInitToNull)) = some (0, true) := by
    rw [← hstart]
    decide +kernel
  have hgrow : (start.attempts calls).table.mustGrowStack = true := by
    rw [← hstart]
    decide +kernel
  rw [hgetv] at hv
  rw [hgets] at hs
  exact ⟨start, v, s, rfl, hlines, hgetv, Option.some.inj hv, hbooksv, hgets, Option.some.inj hs,
    hbookss, hstack.mp hgrow⟩

end BoxedLet
