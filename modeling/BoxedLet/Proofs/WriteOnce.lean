import BoxedLet.Proofs.Course
import BoxedLet.Proofs.LineText

/-!
# BoxedLet.Proofs.WriteOnce

**Emitted code writes the destination and write-once temporaries.** This is said of the emitted
text: of the words that a line mentions, the operand that it writes and the macro that it invokes.

`Context.WritesOnce` is the invariant of an assignment up to its ending. Filling a temporary keeps
it, because the name of the temporary is free, so that no earlier line can have written or
mentioned it; everything else that an assignment does on its way adds no line. The ending adds
lines that write the destination only.
-/

namespace BoxedLet

open Lexical

/-! ### Names of temporaries -/

namespace SymbolTable

namespace IsTempName

variable {t : SymbolTable} {name : String} (hpre : isIdentifier t.tempPrefix = true)
include hpre

theorem isWord (h : t.IsTempName name) : isWord name = true :=
  isWord_of_isTempName (Bool.and_eq_true_iff.mp (Bool.and_eq_true_iff.mp hpre).1).2 h

/-- The name of a temporary does not begin with a digit but ends in one. -/
theorem not_isPlain (h : t.IsTempName name) : isPlain name.toList = false := by
  obtain ⟨n, rfl⟩ := h
  obtain ⟨hword, hhead⟩ := Bool.and_eq_true_iff.mp hpre
  have hne : t.tempPrefix.toList ≠ [] := by simpa using (Bool.and_eq_true_iff.mp hword).1
  have hhead : t.tempPrefix.toList.head?.any Char.isDigit = false := by simpa using hhead
  have hdigits : Nat.toDigits 10 n ≠ [] := Nat.toDigits_ne_nil
  have hlast : ((Nat.toDigits 10 n).getLast hdigits).isDigit = true :=
    toDigits_isDigit n _ (List.getLast_mem hdigits)
  rw [isPlain, toList_tempName, List.head?_append, List.head?_eq_some_head hne, Option.some_or,
    ← List.head?_eq_some_head hne, hhead, List.getLast?_append,
    List.getLast?_eq_some_getLast hdigits, Option.some_or]
  simp [hlast]

end IsTempName

end SymbolTable

/-- The names that emitted text is made of are identifiers, lines are indented by blanks, and the
receiver cannot be taken for a temporary. -/
structure Context.WellNamed (ctx : Context) : Prop where
  tempPrefix : isIdentifier ctx.table.tempPrefix = true
  kernelPrefix : isIdentifier ctx.options.kernelPrefix = true
  receiver : isIdentifier ctx.options.receiverSymbol = true
  receiver_not_temp : ¬ ctx.table.IsTempName ctx.options.receiverSymbol
  declared : ∀ name ∈ ctx.table.names, isIdentifier name = true
  indent : ctx.options.indent.toList.all isBlank = true

namespace Context.WellNamed

variable {ctx : Context} {x : String}

theorem isWord_renderName (h : ctx.WellNamed) (hx : isWord x = true) :
    isWord (ctx.options.renderName x) = true := by
  unfold Options.renderName
  split
  · exact (Bool.and_eq_true_iff.mp h.receiver).1
  · exact hx

/-- A variable that is called like a temporary is not the receiver. -/
theorem renderName_of_isTempName (h : ctx.WellNamed)
    (hx : ctx.table.IsTempName (ctx.options.renderName x)) : ctx.options.renderName x = x := by
  unfold Options.renderName at hx ⊢
  split at hx
  · exact absurd hx h.receiver_not_temp
  · rename_i hreceiver
    rw [if_neg hreceiver]

end Context.WellNamed

/-! ### Lines that write a name once -/

/-- Exactly one of the lines writes the name, and no line before it mentions it. -/
def WrittenOnce (name : String) (lines : List String) : Prop :=
  ∃ before line after, lines = before ++ line :: after ∧ writtenOperand? line = some name ∧
    (∀ l ∈ before, name ∉ mentioned l) ∧ ∀ l ∈ before ++ after, writtenOperand? l ≠ some name

namespace WrittenOnce

variable {name : String} {lines : List String}

/-- The first line that has to do with a name writes it. -/
theorem of_new {line : String} (hline : writtenOperand? line = some name)
    (hlines : ∀ l ∈ lines, name ∉ mentioned l ∧ writtenOperand? l ≠ some name) :
    WrittenOnce name (lines ++ [line]) := by
  refine ⟨lines, line, [], rfl, hline, fun l hl => (hlines l hl).1, fun l hl => ?_⟩
  rw [List.append_nil] at hl
  exact (hlines l hl).2

/-- Lines that write something else follow. -/
theorem append {more : List String} (h : WrittenOnce name lines)
    (hmore : ∀ l ∈ more, writtenOperand? l ≠ some name) : WrittenOnce name (lines ++ more) := by
  obtain ⟨before, line, after, rfl, hline, hbefore, hothers⟩ := h
  refine ⟨before, line, after ++ more, by simp, hline, hbefore, fun l hl => ?_⟩
  rw [← List.append_assoc] at hl
  rcases List.mem_append.mp hl with hl | hl
  · exact hothers l hl
  · exact hmore l hl

end WrittenOnce

/-- The lines fill the temporaries, which are not in the table yet. Each temporary is written once,
and a line mentions no temporary but these, unless it is called like one of the variables in `V`. -/
structure FillsOnce (V : String → Prop) (table : SymbolTable) (temps lines : List String) :
    Prop where
  fresh : ∀ t ∈ temps, table.IsTempName t ∧ t ∉ table.names
  writes : ∀ l ∈ lines, ∃ t ∈ temps, writtenOperand? l = some t
  mentions : ∀ l ∈ lines, ∀ w ∈ mentioned l, table.IsTempName w →
    w ∈ temps ∨ V w ∧ w ∈ table.names
  once : ∀ t ∈ temps, WrittenOnce t lines

namespace FillsOnce

variable {V : String → Prop} {table : SymbolTable} {temps lines : List String} {t line : String}

theorem nil (V : String → Prop) (table : SymbolTable) : FillsOnce V table [] [] where
  fresh := by simp
  writes := by simp
  mentions := by simp
  once := by simp

/-- A line that fills one more temporary. Because its name is new, no earlier line has to do with
it. -/
theorem snoc (h : FillsOnce V table temps lines) (htemp : table.IsTempName t)
    (hfree : t ∉ table.names) (hnew : t ∉ temps) (hline : writtenOperand? line = some t)
    (hmentions : ∀ w ∈ mentioned line, table.IsTempName w →
      w = t ∨ w ∈ temps ∨ V w ∧ w ∈ table.names) :
    FillsOnce V table (temps ++ [t]) (lines ++ [line]) := by
  have hearlier : ∀ l ∈ lines, t ∉ mentioned l ∧ writtenOperand? l ≠ some t := by
    intro l hl
    refine ⟨fun hmem => ?_, fun hwrites => ?_⟩
    · rcases h.mentions l hl t hmem htemp with hmem | ⟨-, hmem⟩
      · exact hnew hmem
      · exact hfree hmem
    · obtain ⟨t', ht', hwritten⟩ := h.writes l hl
      exact hnew (Option.some.inj (hwritten.symm.trans hwrites) ▸ ht')
  refine ⟨?_, ?_, ?_, ?_⟩ <;> simp only [List.forall_mem_append, List.forall_mem_singleton]
  · exact ⟨h.fresh, htemp, hfree⟩
  · refine ⟨fun l hl => ?_, t, by simp, hline⟩
    obtain ⟨t', ht', hwrites⟩ := h.writes l hl
    exact ⟨t', List.mem_append_left _ ht', hwrites⟩
  · refine ⟨fun l hl w hw hw' => ?_, fun w hw hw' => ?_⟩
    · exact (h.mentions l hl w hw hw').imp_left (List.mem_append_left _)
    · rcases hmentions w hw hw' with rfl | hmem | hmem
      · exact .inl (by simp)
      · exact .inl (List.mem_append_left _ hmem)
      · exact .inr hmem
  · refine ⟨fun t' ht' => (h.once t' ht').append ?_, .of_new hline hearlier⟩
    intro l hl hwrites
    obtain rfl := List.mem_singleton.mp hl
    exact hnew (Option.some.inj (hline.symm.trans hwrites) ▸ ht')

end FillsOnce

/-! ### The invariant of an assignment -/

namespace Context

/-- Since `start`, only temporaries have been added to the table, and only lines that fill them have
been emitted. -/
structure WritesOnce (V : String → Prop) (start ctx : Context) (temps emitted : List String) :
    Prop extends FillsOnce V start.table temps emitted where
  options : ctx.options = start.options
  tempPrefix : ctx.table.tempPrefix = start.table.tempPrefix
  names : ctx.table.names = start.table.names ++ temps
  lines : ctx.lines = start.lines ++ emitted

namespace WritesOnce

variable {V : String → Prop} {start ctx ctx' : Context} {temps emitted : List String} {i : Instr}

/-- Counting the write of the destination emits nothing. -/
theorem counting (V : String → Prop) (start : Context) (name : String) :
    WritesOnce V start (start.counting name) [] [] where
  toFillsOnce := .nil V start.table
  options := rfl
  tempPrefix := rfl
  names := by simp [Context.counting]
  lines := by simp [Context.counting, Context.lines]

/-- Marking the destination emits nothing. -/
theorem marking (h : WritesOnce V start ctx temps emitted) (name : String) :
    WritesOnce V start (ctx.marking name) temps emitted :=
  { h with names := by simpa [Context.marking] using h.names }

variable (hstart : start.WellNamed) (h : WritesOnce V start ctx temps emitted)
include hstart h

theorem isWord_of_mem_names {name : String} (hname : name ∈ ctx.table.names) :
    isWord name = true := by
  rw [h.names] at hname
  rcases List.mem_append.mp hname with hname | hname
  · exact (Bool.and_eq_true_iff.mp (hstart.declared name hname)).1
  · exact (h.fresh name hname).1.isWord hstart.tempPrefix

theorem isWord_of_visible (p : Place) (t : StaticType) (hp : Visible V start.Free ctx.table p t) :
    isWord (p.render start.options) = true := by
  cases p with
  | var x =>
      have hx := h.isWord_of_mem_names hstart (SymbolTable.mem_names_of_typeOf? hp.2)
      exact hstart.isWord_renderName hx
  | temp n => exact h.isWord_of_mem_names hstart (SymbolTable.mem_names_of_typeOf? hp.2)

variable (hi : i.WellTyped (Visible V start.Free ctx.table))
include hi

/-- A line that may come next mentions what it writes, temporaries of the assignment and variables
that were there before. -/
theorem mentioned_line (hdst : isWord (i.written.render start.options) = true) {w : String}
    (hw : w ∈ mentioned (i.line start.options)) (htemp : start.table.IsTempName w) :
    w = i.written.render start.options ∨ w ∈ temps ∨ V w ∧ w ∈ start.table.names := by
  have hwords := h.isWord_of_visible hstart
  rcases BoxedLet.mentioned_line hstart.indent hstart.kernelPrefix hdst hwords hi hw
    with hplain | hwritten | ⟨p, t, hp, rfl⟩
  · exact absurd (hplain.symm.trans (htemp.not_isPlain hstart.tempPrefix)) (by decide)
  · exact .inl hwritten
  cases p with
  | var x =>
      have hx : Place.render start.options (.var x) = x := hstart.renderName_of_isTempName htemp
      have hmem := SymbolTable.mem_names_of_typeOf? hp.2
      rw [h.names] at hmem
      rw [hx]
      rcases List.mem_append.mp hmem with hmem | hmem
      · exact .inr (.inr ⟨hp.1, hmem⟩)
      · exact .inr (.inl hmem)
  | temp n =>
      have hmem := SymbolTable.mem_names_of_typeOf? hp.2
      rw [h.names] at hmem
      rcases List.mem_append.mp hmem with hmem | hmem
      · exact absurd hmem hp.1
      · exact .inr (.inl hmem)

/-- **Filling a new temporary keeps the invariant.** -/
theorem filling {type : StaticType} (hwritten : i.written = .temp ctx.table.nextName) :
    WritesOnce V start (ctx.filling type i) (temps ++ [ctx.table.nextName])
      (emitted ++ [i.line start.options]) := by
  have hnew : ctx.table.nextName ∉ start.table.names ++ temps :=
    h.names ▸ ctx.table.nextName_not_mem_names
  obtain ⟨hfree, hother⟩ := not_or.mp fun hmem => hnew (List.mem_append.mpr hmem)
  have htemp : start.table.IsTempName ctx.table.nextName :=
    (SymbolTable.isTempName_congr h.tempPrefix).mp ctx.table.isTempName_nextName
  have hrender : i.written.render start.options = ctx.table.nextName := by
    rw [hwritten]
    rfl
  have hdst : isWord (i.written.render start.options) = true := by
    rw [hrender]
    exact htemp.isWord hstart.tempPrefix
  have hline := writtenOperand?_line hstart.indent hstart.kernelPrefix hdst
  have hmentions : ∀ w ∈ mentioned (i.line start.options), start.table.IsTempName w →
      w = i.written.render start.options ∨ w ∈ temps ∨ V w ∧ w ∈ start.table.names :=
    fun w hw hw' => h.mentioned_line hstart hi hdst hw hw'
  rw [hrender] at hline hmentions
  have hcode : (ctx.filling type i).code = ctx.code ++ [i] := rfl
  refine ⟨h.snoc htemp hfree hother hline hmentions, h.options, h.tempPrefix, ?_, ?_⟩
  · rw [Context.filling, SymbolTable.newTemporary_names, h.names, List.append_assoc]
  · rw [Context.lines_of_code_append hcode rfl, h.lines, h.options, List.append_assoc]
    rfl

omit hi in
/-- **The invariant holds as long as the state only grows.** -/
theorem grows (hgrows : ctx.Grows V start.Free ctx') :
    ∃ temps' emitted', WritesOnce V start ctx' temps' emitted' := by
  induction hgrows with
  | refl => exact ⟨temps, emitted, h⟩
  | needing header _ ih =>
      obtain ⟨temps', emitted', h'⟩ := ih
      exact ⟨temps', emitted', { h' with }⟩
  | filling _ _ hdst _ hi ih =>
      obtain ⟨temps', emitted', h'⟩ := ih
      exact ⟨_, _, h'.filling hstart hi hdst⟩

end WritesOnce

end Context

/-! ### Preparations -/

/-- Whether the line initializes the variable's box or separates it. -/
def Options.isPreparation (o : Options) (x line : String) : Bool :=
  writtenOperand? line == some (o.renderName x) &&
    preparations.any fun name => callee? line == some (o.kernelMacro name)

/-- The last two characters of a name. They are enough to tell preparations from all other
primitives. -/
def nameEnd (name : String) : List Char :=
  name.toList.reverse.take 2

theorem nameEnd_append (a : String) {b : String} (h : 2 ≤ b.toList.length) :
    nameEnd (a ++ b) = nameEnd b := by
  have hlength : 2 ≤ b.toList.reverse.length := by rwa [List.length_reverse]
  rw [nameEnd, String.toList_append, List.reverse_append, List.take_append_of_le_length hlength,
    nameEnd]

/-- The kernel prefix does not change how a name ends. -/
theorem nameEnd_of_mem_spellings {o : Options} {name f : String} (h : 2 ≤ name.toList.length)
    (hf : f ∈ o.spellings name) : nameEnd f = nameEnd name := by
  rcases List.mem_cons.mp hf with rfl | hf
  · rfl
  rcases List.mem_cons.mp hf with rfl | hf
  · exact nameEnd_append _ h
  · obtain rfl := List.mem_singleton.mp hf
    exact nameEnd_append _ h

/-- Only preparations are called like one, whatever the kernel prefix is. -/
theorem kernelMacro_not_mem_spellings {o : Options} {name other : String}
    (hname : name ∈ preparations) (hother : other ∈ primitives) :
    o.kernelMacro name ∉ o.spellings other := by
  intro hmem
  have hlength : ∀ n ∈ preparations ++ primitives, 2 ≤ n.toList.length := by decide
  have hends : ∀ n ∈ preparations, ∀ m ∈ primitives, nameEnd n ≠ nameEnd m := by decide
  have hend := nameEnd_of_mem_spellings (hlength other (List.mem_append_right _ hother)) hmem
  rw [Options.kernelMacro, nameEnd_append _ (hlength name (List.mem_append_left _ hname))] at hend
  exact hends name hname other hother hend

/-- The macros of preparations are invoked by preparations only. -/
theorem Instr.any_preparations (o : Options) (i : Instr) :
    (preparations.any fun name => (i.invoked o).map Prod.fst == some (o.kernelMacro name)) =
      i.isPreparation := by
  cases hprep : i.isPreparation with
  | true =>
      obtain ⟨name, hname, hinvoked⟩ := invoked_of_isPreparation o hprep
      rw [List.any_eq_true]
      exact ⟨name, hname, by simp [hinvoked]⟩
  | false =>
      rw [List.any_eq_false]
      intro name hname hinvoked
      obtain ⟨⟨f, byRef, args⟩, hcall, hf⟩ := Option.map_eq_some_iff.mp (eq_of_beq hinvoked)
      obtain ⟨other, hother, hmem⟩ := invoked_mem hprep hcall
      obtain rfl : f = o.kernelMacro name := hf
      exact kernelMacro_not_mem_spellings hname hother hmem

/-! ### Endings -/

namespace Context.WritesOnce

variable {V : String → Prop} {start ctx : Context} {temps emitted : List String} {i : Instr}
  {dest : String} (hstart : start.WellNamed) (h : WritesOnce V start ctx temps emitted)
  (hdest : dest ∈ start.table.names)
include hstart h hdest

/-- The destination is not one of the new temporaries. -/
theorem renderName_not_mem : start.options.renderName dest ∉ temps := by
  intro hmem
  obtain ⟨htemp, hnew⟩ := h.fresh _ hmem
  rw [hstart.renderName_of_isTempName htemp] at hnew
  exact hnew hdest

variable (hwritten : i.written = .var dest)
include hwritten

theorem isWord_written : isWord (i.written.render start.options) = true := by
  rw [hwritten]
  exact hstart.isWord_renderName
    (h.isWord_of_mem_names hstart (h.names ▸ List.mem_append_left _ hdest))

/-- A line of the ending writes the destination, and is a preparation if its instruction is one. -/
theorem ending_line :
    writtenOperand? (i.line start.options) = some (start.options.renderName dest) ∧
      start.options.isPreparation dest (i.line start.options) = i.isPreparation := by
  have hdst := h.isWord_written hstart hdest hwritten
  have hline : writtenOperand? (i.line start.options) = some (start.options.renderName dest) := by
    rw [writtenOperand?_line hstart.indent hstart.kernelPrefix hdst, hwritten]
    rfl
  have hcallee := callee?_line hstart.indent hstart.kernelPrefix hdst
  refine ⟨hline, ?_⟩
  rw [Options.isPreparation, hline, hcallee, Instr.any_preparations, beq_self_eq_true,
    Bool.true_and]

/-- A line of the ending mentions no temporary but those of the assignment, unless it is called like
the destination or one of the variables in `V`. -/
theorem mentioned_ending (hi : i.WellTyped (Visible V start.Free ctx.table)) {w : String}
    (hw : w ∈ mentioned (i.line start.options)) (htemp : start.table.IsTempName w) :
    w = dest ∨ w ∈ temps ∨ V w ∧ w ∈ start.table.names := by
  have hdst := h.isWord_written hstart hdest hwritten
  refine (h.mentioned_line hstart hi hdst hw htemp).imp_left fun hname => ?_
  rw [hwritten] at hname
  subst hname
  exact hstart.renderName_of_isTempName htemp

omit hdest hwritten in
/-- A line that fills a temporary does not prepare the destination. -/
theorem isPreparation_of_mem (hdest : dest ∈ start.table.names) {l : String} (hl : l ∈ emitted) :
    start.options.isPreparation dest l = false := by
  obtain ⟨t, ht, hwrites⟩ := h.writes l hl
  have hne : t ≠ start.options.renderName dest :=
    fun heq => h.renderName_not_mem hstart hdest (heq ▸ ht)
  simp [Options.isPreparation, hwrites, hne]

end Context.WritesOnce

/-! ### Assignments that succeed -/

/-- **Emitted code writes the destination and write-once temporaries.** Each temporary that the
assignment allocates is written by exactly one line, and mentioned by none before it. No line
mentions a temporary of another assignment: what looks like one is a declared variable. If there is
any line, the last one writes the destination, at most the one before it prepares the destination
for this, and all others write temporaries of the assignment. -/
theorem assignment_writes_temporaries_once {a : Assignment} {ctx ctx' : Context}
    (hctx : ctx.WellNamed)
    (hdeclared : ∀ x, x = a.destination ∨ a.Reads x → ctx.table.IsTempName x →
      ∃ s, ctx.table.get? x = some s ∧ s.temporary = false)
    (hrun : lowerAssignment a ctx = .ok () ctx') :
    ∃ temps emitted, ctx'.table.names = ctx.table.names ++ temps ∧
      ctx'.lines = ctx.lines ++ emitted ∧
      (∀ t ∈ temps, ctx.table.IsTempName t ∧ t ∉ ctx.table.names) ∧
      (∀ t ∈ temps, WrittenOnce t emitted) ∧
      (∀ l ∈ emitted, ∀ w ∈ mentioned l, ctx.table.IsTempName w →
        w ∈ temps ∨ ∃ s, ctx.table.get? w = some s ∧ s.temporary = false) ∧
      (emitted = [] ∨ ∃ fills preparation last, emitted = fills ++ preparation ++ [last] ∧
        writtenOperand? last = some (ctx.options.renderName a.destination) ∧
        ctx.options.isPreparation a.destination last = false ∧
        (preparation = [] ∨
          ∃ l, preparation = [l] ∧ ctx.options.isPreparation a.destination l = true) ∧
        ∀ l ∈ fills, ctx.options.isPreparation a.destination l = false ∧
          ∃ t ∈ temps, writtenOperand? l = some t) := by
  obtain ⟨hdest, lowered, ready, tail, hgrows, hready, hends, hidle⟩ := completes_of_ok hrun
  -- the invariant holds when the source has been lowered, and still when the ending begins
  obtain ⟨temps₁, emitted₁, h₁⟩ :=
    (Context.WritesOnce.counting a.Reads ctx a.destination).grows hctx hgrows
  obtain ⟨temps, fills, h⟩ := (h₁.marking a.destination).grows hctx hready
  have hnames : ctx'.table.names = ctx.table.names ++ temps := by
    rw [hends.table, Instr.names_foldl_book, h.names]
  have hlines : ctx'.lines = ctx.lines ++ (fills ++ tail.map (Instr.line ctx.options)) := by
    rw [Context.lines_of_code_append hends.code hends.options, h.lines, h.options,
      List.append_assoc]
  have hlast : ∀ i ∈ tail,
      writtenOperand? (i.line ctx.options) = some (ctx.options.renderName a.destination) ∧
        ctx.options.isPreparation a.destination (i.line ctx.options) = i.isPreparation := by
    intro i hi
    exact h.ending_line hctx hdest (hends.closing.forall_mem i hi).1
  have hfills : ∀ l ∈ fills, ctx.options.isPreparation a.destination l = false ∧
      ∃ t ∈ temps, writtenOperand? l = some t :=
    fun l hl => ⟨h.isPreparation_of_mem hctx hdest hl, h.writes l hl⟩
  refine ⟨temps, fills ++ tail.map (Instr.line ctx.options), hnames, hlines, h.fresh, ?_, ?_, ?_⟩
  · intro t ht
    refine (h.once t ht).append fun l hl hwrites => ?_
    obtain ⟨i, hi, rfl⟩ := List.mem_map.mp hl
    have htdest := Option.some.inj ((hlast i hi).1.symm.trans hwrites)
    exact h.renderName_not_mem hctx hdest (htdest ▸ ht)
  · intro l hl w hw htemp
    have hknown : w = a.destination ∨ w ∈ temps ∨ a.Reads w ∧ w ∈ ctx.table.names := by
      rcases List.mem_append.mp hl with hl | hl
      · exact .inr (h.mentions l hl w hw htemp)
      · obtain ⟨i, hi, rfl⟩ := List.mem_map.mp hl
        obtain ⟨hwritten, htyped⟩ := hends.closing.forall_mem i hi
        exact h.mentioned_ending hctx hdest hwritten htyped hw htemp
    rcases hknown with hw | hw | ⟨hw, -⟩
    · exact .inr (hdeclared w (.inl hw) htemp)
    · exact .inl hw
    · exact .inr (hdeclared w (.inr hw) htemp)
  · cases hends.closing with
    | nothing =>
        -- only an assignment that emits nothing at all ends with nothing
        have hcode : ctx'.code = ctx.code ++ [] := by rw [hidle rfl, List.append_nil]
        have hnone := Context.lines_of_code_append hcode (hends.options.trans h.options)
        exact .inl (List.append_cancel_left (hlines.symm.trans hnone))
    | @one i _ hprep _ =>
        obtain ⟨hwrites, hother⟩ := hlast i (by simp)
        exact .inr ⟨fills, [], i.line ctx.options, by simp, hwrites, hother.trans hprep, .inl rfl,
          hfills⟩
    | @two p i hp _ _ hprep _ =>
        obtain ⟨hwrites, hother⟩ := hlast i (by simp)
        have hprepares := (hlast p (by simp)).2.trans hp
        exact .inr ⟨fills, [p.line ctx.options], i.line ctx.options, by simp, hwrites,
          hother.trans hprep, .inr ⟨_, rfl, hprepares⟩, hfills⟩

/-- `v = v == count(_1)`, with a boxed `v` and a native variable `_1`: the call takes two
temporaries, neither of which is `_1`, and the comparison a third. -/
theorem assignment_writes_temporaries_once_comparison :
    let ctx : Context :=
      { table.symbols :=
          [{ name := "v", type := .dynamic, storage := .heapBoxed },
            { name := "_1", type := .int, storage := .stackOnly }] }
    let a : Assignment :=
      { target := .whole, destination := "v", operator := .assign,
        source := some (.binary (.compare .equals) (.var "v") (.call "count" [.var "_1"])) }
    ∃ ctx', lowerAssignment a ctx = .ok () ctx' ∧
      ctx'.lines = ["ZVAL_LONG(_0, _1);", "ZEPHIR_CALL_FUNCTION(_2, \"count\", _0);",
        "_3 = ZEPHIR_IS_EQUAL(v, _2);", "ZEPHIR_INIT_VAR(v);", "ZVAL_BOOL(v, _3);"] ∧
      ∀ t ∈ ["_0", "_2", "_3"], WrittenOnce t ctx'.lines := by
  intro ctx a
  have hctx : ctx.WellNamed := by
    refine ⟨by decide, by decide, by decide, ?_, by decide, by decide⟩
    rintro ⟨n, hn⟩
    have hchars := congrArg String.toList hn
    rw [SymbolTable.toList_tempName] at hchars
    simp [ctx] at hchars
  have hdeclared : ∀ x, x = a.destination ∨ a.Reads x → ctx.table.IsTempName x →
      ∃ s, ctx.table.get? x = some s ∧ s.temporary = false := by
    intro x hx _
    have hx : x = "v" ∨ "v" = x ∨ "_1" = x := by
      simpa [a, Assignment.Reads, Target.index?, Expr.mentions, Expr.anyMentions] using hx
    rcases hx with rfl | rfl | rfl <;> exact ⟨_, rfl, rfl⟩
  have hlowered : ∃ ctx', lowerAssignment a ctx = .ok () ctx' ∧
      ctx'.table.names = ["v", "_1", "_0", "_2", "_3"] ∧
      ctx'.lines = ["ZVAL_LONG(_0, _1);", "ZEPHIR_CALL_FUNCTION(_2, \"count\", _0);",
        "_3 = ZEPHIR_IS_EQUAL(v, _2);", "ZEPHIR_INIT_VAR(v);", "ZVAL_BOOL(v, _3);"] := by
    simp only [ctx, a]
    exact ⟨_, rfl, by decide, by decide⟩
  obtain ⟨ctx', hrun, hnames', hlines'⟩ := hlowered
  obtain ⟨temps, emitted, hnames, hlines, -, honce, -⟩ :=
    assignment_writes_temporaries_once hctx hdeclared hrun
  have hsame : ["v", "_1"] ++ ["_0", "_2", "_3"] = ["v", "_1"] ++ temps := hnames'.symm.trans hnames
  obtain rfl := List.append_cancel_left hsame
  obtain rfl : ctx'.lines = emitted := by simpa [ctx, Context.lines_eq] using hlines
  exact ⟨ctx', hrun, hlines', honce⟩

end BoxedLet
