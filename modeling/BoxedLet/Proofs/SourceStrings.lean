import BoxedLet.Proofs.QuotedStrings

/-!
# BoxedLet.Proofs.SourceStrings

**Where the literals of emitted code come from.** What an instruction quotes occurs in the
assignment that it was emitted for: `Lower.Quoting` follows the strings through the lowering, and
`Context.Quoted` through a run. A literal has the value of its string unless a digit stands behind a
null character in it (`Text.literalBytes?_stringBody`).
-/

namespace BoxedLet

variable {span : Span}

open Lexical

/-! ### The strings of an assignment -/

mutual
/-- The strings that occur in an expression: literals, properties and functions. -/
def Expr.strings : Expr → List String
  | .string s => [s]
  | .binary _ l r => l.strings ++ r.strings
  | .not e => e.strings
  | .property e name => name :: e.strings
  | .index a i => a.strings ++ i.strings
  | .call name args => name :: Expr.stringsOfAll args
  | .null | .bool _ | .int _ | .double _ | .char _ | .emptyArray | .var _ => []

/-- The strings that occur in the expressions. -/
def Expr.stringsOfAll : List Expr → List String
  | [] => []
  | e :: es => e.strings ++ Expr.stringsOfAll es
end

/-- The strings that occur in a target. -/
def Target.strings : Target → List String
  | .whole | .append => []
  | .element index => index.strings
  | .property name | .propertyAppend name => [name]
  | .propertyElement name index => name :: index.strings

/-- The strings that occur in an assignment. -/
def Assignment.strings (a : Assignment) : List String :=
  a.target.strings ++ (a.source.map Expr.strings).getD []

/-! ### Where the strings come from -/

namespace Lower

variable {α β : Type} {S : String → Prop}

/-- What a computation that succeeds emits quotes only strings in `S`, and its value satisfies
`post`. -/
def Quoting (S : String → Prop) (x : Lower α) (post : α → Prop) : Prop :=
  ∀ ctx a ctx', x ctx = .ok a ctx' →
    post a ∧ ∃ emitted, ctx'.code = ctx.code ++ emitted ∧ ∀ i ∈ emitted, ∀ s ∈ i.strings, S s

namespace Quoting

variable {x : Lower α} {f : α → Lower β} {post : α → Prop} {post' : β → Prop}

/-- A computation that emits nothing. -/
theorem of_code_eq (h : ∀ ctx a ctx', x ctx = .ok a ctx' → post a ∧ ctx'.code = ctx.code) :
    Quoting S x post := by
  intro ctx a ctx' hrun
  obtain ⟨hpost, hcode⟩ := h ctx a ctx' hrun
  exact ⟨hpost, [], by rw [hcode, List.append_nil], by simp⟩

theorem pure {a : α} (hpost : post a) : Quoting S (pure a) post := by
  refine of_code_eq fun ctx b ctx' hrun => ?_
  cases hrun
  exact ⟨hpost, rfl⟩

theorem fail (span : Span) (cause : Cause) : Quoting S (fail span cause : Lower α) post := by
  intro ctx a ctx' hrun
  cases hrun

theorem bind (hx : Quoting S x post) (hf : ∀ a, post a → Quoting S (f a) post') :
    Quoting S (x >>= f) post' := by
  intro ctx b ctx' hrun
  rw [bind_apply] at hrun
  cases hmid : x ctx with
  | error e mid =>
      rw [hmid] at hrun
      cases hrun
  | ok a mid =>
      rw [hmid] at hrun
      obtain ⟨hpost, first, hfirst, hquotes⟩ := hx ctx a mid hmid
      obtain ⟨hpost', second, hsecond, hquotes'⟩ := hf a hpost mid b ctx' hrun
      refine ⟨hpost', first ++ second, by rw [hsecond, hfirst, List.append_assoc], ?_⟩
      intro i hi
      exact (List.mem_append.mp hi).elim (hquotes i) (hquotes' i)

theorem ite {p : Prop} [Decidable p] {y : Lower α} (hx : p → Quoting S x post)
    (hy : ¬ p → Quoting S y post) : Quoting S (if p then x else y) post := by
  split
  · exact hx ‹_›
  · exact hy ‹_›

end Quoting

/-- Nothing is asked of the value. -/
abbrev Quotes (S : String → Prop) (x : Lower α) : Prop :=
  Quoting S x fun _ => True

theorem get_quotes : Quotes S (get : Lower Context) :=
  .of_code_eq fun ctx a ctx' hrun => by
    cases hrun
    exact ⟨trivial, rfl⟩

theorem modifyTable_quotes (f : SymbolTable → SymbolTable) : Quotes S (modifyTable f) :=
  .of_code_eq fun ctx a ctx' hrun => by
    cases hrun
    exact ⟨trivial, rfl⟩

theorem require_quotes (h : Header) : Quotes S (require h) :=
  .of_code_eq fun ctx a ctx' hrun => by
    cases hrun
    exact ⟨trivial, rfl⟩

theorem emit_quotes {i : Instr} (hi : ∀ s ∈ i.strings, S s) : Quotes S (emit i) := by
  intro ctx a ctx' hrun
  cases hrun
  exact ⟨trivial, [i], rfl, by simpa using hi⟩

theorem fillTemporary_quotes {type : StaticType} {instr : Place → Instr}
    (hinstr : ∀ p, ∀ s ∈ (instr p).strings, S s) : Quotes S (fillTemporary type instr) := by
  intro ctx a ctx' hrun
  rw [fillTemporary_apply] at hrun
  cases hrun
  exact ⟨trivial, [_], rfl, by simpa using hinstr _⟩

/-! ### Sources -/

/-- The strings that a source quotes are in `S`. -/
def OfSource (S : String → Prop) (source : Source) : Prop :=
  ∀ s ∈ source.code.quoted, S s

variable {source left right : Source} {shape : Shape}

theorem readSymbol_quotes (name : String) : Quotes S (readSymbol span name) := by
  refine .of_code_eq fun ctx a ctx' hrun => ?_
  cases hget : ctx.table.get? name with
  | none =>
      rw [readSymbol_undeclared hget] at hrun
      cases hrun
  | some s =>
      rw [readSymbol_apply hget] at hrun
      cases hrun
      exact ⟨trivial, rfl⟩

theorem subtype_quotes (source : Source) : Quotes S (source.subtype span) := by
  unfold Source.subtype
  split
  · exact .bind (readSymbol_quotes _) fun symbol _ => .pure trivial
  · exact .pure trivial

theorem shape_quotes (source : Source) : Quotes S (source.shape span) := by
  unfold Source.shape
  refine .ite (fun _ => ?_) fun _ => .pure trivial
  exact .bind (subtype_quotes source) fun t _ => .ite (fun _ => .fail _ _) fun _ => .pure trivial

theorem strings_boxContent {content : BoxContent} (hs : OfSource S source)
    (h : boxContent? shape source = some content) : ∀ s ∈ content.strings, S s := by
  have hscalar : ∀ t, (BoxKind.ofType? t).map (fun kind => .scalar kind (source.scalarCode kind)) =
      some content → ∀ s ∈ content.strings, S s := by
    intro t ht
    obtain ⟨kind, -, rfl⟩ := Option.map_eq_some_iff.mp ht
    exact nofun
  unfold boxContent? at h
  split at h
  · cases h
    exact nofun
  · cases h
    exact hs
  · cases h
    exact nofun
  · cases h
    exact nofun
  · exact hscalar _ h
  · exact hscalar _ h

theorem strings_key {key : Key} (hs : OfSource S source) (h : Key.of? shape source = some key) :
    ∀ s ∈ key.strings, S s := by
  unfold Key.of? at h
  split at h
  · cases h
    exact hs
  · cases h
    exact nofun
  · cases h
    exact nofun
  all_goals
    split at h
    · cases h
      exact nofun
    · cases h

theorem materialize_quotes (hs : OfSource S source) : Quotes S (materialize span source) := by
  refine .bind (shape_quotes source) fun shape _ => .ite (fun _ => .pure trivial) fun _ => ?_
  split
  · exact .fail _ _
  · rename_i content hcontent
    have hfill : Quotes S (fillTemporary .dynamic (Instr.build · false content)) :=
      fillTemporary_quotes fun p => strings_boxContent hs hcontent
    exact .bind hfill fun p _ => .pure trivial

theorem fillBox_quoting {instr : Place → Instr} (hinstr : ∀ p, ∀ s ∈ (instr p).strings, S s) :
    Quoting S (fillTemporary .dynamic instr >>= fun p => pure (.ofBox p)) (OfSource S) :=
  .bind (fillTemporary_quotes hinstr) fun _ _ => .pure nofun

/-! ### Expressions -/

theorem nativeOperands?_quotes (left right : Source) :
    Quotes S (nativeOperands? span left right) := by
  have hoperand : ∀ source, Quotes S (nativeOperand? span source) := fun source =>
    .bind (subtype_quotes source) fun t _ => .ite (fun _ => .pure trivial) fun _ => .pure trivial
  refine .bind (hoperand left) fun l _ => .bind (hoperand right) fun r _ => ?_
  split <;> exact .pure trivial

theorem condition_quotes (source : Source) : Quotes S (condition span source) := by
  refine .bind (subtype_quotes source) fun t _ => ?_
  refine .ite (fun _ => .pure trivial) fun _ => .ite (fun _ => .pure trivial) fun _ => ?_
  refine .ite (fun _ => ?_) fun _ => .ite (fun _ => .pure trivial) fun _ => .fail _ _
  exact .bind (require_quotes _) fun _ _ => .pure trivial

theorem boxedOp_quoting (op : BoxedOp) (hl : OfSource S left) (hr : OfSource S right) :
    Quoting S (boxedOp span op left right) (OfSource S) := by
  refine .bind (materialize_quotes hl) fun l _ => .bind (materialize_quotes hr) fun r _ => ?_
  exact .bind (require_quotes _) fun _ _ => fillBox_quoting nofun

theorem boxedCompare_quoting (op : Comparison) (hl : OfSource S left) (hr : OfSource S right) :
    Quoting S (boxedCompare span op left right) (OfSource S) := by
  refine .bind (materialize_quotes hl) fun l _ => .bind (materialize_quotes hr) fun r _ => ?_
  exact .bind (require_quotes _) fun _ _ => .pure nofun

theorem binary_quoting (op : BinaryOp) (hl : OfSource S left) (hr : OfSource S right) :
    Quoting S (binary span op left right) (OfSource S) := by
  cases op with
  | connect c =>
      refine .bind (condition_quotes left) fun l _ => .bind (condition_quotes right) fun r _ => ?_
      exact .pure nofun
  | concat => exact boxedOp_quoting .concat hl hr
  | arith op =>
      refine .bind (nativeOperands?_quotes left right) fun operands? _ => ?_
      split
      · exact .pure nofun
      · exact boxedOp_quoting (.arith op) hl hr
  | compare c =>
      refine .bind (nativeOperands?_quotes left right) fun operands? _ => ?_
      split
      · exact .pure nofun
      · exact boxedCompare_quoting c hl hr

theorem readProperty_quoting (object : Source) {property : String} (hproperty : S property) :
    Quoting S (readProperty span object property) (OfSource S) := by
  refine .bind (subtype_quotes object) fun t _ => .ite (fun _ => ?_) fun _ => .fail _ _
  refine .bind (require_quotes _) fun _ _ => fillBox_quoting fun p => ?_
  simpa [Instr.strings] using hproperty

theorem fetchElement_quoting (array : Source) {index : Source} (hi : OfSource S index) :
    Quoting S (fetchElement span array index) (OfSource S) := by
  refine .bind (shape_quotes index) fun shape _ => ?_
  split
  · exact .fail _ _
  · rename_i key hkey
    exact .bind (require_quotes _) fun _ _ => fillBox_quoting fun _ => strings_key hi hkey

theorem checkIndexable_quotes (array : Source) : Quotes S (checkIndexable span array) :=
  .bind (subtype_quotes array) fun _ _ => .ite (fun _ => .pure trivial) fun _ => .fail _ _

theorem doubleLiteral_quoting (x : Float) : Quoting S (doubleLiteral span x) (OfSource S) := by
  unfold doubleLiteral
  split
  · exact .pure (by simp [OfSource, Source.ofCode, Code.quoted])
  · exact .fail _ _

mutual
/-- **Lowering an expression quotes only its strings**, and perhaps the empty one. -/
theorem resolve_quoting (hempty : S "") (e : Expr) (he : ∀ s ∈ e.strings, S s) :
    Quoting S (resolve span e) (OfSource S) := by
  cases e with
  | null | bool b | int n | char c => exact .pure nofun
  | double x => exact doubleLiteral_quoting x
  | string s => exact .pure (by simpa [OfSource, Source.ofCode, Code.quoted, Expr.strings] using he)
  -- The code of an empty array is blank, and blank code quotes the empty string.
  | emptyArray => exact .pure (by simpa [OfSource, Source.ofCode, Code.quoted] using hempty)
  | var name => exact .bind (readSymbol_quotes name) fun _ _ => .pure nofun
  | binary op l r =>
      obtain ⟨hl, hr⟩ := List.forall_mem_append.mp he
      refine .bind (resolve_quoting hempty l hl) fun left hleft => ?_
      exact .bind (resolve_quoting hempty r hr) fun right hright => binary_quoting op hleft hright
  | not e =>
      refine .bind (resolve_quoting hempty e he) fun source _ => ?_
      exact .bind (condition_quotes source) fun c _ => .pure nofun
  | property e name =>
      obtain ⟨hname, he⟩ := List.forall_mem_cons.mp he
      exact .bind (resolve_quoting hempty e he) fun object _ => readProperty_quoting object hname
  | index a i =>
      obtain ⟨ha, hi⟩ := List.forall_mem_append.mp he
      refine .bind (resolve_quoting hempty a ha) fun array _ => ?_
      refine .bind (checkIndexable_quotes array) fun _ _ => ?_
      exact .bind (resolve_quoting hempty i hi) fun index hindex => fetchElement_quoting array hindex
  | call name args =>
      obtain ⟨hname, hargs⟩ := List.forall_mem_cons.mp he
      refine .bind (resolveArgs_quotes hempty args hargs) fun args _ => ?_
      refine .bind (require_quotes _) fun _ _ => fillBox_quoting fun p => ?_
      simpa [Instr.strings] using hname

theorem resolveArgs_quotes (hempty : S "") (es : List Expr)
    (hes : ∀ s ∈ Expr.stringsOfAll es, S s) : Quotes S (resolveArgs span es) := by
  cases es with
  | nil => exact .pure trivial
  | cons e es =>
      obtain ⟨he, hes⟩ := List.forall_mem_append.mp hes
      refine .bind (resolve_quoting hempty e he) fun source hsource => ?_
      refine .bind (materialize_quotes hsource) fun arg _ => ?_
      exact .bind (resolveArgs_quotes hempty es hes) fun args _ => .pure trivial
end

/-! ### Assignments -/

variable {dest : Symbol}

theorem storeNative_quotes (op : Operator) (value : Code) :
    Quotes S (storeNative span dest op shape value) := by
  unfold storeNative
  split
  · exact emit_quotes nofun
  · exact .fail _ _

theorem writeString_quotes (op : Operator) {x : Lower StringSource}
    (hx : Quoting S x fun text => ∀ s ∈ text.strings, S s) : Quotes S (writeString dest op x) := by
  refine .bind (modifyTable_quotes _) fun _ _ => .bind (require_quotes _) fun _ _ => ?_
  exact .bind hx fun text htext => emit_quotes htext

theorem initBox_quotes (name : String) : Quotes S (initBox name) := by
  refine .bind get_quotes fun ctx _ => ?_
  split
  · exact .pure trivial
  · refine .ite (fun _ => .pure trivial) fun _ => ?_
    exact .bind (modifyTable_quotes _) fun _ _ => emit_quotes nofun

theorem rebuild_quotes {content : BoxContent} (hcontent : ∀ s ∈ content.strings, S s) :
    Quotes S (rebuild dest content) :=
  .bind (initBox_quotes dest.name) fun _ _ => emit_quotes hcontent

theorem boxScalar_quotes (kind : BoxKind) {expr? : Option Expr} (hs : OfSource S source) :
    Quotes S (boxScalar dest kind shape source expr?) := by
  refine .bind get_quotes fun ctx _ => .ite (fun _ => ?_) fun _ => rebuild_quotes ?_
  · exact .bind (fillTemporary_quotes nofun) fun temp _ => rebuild_quotes nofun
  · cases hcontent : boxContent? shape source with
    | none => exact nofun
    | some content => exact strings_boxContent hs hcontent

theorem boxSource_quotes (hs : OfSource S source) :
    Quotes S (boxSource span dest shape source) := by
  unfold boxSource
  split
  · rename_i content hcontent
    exact rebuild_quotes (strings_boxContent hs hcontent)
  · exact .fail _ _

theorem carryOut_quotes (hempty : S "") (strategy : Strategy) (op : Operator)
    {expr? : Option Expr} (hs : OfSource S source) :
    Quotes S (carryOut span strategy dest op shape source expr?) := by
  cases strategy with
  | nativeZero | nativeDirect | nativeCast kind | nativeBoolean | boolTernary =>
      exact storeNative_quotes op _
  | numberCoerce | boolCoerce =>
      exact .bind (require_quotes _) fun _ _ => storeNative_quotes op _
  | stringLiteral =>
      refine writeString_quotes op (.pure ?_)
      -- The body stands in the line twice, as the text and inside its size.
      have hbody : ∀ s ∈ (if source.type = .null then Code.blank else source.code).quoted, S s := by
        split
        · simpa [Code.quoted] using hempty
        · exact hs
      exact List.forall_mem_append.mpr ⟨hbody, hbody⟩
  | stringBuffer | stringChar | stringLong => exact writeString_quotes op (.pure nofun)
  | stringCoerceLong =>
      exact writeString_quotes op (.bind (require_quotes _) fun _ _ => .pure nofun)
  | boxValue kind => exact boxScalar_quotes kind hs
  | boxNull | boxBinding kind | boxString | boxStringBuffer | boxEmptyArray =>
      exact boxSource_quotes hs
  | boxCopy =>
      refine .ite (fun _ => .pure trivial) fun _ => ?_
      exact .bind (modifyTable_quotes _) fun _ _ => emit_quotes nofun
  | boxArithmetic =>
      refine .bind (require_quotes _) fun _ _ => .bind (modifyTable_quotes _) fun _ _ => ?_
      exact emit_quotes nofun

theorem assignWhole_quotes (hempty : S "") (op : Operator) (expr? : Option Expr)
    (hs : OfSource S source) : Quotes S (assignWhole span dest op source expr?) := by
  refine .ite (fun _ => .fail _ _) fun _ => ?_
  split
  · exact .fail _ _
  · refine .bind (shape_quotes source) fun shape _ => ?_
    split
    · exact .fail _ _
    · exact carryOut_quotes hempty _ op hs

theorem checkAssign_quotes (op : Operator) (source : Source) :
    Quotes S (checkAssign span dest op source) :=
  .ite (fun _ => .pure trivial) fun _ => .fail _ _

theorem checkHeapBox_quotes : Quotes S (checkHeapBox span dest) :=
  .ite (fun _ => .pure trivial) fun _ => .fail _ _

theorem checkObject_quotes : Quotes S (checkObject span dest) :=
  .ite (fun _ => .pure trivial) fun _ => .fail _ _

theorem checkProperty_quotes (property : String) : Quotes S (checkProperty span dest property) := by
  refine .bind get_quotes fun ctx _ => .ite (fun _ => ?_) fun _ => .pure trivial
  split
  · exact .fail _ _
  · exact .ite (fun _ => .pure trivial) fun _ => .fail _ _

theorem boxedSource_quotes (source : Source) (use : ValueUse) :
    Quotes S (boxedSource span source use) :=
  .bind (shape_quotes source) fun _ _ => .ite (fun _ => .pure trivial) fun _ => .fail _ _

theorem updateKey_quoting (hempty : S "") {index : Expr} (hindex : ∀ s ∈ index.strings, S s) :
    Quoting S (updateKey span index) fun key => ∀ s ∈ key.strings, S s := by
  refine .bind (resolve_quoting hempty index hindex) fun i hi => ?_
  refine .bind (shape_quotes i) fun shape _ => ?_
  split
  · rename_i key hkey
    exact .pure (strings_key hi hkey)
  · exact .fail _ _

theorem propertyKey_quotes (hempty : S "") {index : Expr} (hindex : ∀ s ∈ index.strings, S s) :
    Quotes S (propertyKey span index) := by
  refine .bind (resolve_quoting hempty index hindex) fun i hi => ?_
  exact .bind (shape_quotes i) fun shape _ => .ite (fun _ => .pure trivial) fun _ => .fail _ _

/-- Writing the target quotes the strings of the source and those of the target. -/
theorem assignSource_quotes (hempty : S "") (a : Assignment) (expr : Expr)
    (htarget : ∀ s ∈ a.target.strings, S s) (hs : OfSource S source) :
    Quotes S (assignSource dest a expr source) := by
  unfold assignSource
  cases hform : a.target with
  | whole => exact assignWhole_quotes hempty _ _ hs
  | append =>
      refine .bind (checkAssign_quotes _ source) fun _ _ => .bind checkHeapBox_quotes fun _ _ => ?_
      refine .bind (materialize_quotes hs) fun value _ => ?_
      exact .bind (require_quotes _) fun _ _ => emit_quotes nofun
  | element index =>
      rw [hform] at htarget
      refine .bind (checkAssign_quotes _ source) fun _ _ => .bind checkHeapBox_quotes fun _ _ => ?_
      refine .bind (updateKey_quoting hempty htarget) fun key hkey => ?_
      refine .bind (materialize_quotes hs) fun value _ => ?_
      exact .bind (require_quotes _) fun _ _ => emit_quotes hkey
  | property name =>
      rw [hform] at htarget
      refine .bind (checkAssign_quotes _ source) fun _ _ => .bind checkHeapBox_quotes fun _ _ => ?_
      refine .bind (checkProperty_quotes name) fun _ _ => ?_
      refine .bind (materialize_quotes hs) fun value _ => ?_
      exact .bind (require_quotes _) fun _ _ => emit_quotes htarget
  | propertyAppend name =>
      rw [hform] at htarget
      refine .bind (checkAssign_quotes _ source) fun _ _ => .bind checkObject_quotes fun _ _ => ?_
      refine .bind (boxedSource_quotes source _) fun value _ => ?_
      exact .bind (require_quotes _) fun _ _ => emit_quotes htarget
  | propertyElement name index =>
      rw [hform] at htarget
      obtain ⟨hname, hindex⟩ := List.forall_mem_cons.mp htarget
      refine .bind (checkAssign_quotes _ source) fun _ _ => .bind checkObject_quotes fun _ _ => ?_
      refine .bind (propertyKey_quotes hempty hindex) fun key _ => ?_
      refine .bind (boxedSource_quotes source _) fun value _ => ?_
      refine .bind (require_quotes _) fun _ _ => emit_quotes ?_
      simpa [Instr.strings] using hname

theorem assignStep_quotes (op : Operator) : Quotes S (assignStep span dest op) := by
  have hstep : ∀ direction op, Quotes S (stepDestination span dest direction op) := by
    intro direction op
    unfold stepDestination
    dsimp only
    split
    · exact .fail _ _
    · exact emit_quotes nofun
    · exact emit_quotes nofun
    · exact .fail _ _
    · exact .fail _ _
    · refine .bind (require_quotes _) fun _ _ => .ite (fun _ => emit_quotes nofun) fun _ => ?_
      exact .bind (emit_quotes nofun) fun _ _ => emit_quotes nofun
  refine .ite (fun _ => .fail _ _) fun _ => ?_
  split
  · exact hstep .increment _
  · exact hstep .decrement _
  · exact .fail _ _

theorem checkedDestination_quotes (a : Assignment) : Quotes S (checkedDestination a) := by
  refine .of_code_eq fun ctx dest ctx' hrun => ?_
  obtain ⟨rfl, -⟩ := checkedDestination_ok_iff.mp hrun
  exact ⟨trivial, rfl⟩

/-- **An assignment quotes only its own strings**, and perhaps the empty one. -/
theorem assignment_quotes (hempty : S "") (a : Assignment) (ha : ∀ s ∈ a.strings, S s) :
    Quotes S (assignment a) := by
  obtain ⟨htarget, hsource⟩ := List.forall_mem_append.mp ha
  refine .bind (checkedDestination_quotes a) fun dest _ => .ite (fun _ => ?_) fun _ => ?_
  · split
    · exact .bind (modifyTable_quotes _) fun _ _ => assignStep_quotes _
    · exact .fail _ _
  · split
    · exact .fail _ _
    · rename_i expr hexpr
      rw [hexpr] at hsource
      refine .bind (resolve_quoting hempty expr hsource) fun source hs => ?_
      refine .bind (modifyTable_quotes _) fun _ _ => ?_
      exact assignSource_quotes hempty a expr htarget hs

end Lower

/-! ### Runs -/

/-- What has been emitted so far has the literals that it should have, of strings in `S`. -/
structure Context.Quoted (S : String → Prop) (ctx : Context) : Prop where
  spelled : ctx.WellSpelled
  literals : ∀ i ∈ ctx.code, literals (i.body ctx.options) = i.strings.map Text.stringBody
  strings : ∀ i ∈ ctx.code, ∀ s ∈ i.strings, S s

namespace Context.Quoted

variable {S : String → Prop} {ctx : Context}

/-- **A call keeps the invariant**, if its strings are in `S`. -/
theorem attempt (hempty : S "") {a : Assignment} (ha : ∀ s ∈ a.strings, S s) (h : ctx.Quoted S) :
    (ctx.attempt a).Quoted S := by
  obtain ⟨emitted, hadv⟩ := ctx.attempt_advances a
  have hspelled := h.spelled.advances hadv
  refine ⟨hspelled, fun i hi => ?_, ?_⟩
  · have hwritten := hspelled.named.written i hi
    rw [hadv.code] at hi
    rcases List.mem_append.mp hi with hi | hi
    · exact hadv.options ▸ h.literals i hi
    · exact (hadv.typed i hi).1.literals_body (List.all_eq_true.mp hspelled.kernelPrefix)
        (fun p t hp => hspelled.named.render hp) hwritten
  -- A call that fails is rolled back, so what it would have quoted does not count.
  · cases hrun : lowerAssignment a ctx with
    | ok u ctx' =>
        rw [attempt_of_ok hrun]
        obtain ⟨-, emitted, hcode, hquotes⟩ :=
          Lower.assignment_quotes hempty a ha ctx u ctx' (lowerAssignment_ok_iff.mp hrun)
        rw [hcode]
        exact List.forall_mem_append.mpr ⟨h.strings, hquotes⟩
    | error e ctx' =>
        rw [attempt_of_error hrun]
        obtain ⟨stopped, hstops, rfl⟩ := stops_of_error hrun
        rw [rollback_code hstops.code]
        exact h.strings

/-- **A run keeps the invariant.** -/
theorem attempts (hempty : S "") {calls : List Assignment}
    (hcalls : ∀ a ∈ calls, ∀ s ∈ a.strings, S s) (h : ctx.Quoted S) :
    (ctx.attempts calls).Quoted S := by
  induction calls generalizing ctx with
  | nil => exact h
  | cons a calls ih =>
      obtain ⟨ha, hcalls⟩ := List.forall_mem_cons.mp hcalls
      exact ih hcalls (h.attempt hempty ha)

end Context.Quoted

/-- **Every literal of a compiled function body is written for a string of its source**, or for the
empty one, and it has that string's value and size exactly if no octal digit follows a null
character in it. What is asked of names and options is what makes lines statements. -/
theorem compiled_literals_denote_strings {u : CompilationUnit} {out : Compiled}
    (hkernel : isSpelled u.options.kernelPrefix = true)
    (htemp : isSpelled u.options.tempPrefix = true)
    (hreceiver : isSpelled u.options.receiverSymbol = true)
    (hindent : u.options.indent.toList.all isBlank = true)
    (hnames : ∀ d ∈ u.declarations, isSpelled d.name = true) (hrun : u.compile = .ok out) :
    (∀ s : String, ∃ read, Text.literalBytes? (Text.stringBody s).toList = some read ∧
      (read = Text.bytes s ↔ Text.digitAfterNull s.toList = false) ∧
      (read.length = s.utf8ByteSize ↔ Text.digitAfterNull s.toList = false)) ∧
    ∃ code : List Instr, out.lines = code.map (Instr.line u.options) ∧
      ∀ i ∈ code, literals (i.line u.options) = i.strings.map Text.stringBody ∧
        ∀ s ∈ i.strings, s = "" ∨ ∃ a ∈ u.statements.flatMap LetStatement.assignments,
          s ∈ a.strings := by
  refine ⟨Text.literalBytes?_stringBody, ?_⟩
  unfold CompilationUnit.compile at hrun
  have hstart := Context.initial_starts u.options u.classDef u.declarations
  cases hlower : lowerStatements u.statements (.initial u.options u.classDef u.declarations) with
  | error e ctx =>
      rw [hlower] at hrun
      cases hrun
  | ok v ctx =>
      rw [hlower] at hrun
      obtain rfl := lowerStatements_ok hlower
      obtain rfl : Context.compiled _ = out := Except.ok.inj hrun
      have hinitial : (Context.initial u.options u.classDef u.declarations).Quoted fun s =>
          s = "" ∨ ∃ a ∈ u.statements.flatMap LetStatement.assignments, s ∈ a.strings := by
        refine ⟨.initial hkernel hreceiver htemp hnames, ?_, ?_⟩
        · rw [hstart.code]
          simp
        · rw [hstart.code]
          simp
      have hquoted := hinitial.attempts (.inl rfl)
        (fun a ha s hs => .inr ⟨a, ha, hs⟩ : ∀ a ∈ u.statements.flatMap LetStatement.assignments, _)
      have hoptions : ((Context.initial u.options u.classDef u.declarations).attempts
          (u.statements.flatMap LetStatement.assignments)).options = u.options := by
        rw [Context.attempts_options, hstart.options]
      generalize (Context.initial u.options u.classDef u.declarations).attempts
        (u.statements.flatMap LetStatement.assignments) = final at hquoted hoptions ⊢
      rw [← hoptions] at hindent ⊢
      refine ⟨final.code, final.lines_eq, fun i hi => ⟨?_, hquoted.strings i hi⟩⟩
      rw [Instr.literals_line hindent (hquoted.spelled.code i hi)]
      exact hquoted.literals i hi

/-- A call, a key, a property and a literal with all that has to be escaped, among it a null
character that no digit follows. -/
theorem compiled_literals_denote_strings_escaped :
    let u : CompilationUnit :=
      { declarations := [{ name := "v", type := .dynamic }, { name := "s", type := .string }]
        statements :=
          [{ assignments :=
            [{ target := .element (.string "\"k\\"), destination := "v",
               source := some (.call "f\n" [.property (.var "v") "p\t"]) },
              { target := .whole, destination := "s", source := some (.string "a\x00b") }] }] }
    ∃ out, u.compile = .ok out ∧
      out.lines = ["zephir_read_property(&_0, v, SL(\"p\\t\"), PH_NOISY_CC);",
        "ZEPHIR_CALL_FUNCTION(_1, \"f\\n\", _0);",
        "zephir_array_update_string(&v, SL(\"\\\"k\\\\\"), &_1, PH_COPY | PH_SEPARATE);",
        "zephir_str_assign(s, \"a\\0b\", sizeof(\"a\\0b\")-1);"] ∧
      ∃ code : List Instr, out.lines = code.map (Instr.line u.options) ∧
        ∀ i ∈ code, literals (i.line u.options) = i.strings.map Text.stringBody ∧
          ∀ s ∈ i.strings, s = "" ∨ ∃ a ∈ u.statements.flatMap LetStatement.assignments,
            s ∈ a.strings := by
  intro u
  have hcompiled : ∃ out, u.compile = .ok out ∧
      out.lines = ["zephir_read_property(&_0, v, SL(\"p\\t\"), PH_NOISY_CC);",
        "ZEPHIR_CALL_FUNCTION(_1, \"f\\n\", _0);",
        "zephir_array_update_string(&v, SL(\"\\\"k\\\\\"), &_1, PH_COPY | PH_SEPARATE);",
        "zephir_str_assign(s, \"a\\0b\", sizeof(\"a\\0b\")-1);"] := by
    simp only [u]
    exact ⟨_, rfl, by decide⟩
  obtain ⟨out, hrun, hlines⟩ := hcompiled
  have hquoted := compiled_literals_denote_strings (by decide) (by decide) (by decide)
    (by decide) (by decide) hrun
  exact ⟨out, hrun, hlines, hquoted.2⟩

/-- A null character and the digit behind it are read as one character: the escape of the first
takes the second in. -/
theorem null_takes_digit_in :
    let u : CompilationUnit :=
      { declarations := [{ name := "s", type := .string }]
        statements :=
          [{ assignments :=
            [{ target := .whole, destination := "s", source := some (.string "\x001") }] }] }
    (∃ out, u.compile = .ok out ∧
      out.lines = ["zephir_str_assign(s, \"\\01\", sizeof(\"\\01\")-1);"]) ∧
      Text.literalBytes? "\\01".toList = some [1] ∧ Text.bytes "\x001" = [0, 0x31] := by
  refine ⟨?_, ?_, by decide⟩
  · exact ⟨_, rfl, by decide⟩
  · have hescape : Text.readEscape? ['0', '1'] = some (1, []) := by decide
    show Text.literalBytes? ['\\', '0', '1'] = some [1]
    rw [Text.literalBytes?_escape hescape, Text.literalBytes?_nil]
    rfl

end BoxedLet
