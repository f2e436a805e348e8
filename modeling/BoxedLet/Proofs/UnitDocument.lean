import BoxedLet.Proofs.ExprDocument

/-!
# BoxedLet.Proofs.UnitDocument

**Documents of units.** The decoder of every record reads back what its format describes: options,
classes and declarations first, then assignments, statements and the unit. Each record is listed once
more with a reader for each field, in the order of its decoder, and `record_reads` does the rest.

An assignment is read in its flat form, in which the fields of all targets stand side by side. The
fields that its own target has no use for may hold anything (`FlatAssignment.StandsFor`), and it has
to have a value if its operator takes one.
-/

namespace BoxedLet.Document

open Json

/-! ### Options, classes, declarations -/

theorem lookup_typeNames (t : StaticType) :
    ∀ name ∈ namesOfType t, typeNames.lookup name = some t := by
  cases t <;> decide

theorem lookup_storageNames (s : Storage) :
    ∀ name ∈ namesOfStorage s, storageNames.lookup name = some s := by
  cases s <;> decide

theorem lookup_operatorNames (op : Operator) :
    ∀ name ∈ namesOfOperator op, operatorNames.lookup name = some op := by
  cases op <;> decide

theorem lookup_targetNames (k : TargetKind) :
    ∀ name ∈ namesOfTarget k, targetNames.lookup name = some k := by
  cases k <;> decide

/-- The fields of options. -/
def optionsReaders : List (FieldReader Options) := [
  .optional "kernel-prefix" Decoder.string_reads "zephir" (·.kernelPrefix)
    (fun s o => { o with kernelPrefix := s }) fun _ _ => rfl,
  .optional "temp-prefix" Decoder.string_reads "_" (·.tempPrefix)
    (fun s o => { o with tempPrefix := s }) fun _ _ => rfl,
  .optional "indent" Decoder.string_reads "\t" (·.indent)
    (fun s o => { o with indent := s }) fun _ _ => rfl,
  .optional "indent-level" Decoder.uint64_reads 0 (·.indentLevel)
    (fun n o => { o with indentLevel := n }) fun _ _ => rfl,
  .optional "implicit-receiver" Decoder.string_reads "this" (·.implicitReceiver)
    (fun s o => { o with implicitReceiver := s }) fun _ _ => rfl,
  .optional "receiver-symbol" Decoder.string_reads "this_ptr" (·.receiverSymbol)
    (fun s o => { o with receiverSymbol := s }) fun _ _ => rfl]

theorem optionsReaders_assemble : Assembles {} optionsReaders where
  apart := by simp [optionsReaders, FieldReader.Apart]
  absent := by simp [optionsReaders]
  ext := by
    rintro ⟨⟩ ⟨⟩ h
    simpa [optionsReaders] using h

theorem optionsDecoder_reads : optionsDecoder.Reads (DescribesRecord optionsFormat) :=
  record_reads optionsReaders_assemble

/-- The fields of a class. -/
def classReaders : List (FieldReader ClassDef) := [
  .needed "name" Decoder.string_reads (·.name) (fun s c => { c with name := s }) fun _ _ => rfl,
  .optional "properties" (Decoder.list_reads Decoder.string_reads) [] (·.properties)
    (fun ps c => { c with properties := ps }) fun _ _ => rfl]

theorem classReaders_assemble : Assembles { name := "" } classReaders where
  apart := by simp [classReaders, FieldReader.Apart]
  absent := by simp [classReaders]
  ext := by
    rintro ⟨⟩ ⟨⟩ h
    simpa [classReaders] using h

theorem classDecoder_reads : classDecoder.Reads (DescribesRecord classFormat) :=
  record_reads classReaders_assemble

theorem not_named_null {α : Type} {names : α → List String} (a : α) : ¬Named names a .null := by
  rintro ⟨name, -, ⟨⟩⟩

/-- The fields of a declaration. -/
def declarationReaders : List (FieldReader Declaration) := [
  .needed "name" Decoder.string_reads (·.name) (fun s d => { d with name := s }) fun _ _ => rfl,
  .needed "type" (Decoder.choice_reads lookup_typeNames) (·.type)
    (fun t d => { d with type := t }) fun _ _ => rfl,
  .optional "storage"
    (Decoder.nullable_reads (Decoder.choice_reads lookup_storageNames) not_named_null) none
    (·.storage) (fun s d => { d with storage := s }) fun _ _ => rfl,
  .optional "read-only" Decoder.bool_reads false (·.readOnly)
    (fun b d => { d with readOnly := b }) fun _ _ => rfl]

theorem declarationReaders_assemble : Assembles { name := "", type := .int } declarationReaders where
  apart := by simp [declarationReaders, FieldReader.Apart]
  absent := by simp [declarationReaders]
  ext := by
    rintro ⟨⟩ ⟨⟩ h
    simpa [declarationReaders] using h

theorem declarationDecoder_reads : declarationDecoder.Reads (DescribesRecord declarationFormat) :=
  record_reads declarationReaders_assemble

/-! ### Assignments -/

theorem nullableString_reads : (Decoder.nullable Decoder.string).Reads (Nullable IsString) :=
  Decoder.nullable_reads Decoder.string_reads (by rintro _ ⟨⟩)

theorem nullableExpr_reads : (Decoder.nullable exprDecoder).Reads (Nullable DescribesExpr) :=
  Decoder.nullable_reads exprDecoder_reads (by rintro _ ⟨⟩)

/-- The fields of a flat assignment. -/
def flatReaders : List (FieldReader FlatAssignment) := [
  .needed "assign-type" (Decoder.choice_reads lookup_targetNames) (·.kind)
    (fun k a => { a with kind := k }) fun _ _ => rfl,
  .needed "variable" Decoder.string_reads (·.destination)
    (fun s a => { a with destination := s }) fun _ _ => rfl,
  .optional "operator" (Decoder.choice_reads lookup_operatorNames) .assign (·.operator)
    (fun op a => { a with operator := op }) fun _ _ => rfl,
  .optional "expr" nullableExpr_reads none (·.source)
    (fun e a => { a with source := e }) fun _ _ => rfl,
  .optional "property" nullableString_reads none (·.property)
    (fun p a => { a with property := p }) fun _ _ => rfl,
  .optional "index-expr" nullableExpr_reads none (·.index)
    (fun e a => { a with index := e }) fun _ _ => rfl,
  .optional "file" nullableString_reads none (·.span.file)
    (fun file a => { a with span := { a.span with file } }) fun _ _ => rfl,
  .optional "line" Decoder.uint32_reads 0 (·.span.line)
    (fun line a => { a with span := { a.span with line } }) fun _ _ => rfl,
  (FieldReader.optional "column" Decoder.uint32_reads 0 (·.span.column)
    (fun column a => { a with span := { a.span with column } }) fun _ _ => rfl).orNamed "char" rfl]

theorem flatReaders_assemble : Assembles {} flatReaders where
  apart := by simp [flatReaders, FieldReader.Apart]
  absent := by simp [flatReaders]
  ext := by
    rintro ⟨_, _, _, _, _, _, ⟨⟩⟩ ⟨_, _, _, _, _, _, ⟨⟩⟩ h
    simpa [flatReaders] using h

theorem flatDecoder_reads : flatDecoder.Reads (DescribesRecord flatFormat) :=
  record_reads flatReaders_assemble

theorem FlatAssignment.StandsFor.target {flat : FlatAssignment} {a : Assignment}
    (h : flat.StandsFor a) : flat.target = .ok a.target := by
  have hkind := h.kind
  have hproperty := h.property
  have hindex := h.index
  rw [FlatAssignment.target, hkind]
  cases htarget : a.target with
  | whole | append => rfl
  | element i =>
      rw [htarget] at hindex
      simp [Target.kind, FlatAssignment.need, hindex i rfl, bind, Except.bind, pure, Except.pure]
  | property p | propertyAppend p =>
      rw [htarget] at hproperty
      simp [Target.kind, FlatAssignment.need, hproperty p rfl, bind, Except.bind, pure, Except.pure]
  | propertyElement p i =>
      rw [htarget] at hproperty hindex
      simp [Target.kind, FlatAssignment.need, hproperty p rfl, hindex i rfl, bind, Except.bind, pure,
        Except.pure]

theorem FlatAssignment.StandsFor.assignment {flat : FlatAssignment} {a : Assignment}
    (h : flat.StandsFor a) (hvalue : a.HasValue) : flat.assignment = .ok a := by
  -- The check that a value is there lets the assignment pass.
  have hsource : ¬((flat.source.isNone && !flat.operator.isStep) = true) := by
    rw [h.source, h.operator]
    rcases hvalue with hvalue | hvalue
    · cases hs : a.source with
      | none => simp [hs] at hvalue
      | some e => simp
    · simp [hvalue]
  rw [FlatAssignment.assignment, h.target]
  show (if (flat.source.isNone && !flat.operator.isStep) = true then _ else _) = _
  rw [if_neg hsource, h.destination, h.operator, h.source, h.span]
  rfl

theorem assignmentDecoder_reads : assignmentDecoder.Reads DescribesAssignment := by
  rintro budget a v text ws rest ⟨hvalue, flat, hflat, hdescribes⟩ hv hws hrest
  rw [assignmentDecoder, flatDecoder_reads budget hdescribes hv hws hrest]
  show (flat.assignment >>= _) = _
  -- What is left is to put the assignment together.
  rw [hflat.assignment hvalue]
  rfl

/-! ### Units -/

/-- The fields of a statement. -/
def statementReaders : List (FieldReader LetStatement) := [
  .needed "assignments" (Decoder.list_reads assignmentDecoder_reads) (·.assignments)
    (fun as s => { s with assignments := as }) fun _ _ => rfl]

theorem statementReaders_assemble : Assembles { assignments := [] } statementReaders where
  apart := by simp [statementReaders]
  absent := by simp [statementReaders]
  ext := by
    rintro ⟨⟩ ⟨⟩ h
    simpa [statementReaders] using h

theorem statementDecoder_reads : statementDecoder.Reads (DescribesRecord statementFormat) :=
  record_reads statementReaders_assemble

theorem not_describesRecord_null {σ : Type} {format : List (FieldFormat σ)} (a : σ) :
    ¬DescribesRecord format a .null := by
  rintro ⟨ms, ⟨⟩, -⟩

/-- The fields of a unit. -/
def unitReaders : List (FieldReader CompilationUnit) := [
  .optional "options" optionsDecoder_reads {} (·.options)
    (fun o u => { u with options := o }) fun _ _ => rfl,
  .optional "class" (Decoder.nullable_reads classDecoder_reads not_describesRecord_null) none
    (·.classDef) (fun c u => { u with classDef := c }) fun _ _ => rfl,
  .optional "symbols" (Decoder.list_reads declarationDecoder_reads) [] (·.declarations)
    (fun ds u => { u with declarations := ds }) fun _ _ => rfl,
  .optional "statements" (Decoder.list_reads statementDecoder_reads) [] (·.statements)
    (fun ss u => { u with statements := ss }) fun _ _ => rfl]

theorem unitReaders_assemble : Assembles {} unitReaders where
  apart := by simp [unitReaders, FieldReader.Apart]
  absent := by simp [unitReaders]
  ext := by
    rintro ⟨⟩ ⟨⟩ h
    simpa [unitReaders] using h

theorem unitDecoder_reads : unitDecoder.Reads (DescribesRecord unitFormat) :=
  record_reads unitReaders_assemble

/-- **A document of a unit is read back as that unit.** -/
theorem ofJson_written {u : CompilationUnit} {v : Value} {text before after : List Char}
    (h : DescribesRecord unitFormat u v) (hv : Written maxDepth v text) (hbefore : IsBlanks before)
    (hafter : IsBlanks after) :
    CompilationUnit.ofJson (String.ofList (before ++ (text ++ after))) = .ok u := by
  have hstops : Stops after := by
    rw [← List.append_nil after]
    exact .append hafter .nil
  have hend : skipBlank after = [] := by
    rw [← List.append_nil after, skipBlank_append hafter]
    rfl
  rw [CompilationUnit.ofJson, Decoder.decode, String.toList_ofList,
    unitDecoder_reads maxDepth h hv hbefore hstops]
  show (if (skipBlank after).isEmpty = true then _ else _) = _
  rw [hend]
  rfl

end BoxedLet.Document
