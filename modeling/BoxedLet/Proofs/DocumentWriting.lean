import BoxedLet.Proofs.UnitDocument

/-!
# BoxedLet.Proofs.DocumentWriting

**Every unit has a document**, apart from doubles and from assignments without anything to write.
How deep its brackets go depends on how deep its expressions do: five brackets are open around an
expression, and `Expr.nesting` counts those of the expression itself.

`Expressible n R a` says that some value describes `a` and that it can be written with at most `n`
brackets open at once. The lemmas follow the formats; each says what one more bracket costs.
-/

namespace BoxedLet.Json

variable {α : Type} {n : Nat}

/-- The value can be written with at most so many brackets open at once. -/
def Writable (n : Nat) (v : Value) : Prop :=
  ∃ text, Written n v text

/-- Some value describes the contents and can be written. -/
def Expressible (n : Nat) (R : α → Value → Prop) (a : α) : Prop :=
  ∃ v, R a v ∧ Writable n v

/-! ### Scalars -/

theorem exists_isHex {k : Nat} (h : k < 0x10000) : ∃ text, IsHex k text :=
  ⟨_, h, _, _, _, _, rfl, .inl rfl, .inl rfl, .inl rfl, .inl rfl⟩

theorem exists_writtenChars (cs : List Char) : ∃ text, WrittenChars cs text := by
  induction cs with
  | nil => exact ⟨[], .nil⟩
  | cons c cs ih =>
      obtain ⟨text, htext⟩ := ih
      -- Quotes, backslashes and control characters are escaped, and nothing else.
      by_cases hquote : c = '"'
      · have hletter : ('"', c) ∈ simpleEscapes := by
          subst hquote
          decide
        exact ⟨_, .simple hletter htext⟩
      by_cases hslash : c = '\\'
      · have hletter : ('\\', c) ∈ simpleEscapes := by
          subst hslash
          decide
        exact ⟨_, .simple hletter htext⟩
      by_cases hcontrol : 0x20 ≤ c.toNat
      · exact ⟨_, .plain hquote hslash hcontrol htext⟩
      · obtain ⟨hex, hhex⟩ := exists_isHex (k := c.toNat) (by omega)
        exact ⟨_, .unicode hhex htext⟩

theorem writable_string (s : String) : Writable n (.string s) := by
  obtain ⟨text, htext⟩ := exists_writtenChars s.toList
  exact ⟨_, (WrittenScalar.string htext).written n⟩

theorem writable_bool (b : Bool) : Writable n (.bool b) := by
  cases b with
  | false => exact ⟨_, WrittenScalar.false.written n⟩
  | true => exact ⟨_, WrittenScalar.true.written n⟩

theorem writable_int {k : Int} (hlow : Int64.minValue.toInt ≤ k) (hhigh : k < UInt64.size) :
    Writable n (.number (.int k)) :=
  ⟨_, (WrittenScalar.int hlow hhigh).written n⟩

/-! ### Brackets -/

theorem exists_separated {E : α → List Char → Prop} {x : α} {xs : List α}
    (h : ∀ y ∈ x :: xs, ∃ text, E y text) : ∃ body, Separated E (x :: xs) body := by
  induction xs generalizing x with
  | nil =>
      obtain ⟨text, htext⟩ := h x (by simp)
      exact ⟨_, .last .nil htext .nil⟩
  | cons y ys ih =>
      obtain ⟨text, htext⟩ := h x (by simp)
      obtain ⟨rest, hrest⟩ := ih fun z hz => h z (List.mem_cons_of_mem _ hz)
      exact ⟨_, .cons .nil htext .nil hrest⟩

theorem exists_enclosed {E : α → List Char → Prop} {xs : List α}
    (h : ∀ x ∈ xs, ∃ text, E x text) : ∃ body, Enclosed E xs body := by
  cases xs with
  | nil => exact ⟨[], .inl ⟨rfl, .nil⟩⟩
  | cons x xs =>
      obtain ⟨body, hbody⟩ := exists_separated h
      exact ⟨body, .inr hbody⟩

theorem writable_list {items : List Value} (h : ∀ v ∈ items, Writable n v) :
    Writable (n + 1) (.list items) := by
  obtain ⟨body, hbody⟩ := exists_enclosed h
  exact ⟨_, .inr (.list hbody)⟩

theorem writable_object {ms : List (String × Value)} (h : ∀ m ∈ ms, Writable n m.2) :
    Writable (n + 1) (.object ms) := by
  have hmembers : ∀ m ∈ ms, ∃ text, WrittenMember (Written n) m text := by
    intro m hm
    obtain ⟨text, htext⟩ := h m hm
    obtain ⟨name, hname⟩ := exists_writtenChars m.1.toList
    exact ⟨_, .mk hname .nil .nil htext⟩
  obtain ⟨body, hbody⟩ := exists_enclosed hmembers
  exact ⟨_, .inr (.object hbody)⟩

/-! ### Formats -/

theorem expressible_string (s : String) : Expressible n IsString s :=
  ⟨_, rfl, writable_string s⟩

theorem expressible_bool (b : Bool) : Expressible n IsBool b :=
  ⟨_, rfl, writable_bool b⟩

theorem writable_number {k : Nat} (h : k < UInt64.size) : Writable n (.number (.int k)) := by
  have hmin : Int64.minValue.toInt = -9223372036854775808 := by decide
  exact writable_int (by omega) (by omega)

theorem expressible_uint32 (k : UInt32) : Expressible n (fun k v => IsNumber k.toNat v) k := by
  have hsize : UInt32.size ≤ UInt64.size := by decide
  exact ⟨_, rfl, writable_number (Nat.lt_of_lt_of_le k.toNat_lt hsize)⟩

theorem expressible_uint64 (k : UInt64) : Expressible n (fun k v => IsNumber k.toNat v) k :=
  ⟨_, rfl, writable_number k.toNat_lt⟩

theorem expressible_named {names : α → List String} {a : α} (h : names a ≠ []) :
    Expressible n (Named names) a := by
  obtain ⟨name, hname⟩ := List.exists_mem_of_ne_nil _ h
  exact ⟨_, ⟨name, hname, rfl⟩, writable_string name⟩

theorem expressible_nullable {R : α → Value → Prop} {o : Option α}
    (h : ∀ a, o = some a → Expressible n R a) : Expressible n (Nullable R) o := by
  cases o with
  | none => exact ⟨.null, rfl, _, WrittenScalar.null.written n⟩
  | some a => exact h a rfl

theorem exists_each {R : α → Value → Prop} {as : List α} (h : ∀ a ∈ as, Expressible n R a) :
    ∃ items, Each R as items ∧ ∀ v ∈ items, Writable n v := by
  induction as with
  | nil => exact ⟨[], .nil, by simp⟩
  | cons a as ih =>
      obtain ⟨v, hv, hwritable⟩ := h a (by simp)
      obtain ⟨items, hitems, hrest⟩ := ih fun b hb => h b (List.mem_cons_of_mem _ hb)
      refine ⟨v :: items, .cons hv hitems, ?_⟩
      intro w hw
      cases hw with
      | head => exact hwritable
      | tail _ hw => exact hrest w hw

theorem expressible_list {R : α → Value → Prop} {as : List α} (h : ∀ a ∈ as, Expressible n R a) :
    Expressible (n + 1) (ListOf R) as := by
  obtain ⟨items, hitems, hwritable⟩ := exists_each h
  exact ⟨_, ⟨items, rfl, hitems⟩, writable_list hwritable⟩

/-- One member for each field, under its first name. -/
theorem exists_members {σ : Type} {readers : List (FieldReader σ)} {a : σ}
    (hapart : readers.Pairwise FieldReader.Apart)
    (h : ∀ f ∈ readers, Expressible n f.format.describes (f.format.part a)) :
    ∃ ms : List (String × Value), (∀ f ∈ readers, f.format.HoldsIn a ms) ∧
      ∀ m ∈ ms, (∃ f ∈ readers, m.1 ∈ f.format.names) ∧ Writable n m.2 := by
  induction hapart with
  | nil => exact ⟨[], by simp, by simp⟩
  | @cons f fs hf _ ih =>
      obtain ⟨v, hv, hwritable⟩ := h f (by simp)
      obtain ⟨ms, hholds, hms⟩ := ih fun g hg => h g (List.mem_cons_of_mem _ hg)
      -- The other members answer to other fields, so the new one stands alone under its names.
      have hnone : f.format.members ms = [] := by
        rw [FieldFormat.members, List.filter_eq_nil_iff]
        intro m hm hkey
        obtain ⟨⟨g, hg, hname⟩, -⟩ := hms m hm
        exact (hf g hg).1 m.1 (by simpa using hkey) hname
      refine ⟨(f.field.name, v) :: ms, ?_, ?_⟩
      · intro g hg
        cases hg with
        | head =>
            refine .inl ⟨(f.field.name, v), ?_, hv⟩
            rw [FieldFormat.members_cons_of_mem f.name_mem, hnone]
        | tail _ hg =>
            have hother : f.field.name ∉ g.format.names := (hf g hg).1 _ f.name_mem
            have hg := hholds g hg
            rwa [FieldFormat.HoldsIn, FieldFormat.members_cons_of_notMem hother]
      · intro m hm
        cases hm with
        | head => exact ⟨⟨f, by simp, f.name_mem⟩, hwritable⟩
        | tail _ hm =>
            obtain ⟨⟨g, hg, hname⟩, hm⟩ := hms m hm
            exact ⟨⟨g, List.mem_cons_of_mem _ hg, hname⟩, hm⟩

theorem expressible_record {σ : Type} {blank : σ} {readers : List (FieldReader σ)} {a : σ}
    (hreaders : Assembles blank readers)
    (h : ∀ f ∈ readers, Expressible n f.format.describes (f.format.part a)) :
    Expressible (n + 1) (DescribesRecord (readers.map FieldReader.format)) a := by
  obtain ⟨ms, hholds, hms⟩ := exists_members hreaders.apart h
  refine ⟨.object ms, ⟨ms, rfl, ?_⟩, writable_object fun m hm => (hms m hm).2⟩
  intro f hf
  obtain ⟨r, hr, rfl⟩ := List.mem_map.mp hf
  exact hholds r hr

end BoxedLet.Json

namespace BoxedLet

/-! ### Expressions -/

mutual
/-- The expression has no double literals. -/
def Expr.doubleFree : Expr → Bool
  | .double _ => false
  | .binary _ l r => l.doubleFree && r.doubleFree
  | .not e => e.doubleFree
  | .property e _ => e.doubleFree
  | .index a i => a.doubleFree && i.doubleFree
  | .call _ args => Expr.doubleFreeAll args
  | .null | .bool _ | .int _ | .char _ | .string _ | .emptyArray | .var _ => true

/-- The expressions have no double literals. -/
def Expr.doubleFreeAll : List Expr → Bool
  | [] => true
  | e :: es => e.doubleFree && Expr.doubleFreeAll es
end

mutual
/-- How many brackets are open at once in a document of the expression. Arguments stand in a list of
their own. -/
def Expr.nesting : Expr → Nat
  | .binary _ l r => max l.nesting r.nesting + 1
  | .not e => e.nesting + 1
  | .property e _ => e.nesting + 1
  | .index a i => max a.nesting i.nesting + 1
  | .call _ args => Expr.nestingAll args + 2
  | .null | .bool _ | .int _ | .double _ | .char _ | .string _ | .emptyArray | .var _ => 1

/-- How many brackets are open at once in documents of the expressions. -/
def Expr.nestingAll : List Expr → Nat
  | [] => 0
  | e :: es => max e.nesting (Expr.nestingAll es)
end

namespace Document

open Json

theorem namesOfBinaryOp_ne_nil (op : BinaryOp) : namesOfBinaryOp op ≠ [] := by
  cases op with
  | concat => decide
  | arith op => cases op <;> decide
  | compare op => cases op <;> decide
  | connect op => cases op <;> decide

mutual

/-- **An expression without doubles has a document.** -/
theorem expressible_expr {e : Expr} (hfree : e.doubleFree = true) {n : Nat} (hn : e.nesting ≤ n) :
    Expressible n DescribesExpr e := by
  -- Every expression is an object, so it opens one bracket at least.
  obtain ⟨n, rfl⟩ : ∃ k, n = k + 1 := ⟨n - 1, by cases e <;> simp [Expr.nesting] at hn <;> omega⟩
  cases e with
  | null =>
      exact ⟨.object [("type", .string "null")], .null (by simp [Holds]),
        writable_object (by simp [writable_string])⟩
  | bool b =>
      exact ⟨.object [("type", .string "bool"), ("value", .bool b)],
        .bool (by simp [Holds]) (by simp [Holds]),
        writable_object (by simp [writable_string, writable_bool])⟩
  | int k =>
      have hk : Writable n (.number (.int k.toInt)) := by
        have hsize : Int64.maxValue.toInt < UInt64.size := by decide
        exact writable_int k.minValue_le_toInt (Int.lt_of_le_of_lt k.toInt_le hsize)
      exact ⟨.object [("type", .string "int"), ("value", .number (.int k.toInt))],
        .int (by simp [Holds]) (by simp [Holds]),
        writable_object (by simp [writable_string, hk])⟩
  | double x => simp [Expr.doubleFree] at hfree
  | char c =>
      exact ⟨.object [("type", .string "char"), ("value", .string (String.ofList [c]))],
        .char (by simp [Holds]) (by simp [Holds]), writable_object (by simp [writable_string])⟩
  | string s =>
      exact ⟨.object [("type", .string "string"), ("value", .string s)],
        .string (by simp [Holds]) (by simp [Holds]), writable_object (by simp [writable_string])⟩
  | emptyArray =>
      exact ⟨.object [("type", .string "empty-array")], .emptyArray (by simp [Holds]),
        writable_object (by simp [writable_string])⟩
  | var x =>
      exact ⟨.object [("type", .string "variable"), ("value", .string x)],
        .var (by simp [Holds]) (by simp [Holds]), writable_object (by simp [writable_string])⟩
  | binary op l r =>
      simp only [Expr.doubleFree, Bool.and_eq_true] at hfree
      simp only [Expr.nesting] at hn
      obtain ⟨vl, hl, hwl⟩ := expressible_expr hfree.1 (n := n) (by omega)
      obtain ⟨vr, hr, hwr⟩ := expressible_expr hfree.2 (n := n) (by omega)
      obtain ⟨name, hname⟩ := List.exists_mem_of_ne_nil _ (namesOfBinaryOp_ne_nil op)
      exact ⟨.object [("type", .string "binary"), ("op", .string name), ("left", vl), ("right", vr)],
        .binary (by simp [Holds]) (by simp [Holds]) hname (by simp [Holds]) hl (by simp [Holds]) hr,
        writable_object (by simp [writable_string, hwl, hwr])⟩
  | not e =>
      simp only [Expr.doubleFree] at hfree
      simp only [Expr.nesting] at hn
      obtain ⟨v, he, hw⟩ := expressible_expr hfree (n := n) (by omega)
      exact ⟨.object [("type", .string "not"), ("expr", v)],
        .not (by simp [Holds]) (by simp [Holds]) he,
        writable_object (by simp [writable_string, hw])⟩
  | property e p =>
      simp only [Expr.doubleFree] at hfree
      simp only [Expr.nesting] at hn
      obtain ⟨v, he, hw⟩ := expressible_expr hfree (n := n) (by omega)
      exact ⟨.object [("type", .string "property-access"), ("object", v), ("property", .string p)],
        .property (by simp [Holds]) (by simp [Holds]) he (by simp [Holds]),
        writable_object (by simp [writable_string, hw])⟩
  | index a i =>
      simp only [Expr.doubleFree, Bool.and_eq_true] at hfree
      simp only [Expr.nesting] at hn
      obtain ⟨va, ha, hwa⟩ := expressible_expr hfree.1 (n := n) (by omega)
      obtain ⟨vi, hi, hwi⟩ := expressible_expr hfree.2 (n := n) (by omega)
      exact ⟨.object [("type", .string "array-access"), ("array", va), ("index", vi)],
        .index (by simp [Holds]) (by simp [Holds]) ha (by simp [Holds]) hi,
        writable_object (by simp [writable_string, hwa, hwi])⟩
  | call f args =>
      simp only [Expr.doubleFree] at hfree
      simp only [Expr.nesting] at hn
      -- One more for the list of arguments.
      obtain ⟨n, rfl⟩ : ∃ k, n = k + 1 := ⟨n - 1, by omega⟩
      obtain ⟨items, hitems, hw⟩ := exists_exprs hfree (n := n) (by omega)
      exact ⟨.object [("type", .string "call"), ("name", .string f), ("args", .list items)],
        .call (by simp [Holds]) (by simp [Holds]) (by simp [Holds]) hitems,
        writable_object (by simp [writable_string, writable_list hw])⟩

theorem exists_exprs {es : List Expr} (hfree : Expr.doubleFreeAll es = true) {n : Nat}
    (hn : Expr.nestingAll es ≤ n) :
    ∃ items, DescribesExprs es items ∧ ∀ v ∈ items, Writable n v := by
  cases es with
  | nil => exact ⟨[], .nil, by simp⟩
  | cons e es =>
      simp only [Expr.doubleFreeAll, Bool.and_eq_true] at hfree
      simp only [Expr.nestingAll] at hn
      obtain ⟨v, he, hw⟩ := expressible_expr hfree.1 (n := n) (by omega)
      obtain ⟨items, hes, hws⟩ := exists_exprs hfree.2 (n := n) (by omega)
      exact ⟨v :: items, .cons he hes, by simpa [hw] using hws⟩

end

/-! ### Records -/

theorem expressible_options {n : Nat} (o : Options) :
    Expressible (n + 1) (DescribesRecord optionsFormat) o := by
  apply expressible_record optionsReaders_assemble
  simp [optionsReaders, expressible_string, expressible_uint64]

theorem expressible_class {n : Nat} (c : ClassDef) :
    Expressible (n + 2) (DescribesRecord classFormat) c := by
  have hproperties : Expressible (n + 1) (ListOf IsString) c.properties :=
    expressible_list fun s _ => expressible_string s
  apply expressible_record classReaders_assemble
  simp [classReaders, expressible_string, hproperties]

theorem expressible_declaration {n : Nat} (d : Declaration) :
    Expressible (n + 1) (DescribesRecord declarationFormat) d := by
  have htype : Expressible n (Named namesOfType) d.type :=
    expressible_named (by cases d.type <;> decide)
  have hstorage : Expressible n (Nullable (Named namesOfStorage)) d.storage :=
    expressible_nullable fun s _ => expressible_named (by cases s <;> decide)
  apply expressible_record declarationReaders_assemble
  simp [declarationReaders, expressible_string, expressible_bool, htype, hstorage]

end Document

/-- The expressions of an assignment: its source and its index. -/
def Assignment.exprs (a : Assignment) : List Expr :=
  a.source.toList ++ a.target.index?.toList

/-- The expressions of a unit. -/
def CompilationUnit.exprs (u : CompilationUnit) : List Expr :=
  u.assignments.flatMap Assignment.exprs

namespace Document

open Json

theorem expressible_assignment {n : Nat} {a : Assignment} (hvalue : a.HasValue)
    (h : ∀ e ∈ a.exprs, Expressible n DescribesExpr e) :
    Expressible (n + 1) DescribesAssignment a := by
  -- Fields that the target has no use for are written as null.
  let flat : FlatAssignment :=
    { kind := a.target.kind, destination := a.destination, operator := a.operator,
      source := a.source, property := a.target.property?, index := a.target.index?, span := a.span }
  have hflat : flat.StandsFor a := ⟨rfl, fun _ h => h, fun _ h => h, rfl, rfl, rfl, rfl⟩
  have hkind : Expressible n (Named namesOfTarget) flat.kind :=
    expressible_named (by cases flat.kind <;> decide)
  have hoperator : Expressible n (Named namesOfOperator) flat.operator :=
    expressible_named (by cases flat.operator <;> decide)
  have hsource : Expressible n (Nullable DescribesExpr) flat.source :=
    expressible_nullable fun e he => h e (by simp [Assignment.exprs, show a.source = some e from he])
  have hindex : Expressible n (Nullable DescribesExpr) flat.index :=
    expressible_nullable fun e he =>
      h e (by simp [Assignment.exprs, show a.target.index? = some e from he])
  have hstring : ∀ s : Option String, Expressible n (Nullable IsString) s :=
    fun _ => expressible_nullable fun s _ => expressible_string s
  have hrecord : Expressible (n + 1) (DescribesRecord flatFormat) flat := by
    apply expressible_record flatReaders_assemble
    simp [flatReaders, expressible_string, expressible_uint32, hkind, hoperator, hsource, hindex,
      hstring]
  obtain ⟨v, hv, hwritable⟩ := hrecord
  exact ⟨v, ⟨hvalue, flat, hflat, hv⟩, hwritable⟩

/-- **A unit has a document** with five more brackets than its expressions need. -/
theorem expressible_unit {n : Nat} {u : CompilationUnit} (hvalues : ∀ a ∈ u.assignments, a.HasValue)
    (h : ∀ e ∈ u.exprs, e.doubleFree = true ∧ e.nesting ≤ n) :
    Expressible (n + 5) (DescribesRecord unitFormat) u := by
  -- Brackets from the inside: an assignment, their list, a statement, their list, the unit.
  have hstatements : ∀ s ∈ u.statements,
      Expressible (n + 3) (DescribesRecord statementFormat) s := by
    intro s hs
    have hassignments : Expressible (n + 2) (ListOf DescribesAssignment) s.assignments := by
      apply expressible_list
      intro a ha
      have hmem : a ∈ u.assignments := List.mem_flatMap.mpr ⟨s, hs, ha⟩
      apply expressible_assignment (hvalues a hmem)
      intro e he
      obtain ⟨hfree, hnesting⟩ := h e (List.mem_flatMap.mpr ⟨a, hmem, he⟩)
      exact expressible_expr hfree hnesting
    apply expressible_record statementReaders_assemble
    simp [statementReaders, hassignments]
  have hstatements : Expressible (n + 4) (ListOf (DescribesRecord statementFormat)) u.statements :=
    expressible_list hstatements
  have hdeclarations :
      Expressible (n + 4) (ListOf (DescribesRecord declarationFormat)) u.declarations :=
    expressible_list fun d _ => expressible_declaration d
  have hclass : Expressible (n + 4) (Nullable (DescribesRecord classFormat)) u.classDef :=
    expressible_nullable fun c _ => expressible_class c
  have hoptions : Expressible (n + 4) (DescribesRecord optionsFormat) u.options :=
    expressible_options u.options
  apply expressible_record unitReaders_assemble
  simp [unitReaders, hstatements, hdeclarations, hclass, hoptions]

end Document

end BoxedLet
