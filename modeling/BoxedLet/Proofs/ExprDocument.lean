import BoxedLet.Proofs.DocumentFormat

/-!
# BoxedLet.Proofs.ExprDocument

**Expressions are read as the format says.** The form of an expression may come after the fields that
it governs, so that the reader keeps the members until it knows the form. Two lemmas carry the
argument: a form is built from the contents of its fields alone, whatever order they come in
(`Form.build_congr`), and picking the fields out of the members finds the contents that the format
gives them (`partsOfMembers_holds`).
-/

namespace BoxedLet.Document

open Json

/-! ### Members of an object -/

section Members

variable {ms : List (String × Value)} {m : String × Value} {key : String} {v : Value}

theorem Lacks.cons_iff : Lacks (m :: ms) key ↔ m.1 ≠ key ∧ Lacks ms key := by
  by_cases hkey : m.1 = key <;> simp [Lacks, hkey]

theorem Holds.cons_iff :
    Holds (m :: ms) key v ↔ m = (key, v) ∧ Lacks ms key ∨ m.1 ≠ key ∧ Holds ms key v := by
  by_cases hkey : m.1 = key
  · simp [Holds, Lacks, hkey]
  · have hm : m ≠ (key, v) := fun h => hkey (congrArg Prod.fst h)
    simp [Holds, hkey, hm]

/-- The members under other keys than the form's. -/
def others (ms : List (String × Value)) : List (String × Value) :=
  ms.filter (·.1 != formField)

theorem filter_others (hkey : key ≠ formField) :
    (others ms).filter (·.1 == key) = ms.filter (·.1 == key) := by
  rw [others, List.filter_filter]
  congr 1
  funext m
  by_cases hm : m.1 = key
  · simp [hm, hkey]
  · simp [hm]

end Members

/-! ### Fields of a form -/

/-- The contents of a field. -/
def partOfValue (kind : SlotKind) (value : Value) : Except Fault Part :=
  match kind with
  | .expr => (exprOfValue value).map Part.expr
  | .exprs => (exprsOfValue value).map Part.exprs
  | kind => simplePart kind value

/-- The object holds the contents under the key. -/
def HoldsPart (ms : List (String × Value)) (key : String) (kind : SlotKind) (part : Part) : Prop :=
  ∃ v, Holds ms key v ∧ partOfValue kind v = .ok part

/-- The object holds the contents of the field, or lacks the field. -/
def SlotHolds (ms : List (String × Value)) (slot : Slot) : Option Part → Prop
  | some part => HoldsPart ms slot.name slot.kind part
  | none => Lacks ms slot.name

theorem SlotHolds.tail {ms : List (String × Value)} {m : String × Value} {slot : Slot}
    (hkey : m.1 ≠ slot.name) {part : Option Part} (h : SlotHolds (m :: ms) slot part) :
    SlotHolds ms slot part := by
  cases part with
  | none => exact (Lacks.cons_iff.mp h).2
  | some part =>
      obtain ⟨v, hv, hpart⟩ := h
      obtain ⟨hm, -⟩ | ⟨-, hv⟩ := Holds.cons_iff.mp hv
      · exact absurd (congrArg Prod.fst hm) hkey
      · exact ⟨v, hv, hpart⟩

/-- A member under the name of a field holds it. -/
theorem SlotHolds.head {ms : List (String × Value)} {slot : Slot} {v : Value} {part : Option Part}
    (h : SlotHolds ((slot.name, v) :: ms) slot part) :
    ∃ p, part = some p ∧ partOfValue slot.kind v = .ok p ∧ Lacks ms slot.name := by
  cases part with
  | none => exact absurd rfl (Lacks.cons_iff.mp h).1
  | some p =>
      obtain ⟨w, hw, hpart⟩ := h
      obtain ⟨hm, hlacks⟩ | ⟨hne, -⟩ := Holds.cons_iff.mp hw
      · obtain rfl : v = w := congrArg Prod.snd hm
        exact ⟨p, rfl, hpart, hlacks⟩
      · exact absurd rfl hne

theorem partsOfMembers_slot {slots : List Slot} {ps : Parts} {key : String} {v : Value}
    {ms : List (String × Value)} {slot : Slot} {part : Part}
    (hfind : slots.find? (·.name == key) = some slot) (hnew : ps.lookup key = none)
    (hpart : partOfValue slot.kind v = .ok part) :
    partsOfMembers slots ps ((key, v) :: ms) = partsOfMembers slots ((key, part) :: ps) ms := by
  calc partsOfMembers slots ps ((key, v) :: ms)
      = partOfValue slot.kind v >>= fun part => partsOfMembers slots ((key, part) :: ps) ms := by
        rw [partsOfMembers, hfind]
        dsimp only
        rw [if_neg (by simp [hnew])]
        cases slot.kind <;> rfl
    _ = partsOfMembers slots ((key, part) :: ps) ms := by
        rw [hpart]
        rfl

theorem lookup_cons_ne {ps : Parts} {name key : String} {part : Part} (h : name ≠ key) :
    List.lookup name ((key, part) :: ps) = ps.lookup name := by
  rw [List.lookup_cons, beq_false_of_ne h]

/-- **Picking out the fields.** A field that has been found does not come again, and any other is
still to come or lacking. -/
theorem partsOfMembers_holds {slots : List Slot} {wanted : Parts} {ms : List (String × Value)}
    (ps : Parts)
    (h : ∀ slot ∈ slots,
      ps.lookup slot.name = wanted.lookup slot.name ∧ Lacks ms slot.name ∨
      ps.lookup slot.name = none ∧ SlotHolds ms slot (wanted.lookup slot.name)) :
    ∃ found, partsOfMembers slots ps ms = .ok found ∧
      ∀ slot ∈ slots, found.lookup slot.name = wanted.lookup slot.name := by
  induction ms generalizing ps with
  | nil =>
      refine ⟨ps, by rw [partsOfMembers], ?_⟩
      intro slot hslot
      obtain ⟨hfound, -⟩ | ⟨hnone, hholds⟩ := h slot hslot
      · exact hfound
      · cases hwanted : wanted.lookup slot.name with
        | none => exact hnone
        | some part =>
            rw [hwanted] at hholds
            obtain ⟨v, hv, -⟩ := hholds
            cases hv
  | cons m ms ih =>
      -- A member is passed over unless its key names a field, which then has not been found before.
      obtain ⟨key, v⟩ := m
      cases hfind : slots.find? (·.name == key) with
      | none =>
          rw [partsOfMembers, hfind]
          apply ih
          intro slot hslot
          have hkey : key ≠ slot.name := by
            intro hname
            exact List.find?_eq_none.mp hfind slot hslot (by simp [hname])
          obtain ⟨hfound, hlacks⟩ | ⟨hnone, hholds⟩ := h slot hslot
          · exact .inl ⟨hfound, (Lacks.cons_iff.mp hlacks).2⟩
          · exact .inr ⟨hnone, hholds.tail hkey⟩
      | some slot =>
          have hslot := List.mem_of_find?_eq_some hfind
          obtain rfl : slot.name = key := by simpa using List.find?_some hfind
          obtain ⟨-, hlacks⟩ | ⟨hnone, hholds⟩ := h slot hslot
          · exact absurd rfl (Lacks.cons_iff.mp hlacks).1
          · obtain ⟨part, hwanted, hpart, hlacks⟩ := hholds.head
            rw [partsOfMembers_slot hfind hnone hpart]
            apply ih
            intro other hother
            -- The field just found lacks from here on; for the others nothing has changed.
            by_cases hname : other.name = slot.name
            · rw [hname, hwanted, List.lookup_cons_self]
              exact .inl ⟨rfl, hlacks⟩
            · rw [lookup_cons_ne hname]
              obtain ⟨hfound, hgone⟩ | ⟨hnew, hcomes⟩ := h other hother
              · exact .inl ⟨hfound, (Lacks.cons_iff.mp hgone).2⟩
              · exact .inr ⟨hnew, hcomes.tail (Ne.symm hname)⟩

/-- A form is built from the contents of its own fields. -/
theorem Form.build_congr {form : Form} {ps found : Parts}
    (h : ∀ slot ∈ form.slots, found.lookup slot.name = ps.lookup slot.name) :
    form.build found = form.build ps := by
  cases form <;>
    simp_all [Form.slots, Form.build, Parts.bool, Parts.int, Parts.double, Parts.char,
      Parts.string, Parts.op, Parts.expr, Parts.exprs, Parts.get]

theorem formField_notMem_slots (form : Form) : ∀ slot ∈ form.slots, slot.name ≠ formField := by
  cases form <;> decide

/-! ### Objects -/

/-- The object has the form and the fields that make up the expression. -/
structure MakesUp (ms : List (String × Value)) (name : String) (form : Form) (e : Expr) : Prop where
  type : Holds ms formField (.string name)
  named : formNames.lookup name = some form
  fields : ∃ wanted : Parts, form.build wanted = .ok e ∧
    ∀ slot ∈ form.slots, SlotHolds ms slot (wanted.lookup slot.name)

theorem MakesUp.build {ms : List (String × Value)} {name : String} {form : Form} {e : Expr}
    (h : MakesUp ms name form e) :
    (∃ ps, partsOfMembers form.slots [] ms = .ok ps ∧ form.build ps = .ok e) ∧
      ∃ ps, partsOfMembers form.slots [] (others ms) = .ok ps ∧ form.build ps = .ok e := by
  obtain ⟨wanted, hbuild, hslots⟩ := h.fields
  -- Leaving out the form takes nothing from the fields, since no field has its name.
  have hothers : ∀ slot ∈ form.slots, SlotHolds (others ms) slot (wanted.lookup slot.name) := by
    intro slot hslot
    have hkey := formField_notMem_slots form slot hslot
    have hholds := hslots slot hslot
    cases hwanted : wanted.lookup slot.name with
    | none =>
        rw [hwanted] at hholds
        rwa [SlotHolds, Lacks, filter_others hkey]
    | some part =>
        rw [hwanted] at hholds
        obtain ⟨v, hv, hpart⟩ := hholds
        exact ⟨v, by rwa [Holds, filter_others hkey], hpart⟩
  obtain ⟨found, hfound, hsame⟩ :=
    partsOfMembers_holds [] fun slot hslot => .inr ⟨rfl, hslots slot hslot⟩
  obtain ⟨found', hfound', hsame'⟩ :=
    partsOfMembers_holds [] fun slot hslot => .inr ⟨rfl, hothers slot hslot⟩
  exact ⟨⟨found, hfound, (Form.build_congr hsame).trans hbuild⟩,
    found', hfound', (Form.build_congr hsame').trans hbuild⟩

theorem formOfMembers_lacks {ms : List (String × Value)} (h : Lacks ms formField) (form : Form) :
    formOfMembers (some form) ms = .ok form := by
  induction ms with
  | nil => rfl
  | cons m ms ih =>
      obtain ⟨hkey, hlacks⟩ := Lacks.cons_iff.mp h
      rw [formOfMembers, if_pos hkey, ih hlacks]

theorem formOfMembers_holds {ms : List (String × Value)} {v : Value} {form : Form}
    (h : Holds ms formField v) (hform : formOfValue v = .ok form) :
    formOfMembers none ms = .ok form := by
  induction ms with
  | nil => cases h
  | cons m ms ih =>
      obtain ⟨rfl, hlacks⟩ | ⟨hkey, hholds⟩ := Holds.cons_iff.mp h
      · rw [formOfMembers, if_neg (by simp), if_neg (by simp), hform]
        exact formOfMembers_lacks hlacks form
      · rw [formOfMembers, if_pos hkey, ih hholds]

theorem MakesUp.exprOfValue {ms : List (String × Value)} {name : String} {form : Form} {e : Expr}
    (h : MakesUp ms name form e) : exprOfValue (.object ms) = .ok e := by
  have hform : formOfValue (.string name) = .ok form := by
    simp [formOfValue, Decoder.lookupName, h.named]
  obtain ⟨⟨ps, hps, hbuild⟩, -⟩ := h.build
  rw [Document.exprOfValue, formOfMembers_holds h.type hform]
  show (partsOfMembers form.slots [] ms >>= _) = _
  rw [hps]
  exact hbuild

theorem MakesUp.holdsPart {ms inner : List (String × Value)} {name key : String} {form : Form}
    {e : Expr} (h : MakesUp inner name form e) (hkey : Holds ms key (.object inner)) :
    HoldsPart ms key .expr (.expr e) := by
  refine ⟨_, hkey, ?_⟩
  rw [partOfValue, h.exprOfValue]
  rfl

theorem lookup_binaryOpNames (op : BinaryOp) :
    ∀ name ∈ namesOfBinaryOp op, binaryOpNames.lookup name = some op := by
  cases op with
  | concat => decide
  | arith op => cases op <;> decide
  | compare op => cases op <;> decide
  | connect op => cases op <;> decide

mutual

/-- **An expression is made up by the object that describes it.** -/
theorem DescribesExpr.makesUp {e : Expr} {v : Value} (h : DescribesExpr e v) :
    ∃ ms name form, v = .object ms ∧ MakesUp ms name form e := by
  cases h with
  | null htype => exact ⟨_, _, .null, rfl, htype, rfl, [], rfl, by simp [Form.slots]⟩
  | emptyArray htype => exact ⟨_, _, .emptyArray, rfl, htype, rfl, [], rfl, by simp [Form.slots]⟩
  | @bool ms b htype hvalue =>
      have hvalue : HoldsPart ms "value" .bool (.bool b) := ⟨_, hvalue, rfl⟩
      exact ⟨_, _, .bool, rfl, htype, rfl, [("value", .bool b)], rfl,
        by simp [Form.slots, SlotHolds, hvalue]⟩
  | @int ms n htype hvalue =>
      have hrange : Int64.minValue.toInt ≤ n.toInt ∧ n.toInt ≤ Int64.maxValue.toInt :=
        ⟨n.minValue_le_toInt, n.toInt_le⟩
      have hvalue : HoldsPart ms "value" .int (.int n) := by
        refine ⟨_, hvalue, ?_⟩
        show simplePart .int (.number (.int n.toInt)) = _
        rw [simplePart, if_pos hrange, Int64.ofInt_toInt]
      exact ⟨_, _, .int, rfl, htype, rfl, [("value", .int n)], rfl,
        by simp [Form.slots, SlotHolds, hvalue]⟩
  | @char ms c htype hvalue =>
      have hvalue : HoldsPart ms "value" .char (.char c) := by
        refine ⟨_, hvalue, ?_⟩
        simp [partOfValue, simplePart]
      exact ⟨_, _, .char, rfl, htype, rfl, [("value", .char c)], rfl,
        by simp [Form.slots, SlotHolds, hvalue]⟩
  | @string ms s htype hvalue =>
      have hvalue : HoldsPart ms "value" .string (.string s) := ⟨_, hvalue, rfl⟩
      exact ⟨_, _, .string, rfl, htype, rfl, [("value", .string s)], rfl,
        by simp [Form.slots, SlotHolds, hvalue]⟩
  | @var ms x htype hvalue =>
      have hvalue : HoldsPart ms "value" .string (.string x) := ⟨_, hvalue, rfl⟩
      exact ⟨_, _, .var, rfl, htype, rfl, [("value", .string x)], rfl,
        by simp [Form.slots, SlotHolds, hvalue]⟩
  | @binary ms op name l r _ _ htype hop hname hleft hl hright hr =>
      obtain ⟨_, _, _, rfl, hmakesl⟩ := hl.makesUp
      obtain ⟨_, _, _, rfl, hmakesr⟩ := hr.makesUp
      have hleft := hmakesl.holdsPart hleft
      have hright := hmakesr.holdsPart hright
      have hop : HoldsPart ms "op" .op (.op op) := by
        refine ⟨_, hop, ?_⟩
        simp [partOfValue, simplePart, opOfValue, Decoder.lookupName,
          lookup_binaryOpNames op name hname, Except.map]
      exact ⟨_, _, .binary, rfl, htype, rfl, [("op", .op op), ("left", .expr l), ("right", .expr r)],
        rfl, by simp [Form.slots, SlotHolds, List.lookup_cons, hop, hleft, hright]⟩
  | @not ms e _ htype hexpr he =>
      obtain ⟨_, _, _, rfl, hmakes⟩ := he.makesUp
      have hexpr := hmakes.holdsPart hexpr
      exact ⟨_, _, .not, rfl, htype, rfl, [("expr", .expr e)], rfl,
        by simp [Form.slots, SlotHolds, hexpr]⟩
  | @property ms e _ p htype hobject he hproperty =>
      obtain ⟨_, _, _, rfl, hmakes⟩ := he.makesUp
      have hobject := hmakes.holdsPart hobject
      have hproperty : HoldsPart ms "property" .string (.string p) := ⟨_, hproperty, rfl⟩
      exact ⟨_, _, .property, rfl, htype, rfl, [("object", .expr e), ("property", .string p)], rfl,
        by simp [Form.slots, SlotHolds, List.lookup_cons, hobject, hproperty]⟩
  | @index ms a i _ _ htype harray ha hindex hi =>
      obtain ⟨_, _, _, rfl, hmakesa⟩ := ha.makesUp
      obtain ⟨_, _, _, rfl, hmakesi⟩ := hi.makesUp
      have harray := hmakesa.holdsPart harray
      have hindex := hmakesi.holdsPart hindex
      exact ⟨_, _, .index, rfl, htype, rfl, [("array", .expr a), ("index", .expr i)], rfl,
        by simp [Form.slots, SlotHolds, List.lookup_cons, harray, hindex]⟩
  | @call ms f args items htype hname hargs hitems =>
      have hname : HoldsPart ms "name" .string (.string f) := ⟨_, hname, rfl⟩
      have hargs : HoldsPart ms "args" .exprs (.exprs args) := by
        refine ⟨_, hargs, ?_⟩
        rw [partOfValue, exprsOfValue, hitems.exprsOfItems]
        rfl
      exact ⟨_, _, .call, rfl, htype, rfl, [("name", .string f), ("args", .exprs args)], rfl,
        by simp [Form.slots, SlotHolds, List.lookup_cons, hname, hargs]⟩
  | @callEmpty ms f htype hname hargs =>
      have hname : HoldsPart ms "name" .string (.string f) := ⟨_, hname, rfl⟩
      exact ⟨_, _, .call, rfl, htype, rfl, [("name", .string f)], rfl,
        by simp [Form.slots, SlotHolds, List.lookup_cons, hname, hargs]⟩

theorem DescribesExprs.exprsOfItems {es : List Expr} {vs : List Value} (h : DescribesExprs es vs) :
    exprsOfItems vs = .ok es := by
  cases h with
  | nil => rw [Document.exprsOfItems]
  | cons he hes =>
      obtain ⟨ms, name, form, rfl, hmakes⟩ := he.makesUp
      rw [Document.exprsOfItems, hmakes.exprOfValue]
      show (Document.exprsOfItems _ >>= _) = _
      rw [hes.exprsOfItems]
      rfl

end

/-! ### Text -/

/-- What one member does to the form and to the members that are kept, the last one first. -/
inductive ExprStep : Option Form × List (String × Value) → String × Value →
    Option Form × List (String × Value) → Prop
  | other {form : Option Form} {kept : List (String × Value)} {m : String × Value}
      (hkey : m.1 ≠ formField) : ExprStep (form, kept) m (form, m :: kept)
  | form {kept : List (String × Value)} {name : String} {form : Form}
      (h : formNames.lookup name = some form) :
      ExprStep (none, kept) (formField, .string name) (some form, kept)

theorem exprMember_step (budget : Nat) : MemberStep budget ExprStep (exprMember budget) := by
  intro acc acc' key v gap lead text rest hnext hv hgap hlead hrest
  cases hnext with
  | other hkey =>
      rw [exprMember]
      dsimp only
      rw [if_pos hkey, readColon_blanks hgap]
      show (Decoder.value budget _ >>= _) = _
      rw [Decoder.value_reads budget rfl hv hlead hrest]
      rfl
  | @form kept name form hform =>
      rw [exprMember]
      dsimp only
      rw [if_neg (by simp), if_neg (by simp), readColon_blanks hgap]
      show (readForm budget _ >>= _) = _
      rw [readForm, Decoder.string_reads budget rfl hv hlead hrest]
      simp [bind, Except.bind, pure, Except.pure, Decoder.lookupName, hform]

theorem exprStep_lacks {ms : List (String × Value)} (h : Lacks ms formField) (form : Option Form)
    (kept : List (String × Value)) :
    Folds ExprStep (form, kept) ms (form, (others ms).reverse ++ kept) := by
  induction ms generalizing kept with
  | nil => exact .nil
  | cons m ms ih =>
      obtain ⟨hkey, hlacks⟩ := Lacks.cons_iff.mp h
      have hrest := ih hlacks (m :: kept)
      have hothers : others (m :: ms) = m :: others ms := by simp [others, hkey]
      rw [hothers, List.reverse_cons, List.append_assoc]
      exact .cons (.other hkey) hrest

theorem exprStep_holds {ms : List (String × Value)} {name : String} {form : Form}
    (h : Holds ms formField (.string name)) (hform : formNames.lookup name = some form)
    (kept : List (String × Value)) :
    Folds ExprStep (none, kept) ms (some form, (others ms).reverse ++ kept) := by
  induction ms generalizing kept with
  | nil => cases h
  | cons m ms ih =>
      obtain ⟨rfl, hlacks⟩ | ⟨hkey, hholds⟩ := Holds.cons_iff.mp h
      · have hothers : others ((formField, Value.string name) :: ms) = others ms := by simp [others]
        rw [hothers]
        exact .cons (.form hform) (exprStep_lacks hlacks (some form) kept)
      · have hrest := ih hholds (m :: kept)
        have hothers : others (m :: ms) = m :: others ms := by simp [others, hkey]
        rw [hothers, List.reverse_cons, List.append_assoc]
        exact .cons (.other hkey) hrest

/-- **Expressions are read as the format says.** -/
theorem exprDecoder_reads : exprDecoder.Reads DescribesExpr := by
  intro budget e _ text ws rest h hv hws hrest
  obtain ⟨ms, name, form, rfl, hmakes⟩ := h.makesUp
  -- The reader has set the form aside, so the members it keeps are the others.
  obtain ⟨-, ps, hps, hbuild⟩ := hmakes.build
  rw [exprDecoder, Decoder.startValue_written hv hws]
  obtain ⟨inner, body, rfl, rfl, hbody⟩ := hv.of_object
  have hfold := foldMembers_enclosed (exprMember_step inner) hbody
    (exprStep_holds hmakes.type hmakes.named []) rest
  rw [List.cons_append, List.append_assoc, List.singleton_append]
  show (foldMembers _ _ _ _ _ >>= _) = _
  rw [hfold, List.append_nil]
  show (partsOfMembers form.slots [] (others ms).reverse.reverse >>= _) = _
  -- They were kept last one first.
  rw [List.reverse_reverse, hps]
  show (form.build ps >>= _) = _
  rw [hbuild]
  rfl

end BoxedLet.Document
