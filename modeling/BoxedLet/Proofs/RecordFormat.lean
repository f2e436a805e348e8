import BoxedLet.Proofs.JsonReading

/-!
# BoxedLet.Proofs.RecordFormat

The **format of a record** as an object. Each field has a name or several, one of which is the key of
exactly one member; a field that holds its default may be left out. The order of members is free,
and members under other keys are free altogether.

`record_reads` says that a decoder of records reads this format. It asks for what the fields of a
structure have by nature: setting one of them changes no other, and together they determine the
record. The invariant of the loop over the members is `Pending`: a field that has been read is the
field of the record described and does not occur again, and any other is still blank and yet to
come.
-/

namespace BoxedLet.Json

/-- The format of a field of a record. -/
structure FieldFormat (σ : Type) : Type 1 where
  /-- The keys under which the field may stand. -/
  names : List String
  Content : Type
  /-- The contents of the field. -/
  part : σ → Content
  describes : Content → Value → Prop
  /-- What the field holds where it is left out; a field without this has to be there. -/
  absent : Option Content

namespace FieldFormat

variable {σ α : Type}

/-- A field that has to be there. -/
@[simp] def needed (name : String) (part : σ → α) (describes : α → Value → Prop) : FieldFormat σ :=
  { names := [name], Content := α, part, describes, absent := none }

/-- A field that may be left out where it holds its default. -/
@[simp] def optional (name : String) (part : σ → α) (describes : α → Value → Prop) (absent : α) :
    FieldFormat σ :=
  { names := [name], Content := α, part, describes, absent := some absent }

/-- The field under a second name as well. -/
@[simp] def orNamed (f : FieldFormat σ) (synonym : String) : FieldFormat σ :=
  { f with names := f.names ++ [synonym] }

/-- The members of an object that belong to the field. -/
def members (f : FieldFormat σ) (ms : List (String × Value)) : List (String × Value) :=
  ms.filter fun m => f.names.contains m.1

/-- One member of the object describes the field of the record, or it is left out. -/
def HoldsIn (f : FieldFormat σ) (a : σ) (ms : List (String × Value)) : Prop :=
  (∃ m, f.members ms = [m] ∧ f.describes (f.part a) m.2) ∨
    f.members ms = [] ∧ f.absent = some (f.part a)

theorem holdsIn_iff {f : FieldFormat σ} {a : σ} {ms : List (String × Value)} :
    f.HoldsIn a ms ↔
      match f.members ms with
      | [] => f.absent = some (f.part a)
      | [m] => f.describes (f.part a) m.2
      | _ => False := by
  rw [HoldsIn]
  split
  · rename_i hmembers
    simp [hmembers]
  · rename_i hmembers
    simp [hmembers]
  · rename_i hnil hone
    constructor
    · rintro (⟨m, hmembers, -⟩ | ⟨hmembers, -⟩)
      · exact hone m hmembers
      · exact hnil hmembers
    · exact False.elim

theorem members_cons_of_mem {f : FieldFormat σ} {m : String × Value} (h : m.1 ∈ f.names)
    (ms : List (String × Value)) : f.members (m :: ms) = m :: f.members ms := by
  simp [members, h]

theorem members_cons_of_notMem {f : FieldFormat σ} {m : String × Value} (h : m.1 ∉ f.names)
    (ms : List (String × Value)) : f.members (m :: ms) = f.members ms := by
  simp [members, h]

end FieldFormat

/-- The object describes the record. -/
def DescribesRecord {σ : Type} (format : List (FieldFormat σ)) (a : σ) (v : Value) : Prop :=
  ∃ ms, v = .object ms ∧ ∀ f ∈ format, f.HoldsIn a ms

/-! ### Fields that are read as their format says -/

/-- A field of a decoder of records, and the format that it reads. -/
structure FieldReader (σ : Type) : Type 1 where
  format : FieldFormat σ
  field : RecordField σ
  put : format.Content → σ → σ
  answersTo : ∀ key, field.answersTo key = format.names.contains key
  required : field.required = format.absent.isNone
  reads : field.read.Reads fun change v => ∃ x, format.describes x v ∧ change = put x
  part_put : ∀ x s, format.part (put x s) = x

namespace FieldReader

variable {σ α : Type}

theorem reads_put {d : Decoder α} {R : α → Value → Prop} (h : d.Reads R) (put : α → σ → σ) :
    Decoder.Reads (fun budget cs => (d budget cs).map fun (a, rest) => (put a, rest))
      fun change v => ∃ x, R x v ∧ change = put x := by
  rintro budget _ v text ws rest ⟨x, hx, rfl⟩ hv hws hrest
  show Except.map _ (d budget _) = _
  rw [h budget hx hv hws hrest]
  rfl

/-- A field that has to be there. -/
@[simp] def needed (name : String) {d : Decoder α} {describes : α → Value → Prop}
    (hreads : d.Reads describes) (part : σ → α) (put : α → σ → σ)
    (hpart : ∀ x s, part (put x s) = x) : FieldReader σ where
  format := .needed name part describes
  field := .needed name d put
  put := put
  answersTo := by
    intro key
    rw [Bool.eq_iff_iff]
    simp [RecordField.answersTo, RecordField.needed, RecordField.optional, FieldFormat.needed]
  required := rfl
  reads := reads_put hreads put
  part_put := hpart

/-- A field that may be left out. -/
@[simp] def optional (name : String) {d : Decoder α} {describes : α → Value → Prop}
    (hreads : d.Reads describes) (absent : α) (part : σ → α) (put : α → σ → σ)
    (hpart : ∀ x s, part (put x s) = x) : FieldReader σ where
  format := .optional name part describes absent
  field := .optional name d put
  put := put
  answersTo := by
    intro key
    rw [Bool.eq_iff_iff]
    simp [RecordField.answersTo, RecordField.optional, FieldFormat.optional]
  required := rfl
  reads := reads_put hreads put
  part_put := hpart

/-- The field under a second name as well. -/
@[simp] def orNamed (f : FieldReader σ) (synonym : String) (h : f.field.synonym = none) :
    FieldReader σ where
  format := f.format.orNamed synonym
  field := f.field.orNamed synonym
  put := f.put
  answersTo := by
    intro key
    have hname := f.answersTo key
    rw [Bool.eq_iff_iff] at hname ⊢
    simp only [RecordField.answersTo, h, Bool.or_eq_true, beq_iff_eq, reduceCtorEq, or_false,
      List.contains_eq_mem, decide_eq_true_eq] at hname
    simp only [RecordField.answersTo, RecordField.orNamed, FieldFormat.orNamed, hname,
      Bool.or_eq_true, beq_iff_eq, Option.some.injEq, List.contains_eq_mem, decide_eq_true_eq,
      List.mem_append, List.mem_singleton]
    exact or_congr_right eq_comm
  required := f.required
  reads := f.reads
  part_put := f.part_put

/-- Neither field reads a member of the other, and setting one does not change the other. -/
def Apart (f g : FieldReader σ) : Prop :=
  (∀ key ∈ f.format.names, key ∉ g.format.names) ∧
    (∀ x s, g.format.part (f.put x s) = g.format.part s) ∧
    ∀ x s, f.format.part (g.put x s) = f.format.part s

theorem Apart.symm {f g : FieldReader σ} (h : f.Apart g) : g.Apart f :=
  ⟨fun key hg hf => h.1 key hf hg, h.2.2, h.2.1⟩

theorem name_mem (f : FieldReader σ) : f.field.name ∈ f.format.names := by
  have hself : f.field.answersTo f.field.name = true := by simp [RecordField.answersTo]
  rw [f.answersTo] at hself
  simpa using hself

theorem Apart.name_ne {f g : FieldReader σ} (h : f.Apart g) : g.field.name ≠ f.field.name := by
  intro hname
  exact h.1 _ f.name_mem (hname ▸ g.name_mem)

end FieldReader

/-- The fields make up the record: they are apart, they determine it, and a record in which nothing
has been set holds the defaults. -/
structure Assembles {σ : Type} (blank : σ) (readers : List (FieldReader σ)) : Prop where
  apart : readers.Pairwise FieldReader.Apart
  absent : ∀ f ∈ readers, ∀ x, f.format.absent = some x → f.format.part blank = x
  ext : ∀ s a, (∀ f ∈ readers, f.format.part s = f.format.part a) → s = a

section Record

variable {σ : Type} {blank : σ} {readers : List (FieldReader σ)}

theorem eq_or_apart (h : readers.Pairwise FieldReader.Apart) {f g : FieldReader σ}
    (hf : f ∈ readers) (hg : g ∈ readers) : g = f ∨ f.Apart g := by
  induction h with
  | nil => cases hf
  | @cons x xs hx _ ih =>
      cases hf with
      | head =>
          cases hg with
          | head => exact .inl rfl
          | tail _ hg => exact .inr (hx g hg)
      | tail _ hf =>
          cases hg with
          | head => exact .inr (hx f hf).symm
          | tail _ hg => exact ih hf hg

/-- What one member does to the record and to the list of fields that have been read. -/
inductive RecordStep (readers : List (FieldReader σ)) :
    σ × List String → String × Value → σ × List String → Prop
  | other {acc : σ × List String} {m : String × Value}
      (h : ∀ f ∈ readers, m.1 ∉ f.format.names) : RecordStep readers acc m acc
  | field {s : σ} {seen : List String} {m : String × Value} {f : FieldReader σ}
      {x : f.format.Content} (hf : f ∈ readers) (hkey : m.1 ∈ f.format.names)
      (hseen : f.field.name ∉ seen) (hx : f.format.describes x m.2) :
      RecordStep readers (s, seen) m (f.put x s, f.field.name :: seen)

theorem find?_answersTo (h : readers.Pairwise FieldReader.Apart) {f : FieldReader σ}
    (hf : f ∈ readers) {key : String} (hkey : key ∈ f.format.names) :
    (readers.map FieldReader.field).find? (·.answersTo key) = some f.field := by
  rw [List.find?_map]
  cases hfind : readers.find? fun g => g.field.answersTo key with
  | none =>
      have hnone := List.find?_eq_none.mp hfind f hf
      rw [f.answersTo] at hnone
      exact absurd hkey (by simpa using hnone)
  -- Two fields that answer to one key are the same, since different ones are apart.
  | some g =>
      have hg : key ∈ g.format.names := by
        have hsome := List.find?_some hfind
        rw [g.answersTo] at hsome
        simpa using hsome
      rcases eq_or_apart h hf (List.mem_of_find?_eq_some hfind) with rfl | hapart
      · exact congrArg (Option.map _) hfind
      · exact absurd hg (hapart.1 key hkey)

theorem recordMember_step (h : readers.Pairwise FieldReader.Apart) (budget : Nat) :
    MemberStep budget (RecordStep readers)
      (Decoder.recordMember (readers.map FieldReader.field) budget) := by
  intro acc acc' key v gap lead text rest hnext hv hgap hlead hrest
  cases hnext with
  | other hother =>
      have hfind : (readers.map FieldReader.field).find? (·.answersTo key) = none := by
        rw [List.find?_eq_none]
        intro r hr
        obtain ⟨f, hf, rfl⟩ := List.mem_map.mp hr
        simpa [f.answersTo] using hother f hf
      rw [Decoder.recordMember, hfind]
      show (readColon _ >>= _) = _
      rw [readColon_blanks hgap]
      show (skipValue _ >>= _) = _
      rw [skipValue_written hv hlead hrest]
      rfl
  | @field s seen _ f x hf hkey hseen hx =>
      have hread := f.reads budget ⟨x, hx, rfl⟩ hv hlead hrest
      rw [Decoder.recordMember, find?_answersTo h hf hkey]
      show (if seen.contains f.field.name = true then _ else _) = _
      rw [if_neg (by simpa using hseen)]
      show (readColon _ >>= _) = _
      rw [readColon_blanks hgap]
      show (f.field.read budget _ >>= _) = _
      rw [hread]
      rfl

/-- What holds while the members are read: `ms` are those still to come. -/
def Pending (blank : σ) (readers : List (FieldReader σ)) (a : σ) (acc : σ × List String)
    (ms : List (String × Value)) : Prop :=
  ∀ f ∈ readers,
    f.field.name ∈ acc.2 ∧ f.format.members ms = [] ∧ f.format.part acc.1 = f.format.part a ∨
    f.field.name ∉ acc.2 ∧ f.format.HoldsIn a ms ∧ f.format.part acc.1 = f.format.part blank

theorem Pending.step (hapart : readers.Pairwise FieldReader.Apart) {a : σ} {acc : σ × List String}
    {m : String × Value} {ms : List (String × Value)} (h : Pending blank readers a acc (m :: ms)) :
    ∃ acc', RecordStep readers acc m acc' ∧ Pending blank readers a acc' ms := by
  by_cases hknown : ∃ f ∈ readers, m.1 ∈ f.format.names
  · obtain ⟨f, hf, hkey⟩ := hknown
    -- The member is the only one of its field, which has not been read before.
    obtain ⟨-, hnone, -⟩ | ⟨hseen, hholds, -⟩ := h f hf
    · rw [FieldFormat.members_cons_of_mem hkey] at hnone
      cases hnone
    · have hmember : f.format.members ms = [] ∧ f.format.describes (f.format.part a) m.2 := by
        obtain ⟨m', hmembers, hdescribes⟩ | ⟨hnone, -⟩ := hholds
        · rw [FieldFormat.members_cons_of_mem hkey] at hmembers
          obtain ⟨rfl, hnone⟩ := List.cons.inj hmembers
          exact ⟨hnone, hdescribes⟩
        · rw [FieldFormat.members_cons_of_mem hkey] at hnone
          cases hnone
      refine ⟨_, .field hf hkey hseen hmember.2, ?_⟩
      intro g hg
      rcases eq_or_apart hapart hf hg with rfl | hgf
      · exact .inl ⟨by simp, hmember.1, g.part_put _ _⟩
      · have hother : m.1 ∉ g.format.names := hgf.1 _ hkey
        have hname := hgf.name_ne
        have hpart := hgf.2.1 (f.format.part a) acc.1
        obtain ⟨hg, hmembers, hsame⟩ | ⟨hg, hholds, hsame⟩ := h g hg
        · rw [FieldFormat.members_cons_of_notMem hother] at hmembers
          exact .inl ⟨by simp [hg], hmembers, hpart.trans hsame⟩
        · rw [FieldFormat.HoldsIn, FieldFormat.members_cons_of_notMem hother] at hholds
          exact .inr ⟨by simp [hg, hname], hholds, hpart.trans hsame⟩
  · have hother : ∀ f ∈ readers, m.1 ∉ f.format.names := fun f hf hkey => hknown ⟨f, hf, hkey⟩
    refine ⟨acc, .other hother, ?_⟩
    intro f hf
    have hpending := h f hf
    rwa [FieldFormat.HoldsIn, FieldFormat.members_cons_of_notMem (hother f hf)] at hpending

theorem Pending.folds (hapart : readers.Pairwise FieldReader.Apart) {a : σ}
    {ms : List (String × Value)} {acc : σ × List String} (h : Pending blank readers a acc ms) :
    ∃ acc', Folds (RecordStep readers) acc ms acc' ∧ Pending blank readers a acc' [] := by
  induction ms generalizing acc with
  | nil => exact ⟨acc, .nil, h⟩
  | cons m ms ih =>
      obtain ⟨mid, hstep, hmid⟩ := h.step hapart
      obtain ⟨acc', hfolds, hend⟩ := ih hmid
      exact ⟨acc', .cons hstep hfolds, hend⟩

/-- When all members have been read, the record is the one described and no field is missing. -/
theorem Pending.done (h : Assembles blank readers) {a : σ} {acc : σ × List String}
    (hpending : Pending blank readers a acc []) :
    acc.1 = a ∧ Decoder.missing? (readers.map FieldReader.field) acc.2 = none := by
  -- A field that has not been read was left out, and holds its default.
  have habsent : ∀ f ∈ readers, f.format.HoldsIn a [] → f.format.absent = some (f.format.part a) := by
    intro f _ hholds
    obtain ⟨m, hmembers, -⟩ | ⟨-, habsent⟩ := hholds
    · cases hmembers
    · exact habsent
  constructor
  · apply h.ext
    intro f hf
    obtain ⟨-, -, hsame⟩ | ⟨-, hholds, hsame⟩ := hpending f hf
    · exact hsame
    · exact hsame.trans (h.absent f hf _ (habsent f hf hholds))
  · rw [Decoder.missing?, Option.map_eq_none_iff, List.find?_eq_none]
    intro r hr
    obtain ⟨f, hf, rfl⟩ := List.mem_map.mp hr
    obtain ⟨hseen, -, -⟩ | ⟨-, hholds, -⟩ := hpending f hf
    · simp [hseen]
    · rw [f.required, habsent f hf hholds]
      simp

/-- **A decoder of records reads their format.** -/
theorem record_reads (h : Assembles blank readers) :
    (Decoder.record blank (readers.map FieldReader.field)).Reads
      (DescribesRecord (readers.map FieldReader.format)) := by
  rintro budget a _ text ws rest ⟨ms, rfl, hholds⟩ hv hws hrest
  have hstart : Pending blank readers a (blank, []) ms := by
    intro f hf
    exact .inr ⟨by simp, hholds _ (List.mem_map_of_mem hf), rfl⟩
  obtain ⟨⟨record, seen⟩, hfolds, hend⟩ := hstart.folds h.apart
  obtain ⟨rfl, hmissing⟩ := hend.done h
  rw [Decoder.record, Decoder.startValue_written hv hws]
  obtain ⟨inner, body, rfl, rfl, hbody⟩ := hv.of_object
  have hfold := foldMembers_enclosed (recordMember_step h.apart inner) hbody hfolds rest
  rw [List.cons_append, List.append_assoc, List.singleton_append]
  show (foldMembers _ _ _ _ _ >>= _) = _
  rw [hfold]
  dsimp only [bind, Except.bind]
  rw [hmissing]
  rfl

end Record

end BoxedLet.Json
