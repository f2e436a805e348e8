import BoxedLet.Proofs.DocumentWriting

/-!
# BoxedLet.Proofs.DocumentRoundTrip

**Units and their documents.** A unit without doubles, all of whose assignments have a value, has a
document, and every document of it is read back as that unit. Conversely, whatever text a unit is
read from, its assignments have values, so that compiling it never fails for lack of one.

For the converse nothing is asked of the text. `Decoder.Yields d P` says that all a decoder returns
satisfies `P`; a decoder of records yields what the blank record has and every field keeps, and this
goes for records in both of their forms.
-/

namespace BoxedLet.Json

/-! ### What is returned -/

/-- What a computation returns, if it returns at all, satisfies `P`. -/
def Gives {α : Type} (P : α → Prop) (x : Except Fault α) : Prop :=
  ∀ a, x = .ok a → P a

namespace Gives

variable {α β : Type} {P : α → Prop} {Q : β → Prop} {x : Except Fault α}

theorem ok {a : α} (h : P a) : Gives P (.ok a) := by
  intro b hb
  cases hb
  exact h

theorem error (e : Fault) : Gives P (.error e) := by
  intro b hb
  cases hb

theorem bind {f : α → Except Fault β} (hx : Gives P x) (hf : ∀ a, P a → Gives Q (f a)) :
    Gives Q (x >>= f) := by
  intro b hb
  cases hrun : x with
  | error e =>
      rw [hrun] at hb
      cases hb
  | ok a =>
      rw [hrun] at hb
      exact hf a (hx a hrun) b hb

theorem any : Gives (fun _ => True) x :=
  fun _ _ => trivial

theorem map {f : α → β} (hx : Gives P x) (hf : ∀ a, P a → Q (f a)) : Gives Q (x.map f) := by
  intro b hb
  cases hrun : x with
  | error e =>
      rw [hrun] at hb
      cases hb
  | ok a =>
      rw [hrun] at hb
      cases hb
      exact hf a (hx a hrun)

end Gives

section Loops

variable {β : Type} {I : β → Prop}

/-- What every step keeps, a loop over items keeps. -/
theorem foldItems_gives {step : β → List Char → Except Fault (β × List Char)}
    (hstep : ∀ acc cs, I acc → Gives (fun r => I r.1) (step acc cs)) (steps : Nat) (first : Bool)
    {acc : β} (hacc : I acc) (cs : List Char) :
    Gives (fun r => I r.1) (foldItems step steps first acc cs) := by
  induction steps generalizing first acc cs with
  | zero => exact .error _
  | succ steps ih =>
      rw [foldItems]
      refine .bind .any fun next _ => ?_
      cases next with
      | none => exact .ok hacc
      | some cs => exact .bind (hstep acc cs hacc) fun r hr => ih false hr r.2

/-- What every step keeps, a loop over members keeps. -/
theorem foldMembers_gives {step : β → String → List Char → Except Fault (β × List Char)}
    (hstep : ∀ acc key cs, I acc → Gives (fun r => I r.1) (step acc key cs)) (steps : Nat)
    (first : Bool) {acc : β} (hacc : I acc) (cs : List Char) :
    Gives (fun r => I r.1) (foldMembers step steps first acc cs) := by
  induction steps generalizing first acc cs with
  | zero => exact .error _
  | succ steps ih =>
      rw [foldMembers]
      refine .bind .any fun next _ => ?_
      cases next with
      | none => exact .ok hacc
      | some cs =>
          refine .bind .any fun key _ => ?_
          exact .bind (hstep acc key.1 key.2 hacc) fun r hr => ih false hr r.2

end Loops

namespace Decoder

variable {α σ : Type}

/-- Everything that the decoder returns satisfies `P`. -/
def Yields (d : Decoder α) (P : α → Prop) : Prop :=
  ∀ budget cs, Gives (fun r => P r.1) (d budget cs)

theorem yields_any (d : Decoder α) : d.Yields fun _ => True :=
  fun _ _ => .any

theorem opening_gives {P : α → Prop} {budget : Nat} {inside : Nat → Except Fault α}
    (h : ∀ budget, Gives P (inside budget)) : Gives P (opening budget inside) := by
  cases budget with
  | zero => exact .error _
  | succ budget => exact h budget

theorem list_yields {d : Decoder α} {P : α → Prop} (h : d.Yields P) :
    d.list.Yields fun as => ∀ a ∈ as, P a := by
  intro budget cs
  refine .bind .any fun cs _ => ?_
  split
  · refine opening_gives fun budget => ?_
    -- The invariant of the loop is the property of the items read so far.
    refine .bind (foldItems_gives (I := fun acc => ∀ a ∈ acc, P a) ?_ _ true (by simp) _)
      fun r hr => .ok (by simpa using hr)
    intro acc cs hacc
    exact .bind (h budget cs) fun r hr => .ok (by simpa [hr] using hacc)
  · exact .error _

/-- A field that keeps `P`, whatever it reads. -/
def Keeps (P : σ → Prop) (f : RecordField σ) : Prop :=
  f.read.Yields fun change => ∀ s, P s → P (change s)

theorem keeps_optional {d : Decoder α} {Q : α → Prop} {P : σ → Prop} (h : d.Yields Q)
    (name : String) {put : α → σ → σ} (hput : ∀ x s, Q x → P s → P (put x s)) :
    Keeps P (.optional name d put) :=
  fun budget cs => .map (h budget cs) fun r hr s hs => hput r.1 s hr hs

theorem keeps_needed {d : Decoder α} {Q : α → Prop} {P : σ → Prop} (h : d.Yields Q)
    (name : String) {put : α → σ → σ} (hput : ∀ x s, Q x → P s → P (put x s)) :
    Keeps P (.needed name d put) :=
  keeps_optional h name hput

theorem recordItems_gives {P : σ → Prop} {fields : List (RecordField σ)}
    (h : ∀ f ∈ fields, Keeps P f) (budget : Nat) (first : Bool) {s : σ} (hs : P s)
    (cs : List Char) : Gives (fun r => P r.1) (recordItems budget fields first s cs) := by
  induction fields generalizing first s cs with
  | nil => exact .bind .any fun rest _ => .ok hs
  | cons f fields ih =>
      have hfields : ∀ g ∈ fields, Keeps P g := fun g hg => h g (List.mem_cons_of_mem _ hg)
      rw [recordItems]
      refine .bind .any fun next _ => ?_
      cases next with
      -- The list has ended early, which only fields that are not required allow.
      | none =>
          dsimp only
          split
          · exact .error _
          · exact ih hfields first hs cs
      | some cs =>
          exact .bind (h f (by simp) budget cs) fun r hr => ih hfields false (hr s hs) r.2

theorem recordMember_gives {P : σ → Prop} {fields : List (RecordField σ)}
    (h : ∀ f ∈ fields, Keeps P f) (budget : Nat) (acc : σ × List String) (key : String)
    (cs : List Char) (hacc : P acc.1) :
    Gives (fun r => P r.1.1) (recordMember fields budget acc key cs) := by
  rw [recordMember]
  dsimp only
  split
  · exact .bind .any fun cs _ => .bind .any fun rest _ => .ok hacc
  · rename_i f hfind
    split
    · exact .error _
    · refine .bind .any fun cs _ => ?_
      exact .bind (h f (List.mem_of_find?_eq_some hfind) budget cs) fun r hr => .ok (hr _ hacc)

/-- **A record has what its blank form has and every field keeps**, in whichever form it is
given. -/
theorem record_yields {P : σ → Prop} {blank : σ} {fields : List (RecordField σ)} (hblank : P blank)
    (h : ∀ f ∈ fields, Keeps P f) : (record blank fields).Yields P := by
  intro budget cs
  refine .bind .any fun cs _ => ?_
  split
  · exact opening_gives fun budget => recordItems_gives h budget true hblank _
  · refine opening_gives fun budget => ?_
    -- The list of fields seen does not matter to `P`.
    have hfold := foldMembers_gives (I := fun acc : σ × List String => P acc.1)
      (recordMember_gives h budget)
    refine .bind (hfold _ true hblank _) fun r hr => ?_
    dsimp only
    split
    · exact .error _
    · exact .ok hr
  · exact .error _

end Decoder

end BoxedLet.Json

namespace BoxedLet.Document

open Json

/-! ### Decoded units -/

theorem assignmentDecoder_yields : assignmentDecoder.Yields Assignment.HasValue := by
  intro budget cs
  refine .bind .any fun r _ => ?_
  have hassignment : Gives Assignment.HasValue r.1.assignment := by
    refine .bind .any fun target _ => ?_
    split
    · exact .error _
    · rename_i hsource
      refine .ok ?_
      cases hs : r.1.source with
      | some e => exact .inl rfl
      | none => exact .inr (by simpa [hs] using hsource)
  exact .bind hassignment fun a ha => .ok ha

theorem statementDecoder_yields :
    statementDecoder.Yields fun s => ∀ a ∈ s.assignments, a.HasValue := by
  apply Decoder.record_yields
  · simp
  · intro f hf
    obtain rfl := List.mem_singleton.mp hf
    refine Decoder.keeps_needed (Decoder.list_yields assignmentDecoder_yields) _ ?_
    intro as s has _
    exact has

theorem unitDecoder_yields : unitDecoder.Yields fun u => ∀ a ∈ u.assignments, a.HasValue := by
  apply Decoder.record_yields
  · simp [CompilationUnit.assignments]
  · simp only [List.forall_mem_cons]
    refine ⟨?_, ?_, ?_, ?_, by simp⟩
    · exact Decoder.keeps_optional (Decoder.yields_any _) _ fun _ _ _ hu => hu
    · exact Decoder.keeps_optional (Decoder.yields_any _) _ fun _ _ _ hu => hu
    · exact Decoder.keeps_optional (Decoder.yields_any _) _ fun _ _ _ hu => hu
    -- Only this field has assignments in it.
    · refine Decoder.keeps_optional (Decoder.list_yields statementDecoder_yields) _ ?_
      intro ss u hss _ a ha
      obtain ⟨s, hs, ha⟩ := List.mem_flatMap.mp ha
      exact hss s hs a ha

theorem hasValue_of_ofJson {text : String} {u : CompilationUnit}
    (h : CompilationUnit.ofJson text = .ok u) : ∀ a ∈ u.assignments, a.HasValue := by
  have hdecode : Gives (fun u : CompilationUnit => ∀ a ∈ u.assignments, a.HasValue)
      (unitDecoder.decode text) := by
    refine .bind (unitDecoder_yields _ _) fun r hr => ?_
    dsimp only
    split
    · exact .ok hr
    · exact .error _
  exact hdecode u h

/-! ### Round trip -/

/-- **Units and their documents.** A unit without doubles whose assignments have values has a
document, with at most five brackets more than its expressions need; and however it is written, with
at most 127 brackets open at once, it is read back as that unit. Conversely, every assignment that
is read has a value, and no unit that is read fails for lack of one. -/
theorem unit_documents_read_back :
    (∀ u : CompilationUnit, (∀ a ∈ u.assignments, a.HasValue) →
      (∀ e ∈ u.exprs, e.doubleFree = true) →
      (∀ n, (∀ e ∈ u.exprs, e.nesting ≤ n) →
        ∃ v text, DescribesRecord unitFormat u v ∧ Written (n + 5) v text) ∧
      ∀ v text before after, DescribesRecord unitFormat u v → Written 127 v text →
        IsBlanks before → IsBlanks after →
        CompilationUnit.ofJson (String.ofList (before ++ (text ++ after))) = .ok u) ∧
    (∀ budget cs a rest, assignmentDecoder budget cs = .ok (a, rest) → a.HasValue) ∧
    ∀ text u, CompilationUnit.ofJson text = .ok u →
      (∀ a ∈ u.assignments, a.HasValue) ∧
        ∀ e name, u.compile = .error e → e.cause ≠ .invalidExpr (.noValue name) := by
  refine ⟨?_, ?_, ?_⟩
  · intro u hvalues hfree
    constructor
    · intro n hn
      obtain ⟨v, hv, text, htext⟩ := expressible_unit hvalues fun e he => ⟨hfree e he, hn e he⟩
      exact ⟨v, text, hv, htext⟩
    · intro v text before after hv htext hbefore hafter
      exact ofJson_written hv htext hbefore hafter
  · intro budget cs a rest hread
    exact assignmentDecoder_yields budget cs (a, rest) hread
  · intro text u hread
    have hvalues := hasValue_of_ofJson hread
    refine ⟨hvalues, ?_⟩
    intro e name hcompile hcause
    have hspares := CompilationUnit.compile_spares hvalues hcompile
    rw [hcause] at hspares
    cases hspares

/-- A document with second names, its fields out of order, an unknown field, and much left out. -/
theorem unit_documents_read_back_aliases :
    ∃ text, Written 127 (.object [("note", .list [.bool true]),
        ("statements", .list [.object [("assignments", .list [.object [
          ("char", .number (.int 7)), ("variable", .string "v"),
          ("assign-type", .string "property-append"), ("property", .string "p"),
          ("expr", .object [("name", .string "f"), ("type", .string "call")])]])]])]) text ∧
      CompilationUnit.ofJson (String.ofList text) = .ok
        { statements := [⟨[{
            target := .propertyAppend "p"
            destination := "v"
            source := some (.call "f" [])
            span := { column := 7 } }]⟩] } := by
  have hcall : DescribesExpr (.call "f" []) (.object [("name", .string "f"), ("type", .string "call")]) :=
    .callEmpty (by simp [Holds]) (by simp [Holds]) (by simp [Lacks])
  have hassignment : DescribesAssignment
      { target := .propertyAppend "p"
        destination := "v"
        source := some (.call "f" [])
        span := { column := 7 } }
      (.object [("char", .number (.int 7)), ("variable", .string "v"),
        ("assign-type", .string "property-append"), ("property", .string "p"),
        ("expr", .object [("name", .string "f"), ("type", .string "call")])]) := by
    refine ⟨.inl rfl, ⟨.propertyAppend, "v", .assign, some (.call "f" []), some "p", none,
      { column := 7 }⟩, ⟨rfl, fun _ h => h, by simp [Target.index?], rfl, rfl, rfl, rfl⟩, _, rfl, ?_⟩
    simp [flatFormat, FieldFormat.holdsIn_iff, FieldFormat.members, Named, namesOfTarget, IsString,
      IsNumber, Nullable, hcall]
  have hstatement : ∀ a v, DescribesAssignment a v →
      DescribesRecord statementFormat ⟨[a]⟩ (.object [("assignments", .list [v])]) := by
    intro a v h
    have hlist : ListOf DescribesAssignment [a] (.list [v]) := ⟨_, rfl, .cons h .nil⟩
    exact ⟨_, rfl, by simp [statementFormat, FieldFormat.holdsIn_iff, FieldFormat.members, hlist]⟩
  have hunit : ∀ s v, DescribesRecord statementFormat s v →
      DescribesRecord unitFormat { statements := [s] }
        (.object [("note", .list [.bool true]), ("statements", .list [v])]) := by
    intro s v h
    have hlist : ListOf (DescribesRecord statementFormat) [s] (.list [v]) := ⟨_, rfl, .cons h .nil⟩
    exact ⟨_, rfl, by simp [unitFormat, FieldFormat.holdsIn_iff, FieldFormat.members, hlist]⟩
  have hread : ∀ v (u : CompilationUnit), DescribesRecord unitFormat u v → Writable 127 v →
      (∀ a ∈ u.assignments, a.HasValue) → (∀ e ∈ u.exprs, e.doubleFree = true) →
      ∃ text, Written 127 v text ∧ CompilationUnit.ofJson (String.ofList text) = .ok u := by
    intro v u hu hwritable hvalues hfree
    obtain ⟨text, htext⟩ := hwritable
    have hread := (unit_documents_read_back.1 u hvalues hfree).2 v text [] [] hu htext .nil .nil
    exact ⟨text, htext, by simpa using hread⟩
  apply hread
  · exact hunit _ _ (hstatement _ _ hassignment)
  · have hlist : ∀ n v, Writable n v → Writable (n + 1) (.list [v]) :=
      fun _ _ h => writable_list (by simpa using h)
    have hobject : ∀ n key v, Writable n v → Writable (n + 1) (.object [(key, v)]) :=
      fun _ _ _ h => writable_object (by simpa using h)
    have hcolumn : ∀ n, Writable n (.number (.int 7)) := fun n => writable_int (by decide) (by decide)
    have hexpr : Writable 122 (.object [("name", .string "f"), ("type", .string "call")]) :=
      writable_object (by simp [writable_string])
    apply writable_object
    rw [List.forall_mem_cons]
    refine ⟨hlist 125 _ (writable_bool true), ?_⟩
    rw [List.forall_mem_cons]
    refine ⟨hlist 125 _ (hobject 124 _ _ (hlist 123 _ (writable_object ?_))), by simp⟩
    simp [writable_string, hcolumn, hexpr]
  · simp [CompilationUnit.assignments, Assignment.HasValue]
  · simp [CompilationUnit.exprs, CompilationUnit.assignments, Assignment.exprs, Target.index?,
      Expr.doubleFree, Expr.doubleFreeAll]

end BoxedLet.Document
