import BoxedLet.Proofs.Extension
import BoxedLet.Proofs.Meaning
import BoxedLet.Proofs.Scope

/-!
# BoxedLet.Proofs.EmittedNames

**Which symbols share a name in emitted code.** No two symbols have one name in the table, where
declarations and the search for temporaries look before they add a name. Emitted code shows every
symbol under its own name, except for the implicit receiver, which has a second name there, and that
name is looked up nowhere. Two symbols can therefore be shown alike in one way only: one of them is
the receiver, and the other has the receiver's second name (`Options.Clashes`).

Where this is not so, an instruction that writes a symbol writes no other one
(`Context.Locates.written_eq`). A body in which it is so compiles all the same, to code that
overwrites its receiver.
-/

namespace BoxedLet

/-! ### Names of the receiver -/

namespace Options

/-- The receiver is among the names, and so is another symbol that is called what the receiver is
called in emitted code. -/
def Clashes (o : Options) (names : List String) : Prop :=
  o.implicitReceiver ∈ names ∧ o.receiverSymbol ∈ names ∧ o.receiverSymbol ≠ o.implicitReceiver

instance (o : Options) (names : List String) : Decidable (o.Clashes names) :=
  inferInstanceAs (Decidable (_ ∧ _))

variable {o : Options} {names : List String} {x y : String}

theorem renderName_receiver (o : Options) : o.renderName o.implicitReceiver = o.receiverSymbol := by
  simp [renderName, isReceiver]

theorem renderName_of_ne (h : x ≠ o.implicitReceiver) : o.renderName x = x := by
  simp [renderName, isReceiver, h]

/-- A name that shows up in emitted code is that of the symbol itself or the receiver's. -/
theorem eq_or_receiver_of_renderName (h : o.renderName y = x) :
    y = x ∨ y = o.implicitReceiver ∧ x = o.receiverSymbol := by
  by_cases hy : y = o.implicitReceiver
  · subst hy
    exact .inr ⟨rfl, h.symm.trans o.renderName_receiver⟩
  · exact .inl ((renderName_of_ne hy).symm.trans h)

/-- Where nothing clashes, a symbol that is shown under a name of the table has that name. -/
theorem eq_of_renderName_eq (h : ¬ o.Clashes names) (hx : x ∈ names) (hy : y ∈ names)
    (hname : o.renderName y = x) : y = x := by
  rcases eq_or_receiver_of_renderName hname with heq | ⟨rfl, rfl⟩
  · exact heq
  · exact Decidable.byContradiction fun hne => h ⟨hy, hx, Ne.symm hne⟩

/-- **Symbols are shown under different names exactly where nothing clashes.** -/
theorem renderName_injOn_iff (o : Options) (names : List String) :
    (∀ x ∈ names, ∀ y ∈ names, o.renderName x = o.renderName y → x = y) ↔
      ¬ o.Clashes names := by
  constructor
  · rintro hinj ⟨hreceiver, hsymbol, hne⟩
    -- the receiver and its namesake are shown alike
    have halike : o.renderName o.receiverSymbol = o.renderName o.implicitReceiver :=
      (renderName_of_ne hne).trans o.renderName_receiver.symm
    exact hne (hinj _ hsymbol _ hreceiver halike)
  · intro hclash x hx y hy hname
    by_cases hreceiver : y = o.implicitReceiver
    · subst hreceiver
      rw [o.renderName_receiver] at hname
      rcases eq_or_receiver_of_renderName hname with rfl | ⟨heq, -⟩
      · exact Decidable.byContradiction fun hne => hclash ⟨hy, hx, hne⟩
      · exact heq
    · rw [renderName_of_ne hreceiver] at hname
      exact eq_of_renderName_eq hclash hy hx hname

end Options

/-! ### What instructions write -/

namespace Context

variable {ctx : Context}

/-- Every location that is written is in the table. -/
def Locates (ctx : Context) : Prop :=
  ∀ i ∈ ctx.code, i.written.symbol ∈ ctx.table.names

theorem mem_names_of_typing {t : SymbolTable} {p : Place} {type : StaticType}
    (h : t.typing p type) : p.symbol ∈ t.names := by
  cases p with
  | var x => exact SymbolTable.mem_names_of_typeOf? h
  | temp n =>
      obtain ⟨s, hs, -⟩ := h
      exact SymbolTable.mem_names_of_get? hs

theorem Locates.attempt (h : ctx.Locates) (a : Assignment) : (ctx.attempt a).Locates := by
  obtain ⟨emitted, hadv⟩ := ctx.attempt_advances a
  intro i hi
  rw [hadv.code, List.mem_append] at hi
  rcases hi with hi | hi
  · exact hadv.names_subset (h i hi)
  · obtain ⟨type, hwritten, -⟩ := (hadv.typed i hi).2.admits
    exact mem_names_of_typing hwritten

theorem Locates.attempts (h : ctx.Locates) (calls : List Assignment) :
    (ctx.attempts calls).Locates :=
  attempts_induction (fun _ a h => h.attempt a) calls h

/-- Where nothing clashes, the text of a location that is written is the name of no other symbol. -/
theorem Locates.written_eq (h : ctx.Locates) (hclash : ¬ ctx.options.Clashes ctx.table.names)
    {i : Instr} {y : String} (hi : i ∈ ctx.code) (hy : y ∈ ctx.table.names)
    (htext : ctx.options.renderName y = i.written.render ctx.options) : y = i.written.symbol := by
  have hwritten := h i hi
  cases hplace : i.written with
  | var x =>
      rw [hplace] at hwritten htext
      have hinj := (ctx.options.renderName_injOn_iff ctx.table.names).mpr hclash
      exact hinj y hy x hwritten htext
  | temp n =>
      -- a temporary is shown under its own name, even if that is the receiver's
      rw [hplace] at hwritten htext
      exact Options.eq_of_renderName_eq hclash hwritten hy htext

end Context

/-! ### Function bodies -/

namespace CompilationUnit

/-- The names that symbols of the function body can have: those that it declares, and those of
temporaries. -/
def MayName (u : CompilationUnit) (x : String) : Prop :=
  u.Declares x ∨ ∃ k : Nat, x = u.options.tempPrefix ++ toString k

theorem mayName_of_mem {u : CompilationUnit} {calls : List Assignment} {x : String}
    (h : x ∈ (u.start.attempts calls).table.names) : u.MayName x := by
  rcases (u.start.attempts_isTempName calls).2 x h with hstart | ⟨k, hk⟩
  · exact .inl (declares_of_mem_names hstart)
  · have hstem : u.start.table.tempPrefix = u.options.tempPrefix :=
      (Context.initial_starts u.options u.classDef u.declarations).tempPrefix
    refine .inr ⟨k, ?_⟩
    rw [hk, SymbolTable.tempName, hstem]

/-- **Distinct symbols share an emitted name only where the receiver has a namesake.** Of the names
in a table, at whatever point of a call, no two are shown alike unless the receiver is among them
and so is its emitted name. Whatever has been lowered of a function body, no two symbols have one
name in the table, and the receiver has no namesake in it unless each of the two names is declared
or is one that a temporary can have. Without a namesake, an instruction that writes a symbol writes
no other one. -/
theorem emitted_names_distinct_iff (u : CompilationUnit) (calls : List Assignment) :
    let ctx := u.start.attempts calls
    (∀ names : List String,
      (∀ x ∈ names, ∀ y ∈ names, u.options.renderName x = u.options.renderName y → x = y) ↔
        ¬ u.options.Clashes names) ∧
      ctx.table.names.Nodup ∧
      (u.options.Clashes ctx.table.names →
        u.MayName u.options.implicitReceiver ∧ u.MayName u.options.receiverSymbol) ∧
      (¬ u.options.Clashes ctx.table.names → ∀ i ∈ ctx.code,
        i.written.symbol ∈ ctx.table.names ∧ ∀ y ∈ ctx.table.names,
          u.options.renderName y = i.written.render u.options → y = i.written.symbol) := by
  intro ctx
  have hnodup : u.start.table.names.Nodup :=
    (Context.initial_reachable u.options u.classDef u.declarations).nodup
  have hextends : u.start.Extends (fun _ => True) ctx :=
    Context.attempts_extends hnodup fun _ _ => trivial
  have hstart := Context.initial_starts u.options u.classDef u.declarations
  have hoptions : ctx.options = u.options := hextends.options.trans hstart.options
  have hlocates : ctx.Locates := by
    refine Context.Locates.attempts (fun i hi => ?_) calls
    rw [start, hstart.code] at hi
    exact absurd hi (by simp)
  refine ⟨u.options.renderName_injOn_iff, hextends.table.nodup hnodup,
    fun hclash => ⟨mayName_of_mem hclash.1, mayName_of_mem hclash.2.1⟩, fun hclash i hi => ?_⟩
  rw [← hoptions] at hclash ⊢
  exact ⟨hlocates i hi, fun y hy htext => hlocates.written_eq hclash hi hy htext⟩

/-- `this->name = 1` in a method whose receiver is called `_0` in emitted code. -/
def receiverUnit : CompilationUnit where
  options := { receiverSymbol := "_0" }
  classDef := some { name := "Person", properties := ["name"] }
  statements :=
    [{ assignments :=
        [{ target := .property "name", destination := "this", source := some (.int 1) }] }]

/-- **The receiver is overwritten**: the temporary for the boxed 1 gets its emitted name, and the
property is set on the temporary itself. -/
theorem receiver_overwritten_by_temporary :
    (∃ out, receiverUnit.compile = .ok out ∧
      out.lines = ["ZVAL_LONG(_0, 1);", "zephir_update_property_this(_0, SL(\"name\"), _0);"]) ∧
      ∃ x y, x ∈ (receiverUnit.start.attempts receiverUnit.assignments).table.names ∧
        y ∈ (receiverUnit.start.attempts receiverUnit.assignments).table.names ∧ x ≠ y ∧
        receiverUnit.options.renderName x = receiverUnit.options.renderName y :=
  ⟨⟨_, rfl, by decide⟩, "this", "_0", by decide, by decide, by decide, by decide⟩

end CompilationUnit

end BoxedLet
