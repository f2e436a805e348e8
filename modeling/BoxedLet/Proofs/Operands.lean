import BoxedLet.CompilationUnit
import BoxedLet.Proofs.Course

/-!
# BoxedLet.Proofs.Operands

**Every operand has the representation that its primitive expects**, by the symbol table that an
assignment leaves behind.

While an assignment is lowered, its code is typed by what is visible at that moment. The table only
gains temporaries and changes flags and counters of symbols (`SymbolTable.Keeps`), so that the same
code is typed by the final table, too. A location that code is typed to read or write has one of the
types of variables, and these are no pseudo types.
-/

namespace BoxedLet

/-! ### Tables that keep their symbols -/

/-- The two symbols differ at most in their flags and counters. -/
structure Symbol.Alike (s s' : Symbol) : Prop where
  type : s'.type = s.type
  storage : s'.storage = s.storage
  temporary : s'.temporary = s.temporary

namespace SymbolTable

/-- The second table has all symbols of the first, up to flags and counters. -/
def Keeps (t t' : SymbolTable) : Prop :=
  ∀ n s, t.get? n = some s → ∃ s', t'.get? n = some s' ∧ s.Alike s'

theorem Keeps.refl (t : SymbolTable) : t.Keeps t :=
  fun _ s hs => ⟨s, hs, rfl, rfl, rfl⟩

theorem Keeps.trans {t t' t'' : SymbolTable} (h₁ : t.Keeps t') (h₂ : t'.Keeps t'') :
    t.Keeps t'' := by
  intro n s hs
  obtain ⟨s', hs', h⟩ := h₁ n s hs
  obtain ⟨s'', hs'', h'⟩ := h₂ n s' hs'
  exact ⟨s'', hs'', h'.type.trans h.type, h'.storage.trans h.storage,
    h'.temporary.trans h.temporary⟩

theorem keeps_modify (t : SymbolTable) (name : String) {f : Symbol → Symbol}
    (hname : ∀ s, (f s).name = s.name) (hf : ∀ s : Symbol, s.Alike (f s)) :
    t.Keeps (t.modify name f) := by
  intro n s hs
  refine ⟨_, (t.get?_modify name n hname).trans (by rw [hs, Option.map_some]), ?_⟩
  split
  · exact hf s
  · exact ⟨rfl, rfl, rfl⟩

theorem keeps_countWrite (t : SymbolTable) (name : String) : t.Keeps (t.countWrite name) :=
  t.keeps_modify name (fun _ => rfl) fun _ => ⟨rfl, rfl, rfl⟩

theorem keeps_markInitialized (t : SymbolTable) (name : String) :
    t.Keeps (t.markInitialized name) :=
  t.keeps_modify name (fun _ => rfl) fun _ => ⟨rfl, rfl, rfl⟩

theorem keeps_book (t : SymbolTable) (i : Instr) : t.Keeps (i.book t) := by
  unfold Instr.book
  split
  · exact t.keeps_modify _ (fun _ => rfl) fun _ => ⟨rfl, rfl, rfl⟩
  · exact t.keeps_modify _ (fun _ => rfl) fun _ => ⟨rfl, rfl, rfl⟩
  · exact .refl t
  · exact t.keeps_modify _ (fun _ => rfl) fun _ => ⟨rfl, rfl, rfl⟩
  · exact .refl t

theorem keeps_foldl_book (tail : List Instr) (t : SymbolTable) :
    t.Keeps (tail.foldl Instr.book t) := by
  induction tail generalizing t with
  | nil => exact .refl t
  | cons i tail ih => exact (t.keeps_book i).trans (ih (i.book t))

theorem Keeps.typeOf? {t t' : SymbolTable} (h : t.Keeps t') {n : String} {type : StaticType}
    (hn : t.typeOf? n = some type) : t'.typeOf? n = some type := by
  obtain ⟨s, hs, rfl⟩ := typeOf?_eq_some.mp hn
  obtain ⟨s', hs', halike⟩ := h n s hs
  exact typeOf?_eq_some.mpr ⟨s', hs', halike.type⟩

end SymbolTable

theorem Context.Grows.keeps {V T : String → Prop} {ctx ctx' : Context} (h : ctx.Grows V T ctx') :
    ctx.table.Keeps ctx'.table := by
  intro n s hs
  exact ⟨s, (h.get? (SymbolTable.mem_names_of_get? hs)).trans hs, rfl, rfl, rfl⟩

/-! ### Locations that the table knows -/

/-- The locations that a table knows, with their types: variables by any symbol, temporaries by
symbols that are temporaries. -/
def SymbolTable.typing (t : SymbolTable) : Typing
  | .var x, type => t.typeOf? x = some type
  | .temp n, type => ∃ s, t.get? n = some s ∧ s.temporary = true ∧ s.type = type

theorem SymbolTable.Keeps.typing {t t' : SymbolTable} (h : t.Keeps t') (p : Place)
    (type : StaticType) (hp : t.typing p type) : t'.typing p type := by
  cases p with
  | var x => exact h.typeOf? hp
  | temp n =>
      obtain ⟨s, hs, htemp, rfl⟩ := hp
      obtain ⟨s', hs', halike⟩ := h n s hs
      exact ⟨s', hs', halike.temporary.trans htemp, halike.type⟩

namespace Context

/-- All symbols that the table has gained since `start` are temporaries. -/
def GainsTemporaries (start : Context) (t : SymbolTable) : Prop :=
  ∀ n s, start.Free n → t.get? n = some s → s.temporary = true

namespace GainsTemporaries

variable {V T : String → Prop} {start ctx ctx' : Context}

theorem modify {t : SymbolTable} (h : start.GainsTemporaries t) (name : String)
    {f : Symbol → Symbol} (hname : ∀ s, (f s).name = s.name)
    (hf : ∀ s, (f s).temporary = s.temporary) : start.GainsTemporaries (t.modify name f) := by
  intro n s hfree hs
  rw [SymbolTable.get?_modify t name n hname] at hs
  obtain ⟨s₀, hs₀, rfl⟩ := Option.map_eq_some_iff.mp hs
  have htemp := h n s₀ hfree hs₀
  split
  · rw [hf, htemp]
  · exact htemp

theorem counting (start : Context) (name : String) :
    start.GainsTemporaries (start.counting name).table := by
  intro n s hfree hs
  have hmem := SymbolTable.mem_names_of_get? hs
  simp only [Context.counting, SymbolTable.names_countWrite] at hmem
  exact absurd hmem hfree

theorem grows (h : start.GainsTemporaries ctx.table) (hg : ctx.Grows V T ctx') :
    start.GainsTemporaries ctx'.table := by
  intro n s hfree hs
  by_cases hmem : n ∈ ctx.table.names
  · exact h n s hfree ((hg.get? hmem).symm.trans hs)
  · obtain ⟨temps, hsymbols, htemps⟩ := hg.symbols
    have hs' : s ∈ ctx.table.symbols ++ temps := hsymbols ▸ List.mem_of_find?_eq_some hs
    rcases List.mem_append.mp hs' with hs' | hs'
    · exact absurd (SymbolTable.name_of_get? hs ▸ List.mem_map_of_mem hs') hmem
    · exact (htemps s hs').1

/-- What is visible to an assignment is known to the table. -/
theorem typing (h : start.GainsTemporaries ctx.table) (p : Place) (type : StaticType)
    (hp : Visible V start.Free ctx.table p type) : ctx.table.typing p type := by
  cases p with
  | var x => exact hp.2
  | temp n =>
      obtain ⟨s, hs, htype⟩ := SymbolTable.typeOf?_eq_some.mp hp.2
      exact ⟨s, hs, h n s hp.1 hs, htype⟩

end GainsTemporaries

end Context

/-! ### Locations of instructions -/

theorem StaticType.not_pseudo_of_native {t : StaticType} (h : t.isNativeScalar = true) :
    t.isPseudo = false := by
  revert h
  cases t <;> decide

/-- The locations in code. -/
def Code.places : Code → List Place
  | .place p => [p]
  | .binary _ l r | .compare _ l r => l.places ++ r.places
  | .not c | .cast _ _ c | .nonZero c | .isTrue c | .coerce _ c => c.places
  | .verbatim _ | .null | .truth _ | .bit _ | .zero _ | .long _ | .double _ | .char _
  | .stringBody _ | .blank => []

/-- The locations in the content of a box. -/
def BoxContent.places : BoxContent → List Place
  | .null | .emptyArray => []
  | .string c | .buffer c | .scalar _ c => c.places

/-- The locations in a key. -/
def Key.places : Key → List Place
  | .long c | .literal c | .buffer c | .boxed c => c.places

/-- The locations in the source of a native string. -/
def StringSource.places : StringSource → List Place
  | .char c | .long c | .buffer c | .literal c => c.places

namespace Instr

/-- The locations that an instruction names besides the one that it writes. -/
def operands : Instr → List Place
  | step _ _ | init _ _ | separate _ | bump _ _ _ => []
  | store _ _ c | copy _ c | inPlace _ _ c | readProperty _ c _ | append _ c | setProperty _ _ c
  | appendProperty _ _ c => c.places
  | build _ _ content => content.places
  | writeString _ _ source => source.places
  | boxed _ _ l r | updateProperty _ _ l r => l.places ++ r.places
  | call _ _ args => args.flatMap Code.places
  | fetch _ array key => array.places ++ key.places
  | update _ key value => key.places ++ value.places

/-- The location that an instruction writes is what the instruction expects: a temporary of the type
that is computed, or a variable that suits what is done to it. -/
def WritesTyped (t : SymbolTable) (kind : TargetKind) (i : Instr) : Prop :=
  match i.written with
  | .temp n => ∃ s, t.get? n = some s ∧ s.temporary = true ∧ i.Computes s.type
  | .var x => ∃ s, t.get? x = some s ∧ i.Expects kind s.type s.storage

/-- No temporary is made for a value of a pseudo type. -/
theorem Computes.not_pseudo {i : Instr} {t : StaticType} (h : i.Computes t) :
    t.isPseudo = false := by
  cases i with
  | build => exact h.2 ▸ rfl
  | boxed | call | readProperty | fetch => exact h ▸ rfl
  | store =>
      have ht : t = .int ∨ t = .char ∨ t = .double ∨ t = .bool := by simpa using h.2
      rcases ht with rfl | rfl | rfl | rfl <;> rfl
  | _ => exact h.elim

/-- No instruction writes a variable of a pseudo type. -/
theorem Expects.not_pseudo {i : Instr} {kind : TargetKind} {t : StaticType} {storage : Storage}
    (h : i.Expects kind t storage) : t.isPseudo = false := by
  cases i with
  | boxed | call | readProperty | fetch => exact h.elim
  | store => exact StaticType.not_pseudo_of_native h.2
  | step =>
      rcases h.2 with ht | ht
      · exact StaticType.not_pseudo_of_native (Strategy.native_of_integral ht)
      · rw [ht]; rfl
  | copy | inPlace | writeString | appendProperty | updateProperty => rw [h.2]; rfl
  | _ => rw [h.2.1]; rfl

/-- The location that an instruction writes is never of a pseudo type. -/
theorem WritesTyped.admits {t : SymbolTable} {kind : TargetKind} {i : Instr}
    (h : i.WritesTyped t kind) : ∃ type, t.typing i.written type ∧ type.isPseudo = false := by
  unfold WritesTyped at h
  cases hwritten : i.written with
  | var x =>
      rw [hwritten] at h
      obtain ⟨s, hs, hexpects⟩ := h
      exact ⟨s.type, SymbolTable.typeOf?_eq_some.mpr ⟨s, hs, rfl⟩, hexpects.not_pseudo⟩
  | temp n =>
      rw [hwritten] at h
      obtain ⟨s, hs, htemp, hcomputes⟩ := h
      exact ⟨s.type, ⟨s, hs, htemp, rfl⟩, hcomputes.not_pseudo⟩

end Instr

section Places

variable {Γ : Typing}

/-- The locations have types that variables can have. -/
def Typing.Admits (Γ : Typing) (ps : List Place) : Prop :=
  ∀ p ∈ ps, ∃ t, Γ p t ∧ t.isPseudo = false

theorem Typing.Admits.append {ps qs : List Place} (hp : Γ.Admits ps) (hq : Γ.Admits qs) :
    Γ.Admits (ps ++ qs) := by
  intro p hmem
  rcases List.mem_append.mp hmem with hmem | hmem
  · exact hp p hmem
  · exact hq p hmem

theorem Typing.admits_nil : Γ.Admits [] := by
  intro p hp
  simp at hp

theorem Typing.admits_singleton {p : Place} {t : StaticType} (hp : Γ p t)
    (ht : t.isPseudo = false) : Γ.Admits [p] := by
  intro q hq
  obtain rfl := List.mem_singleton.mp hq
  exact ⟨t, hp, ht⟩

theorem Code.IsBox.admits {c : Code} (hc : c.IsBox Γ) : Γ.Admits c.places := by
  cases c with
  | place p => exact Typing.admits_singleton hc rfl
  | _ => exact hc.elim

theorem Code.IsBuffer.admits {c : Code} (hc : c.IsBuffer Γ) : Γ.Admits c.places := by
  cases c with
  | place p =>
      cases p with
      | var x => exact Typing.admits_singleton hc rfl
      | temp n => exact hc.elim
  | _ => exact hc.elim

theorem Code.IsBody.admits {c : Code} (hc : c.IsBody) : Γ.Admits c.places := by
  cases c with
  | stringBody | blank => exact Typing.admits_nil
  | _ => exact hc.elim

theorem Code.IsScalar.admits {c : Code} (hc : c.IsScalar Γ) : Γ.Admits c.places := by
  induction c with
  | place p =>
      obtain ⟨t, hp, ht⟩ := hc
      exact Typing.admits_singleton hp (StaticType.not_pseudo_of_native ht)
  | truth | bit | zero | long | double | char => exact Typing.admits_nil
  | binary op l r ihl ihr => exact (ihl hc.1).append (ihr hc.2)
  | not c ih | cast kind grouped c ih | nonZero c ih => exact ih hc
  | compare op l r => exact (Code.IsBox.admits hc.1).append (Code.IsBox.admits hc.2)
  | isTrue c => exact Code.IsBox.admits (c := c) hc
  | verbatim | null | stringBody | blank | coerce => exact hc.elim

theorem Code.IsCoercion.admits {kind : Coercion} {c : Code} (hc : c.IsCoercion Γ kind) :
    Γ.Admits c.places := by
  cases c with
  | coerce k c => exact Code.IsBox.admits (c := c) hc.2
  | _ => exact hc.elim

theorem Key.WellTyped.admits {key : Key} (hk : key.WellTyped Γ) : Γ.Admits key.places := by
  cases key with
  | long value => exact Code.IsScalar.admits hk
  | literal body => exact Code.IsBody.admits hk
  | buffer source => exact Code.IsBuffer.admits hk
  | boxed value => exact Code.IsBox.admits hk

/-- **Operands of a well-typed instruction** are never of a pseudo type. -/
theorem Instr.WellTyped.admits {i : Instr} (hi : i.WellTyped Γ) : Γ.Admits i.operands := by
  cases i with
  | step | init | separate | bump => exact Typing.admits_nil
  | store dst op value =>
      rcases hi with hi | hi | hi
      · exact Code.IsScalar.admits hi
      · exact Code.IsCoercion.admits hi
      · exact Code.IsCoercion.admits hi
  | build dst inFrame content =>
      cases content with
      | null | emptyArray => exact Typing.admits_nil
      | string body => exact Code.IsBody.admits hi
      | buffer source => exact Code.IsBuffer.admits hi
      | scalar kind value => exact Code.IsScalar.admits hi
  | copy dst c | inPlace dst op c | readProperty dst c property | append dst c
  | setProperty dst property c | appendProperty dst property c => exact Code.IsBox.admits (c := c) hi
  | writeString dst mode source =>
      cases source with
      | char value => exact Code.IsScalar.admits hi
      | long value => exact hi.elim Code.IsScalar.admits Code.IsCoercion.admits
      | buffer source => exact Code.IsBuffer.admits hi
      | literal body => exact Code.IsBody.admits hi
  | boxed dst op l r | updateProperty dst property l r =>
      exact (Code.IsBox.admits hi.1).append (Code.IsBox.admits hi.2)
  | call dst name args =>
      intro p hp
      obtain ⟨arg, harg, hp⟩ := List.mem_flatMap.mp hp
      exact Code.IsBox.admits (hi arg harg) p hp
  | fetch dst array key => exact (Code.IsBox.admits hi.1).append hi.2.admits
  | update dst key value => exact (Key.WellTyped.admits hi.1).append (Code.IsBox.admits hi.2)

end Places

/-! ### Assignments that succeed -/

namespace Context

variable {V : String → Prop} {a : Assignment} {start ctx ctx' : Context} {t : SymbolTable}
  {kind : TargetKind} {i : Instr}

/-- An instruction that fills a temporary of the assignment is typed by every later table. -/
theorem GainsTemporaries.filled (h : start.GainsTemporaries ctx.table)
    (hkeeps : ctx.table.Keeps t)
    (hi : i.WellTyped (Visible V start.Free ctx.table) ∧ ∃ n s, i.written = .temp n ∧
      start.Free n ∧ ctx.table.get? n = some s ∧ i.Computes s.type) :
    i.WellTyped t.typing ∧ i.WritesTyped t kind := by
  obtain ⟨htyped, n, s, hwritten, hfree, hs, hcomputes⟩ := hi
  refine ⟨(htyped.mono h.typing).mono hkeeps.typing, ?_⟩
  obtain ⟨s', hs', halike⟩ := hkeeps n s hs
  rw [Instr.WritesTyped, hwritten]
  exact ⟨s', hs', halike.temporary.trans (h n s hfree hs), halike.type ▸ hcomputes⟩

/-- An instruction that ends the assignment is typed by the table that it leaves behind. -/
theorem GainsTemporaries.ended {dest : String} {tail : List Instr}
    (h : start.GainsTemporaries ctx.table) (hdest : dest ∈ ctx.table.names)
    (hends : ctx.Ends (Visible V start.Free ctx.table) kind dest tail ctx') (hi : i ∈ tail) :
    i.WellTyped ctx'.table.typing ∧ i.WritesTyped ctx'.table kind := by
  have hkeeps : ctx.table.Keeps ctx'.table := hends.table ▸ SymbolTable.keeps_foldl_book tail _
  obtain ⟨hwritten, htyped⟩ := hends.closing.forall_mem i hi
  refine ⟨(htyped.mono h.typing).mono hkeeps.typing, ?_⟩
  cases hs : ctx.table.get? dest with
  | none => exact absurd hdest (SymbolTable.get?_eq_none_iff.mp hs)
  | some s =>
      obtain ⟨s', hs', halike⟩ := hkeeps dest s hs
      rw [Instr.WritesTyped, hwritten]
      refine ⟨s', hs', ?_⟩
      rw [halike.type, halike.storage]
      exact hends.expects s hs i hi

/-- **An assignment that completes emits typed code only.** -/
theorem Completes.emitted (h : ctx.Completes a ctx') :
    ctx.table.Keeps ctx'.table ∧ ctx'.options = ctx.options ∧
      ∃ emitted, ctx'.code = ctx.code ++ emitted ∧
        ∀ i ∈ emitted, i.WellTyped ctx'.table.typing ∧ i.WritesTyped ctx'.table a.target.kind := by
  obtain ⟨hdest, lowered, ready, tail, hgrows, hready, hends, -⟩ := h
  obtain ⟨fills, hcode, hfills⟩ := hgrows.emitted
  obtain ⟨more, hcode', hmore⟩ := hready.emitted
  have hlowered := (GainsTemporaries.counting ctx a.destination).grows hgrows
  have hmarked : ctx.GainsTemporaries (lowered.marking a.destination).table :=
    hlowered.modify a.destination (fun _ => rfl) fun _ => rfl
  have hgains := hmarked.grows hready
  -- the tables along the way: lowered, marked, ready and final
  have hcounted : ctx.table.Keeps (ctx.counting a.destination).table :=
    SymbolTable.keeps_countWrite _ _
  have hmark : lowered.table.Keeps (lowered.marking a.destination).table :=
    SymbolTable.keeps_markInitialized _ _
  have hend : ready.table.Keeps ctx'.table := hends.table ▸ SymbolTable.keeps_foldl_book tail _
  have hlater : lowered.table.Keeps ctx'.table := (hmark.trans hready.keeps).trans hend
  have hdest' : a.destination ∈ ready.table.names := by
    apply hready.names_subset
    simp only [Context.marking, SymbolTable.names_markInitialized]
    apply hgrows.names_subset
    simpa [Context.counting] using hdest
  refine ⟨(hcounted.trans hgrows.keeps).trans hlater,
    hends.options.trans (hready.options.trans hgrows.options), fills ++ more ++ tail, ?_, ?_⟩
  · exact code_of_course hcode hcode' hends.code
  · intro i hi
    rcases List.mem_append.mp hi with hi | hi
    · rcases List.mem_append.mp hi with hi | hi
      · exact hlowered.filled hlater (hfills i hi)
      · exact hgains.filled hend (hmore i hi)
    · exact hgains.ended hdest' hends hi

end Context

/-- **Every operand has the representation that its primitive expects**, by the table that the
assignment leaves behind, in which declared variables have kept their types. The location that an
instruction writes has the representation that the instruction gives it, and none of the locations
that an instruction names is of a pseudo type. -/
theorem assignment_operands_typed {a : Assignment} {ctx ctx' : Context}
    (hrun : lowerAssignment a ctx = .ok () ctx') :
    (∀ x t, ctx.table.typeOf? x = some t → ctx'.table.typeOf? x = some t) ∧
      ∃ emitted, ctx'.lines = ctx.lines ++ emitted.map (Instr.line ctx.options) ∧
        ctx'.code = ctx.code ++ emitted ∧
        ∀ i ∈ emitted, i.WellTyped ctx'.table.typing ∧
          i.WritesTyped ctx'.table a.target.kind ∧
          ∀ p ∈ i.written :: i.operands, ∃ t, ctx'.table.typing p t ∧ t.isPseudo = false := by
  obtain ⟨hkeeps, hoptions, emitted, hcode, hemitted⟩ := (completes_of_ok hrun).emitted
  have hlines := Context.lines_of_code_append hcode hoptions
  refine ⟨fun x t hx => hkeeps.typeOf? hx, emitted, hlines, hcode, fun i hi => ?_⟩
  obtain ⟨htyped, hwrites⟩ := hemitted i hi
  refine ⟨htyped, hwrites, fun p hp => ?_⟩
  rcases List.mem_cons.mp hp with rfl | hp
  · exact hwrites.admits
  · exact htyped.admits p hp

/-- `v[s] = f(x + 1, s)`, with a boxed `v`, a native string `s` and a native `x`: scalars and native
strings are boxed before they become arguments, and the key passes the bytes of `s` themselves. -/
theorem assignment_operands_typed_call :
    let ctx : Context := .initial {} none
      [{ name := "v", type := .dynamic }, { name := "s", type := .string },
        { name := "x", type := .int }]
    let a : Assignment :=
      { target := .element (.var "s"), destination := "v",
        source := some (.call "f" [.binary (.arith .add) (.var "x") (.int 1), .var "s"]) }
    ∃ ctx', lowerAssignment a ctx = .ok () ctx' ∧
      ctx'.lines = ["ZVAL_LONG(_0, (x + 1));", "ZVAL_STRINGL(_1, s->str, s->len, 1);",
        "ZEPHIR_CALL_FUNCTION(_2, \"f\", _0, _1);",
        "zephir_array_update_string(&v, s->str, s->len, &_2, PH_COPY | PH_SEPARATE);"] ∧
      ∀ i ∈ ctx'.code, i.WellTyped ctx'.table.typing ∧ i.WritesTyped ctx'.table .element ∧
        ∀ p ∈ i.written :: i.operands, ∃ t, ctx'.table.typing p t ∧ t.isPseudo = false := by
  intro ctx a
  have hlowered : ∃ ctx', lowerAssignment a ctx = .ok () ctx' ∧
      ctx'.lines = ["ZVAL_LONG(_0, (x + 1));", "ZVAL_STRINGL(_1, s->str, s->len, 1);",
        "ZEPHIR_CALL_FUNCTION(_2, \"f\", _0, _1);",
        "zephir_array_update_string(&v, s->str, s->len, &_2, PH_COPY | PH_SEPARATE);"] := by
    simp only [ctx, a]
    exact ⟨_, rfl, by decide⟩
  obtain ⟨ctx', hrun, hlines⟩ := hlowered
  obtain ⟨-, emitted, -, hcode, htyped⟩ := assignment_operands_typed hrun
  obtain rfl : ctx'.code = emitted := hcode
  exact ⟨ctx', hrun, hlines, htyped⟩

/-- A native string is written from a box by way of the box's integer value: the argument of the
primitive is a coercion, no code for a native scalar. -/
theorem string_written_from_coerced_box :
    let ctx : Context := .initial {} none
      [{ name := "s", type := .string }, { name := "v", type := .dynamic }]
    let a : Assignment := { target := .whole, destination := "s", source := some (.var "v") }
    ∃ ctx' value, lowerAssignment a ctx = .ok () ctx' ∧
      ctx'.lines = ["zephir_str_assign_long(s, zephir_get_intval(v));"] ∧
      ctx'.code = [.writeString (.var "s") .assign (.long value)] ∧
      ¬ value.IsScalar ctx'.table.typing := by
  intro ctx a
  simp only [ctx, a]
  exact ⟨_, .coerce .long (.place (.var "v")), rfl, by decide, rfl, id⟩

end BoxedLet
