import BoxedLet.Lowering.Statement
import BoxedLet.Proofs.Resolve

/-!
# BoxedLet.Proofs.Ending

**How an assignment ends.** Once its source has been lowered, an assignment may fill further
temporaries, and then either fails or ends with at most two instructions that write the destination:
the last one, and before it one that only prepares the destination's box.

`Lower.Finishes` says this of a computation, again for both outcomes: one that fails has only grown
the state, and one that succeeds has grown it and then come to one of the endings of
`Instr.Closing`. What an ending notes in the table about the destination is determined by its
instructions (`Instr.book`), and the destination is what they expect (`Instr.Expects`). There is one
lemma for each target, put together in `assignSource_finishes` and `assignStep_finishes`.
-/

namespace BoxedLet

variable {span : Span}

/-! ### Endings -/

namespace Instr

/-- The instructions that an assignment to `dest` can end with. -/
inductive Closing (Γ : Typing) (dest : String) : List Instr → Prop
  | nothing : Closing Γ dest []
  | one {i : Instr} (hdst : i.written = .var dest) (hprep : i.isPreparation = false)
      (hi : i.WellTyped Γ) : Closing Γ dest [i]
  | two {p i : Instr} (hp : p.isPreparation = true) (hpdst : p.written = .var dest)
      (hdst : i.written = .var dest) (hprep : i.isPreparation = false) (hi : i.WellTyped Γ) :
      Closing Γ dest [p, i]

/-- Every instruction of an ending writes the destination. -/
theorem Closing.forall_mem {Γ : Typing} {dest : String} {tail : List Instr}
    (h : Closing Γ dest tail) : ∀ i ∈ tail, i.written = .var dest ∧ i.WellTyped Γ := by
  have hprepares : ∀ p : Instr, p.isPreparation = true → p.WellTyped Γ := by
    intro p hp
    cases p with
    | init dst first | separate dst => trivial
    | _ => simp [Instr.isPreparation] at hp
  cases h with
  | nothing => simp
  | one hdst _ hi => simpa using ⟨hdst, hi⟩
  | @two p _ hp hpdst hdst _ hi => simpa using ⟨⟨hpdst, hprepares p hp⟩, hdst, hi⟩

/-- What an instruction notes in the table about the variable it writes. -/
def book (t : SymbolTable) : Instr → SymbolTable
  | init (.var x) _ => (t.countInit x).growStack
  | copy (.var x) _ => (t.requireNull x).growStack
  | inPlace _ _ _ => t.growStack
  | writeString (.var x) _ _ => t.requireNull x
  | _ => t

theorem names_book (t : SymbolTable) (i : Instr) : (i.book t).names = t.names := by
  unfold book
  split <;> simp

theorem names_foldl_book (tail : List Instr) (t : SymbolTable) :
    (tail.foldl book t).names = t.names := by
  induction tail generalizing t with
  | nil => rfl
  | cons i tail ih => rw [List.foldl_cons, ih, names_book]

end Instr

/-- The instruction that initializes a box before it is rebuilt, where the box needs it. -/
def Context.inits (ctx : Context) (name : String) : List Instr :=
  match ctx.table.get? name with
  | none => []
  | some s => if s.isLocalOnly then [] else [.init (.var name) (s.variantInits == 0)]

theorem Context.mem_inits {ctx : Context} {name : String} {s : Symbol} {i : Instr}
    (hget : ctx.table.get? name = some s) (hi : i ∈ ctx.inits name) :
    s.storage = .heapBoxed ∧ i = .init (.var name) (s.variantInits == 0) := by
  unfold Context.inits at hi
  rw [hget] at hi
  by_cases hlocal : s.isLocalOnly = true
  · simp [hlocal] at hi
  · have hheap : s.storage = .heapBoxed := by
      cases hstorage : s.storage with
      | stackOnly => exact absurd (by simp [Symbol.isLocalOnly, hstorage]) hlocal
      | heapBoxed => rfl
    exact ⟨hheap, by simpa [hlocal] using hi⟩

/-- The second state comes from the first by the ending `tail` of an assignment to `dest`, with a
target of the given form. -/
structure Context.Ends (Γ : Typing) (kind : TargetKind) (dest : String) (tail : List Instr)
    (ctx ctx' : Context) : Prop where
  closing : Instr.Closing Γ dest tail
  expects : ∀ s, ctx.table.get? dest = some s → ∀ i ∈ tail, i.Expects kind s.type s.storage
  /-- A box is initialized for the first time if the table has counted no initialization yet. -/
  inits : ∀ s, ctx.table.get? dest = some s →
    ∀ first, .init (.var dest) first ∈ tail → first = (s.variantInits == 0)
  code : ctx'.code = ctx.code ++ tail
  table : ctx'.table = tail.foldl Instr.book ctx.table
  options : ctx'.options = ctx.options
  classDef : ctx'.classDef = ctx.classDef
  headers : ctx.headers.toList <+: ctx'.headers.toList

/-- The table has the symbol, as far as its type and its storage go. -/
def SymbolTable.Holds (t : SymbolTable) (s : Symbol) : Prop :=
  ∃ s', t.get? s.name = some s' ∧ s'.type = s.type ∧ s'.storage = s.storage

theorem Context.Grows.holds {V T : String → Prop} {ctx ctx' : Context} {s : Symbol}
    (hg : ctx.Grows V T ctx') (h : ctx.table.Holds s) : ctx'.table.Holds s := by
  obtain ⟨s', hget, hsame⟩ := h
  exact ⟨s', (hg.get? (SymbolTable.mem_names_of_get? hget)).trans hget, hsame⟩

namespace Lower

variable {α : Type} {V T : String → Prop} {ctx : Context} {kind : TargetKind} {dest : Symbol}
  {idle : Prop}

/-- Started in `ctx`, the computation only grows the state if it fails; if it succeeds, it grows
the state and then ends an assignment to `dest`. The ending may be empty if the assignment is
`idle`, and then nothing is emitted at all. -/
def Finishes (V T : String → Prop) (kind : TargetKind) (dest : Symbol) (idle : Prop)
    (x : Lower Unit) (ctx : Context) : Prop :=
  (∀ n, n ∉ ctx.table.names → T n) → ctx.table.Holds dest →
    match x ctx with
    | .ok _ ctx' => ∃ mid tail, ctx.Grows V T mid ∧
        mid.Ends (Visible V T mid.table) kind dest.name tail ctx' ∧
        (tail = [] → idle ∧ ctx'.code = ctx.code)
    | .error _ ctx' => ctx.Grows V T ctx'

namespace Finishes

theorem fail (span : Span) (cause : Cause) : Finishes V T kind dest idle (fail span cause) ctx :=
  fun _ _ => .refl ctx

/-- A quiet computation before an ending. It may emit something, so that the ending must, too. -/
theorem bind {x : Lower α} {f : α → Lower Unit} {post : α → Context → Prop}
    (hx : Quiet V T x ctx post)
    (hf : ∀ a ctx', ctx.Grows V T ctx' → post a ctx' → Finishes V T kind dest False (f a) ctx') :
    Finishes V T kind dest idle (x >>= f) ctx := by
  intro hfree hholds
  have hx := hx hfree
  rw [bind_apply]
  cases hrun : x ctx with
  | error e ctx' =>
      rw [hrun] at hx
      exact hx
  | ok a ctx' =>
      rw [hrun] at hx
      have hfree' : ∀ n, n ∉ ctx'.table.names → T n :=
        fun n hn => hfree n (fun hmem => hn (hx.1.names_subset hmem))
      have hf := hf a ctx' hx.1 hx.2 hfree' (hx.1.holds hholds)
      dsimp only
      cases hrun' : f a ctx' with
      | error e ctx'' =>
          rw [hrun'] at hf
          exact hx.1.trans hf
      | ok b ctx'' =>
          rw [hrun'] at hf
          obtain ⟨mid, tail, hgrows, hends, hidle⟩ := hf
          exact ⟨mid, tail, hx.1.trans hgrows, hends, fun h => (hidle h).1.elim⟩

/-- A check that succeeds, before an ending. -/
theorem bind_ok {x : Lower α} {f : α → Lower Unit} {a : α} (hx : x ctx = .ok a ctx)
    (hf : Finishes V T kind dest idle (f a) ctx) : Finishes V T kind dest idle (x >>= f) ctx := by
  unfold Finishes
  rw [bind_apply, hx]
  exact hf

/-- A check before an ending. -/
theorem bind_check {x : Lower α} {f : α → Lower Unit} {post : α → Prop}
    (hx : Quiet V T x ctx fun a ctx' => ctx' = ctx ∧ post a)
    (hf : ∀ a, post a → Finishes V T kind dest idle (f a) ctx) :
    Finishes V T kind dest idle (x >>= f) ctx := by
  intro hfree hholds
  have hx := hx hfree
  cases hrun : x ctx with
  | error e ctx' =>
      rw [hrun] at hx
      rw [bind_apply, hrun]
      exact hx
  | ok a ctx' =>
      rw [hrun] at hx
      obtain ⟨-, rfl, hpost⟩ := hx
      exact bind_ok hrun (hf a hpost) hfree hholds

/-- A computation that succeeds with an ending. -/
theorem of_run {x : Lower Unit} {tail : List Instr} {table : SymbolTable} {headers : Headers}
    (hrun : x ctx = .ok () { ctx with table, headers, code := ctx.code ++ tail })
    (hclosing : Instr.Closing (Visible V T ctx.table) dest.name tail)
    (hexpects : ctx.table.Holds dest → ∀ i ∈ tail, i.Expects kind dest.type dest.storage)
    (htable : table = tail.foldl Instr.book ctx.table)
    (hheaders : ctx.headers.toList <+: headers.toList) (hidle : tail = [] → idle)
    (hinits : ∀ s, ctx.table.get? dest.name = some s →
      ∀ first, .init (.var dest.name) first ∈ tail → first = (s.variantInits == 0)) :
    Finishes V T kind dest idle x ctx := by
  intro _ hholds
  have hexpected : ∀ s, ctx.table.get? dest.name = some s →
      ∀ i ∈ tail, i.Expects kind s.type s.storage := by
    intro s hs i hi
    obtain ⟨s', hs', htype, hstorage⟩ := hholds
    obtain rfl : s' = s := Option.some.inj (hs'.symm.trans hs)
    rw [htype, hstorage]
    exact hexpects ⟨s', hs', htype, hstorage⟩ i hi
  rw [hrun]
  refine ⟨ctx, tail, .refl ctx,
    ⟨hclosing, hexpected, hinits, rfl, htable, rfl, rfl, hheaders⟩, fun h => ?_⟩
  exact ⟨hidle h, by rw [h, List.append_nil]⟩

/-- A single instruction, which does not prepare anything. -/
theorem of_one {x : Lower Unit} {i : Instr} {table : SymbolTable} {headers : Headers}
    (hrun : x ctx = .ok () { ctx with table, headers, code := ctx.code ++ [i] })
    (hdst : i.written = .var dest.name) (hprep : i.isPreparation = false)
    (hi : i.WellTyped (Visible V T ctx.table)) (hexpects : i.Expects kind dest.type dest.storage)
    (htable : table = i.book ctx.table) (hheaders : ctx.headers.toList <+: headers.toList) :
    Finishes V T kind dest idle x ctx := by
  refine of_run hrun (.one hdst hprep hi) (fun _ => by simpa using hexpects) htable hheaders
    (by simp) fun s _ first hfirst => ?_
  obtain rfl := List.mem_singleton.mp hfirst
  exact absurd hprep (by simp [Instr.isPreparation])

/-- A single instruction, of those that need no note in the table. -/
theorem emit {i : Instr} (hdst : i.written = .var dest.name) (hprep : i.isPreparation = false)
    (hi : i.WellTyped (Visible V T ctx.table)) (hexpects : i.Expects kind dest.type dest.storage)
    (hbook : i.book ctx.table = ctx.table) : Finishes V T kind dest idle (emit i) ctx :=
  of_one (emit_apply i ctx) hdst hprep hi hexpects hbook.symm (List.prefix_refl _)

end Finishes

end Lower

/-! ### Strategies, and what they are for -/

/-- The types of a family. -/
def Family.Has : Family → StaticType → Prop
  | integer, t => t.isIntegral = true
  | double, t => t = .double
  | bool, t => t = .bool
  | string, t => t = .string
  | dynamic, t => t = .dynamic

theorem Family.has_of_family? {t : StaticType} {family : Family}
    (h : t.family? = some family) : family.Has t := by
  cases t <;> cases h <;> rfl

/-- The shapes of source that a strategy can be selected for. -/
def Strategy.Suits : Strategy → Shape → Prop
  | nativeZero, shape | boxNull, shape => shape = .value .null
  | nativeDirect, shape | nativeCast _, shape | boolTernary, shape =>
    shape.type.isNativeScalar = true
  | nativeBoolean, shape => shape = .value .bool
  | numberCoerce, shape | boolCoerce, shape | stringCoerceLong, shape | boxCopy, shape
  | boxArithmetic, shape => shape = .binding .dynamic
  | stringLiteral, shape => shape = .value .null ∨ shape = .value .string
  | stringBuffer, shape | boxStringBuffer, shape => shape = .binding .string
  | stringChar, shape => shape.type.isChar = true
  | stringLong, shape => shape.type.isInteger = true
  | boxValue kind, shape => ∃ t, shape = .value t ∧ BoxKind.ofType? t = some kind
  | boxBinding kind, shape => ∃ t, shape = .binding t ∧ BoxKind.ofType? t = some kind
  | boxString, shape => shape = .value .string
  | boxEmptyArray, shape => shape = .value .emptyArray

namespace Strategy

variable {shape : Shape} {op : Operator} {strategy : Strategy}

theorem native_of_integral {t : StaticType} (h : t.isIntegral = true) :
    t.isNativeScalar = true := by
  simp [StaticType.isNativeScalar, h]

theorem forInteger_suits (h : forInteger shape op = some strategy) : strategy.Suits shape := by
  unfold forInteger at h
  grind [Suits, native_of_integral, Shape.type, StaticType.isNativeScalar]

theorem forDouble_suits (h : forDouble shape op = some strategy) : strategy.Suits shape := by
  unfold forDouble at h
  grind [Suits, native_of_integral, Shape.type, StaticType.isNativeScalar]

theorem forBool_suits (h : forBool shape op = some strategy) : strategy.Suits shape := by
  unfold forBool at h
  grind [Suits, native_of_integral, Shape.type, StaticType.isNativeScalar]

theorem forString_suits (h : forString shape op = some strategy) : strategy.Suits shape := by
  unfold forString at h
  grind [Suits, Shape.type]

theorem forDynamic_suits (h : forDynamic shape op = some strategy) : strategy.Suits shape := by
  unfold forDynamic at h
  split at h
  -- the two cases that build a box of a native kind
  case h_8 t _ _ _ =>
    obtain ⟨kind, hkind, rfl⟩ := Option.map_eq_some_iff.mp h
    exact ⟨t, rfl, hkind⟩
  case h_9 t _ _ =>
    obtain ⟨kind, hkind, rfl⟩ := Option.map_eq_some_iff.mp h
    exact ⟨t, rfl, hkind⟩
  case h_10 => exact absurd h (by simp)
  all_goals
    obtain rfl := Option.some.inj h
    rfl

/-- A strategy is only ever selected for a shape that it is for. -/
theorem select?_suits {family : Family} (h : select? family shape op = some strategy) :
    strategy.Suits shape := by
  cases family with
  | integer => exact forInteger_suits h
  | double => exact forDouble_suits h
  | bool => exact forBool_suits h
  | string => exact forString_suits h
  | dynamic => exact forDynamic_suits h

/-- Only plain assignment copies. -/
theorem op_of_boxCopy {family : Family} (h : select? family shape op = some .boxCopy) :
    op = .assign := by
  cases family with
  | integer =>
      unfold select? forInteger at h
      grind
  | double =>
      unfold select? forDouble at h
      grind
  | bool =>
      unfold select? forBool at h
      grind
  | string =>
      unfold select? forString at h
      grind
  | dynamic =>
      have h : forDynamic shape op = some .boxCopy := h
      unfold forDynamic at h
      split at h <;> simp_all

/-- The types of destination that a strategy can be selected for. -/
def Serves (t : StaticType) : Strategy → Prop
  | nativeZero | nativeDirect | nativeCast _ | nativeBoolean | boolTernary | numberCoerce
  | boolCoerce => t.isNativeScalar = true
  | stringLiteral | stringBuffer | stringChar | stringLong | stringCoerceLong => t = .string
  | boxNull | boxValue _ | boxBinding _ | boxString | boxStringBuffer | boxEmptyArray | boxCopy
  | boxArithmetic => t = .dynamic

theorem forDynamic_serves (h : forDynamic shape op = some strategy) :
    strategy.Serves .dynamic := by
  unfold forDynamic at h
  split at h
  case h_8 | h_9 =>
    obtain ⟨kind, -, rfl⟩ := Option.map_eq_some_iff.mp h
    rfl
  case h_10 => exact absurd h (by simp)
  all_goals
    obtain rfl := Option.some.inj h
    rfl

/-- A strategy is only ever selected for a destination that it is for. -/
theorem select?_serves {t : StaticType} {family : Family} (hfamily : t.family? = some family)
    (h : select? family shape op = some strategy) : strategy.Serves t := by
  have ht := Family.has_of_family? hfamily
  cases family with
  | integer =>
      have ht : t.isNativeScalar = true := native_of_integral ht
      unfold select? forInteger at h
      grind [Serves]
  | double =>
      obtain rfl := ht
      unfold select? forDouble at h
      grind [Serves, StaticType.isNativeScalar]
  | bool =>
      obtain rfl := ht
      unfold select? forBool at h
      grind [Serves, StaticType.isNativeScalar]
  | string =>
      unfold select? forString at h
      grind [Serves, Family.Has]
  | dynamic =>
      obtain rfl := ht
      exact forDynamic_serves h

end Strategy

/-! ### Plain variable targets -/

namespace Lower

variable {V T : String → Prop} {ctx : Context} {dest : Symbol} {op : Operator} {shape : Shape}
  {source : Source} {idle : Prop}

theorem storeNative_finishes {value : Code} (hdest : dest.type.isNativeScalar = true)
    (hv : (Instr.store (.var dest.name) .set value).WellTyped (Visible V T ctx.table)) :
    Finishes V T .whole dest idle (storeNative span dest op shape value) ctx := by
  unfold storeNative
  split
  · exact .emit rfl rfl hv ⟨rfl, hdest⟩ rfl
  · exact .fail _ _

/-- Writing a native string never fails. -/
theorem writeString_finishes {text : StringSource} (hdest : dest.type = .string)
    (htext : text.WellTyped (Visible V T ctx.table)) :
    Finishes V T .whole dest idle (writeString dest op (pure text)) ctx :=
  .of_one rfl rfl rfl htext ⟨rfl, hdest⟩ rfl (OrderedSet.toList_prefix_insert _ _)

/-- Writing a box as a native string never fails. -/
theorem writeString_coerce_finishes {box : Code} (hdest : dest.type = .string)
    (hbox : box.IsBox (Visible V T ctx.table)) :
    Finishes V T .whole dest idle (writeString dest op do
      require .operators
      pure (.long (.coerce .long box))) ctx := by
  have htext : StringSource.WellTyped (Visible V T ctx.table) (.long (.coerce .long box)) :=
    .inr ⟨rfl, hbox⟩
  exact .of_one rfl rfl rfl htext ⟨rfl, hdest⟩ rfl
    ((OrderedSet.toList_prefix_insert _ _).trans (OrderedSet.toList_prefix_insert _ _))

theorem initBox_apply (name : String) (ctx : Context) :
    initBox name ctx = .ok ()
      { ctx with
        table := (ctx.inits name).foldl Instr.book ctx.table
        code := ctx.code ++ ctx.inits name } := by
  unfold Context.inits
  cases hget : ctx.table.get? name with
  | none => simp [initBox, bind_apply, hget]
  | some s =>
      by_cases hlocal : s.isLocalOnly = true
      · simp [initBox, bind_apply, hget, hlocal]
      · simp [initBox, bind_apply, hget, hlocal, Instr.book]

/-- Rebuilding a box never fails. A box on the heap is initialized first. -/
theorem rebuild_apply (dest : Symbol) (content : BoxContent) (ctx : Context) :
    rebuild dest content ctx = .ok ()
      { ctx with
        table := (ctx.inits dest.name).foldl Instr.book ctx.table
        code := ctx.code ++
          (ctx.inits dest.name ++ [.build (.var dest.name) dest.isLocalOnly content]) } := by
  simp only [rebuild, bind_apply, initBox_apply, emit_apply, List.append_assoc]

theorem rebuild_finishes {content : BoxContent} (hdest : dest.type = .dynamic)
    (hcontent : content.WellTyped (Visible V T ctx.table)) :
    Finishes V T .whole dest idle (rebuild dest content) ctx := by
  let build := Instr.build (.var dest.name) dest.isLocalOnly content
  have hbuild : build.WellTyped (Visible V T ctx.table) := hcontent
  refine .of_run (rebuild_apply dest content ctx) ?_ ?_ ?_ (List.prefix_refl _) (by simp) ?_
  · unfold Context.inits
    split
    · exact .one rfl rfl hbuild
    split
    · exact .one rfl rfl hbuild
    · exact .two rfl rfl rfl rfl hbuild
  · intro hholds i hi
    rcases List.mem_append.mp hi with hi | hi
    · obtain ⟨s, hget, -, hstorage⟩ := hholds
      obtain ⟨hheap, rfl⟩ := Context.mem_inits hget hi
      exact ⟨rfl, hdest, hstorage ▸ hheap⟩
    · obtain rfl := List.mem_singleton.mp hi
      exact ⟨rfl, hdest, rfl⟩
  · rw [List.foldl_append]
    rfl
  · intro s hget first hfirst
    rcases List.mem_append.mp hfirst with hfirst | hfirst
    · exact (Instr.init.inj (Context.mem_inits hget hfirst).2).2
    · exact absurd (List.mem_singleton.mp hfirst) (by simp)

/-- Boxing a computed scalar never fails; where its source reads the destination, a temporary is
filled first. -/
theorem boxScalar_finishes {kind : BoxKind} {expr? : Option Expr} (hdest : dest.type = .dynamic)
    (hfits : source.Fits (Visible V T ctx.table))
    (hshaped : source.Shaped (Visible V T ctx.table) shape)
    (hvalue : shape = .value source.type) (hkind : BoxKind.ofType? shape.type = some kind) :
    Finishes V T .whole dest idle (boxScalar dest kind shape source expr?) ctx := by
  have hnative := BoxKind.native_of_ofType? hkind
  obtain ⟨hcode, htruth⟩ := hshaped.1.scalar hnative
  refine .bind_ok (get_apply ctx) ?_
  split
  · -- a computed value has one of the types that temporaries can have
    have ht : shape.type ∈ [StaticType.int, .char, .double, .bool] := by
      rw [hvalue] at hnative ⊢
      exact hfits.scalar_type hnative
    refine .bind (.fillTemporary (fun _ => rfl) (fun _ => ⟨rfl, ht⟩) fun _ => ?_) ?_
    · exact .inl (Source.scalarCode_isScalar hcode htruth kind)
    · intro temp ctx₁ _ htemp
      have hplace : Code.IsScalar (Visible V T ctx₁.table) (.place temp) := ⟨_, htemp, hnative⟩
      exact rebuild_finishes hdest hplace
  · apply rebuild_finishes hdest
    cases hcontent : boxContent? shape source with
    | none => exact hcode
    | some content => exact hshaped.boxContent_wellTyped hcontent

theorem boxSource_finishes (hdest : dest.type = .dynamic)
    (hshaped : source.Shaped (Visible V T ctx.table) shape) :
    Finishes V T .whole dest idle (boxSource span dest shape source) ctx := by
  unfold boxSource
  split
  · exact rebuild_finishes hdest (hshaped.boxContent_wellTyped ‹_›)
  · exact .fail _ _

theorem copyBox_finishes (hdest : dest.type = .dynamic)
    (hbox : source.code.IsBox (Visible V T ctx.table))
    (hidle : source.name? = some dest.name → idle) :
    Finishes V T .whole dest idle (copyBox dest source) ctx := by
  unfold copyBox
  by_cases hself : source.name? = some dest.name
  · rw [if_pos hself]
    have hrun : (pure () : Lower Unit) ctx = .ok () { ctx with code := ctx.code ++ [] } := by simp
    exact .of_run hrun .nothing (by simp) rfl (List.prefix_refl _) (fun _ => hidle hself) (by simp)
  · rw [if_neg hself]
    exact .of_one (i := .copy (.var dest.name) source.code) rfl rfl rfl hbox ⟨rfl, hdest⟩ rfl
      (List.prefix_refl _)

theorem updateInPlace_finishes (hdest : dest.type = .dynamic)
    (hbox : source.code.IsBox (Visible V T ctx.table)) :
    Finishes V T .whole dest idle (updateInPlace dest op source) ctx :=
  .of_one (i := .inPlace (.var dest.name) (if op = .addAssign then .add else .sub) source.code)
    rfl rfl rfl hbox ⟨rfl, hdest⟩ rfl (OrderedSet.toList_prefix_insert _ _)

/-- Every strategy finishes the assignment, given a destination and a source that it is for. Only a
copy can be idle. -/
theorem carryOut_finishes {strategy : Strategy} {expr? : Option Expr}
    (hserves : strategy.Serves dest.type) (hsuits : strategy.Suits shape)
    (hfits : source.Fits (Visible V T ctx.table))
    (hshaped : source.Shaped (Visible V T ctx.table) shape)
    (hidle : strategy = .boxCopy → source.name? = some dest.name → idle) :
    Finishes V T .whole dest idle (carryOut span strategy dest op shape source expr?) ctx := by
  have hscalar := hshaped.1.scalar
  have hbox := hshaped.1.box
  cases strategy with
  | nativeZero => exact storeNative_finishes hserves (.inl trivial)
  | nativeDirect => exact storeNative_finishes hserves (.inl (hscalar hsuits).1)
  | nativeCast kind => exact storeNative_finishes hserves (.inl (hscalar hsuits).1)
  | boolTernary => exact storeNative_finishes hserves (.inl (hscalar hsuits).1)
  | nativeBoolean =>
      obtain rfl := hsuits
      exact storeNative_finishes hserves (.inl (hscalar rfl).2)
  | numberCoerce =>
      obtain rfl := hsuits
      refine .bind (.require _) fun _ ctx₁ hg₁ _ => ?_
      have hbox₁ := Code.IsBox.mono hg₁.visible (hbox rfl)
      exact storeNative_finishes hserves (.inr (.inl ⟨rfl, hbox₁⟩))
  | boolCoerce =>
      obtain rfl := hsuits
      refine .bind (.require _) fun _ ctx₁ hg₁ _ => ?_
      have hbox₁ := Code.IsBox.mono hg₁.visible (hbox rfl)
      exact storeNative_finishes hserves (.inr (.inr ⟨rfl, hbox₁⟩))
  | stringLiteral =>
      apply writeString_finishes hserves
      rcases hsuits with rfl | rfl
      · -- null is the empty string
        have hnull : source.type = .null := hshaped.type_of_value
        rw [if_pos hnull]
        trivial
      · have hstring : source.type = .string := hshaped.type_of_value
        rw [if_neg (by simp [hstring])]
        exact hshaped.literal
  | stringBuffer =>
      obtain rfl := hsuits
      exact writeString_finishes hserves hshaped.buffer
  | stringChar =>
      have hchar : shape.type.isChar = true := hsuits
      have hnative : shape.type.isNativeScalar = true :=
        Strategy.native_of_integral (by simp [StaticType.isIntegral, hchar])
      have htext : StringSource.WellTyped (Visible V T ctx.table) (.char source.code) :=
        (hscalar hnative).1
      exact writeString_finishes hserves htext
  | stringLong =>
      have hinteger : shape.type.isInteger = true := hsuits
      have hnative : shape.type.isNativeScalar = true :=
        Strategy.native_of_integral (by simp [StaticType.isIntegral, hinteger])
      have htext : StringSource.WellTyped (Visible V T ctx.table) (.long source.code) :=
        .inl (hscalar hnative).1
      exact writeString_finishes hserves htext
  | stringCoerceLong =>
      obtain rfl := hsuits
      exact writeString_coerce_finishes hserves (hbox rfl)
  | boxValue kind =>
      obtain ⟨t, rfl, hkind⟩ := hsuits
      exact boxScalar_finishes hserves hfits hshaped (hshaped.type_of_value ▸ rfl) hkind
  | boxNull | boxBinding kind | boxString | boxStringBuffer | boxEmptyArray =>
      exact boxSource_finishes hserves hshaped
  | boxCopy =>
      obtain rfl := hsuits
      exact copyBox_finishes hserves (hbox rfl) (hidle rfl)
  | boxArithmetic =>
      obtain rfl := hsuits
      exact updateInPlace_finishes hserves (hbox rfl)

theorem assignWhole_finishes {expr? : Option Expr}
    (hfits : source.Fits (Visible V T ctx.table))
    (hidle : dest.type = .dynamic → op = .assign → source.name? = some dest.name → idle) :
    Finishes V T .whole dest idle (assignWhole span dest op source expr?) ctx := by
  unfold assignWhole
  split
  · exact .fail _ _
  cases hfamily : dest.type.family? with
  | none => exact .fail _ _
  | some family =>
      refine .bind_check hfits.shape_quiet fun shape hshaped => ?_
      split
      · exact .fail _ _
      · rename_i hselect
        have hserves := Strategy.select?_serves hfamily hselect
        refine carryOut_finishes hserves (Strategy.select?_suits hselect) hfits hshaped ?_
        rintro rfl
        exact hidle hserves (Strategy.op_of_boxCopy hselect)

/-! ### Targets inside a box -/

theorem checkAssign_quiet :
    Quiet V T (checkAssign span dest op source) ctx fun _ ctx' => ctx' = ctx := by
  unfold checkAssign
  split
  · exact .pure rfl
  · exact .fail _ _

theorem checkHeapBox_quiet :
    Quiet V T (checkHeapBox span dest) ctx fun _ ctx' =>
      ctx' = ctx ∧ dest.type = .dynamic ∧ dest.storage = .heapBoxed := by
  unfold checkHeapBox
  split
  · exact .pure ⟨rfl, ‹_›⟩
  · exact .fail _ _

theorem checkObject_quiet :
    Quiet V T (checkObject span dest) ctx fun _ ctx' => ctx' = ctx ∧ dest.type = .dynamic := by
  unfold checkObject
  split
  · exact .pure ⟨rfl, ‹_›⟩
  · exact .fail _ _

theorem checkProperty_quiet {property : String} :
    Quiet V T (checkProperty span dest property) ctx fun _ ctx' => ctx' = ctx := by
  refine .bind_ok (get_apply ctx) ?_
  split
  · split
    · exact .fail _ _
    · split
      · exact .pure rfl
      · exact .fail _ _
  · exact .pure rfl

/-- A source that has to be a box already costs nothing. -/
theorem boxedSource_quiet {use : ValueUse} (hs : source.Fits (Visible V T ctx.table)) :
    Quiet V T (boxedSource span source use) ctx fun c ctx' => c.IsBox (Visible V T ctx'.table) := by
  refine .bind hs.shape_quiet ?_
  rintro shape _ - ⟨rfl, hshaped⟩
  split
  · rename_i hbox
    subst hbox
    exact .pure (hshaped.1.box rfl)
  · exact .fail _ _

theorem updateKey_quiet {index : Expr} (hV : ∀ x, index.mentions x = true → V x) :
    Quiet V T (updateKey span index) ctx fun k ctx' => k.WellTyped (Visible V T ctx'.table) := by
  refine .bind (resolve_quiet index hV) fun i ctx₁ _ hi => ?_
  refine .bind hi.shape_quiet ?_
  rintro shape _ - ⟨rfl, hshaped⟩
  split
  · exact .pure (hshaped.key_wellTyped ‹_›)
  · exact .fail _ _

theorem propertyKey_quiet {index : Expr} (hV : ∀ x, index.mentions x = true → V x) :
    Quiet V T (propertyKey span index) ctx fun c ctx' => c.IsBox (Visible V T ctx'.table) := by
  refine .bind (resolve_quiet index hV) fun i ctx₁ _ hi => ?_
  refine .bind hi.shape_quiet ?_
  rintro shape _ - ⟨rfl, hshaped⟩
  split
  · rename_i hbox
    subst hbox
    exact .pure (hshaped.1.box rfl)
  · exact .fail _ _

variable (hfits : source.Fits (Visible V T ctx.table))
include hfits

theorem assignAppend_finishes :
    Finishes V T .append dest idle (assignAppend span dest op source) ctx := by
  refine .bind checkAssign_quiet ?_
  rintro _ _ - rfl
  refine .bind checkHeapBox_quiet ?_
  rintro _ _ - ⟨rfl, hheap⟩
  refine .bind (materialize_quiet hfits) fun value ctx₁ _ hvalue => ?_
  refine .bind (.require _) fun _ ctx₂ hg₂ _ => ?_
  exact .emit rfl rfl (Code.IsBox.mono hg₂.visible hvalue) ⟨rfl, hheap⟩ rfl

/-- The index is lowered after the source and before the value is made a box. -/
theorem assignElement_finishes {index : Expr} (hV : ∀ x, index.mentions x = true → V x) :
    Finishes V T .element dest idle (assignElement span dest op index source) ctx := by
  refine .bind checkAssign_quiet ?_
  rintro _ _ - rfl
  refine .bind checkHeapBox_quiet ?_
  rintro _ _ - ⟨rfl, hheap⟩
  refine .bind (updateKey_quiet hV) fun key ctx₁ hg₁ hkey => ?_
  refine .bind (materialize_quiet (hfits.mono hg₁.visible)) fun value ctx₂ hg₂ hvalue => ?_
  refine .bind (.require _) fun _ ctx₃ hg₃ _ => ?_
  have hkey := Key.WellTyped.mono (hg₂.trans hg₃).visible hkey
  have hvalue := Code.IsBox.mono hg₃.visible hvalue
  exact .emit rfl rfl ⟨hkey, hvalue⟩ ⟨rfl, hheap⟩ rfl

theorem assignProperty_finishes {property : String} :
    Finishes V T .property dest idle (assignProperty span dest op property source) ctx := by
  refine .bind checkAssign_quiet ?_
  rintro _ _ - rfl
  refine .bind checkHeapBox_quiet ?_
  rintro _ _ - ⟨rfl, hheap⟩
  refine .bind checkProperty_quiet ?_
  rintro _ _ - rfl
  refine .bind (materialize_quiet hfits) fun value ctx₁ _ hvalue => ?_
  refine .bind (.require _) fun _ ctx₂ hg₂ _ => ?_
  exact .emit rfl rfl (Code.IsBox.mono hg₂.visible hvalue) ⟨rfl, hheap⟩ rfl

theorem appendProperty_finishes {property : String} :
    Finishes V T .propertyAppend dest idle (appendProperty span dest op property source) ctx := by
  refine .bind checkAssign_quiet ?_
  rintro _ _ - rfl
  refine .bind checkObject_quiet ?_
  rintro _ _ - ⟨rfl, hobject⟩
  refine .bind (boxedSource_quiet hfits) fun value ctx₁ _ hvalue => ?_
  refine .bind (.require _) fun _ ctx₂ hg₂ _ => ?_
  exact .emit rfl rfl (Code.IsBox.mono hg₂.visible hvalue) ⟨rfl, hobject⟩ rfl

theorem assignPropertyElement_finishes {property : String} {index : Expr}
    (hV : ∀ x, index.mentions x = true → V x) :
    Finishes V T .propertyElement dest idle
      (assignPropertyElement span dest op property index source) ctx := by
  refine .bind checkAssign_quiet ?_
  rintro _ _ - rfl
  refine .bind checkObject_quiet ?_
  rintro _ _ - ⟨rfl, hobject⟩
  refine .bind (propertyKey_quiet hV) fun key ctx₁ hg₁ hkey => ?_
  refine .bind (boxedSource_quiet (hfits.mono hg₁.visible)) fun value ctx₂ hg₂ hvalue => ?_
  refine .bind (.require _) fun _ ctx₃ hg₃ _ => ?_
  have hkey := Code.IsBox.mono (hg₂.trans hg₃).visible hkey
  have hvalue := Code.IsBox.mono hg₃.visible hvalue
  exact .emit rfl rfl ⟨hkey, hvalue⟩ ⟨rfl, hobject⟩ rfl

/-- **Every target finishes**, and only an assignment of a boxed variable to itself can be idle. -/
theorem assignSource_finishes {a : Assignment} {expr : Expr}
    (hV : ∀ i, a.target.index? = some i → ∀ x, i.mentions x = true → V x)
    (hidle : a.target = .whole → dest.type = .dynamic → a.operator = .assign →
      source.name? = some dest.name → idle) :
    Finishes V T a.target.kind dest idle (assignSource dest a expr source) ctx := by
  unfold assignSource
  cases htarget : a.target with
  | whole => exact assignWhole_finishes hfits (hidle htarget)
  | append => exact assignAppend_finishes hfits
  | element index => exact assignElement_finishes hfits (hV index (by rw [htarget]; rfl))
  | property name => exact assignProperty_finishes hfits
  | propertyAppend name => exact appendProperty_finishes hfits
  | propertyElement name index =>
      exact assignPropertyElement_finishes hfits (hV index (by rw [htarget]; rfl))

omit hfits

/-! ### Steps -/

theorem stepDestination_finishes {direction : Step} :
    Finishes V T .whole dest idle (stepDestination span dest direction op) ctx := by
  unfold stepDestination
  cases hfamily : dest.type.family? with
  | none => exact .fail _ _
  | some family =>
      have hdest := Family.has_of_family? hfamily
      cases family with
      | integer => exact .emit rfl rfl trivial ⟨rfl, .inl hdest⟩ rfl
      | double => exact .emit rfl rfl trivial ⟨rfl, .inr hdest⟩ rfl
      | bool | string => exact .fail _ _
      | dynamic =>
          have hdest : dest.type = .dynamic := hdest
          refine .bind (.require _) fun _ ctx₁ _ _ => ?_
          cases hstorage : dest.storage with
          | stackOnly =>
              rw [if_pos (by simp [Symbol.isLocalOnly, hstorage])]
              exact .emit rfl rfl trivial ⟨rfl, hdest, by simp [hstorage]⟩ rfl
          | heapBoxed =>
              rw [if_neg (by simp [Symbol.isLocalOnly, hstorage])]
              let separate := Instr.separate (.var dest.name)
              let bump := Instr.bump (.var dest.name) false direction
              have hrun : (do emit separate; emit bump : Lower Unit) ctx₁ =
                  .ok () { ctx₁ with code := ctx₁.code ++ [separate, bump] } := by
                simp only [bind_apply, emit_apply, List.append_assoc, List.singleton_append]
              refine .of_run hrun (.two rfl rfl rfl rfl trivial) (fun _ => ?_) rfl
                (List.prefix_refl _) (by simp) (by simp)
              simp [separate, bump, Instr.Expects, hdest, hstorage]

theorem assignStep_finishes : Finishes V T .whole dest idle (assignStep span dest op) ctx := by
  unfold assignStep
  split
  · exact .fail _ _
  split
  · exact stepDestination_finishes
  · exact stepDestination_finishes
  · exact .fail _ _

end Lower

end BoxedLet
