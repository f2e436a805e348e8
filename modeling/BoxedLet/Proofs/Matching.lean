import BoxedLet.Proofs.AssignmentFaults
import BoxedLet.Proofs.Hazard
import BoxedLet.Proofs.Runs

/-!
# BoxedLet.Proofs.Matching

**Two runs of one assignment.** Beyond the types of the variables that it reads, an assignment looks
at its destination: at all of the symbol but whether it has a value and how often it was written
(`Symbol.gist`). Two states match on a set `V` of names if they agree on the gist of these symbols
and on everything outside the table, up to a renaming of temporaries.

Temporaries may be handed out differently in the two states. Then their names must not matter, and
no name in `V` may become one of them later. Or else the next temporary has the same name in both
states, however different the tables are otherwise (`Context.Matches.fresh`).

An assignment whose names are all in `V` ends alike in states that match, and leaves states that
match (`Context.Matches.call`).
-/

namespace BoxedLet

variable {span : Span}

/-- What lowering looks at in a symbol: all but whether it has a value and how often it was
written. -/
def Symbol.gist (s : Symbol) : Symbol :=
  { s with initialized := false, mutationCount := 0 }

/-- The fields that whole assignments look at. -/
theorem Symbol.fields_of_gist {s s' : Symbol} (h : s'.gist = s.gist) :
    s'.name = s.name ∧ s'.type = s.type ∧ s'.readOnly = s.readOnly := by
  simp only [Symbol.gist, Symbol.mk.injEq] at h
  exact ⟨h.1, h.2.1, h.2.2.2.1⟩

/-- No name in `V` can still become the name of a new temporary. -/
def Context.Settled (V : String → Prop) (ctx : Context) : Prop :=
  ∀ x, V x → ctx.table.IsTempName x → x ∈ ctx.table.names

/-- The states agree on the gist of the symbols in `V` and on everything outside the table, up to
the renaming `ρ` of temporaries. -/
structure Context.Matches (V : String → Prop) (ρ : String → String) (ctx ctx' : Context) :
    Prop where
  options : ctx'.options = ctx.options
  classDef : ctx'.classDef = ctx.classDef
  headers : ctx'.headers = ctx.headers
  code : ctx'.code.map (Instr.mapTemps ρ) = ctx.code.map (Instr.mapTemps ρ)
  tempPrefix : ctx'.table.tempPrefix = ctx.table.tempPrefix
  mustGrowStack : ctx'.table.mustGrowStack = ctx.table.mustGrowStack
  symbols : ∀ x, V x → (ctx'.table.get? x).map Symbol.gist = (ctx.table.get? x).map Symbol.gist
  /-- Either names of new temporaries do not matter and are not in `V`, or they are the same. -/
  fresh : (∀ m n, ρ m = ρ n) ∧ ctx.Settled V ∨
    ctx'.table.nextTemp = ctx.table.nextTemp ∧
      ∀ k, ctx.table.tempName k ∈ ctx'.table.names ↔ ctx.table.tempName k ∈ ctx.table.names

namespace Context.Matches

variable {V : String → Prop} {ρ : String → String} {ctx ctx' : Context}

theorem refl (V : String → Prop) (ρ : String → String) (ctx : Context) : ctx.Matches V ρ ctx :=
  ⟨rfl, rfl, rfl, rfl, rfl, rfl, fun _ _ => rfl, .inr ⟨rfl, fun _ => Iff.rfl⟩⟩

theorem length_code (h : ctx.Matches V ρ ctx') : ctx'.code.length = ctx.code.length := by
  simpa using congrArg List.length h.code

theorem length_lines (h : ctx.Matches V ρ ctx') : ctx'.lines.length = ctx.lines.length := by
  rw [lines_eq, lines_eq, List.length_map, List.length_map, h.length_code]

/-- Where temporaries have the same names, the text is the same. -/
theorem lines (h : ctx.Matches V id ctx') : ctx'.lines = ctx.lines := by
  have hcode : ctx'.code = ctx.code := by
    simpa [List.map_congr_left fun i _ => Instr.mapTemps_id i] using h.code
  rw [lines_eq, lines_eq, hcode, h.options]

/-- A variable in `V` is in both tables or in neither. -/
theorem mem_names_iff (h : ctx.Matches V ρ ctx') {x : String} (hx : V x) :
    x ∈ ctx'.table.names ↔ x ∈ ctx.table.names := by
  have hsymbols := h.symbols x hx
  rw [← Decidable.not_iff_not, ← SymbolTable.get?_eq_none_iff, ← SymbolTable.get?_eq_none_iff]
  constructor
  · intro hnone
    rw [hnone] at hsymbols
    exact Option.map_eq_none_iff.mp hsymbols.symm
  · intro hnone
    rw [hnone] at hsymbols
    exact Option.map_eq_none_iff.mp hsymbols

theorem get? (h : ctx.Matches V ρ ctx') {x : String} (hx : V x) {s : Symbol}
    (hs : ctx.table.get? x = some s) : ∃ s', ctx'.table.get? x = some s' ∧ s'.gist = s.gist := by
  have hsymbols := h.symbols x hx
  rw [hs] at hsymbols
  exact Option.map_eq_some_iff.mp hsymbols

theorem typeOf? (h : ctx.Matches V ρ ctx') {x : String} (hx : V x) :
    ctx'.table.typeOf? x = ctx.table.typeOf? x := by
  have htype : ∀ o : Option Symbol, o.map Symbol.type = (o.map Symbol.gist).map Symbol.type := by
    intro o
    rw [Option.map_map]
    rfl
  rw [SymbolTable.typeOf?, SymbolTable.typeOf?, htype, h.symbols x hx, ← htype]

theorem nextName (h : ctx.Matches V ρ ctx') : ρ ctx'.table.nextName = ρ ctx.table.nextName := by
  obtain ⟨hconst, -⟩ | ⟨hnext, htaken⟩ := h.fresh
  · exact hconst _ _
  · rw [SymbolTable.nextName, SymbolTable.nextName, SymbolTable.tempName_congr h.tempPrefix,
      SymbolTable.freshNumber_congr h.tempPrefix hnext htaken]

/-! ### What keeps states matching -/

theorem needing (h : ctx.Matches V ρ ctx') (header : Header) :
    (ctx.needing header).Matches V ρ (ctx'.needing header) :=
  { h with headers := congrArg (·.insert header) h.headers }

theorem emitting (h : ctx.Matches V ρ ctx') {i i' : Instr} (hi : i'.mapTemps ρ = i.mapTemps ρ) :
    Matches V ρ { ctx with code := ctx.code ++ [i] } { ctx' with code := ctx'.code ++ [i'] } := by
  refine { h with code := ?_ }
  rw [List.map_append, List.map_append, h.code, List.map_singleton, List.map_singleton, hi]

theorem newTemporary (h : ctx.Matches V ρ ctx') (type : StaticType) :
    Matches V ρ { ctx with table := (ctx.table.newTemporary type).2 }
      { ctx' with table := (ctx'.table.newTemporary type).2 } := by
  have hname := SymbolTable.tempName_congr h.tempPrefix
  refine { h with symbols := fun x hx => ?_, fresh := ?_ }
  · simp only [SymbolTable.get?_newTemporary]
    obtain ⟨-, hdeclared⟩ | ⟨hnext, htaken⟩ := h.fresh
    · -- neither of the two new names is in `V`
      have hne : x ≠ ctx.table.nextName := by
        rintro rfl
        exact ctx.table.nextName_not_mem_names
          (hdeclared _ hx ctx.table.isTempName_nextName)
      have hne' : x ≠ ctx'.table.nextName := by
        rintro rfl
        obtain ⟨k, hk⟩ := ctx'.table.isTempName_nextName
        exact ctx'.table.nextName_not_mem_names
          ((h.mem_names_iff hx).mpr (hdeclared _ hx ⟨k, hk.trans (hname k)⟩))
      rw [if_neg hne, if_neg hne']
      exact h.symbols x hx
    · have hsame : ctx'.table.nextName = ctx.table.nextName := by
        rw [SymbolTable.nextName, hname, SymbolTable.freshNumber_congr h.tempPrefix hnext htaken]
        rfl
      rw [hsame]
      split
      · rfl
      · exact h.symbols x hx
  · obtain ⟨hconst, hdeclared⟩ | ⟨hnext, htaken⟩ := h.fresh
    · refine .inl ⟨hconst, fun x hx htemp => ?_⟩
      have hx := hdeclared x hx htemp
      simp only [SymbolTable.newTemporary_names, List.mem_append]
      exact .inl hx
    · have hnumber := SymbolTable.freshNumber_congr h.tempPrefix hnext htaken
      refine .inr ⟨congrArg (· + 1) hnumber, fun k => ?_⟩
      simp only [SymbolTable.newTemporary_names, List.mem_append, List.mem_singleton]
      rw [SymbolTable.nextName, hname, hnumber]
      exact or_congr (htaken k) Iff.rfl

theorem filling (h : ctx.Matches V ρ ctx') (type : StaticType) {i i' : Instr}
    (hi : i'.mapTemps ρ = i.mapTemps ρ) :
    (ctx.filling type i).Matches V ρ (ctx'.filling type i') :=
  (h.newTemporary type).emitting hi

/-- Matching is kept by lowering an expression. -/
theorem tracks : Tracks V ρ (Matches V ρ) where
  typeOf? h _ hx := h.typeOf? hx
  nextName h := h.nextName
  needing h header := h.needing header
  filling h type _ _ hi := h.filling type hi

/-- A change of one symbol that acts on its gist. -/
theorem modify (h : ctx.Matches V ρ ctx') (name : String) {f : Symbol → Symbol}
    (hname : ∀ s, (f s).name = s.name) (hgist : ∀ s, (f s).gist = (f s.gist).gist) :
    Matches V ρ { ctx with table := ctx.table.modify name f }
      { ctx' with table := ctx'.table.modify name f } := by
  have hchange : ∀ o : Option Symbol,
      (o.map fun s => if s.name == name then f s else s).map Symbol.gist =
        (o.map Symbol.gist).map fun s => (if s.name == name then f s else s).gist := by
    intro o
    cases o with
    | none => rfl
    | some s =>
        have hsame : s.gist.name = s.name := rfl
        simp only [Option.map_some, hsame]
        split
        · rw [hgist]
        · rfl
  refine { h with symbols := fun x hx => ?_, fresh := ?_ }
  · simp only [SymbolTable.get?_modify _ name x hname, hchange, h.symbols x hx]
  · simp only [Settled, SymbolTable.names_modify _ name f hname]
    exact h.fresh

theorem countWrite (h : ctx.Matches V ρ ctx') (name : String) :
    Matches V ρ { ctx with table := ctx.table.countWrite name }
      { ctx' with table := ctx'.table.countWrite name } :=
  h.modify name (f := fun s => { s with mutationCount := s.mutationCount + 1 }) (fun _ => rfl)
    fun _ => rfl

theorem markInitialized (h : ctx.Matches V ρ ctx') (name : String) :
    Matches V ρ { ctx with table := ctx.table.markInitialized name }
      { ctx' with table := ctx'.table.markInitialized name } :=
  h.modify name (f := fun s => { s with initialized := true }) (fun _ => rfl) fun _ => rfl

theorem requireNull (h : ctx.Matches V ρ ctx') (name : String) :
    Matches V ρ { ctx with table := ctx.table.requireNull name }
      { ctx' with table := ctx'.table.requireNull name } :=
  h.modify name (f := fun s => { s with mustInitToNull := true }) (fun _ => rfl) fun _ => rfl

theorem countInit (h : ctx.Matches V ρ ctx') (name : String) :
    Matches V ρ { ctx with table := ctx.table.countInit name }
      { ctx' with table := ctx'.table.countInit name } :=
  h.modify name
    (f := fun s => { s with mustInitToNull := true, variantInits := s.variantInits + 1 })
    (fun _ => rfl) fun _ => rfl

theorem growStack (h : ctx.Matches V ρ ctx') :
    Matches V ρ { ctx with table := ctx.table.growStack }
      { ctx' with table := ctx'.table.growStack } :=
  { h with mustGrowStack := rfl }

/-- A box in `V` needs the same initialization in both states. -/
theorem inits (h : ctx.Matches V ρ ctx') {name : String} (hname : V name) :
    ctx'.inits name = ctx.inits name := by
  have hgist : ∀ c : Context, c.inits name =
      ((c.table.get? name).map Symbol.gist).elim [] fun s =>
        if s.isLocalOnly then [] else [.init (.var name) (s.variantInits == 0)] := by
    intro c
    unfold Context.inits
    cases c.table.get? name <;> rfl
  rw [hgist, hgist, h.symbols name hname]

/-- Cutting both states back to where they matched. -/
theorem rollback {c c' : Context} (h : ctx.Matches V ρ ctx') (hc : c.Matches V ρ c') :
    (c.rollback ctx.checkpoint).Matches V ρ (c'.rollback ctx'.checkpoint) := by
  refine { hc with headers := ?_, code := ?_ }
  · simp only [Context.rollback, Context.checkpoint, hc.headers, h.headers]
  · simp only [Context.rollback, Context.checkpoint, List.map_take, hc.code, h.length_code]

end Context.Matches

/-! ### Steps of an assignment -/

namespace Lower

variable {α : Type} {V : String → Prop} {ρ : String → String} {S : α → α → Prop}
  {dest : Symbol} {source source' : Source}

/-- What two results are known to satisfy on their own. -/
theorem Follows.and_of_ok {R : Context → Context → Prop} {x x' : Lower α} {P : α → Prop}
    (h : Follows R S x x') (hx : ∀ ctx a c, x ctx = .ok a c → P a)
    (hx' : ∀ ctx a c, x' ctx = .ok a c → P a) :
    Follows R (fun a b => S a b ∧ P a ∧ P b) x x' := by
  intro ctx ctx' hR
  obtain ⟨a, b, c, c', hrun, hrun', hab, hR⟩ | ⟨e, e', c, c', hrun, hrun', hfail⟩ := h.run hR
  · rw [hrun, hrun']
    exact ⟨⟨hab, hx _ _ _ hrun, hx' _ _ _ hrun'⟩, hR⟩
  · rw [hrun, hrun']
    exact hfail

/-- The options and the class are the same in both runs. -/
theorem get_matches {f f' : Context → Lower α}
    (hf : ∀ c c' : Context, c'.options = c.options → c'.classDef = c.classDef →
      Follows (Context.Matches V ρ) S (f c) (f' c')) :
    Follows (Context.Matches V ρ) S (get >>= f) (get >>= f') := by
  intro ctx ctx' h
  exact hf ctx ctx' h.options h.classDef ctx ctx' h

theorem emit_matches {i i' : Instr} (hi : i'.mapTemps ρ = i.mapTemps ρ) :
    Follows (Context.Matches V ρ) Eq (emit i) (emit i') :=
  fun _ _ h => ⟨rfl, h.emitting hi⟩

/-- A change of the table that keeps states matching. -/
theorem modifyTable_matches {f : SymbolTable → SymbolTable}
    (hf : ∀ ctx ctx' : Context, ctx.Matches V ρ ctx' →
      Context.Matches V ρ { ctx with table := f ctx.table } { ctx' with table := f ctx'.table }) :
    Follows (Context.Matches V ρ) Eq (modifyTable f) (modifyTable f) :=
  fun _ _ h => ⟨rfl, hf _ _ h⟩

theorem initBox_matches {name : String} (hname : V name) :
    Follows (Context.Matches V ρ) Eq (initBox name) (initBox name) := by
  intro ctx ctx' h
  have hone : ctx.inits name = [] ∨ ∃ first, ctx.inits name = [.init (.var name) first] := by
    unfold Context.inits
    split
    · exact .inl rfl
    split
    · exact .inl rfl
    · exact .inr ⟨_, rfl⟩
  rw [initBox_apply, initBox_apply, h.inits hname]
  obtain hnil | ⟨first, hinit⟩ := hone
  · rw [hnil, List.append_nil, List.append_nil]
    exact ⟨rfl, h⟩
  · rw [hinit]
    exact ⟨rfl, (h.countInit name).growStack.emitting rfl⟩

/-! ### Plain variables -/

theorem storeNative_matches (op : Operator) (shape : Shape) {value value' : Code}
    (h : value'.mapTemps ρ = value.mapTemps ρ) :
    Follows (Context.Matches V ρ) Eq (storeNative span dest op shape value)
      (storeNative span dest op shape value') := by
  unfold storeNative
  split
  · refine emit_matches ?_
    simp only [Instr.mapTemps, h]
  · exact .fail _ _ _

theorem writeString_matches (op : Operator) {x x' : Lower StringSource}
    (h : Follows (Context.Matches V ρ) (fun a b => b.mapTemps ρ = a.mapTemps ρ) x x') :
    Follows (Context.Matches V ρ) Eq (writeString dest op x) (writeString dest op x') := by
  refine .bind_eq (modifyTable_matches fun _ _ h => h.requireNull dest.name) fun _ => ?_
  refine .bind_eq (require_follows Context.Matches.tracks _) fun _ => ?_
  refine .bind h fun a b hab => emit_matches ?_
  simp only [Instr.mapTemps, hab]

theorem rebuild_matches (hdest : V dest.name) {content content' : BoxContent}
    (h : content'.mapTemps ρ = content.mapTemps ρ) :
    Follows (Context.Matches V ρ) Eq (rebuild dest content) (rebuild dest content') := by
  refine .bind_eq (initBox_matches hdest) fun _ => emit_matches ?_
  simp only [Instr.mapTemps, h]

theorem boxScalar_matches (hdest : V dest.name) (kind : BoxKind) (shape : Shape)
    {expr? : Option Expr} (h : source.Like V ρ source')
    (hreads : ∀ o, readsDestination o dest source' expr? = readsDestination o dest source expr?) :
    Follows (Context.Matches V ρ) Eq (boxScalar dest kind shape source expr?)
      (boxScalar dest kind shape source' expr?) := by
  refine get_matches fun c c' hoptions _ => ?_
  rw [hoptions, hreads]
  refine .ite (fun _ => ?_) fun _ => rebuild_matches hdest ?_
  · refine .bind (fillTemporary_follows Context.Matches.tracks _ fun p p' hp => ?_)
      fun p p' hp => rebuild_matches hdest ?_
    · simp only [Instr.mapTemps, hp, h.scalarCode]
    · simp only [BoxContent.mapTemps, Code.mapTemps, hp]
  · obtain ⟨hc, hc'⟩ | ⟨_, _, hc, hc', hcontent⟩ := option_cases_of_map_eq (h.boxContent? shape)
    · rw [hc, hc']
      simp only [Option.getD_none, BoxContent.mapTemps, h.code]
    · rw [hc, hc']
      exact hcontent

theorem boxSource_matches (hdest : V dest.name) (shape : Shape) (h : source.Like V ρ source') :
    Follows (Context.Matches V ρ) Eq (boxSource span dest shape source)
      (boxSource span dest shape source') := by
  unfold boxSource
  obtain ⟨hc, hc'⟩ | ⟨_, _, hc, hc', hcontent⟩ := option_cases_of_map_eq (h.boxContent? shape)
  · rw [hc, hc']
    exact .fail _ _ _
  · rw [hc, hc']
    exact rebuild_matches hdest hcontent

theorem copyBox_matches (h : source.Like V ρ source') :
    Follows (Context.Matches V ρ) Eq (copyBox dest source) (copyBox dest source') := by
  unfold copyBox
  rw [h.name]
  refine .ite (fun _ => .pure rfl) fun _ => ?_
  refine .bind_eq (modifyTable_matches fun _ _ h => (h.requireNull dest.name).growStack)
    fun _ => emit_matches ?_
  simp only [Instr.mapTemps, h.code]

theorem updateInPlace_matches (op : Operator) (h : source.Like V ρ source') :
    Follows (Context.Matches V ρ) Eq (updateInPlace dest op source)
      (updateInPlace dest op source') := by
  refine .bind_eq (require_follows Context.Matches.tracks _) fun _ => ?_
  refine .bind_eq (modifyTable_matches fun _ _ h => h.growStack) fun _ => emit_matches ?_
  simp only [Instr.mapTemps, h.code]

theorem carryOut_matches (strategy : Strategy) (hdest : V dest.name) (op : Operator)
    (shape : Shape) {expr? : Option Expr} (h : source.Like V ρ source')
    (hreads : ∀ o, readsDestination o dest source' expr? = readsDestination o dest source expr?) :
    Follows (Context.Matches V ρ) Eq (carryOut span strategy dest op shape source expr?)
      (carryOut span strategy dest op shape source' expr?) := by
  have hrequire : Follows (Context.Matches V ρ) Eq (require .operators) (require .operators) :=
    require_follows Context.Matches.tracks _
  cases strategy with
  | nativeZero => exact storeNative_matches op shape rfl
  | nativeDirect => exact storeNative_matches op shape h.code
  | nativeCast kind =>
      refine storeNative_matches op shape ?_
      simp only [Code.mapTemps, h.code]
  | nativeBoolean => exact storeNative_matches op shape h.truth
  | boolTernary =>
      refine storeNative_matches op shape ?_
      simp only [Code.mapTemps, h.code]
  | numberCoerce | boolCoerce =>
      refine .bind_eq hrequire fun _ => storeNative_matches op shape ?_
      simp only [Code.mapTemps, h.code]
  | stringLiteral =>
      refine writeString_matches op (.pure ?_)
      rw [h.type]
      split
      · rfl
      · simp only [StringSource.mapTemps, h.code]
  | stringBuffer | stringChar | stringLong =>
      refine writeString_matches op (.pure ?_)
      simp only [StringSource.mapTemps, h.code]
  | stringCoerceLong =>
      refine writeString_matches op (.bind_eq hrequire fun _ => .pure ?_)
      simp only [StringSource.mapTemps, Code.mapTemps, h.code]
  | boxValue kind => exact boxScalar_matches hdest kind shape h hreads
  | boxNull | boxBinding _ | boxString | boxStringBuffer | boxEmptyArray =>
      exact boxSource_matches hdest shape h
  | boxCopy => exact copyBox_matches h
  | boxArithmetic => exact updateInPlace_matches op h

theorem assignWhole_matches (hdest : V dest.name) (op : Operator) {expr? : Option Expr}
    (h : source.Like V ρ source')
    (hreads : ∀ o, readsDestination o dest source' expr? = readsDestination o dest source expr?) :
    Follows (Context.Matches V ρ) Eq (assignWhole span dest op source expr?)
      (assignWhole span dest op source' expr?) := by
  refine .ite (fun _ => .fail _ _ _) fun _ => ?_
  split
  · exact .fail _ _ _
  · refine .bind_eq (shape_follows Context.Matches.tracks h) fun shape => ?_
    split
    · exact .fail _ _ _
    · exact carryOut_matches _ hdest op shape h hreads

/-! ### Parts of a box -/

theorem checkAssign_matches (op : Operator) (h : source.Like V ρ source') :
    Follows (Context.Matches V ρ) Eq (checkAssign span dest op source)
      (checkAssign span dest op source') := by
  unfold checkAssign
  rw [h.type]
  exact .ite (fun _ => .pure rfl) fun _ => .fail _ _ _

theorem checkHeapBox_matches :
    Follows (Context.Matches V ρ) Eq (checkHeapBox span dest) (checkHeapBox span dest) :=
  .ite (fun _ => .pure rfl) fun _ => .fail _ _ _

theorem checkObject_matches :
    Follows (Context.Matches V ρ) Eq (checkObject span dest) (checkObject span dest) :=
  .ite (fun _ => .pure rfl) fun _ => .fail _ _ _

theorem checkProperty_matches (property : String) :
    Follows (Context.Matches V ρ) Eq (checkProperty span dest property)
      (checkProperty span dest property) := by
  refine get_matches fun c c' hoptions hclass => ?_
  rw [hoptions, hclass]
  refine .ite (fun _ => ?_) fun _ => .pure rfl
  split
  · exact .fail _ _ _
  · exact .ite (fun _ => .pure rfl) fun _ => .fail _ _ _

theorem boxedSource_matches (use : ValueUse) (h : source.Like V ρ source') :
    Follows (Context.Matches V ρ) (fun c c' => c'.mapTemps ρ = c.mapTemps ρ)
      (boxedSource span source use) (boxedSource span source' use) := by
  refine .bind_eq (shape_follows Context.Matches.tracks h) fun shape => ?_
  exact .ite (fun _ => .pure h.code) fun _ => .fail _ _ _

theorem updateKey_matches {index : Expr} (hV : ∀ x, index.mentions x = true → V x) :
    Follows (Context.Matches V ρ) (fun k k' => k'.mapTemps ρ = k.mapTemps ρ) (updateKey span index)
      (updateKey span index) := by
  refine .bind (resolve_follows Context.Matches.tracks index hV) fun i i' h => ?_
  refine .bind_eq (shape_follows Context.Matches.tracks h) fun shape => ?_
  obtain ⟨hk, hk'⟩ | ⟨_, _, hk, hk', hkey⟩ := option_cases_of_map_eq (h.key shape)
  · rw [hk, hk']
    exact .fail _ _ _
  · rw [hk, hk']
    exact .pure hkey

theorem propertyKey_matches {index : Expr} (hV : ∀ x, index.mentions x = true → V x) :
    Follows (Context.Matches V ρ) (fun c c' => c'.mapTemps ρ = c.mapTemps ρ)
      (propertyKey span index)
      (propertyKey span index) := by
  refine .bind (resolve_follows Context.Matches.tracks index hV) fun i i' h => ?_
  refine .bind_eq (shape_follows Context.Matches.tracks h) fun shape => ?_
  exact .ite (fun _ => .pure h.code) fun _ => .fail _ _ _

/-- Asking for a header and emitting an instruction, which is how every part is written. -/
theorem require_emit_matches (header : Header) {i i' : Instr}
    (hi : i'.mapTemps ρ = i.mapTemps ρ) :
    Follows (Context.Matches V ρ) Eq (require header >>= fun _ => emit i)
      (require header >>= fun _ => emit i') :=
  .bind_eq (require_follows Context.Matches.tracks _) fun _ => emit_matches hi

theorem assignAppend_matches (op : Operator) (h : source.Like V ρ source') :
    Follows (Context.Matches V ρ) Eq (assignAppend span dest op source)
      (assignAppend span dest op source') := by
  refine .bind_eq (checkAssign_matches op h) fun _ => .bind_eq checkHeapBox_matches fun _ => ?_
  refine .bind (materialize_follows Context.Matches.tracks h) fun v v' hv => ?_
  refine require_emit_matches .array ?_
  simp only [Instr.mapTemps, hv]

theorem assignElement_matches (op : Operator) {index : Expr}
    (hV : ∀ x, index.mentions x = true → V x) (h : source.Like V ρ source') :
    Follows (Context.Matches V ρ) Eq (assignElement span dest op index source)
      (assignElement span dest op index source') := by
  refine .bind_eq (checkAssign_matches op h) fun _ => .bind_eq checkHeapBox_matches fun _ => ?_
  refine .bind (updateKey_matches hV) fun k k' hk => ?_
  refine .bind (materialize_follows Context.Matches.tracks h) fun v v' hv => ?_
  refine require_emit_matches .array ?_
  simp only [Instr.mapTemps, hk, hv]

theorem assignProperty_matches (op : Operator) (property : String) (h : source.Like V ρ source') :
    Follows (Context.Matches V ρ) Eq (assignProperty span dest op property source)
      (assignProperty span dest op property source') := by
  refine .bind_eq (checkAssign_matches op h) fun _ => .bind_eq checkHeapBox_matches fun _ => ?_
  refine .bind_eq (checkProperty_matches property) fun _ => ?_
  refine .bind (materialize_follows Context.Matches.tracks h) fun v v' hv => ?_
  refine require_emit_matches .object ?_
  simp only [Instr.mapTemps, hv]

theorem appendProperty_matches (op : Operator) (property : String) (h : source.Like V ρ source') :
    Follows (Context.Matches V ρ) Eq (appendProperty span dest op property source)
      (appendProperty span dest op property source') := by
  refine .bind_eq (checkAssign_matches op h) fun _ => .bind_eq checkObject_matches fun _ => ?_
  refine .bind (boxedSource_matches _ h) fun v v' hv => ?_
  refine require_emit_matches .object ?_
  simp only [Instr.mapTemps, hv]

theorem assignPropertyElement_matches (op : Operator) (property : String) {index : Expr}
    (hV : ∀ x, index.mentions x = true → V x) (h : source.Like V ρ source') :
    Follows (Context.Matches V ρ) Eq (assignPropertyElement span dest op property index source)
      (assignPropertyElement span dest op property index source') := by
  refine .bind_eq (checkAssign_matches op h) fun _ => .bind_eq checkObject_matches fun _ => ?_
  refine .bind (propertyKey_matches hV) fun k k' hk => ?_
  refine .bind (boxedSource_matches _ h) fun v v' hv => ?_
  refine require_emit_matches .object ?_
  simp only [Instr.mapTemps, hk, hv]

/-! ### Whole assignments -/

theorem stepDestination_matches (direction : Step) (op : Operator) :
    Follows (Context.Matches V ρ) Eq (stepDestination span dest direction op)
      (stepDestination span dest direction op) := by
  unfold stepDestination
  dsimp only
  split
  · exact .fail _ _ _
  · exact emit_matches rfl
  · exact emit_matches rfl
  · exact .fail _ _ _
  · exact .fail _ _ _
  · refine .bind_eq (require_follows Context.Matches.tracks _) fun _ => ?_
    refine .ite (fun _ => emit_matches rfl) fun _ => ?_
    exact .bind_eq (emit_matches rfl) fun _ => emit_matches rfl

theorem assignStep_matches (op : Operator) :
    Follows (Context.Matches V ρ) Eq (assignStep span dest op) (assignStep span dest op) := by
  refine .ite (fun _ => .fail _ _ _) fun _ => ?_
  split
  · exact stepDestination_matches _ _
  · exact stepDestination_matches _ _
  · exact .fail _ _ _

theorem writeSymbol_matches {name : String} (hname : V name) :
    Follows (Context.Matches V ρ) (fun d d' => d'.gist = d.gist ∧ d.name = name)
      (writeSymbol span name) (writeSymbol span name) := by
  intro ctx ctx' h
  replace h : (ctx.counting name).Matches V ρ (ctx'.counting name) := h.countWrite name
  cases hget : (ctx.counting name).table.get? name with
  | none =>
      have hget' : (ctx'.counting name).table.get? name = none := by
        rw [SymbolTable.get?_eq_none_iff, h.mem_names_iff hname]
        exact SymbolTable.get?_eq_none_iff.mp hget
      rw [writeSymbol_undeclared hget, writeSymbol_undeclared hget']
      exact ⟨rfl, h⟩
  | some d =>
      obtain ⟨d', hget', hgist⟩ := h.get? hname hget
      rw [writeSymbol_apply hget, writeSymbol_apply hget']
      exact ⟨⟨hgist, SymbolTable.name_of_get? hget⟩, h⟩

/-! What follows the lookup of the destination looks at its gist only. -/

theorem assignStep_gist (dest : Symbol) (op : Operator) :
    assignStep span dest.gist op = assignStep span dest op := rfl

theorem assignSource_gist (dest : Symbol) (a : Assignment) (e : Expr) (source : Source) :
    assignSource dest.gist a e source = assignSource dest a e source := rfl

section Assignment

variable {a : Assignment} (hV : ∀ x, x = a.destination ∨ a.Reads x → V x)
include hV

theorem checkedDestination_matches :
    Follows (Context.Matches V ρ) (fun d d' => d'.gist = d.gist ∧ d.name = a.destination)
      (checkedDestination a) (checkedDestination a) := by
  refine .bind (writeSymbol_matches (hV _ (.inl rfl))) fun d d' hd => ?_
  obtain ⟨hname, htype, hreadOnly⟩ := Symbol.fields_of_gist hd.1
  rw [hname, htype, hreadOnly]
  refine .ite (fun _ => .fail _ _ _) fun _ => get_matches fun c c' hoptions _ => ?_
  rw [hoptions]
  refine .ite (fun _ => .fail _ _ _) fun _ => ?_
  exact .ite (fun _ => .fail _ _ _) fun _ => .pure hd

theorem assignSource_matches {e : Expr} (hdest : V dest.name) (h : source.Like V ρ source')
    (hreads : ∀ o,
      readsDestination o dest source' (some e) = readsDestination o dest source (some e)) :
    Follows (Context.Matches V ρ) Eq (assignSource dest a e source)
      (assignSource dest a e source') := by
  have hindex : ∀ i, a.target.index? = some i → ∀ x, i.mentions x = true → V x :=
    fun i hi x hx => hV x (.inr (.inr ⟨i, hi, hx⟩))
  unfold assignSource
  split
  · exact assignWhole_matches hdest _ h hreads
  · exact assignAppend_matches _ h
  · rename_i i htarget
    exact assignElement_matches _ (hindex i (by rw [htarget]; rfl)) h
  · exact assignProperty_matches _ _ h
  · exact appendProperty_matches _ _ h
  · rename_i i htarget
    exact assignPropertyElement_matches _ _ (hindex i (by rw [htarget]; rfl)) h

/-- **An assignment keeps states matching**, on both outcomes. -/
theorem assignment_matches :
    Follows (Context.Matches V ρ) Eq (assignment a) (assignment a) := by
  refine .bind (checkedDestination_matches hV) fun dest dest' ⟨hgist, hdest⟩ => ?_
  obtain ⟨hname, htype, -⟩ := Symbol.fields_of_gist hgist
  have hstep : ∀ op, assignStep a.span dest' op = assignStep a.span dest op := fun op => by
    rw [← assignStep_gist dest', hgist, assignStep_gist]
  have hassign : ∀ e source, assignSource dest' a e source = assignSource dest a e source :=
    fun e source => by rw [← assignSource_gist dest', hgist, assignSource_gist]
  simp only [hname, htype, hstep, hassign]
  refine .ite (fun _ => ?_) fun _ => ?_
  · split
    · refine .bind_eq (modifyTable_matches fun _ _ h => h.markInitialized _) fun _ => ?_
      exact assignStep_matches _
    · exact .fail _ _ _
  split
  · exact .fail _ _ _
  · rename_i e hsource
    have hreads : ∀ ctx (s : Source) c, resolve a.span e ctx = .ok s c →
        ∀ o, readsDestination o dest s (some e) = e.mentions dest.name :=
      fun ctx s c hrun o => readsDestination_eq hrun rfl
    have hresolve : Follows (Context.Matches V ρ) (Source.Like V ρ) (resolve a.span e)
        (resolve a.span e) :=
      resolve_follows Context.Matches.tracks e fun x hx => hV x (.inr (.inl ⟨e, hsource, hx⟩))
    refine .bind (hresolve.and_of_ok hreads hreads) fun s s' ⟨hlike, hs, hs'⟩ => ?_
    refine .bind_eq (modifyTable_matches fun _ _ h => h.markInitialized _) fun _ => ?_
    exact assignSource_matches hV (hV _ (.inl hdest)) hlike fun o => (hs' o).trans (hs o).symm

end Assignment

end Lower

/-! ### Calls -/

namespace Context

/-- How a call ends: the error that it returns, if any. -/
def verdict (ctx : Context) (a : Assignment) : Except LowerError Unit :=
  match lowerAssignment a ctx with
  | .ok _ _ => .ok ()
  | .error e _ => .error e

variable {V : String → Prop} {ρ : String → String} {ctx ctx' : Context} {a : Assignment}

/-- **An assignment ends alike in states that match**, and leaves states that match. -/
theorem Matches.lowers (h : ctx.Matches V ρ ctx')
    (hV : ∀ x, x = a.destination ∨ a.Reads x → V x) :
    (∃ c c', lowerAssignment a ctx = .ok () c ∧ lowerAssignment a ctx' = .ok () c' ∧
      c.Matches V ρ c') ∨
    ∃ e c c', lowerAssignment a ctx = .error e c ∧ lowerAssignment a ctx' = .error e c' ∧
      c.Matches V ρ c' := by
  rw [lowerAssignment_apply, lowerAssignment_apply]
  obtain ⟨_, _, c, c', hrun, hrun', -, hc⟩ | ⟨e, e', c, c', hrun, hrun', hcause, hc⟩ :=
    (Lower.assignment_matches hV).run h
  · rw [hrun, hrun']
    exact .inl ⟨c, c', rfl, rfl, hc⟩
  · -- the errors have the same cause, and both are located at the assignment
    have hlocation := (Lower.assignment_fails a ctx hrun).1
    have hlocation' := (Lower.assignment_fails a ctx' hrun').1
    obtain rfl : e' = e := LowerError.ext hcause (hlocation'.trans hlocation.symm)
    rw [hrun, hrun']
    exact .inr ⟨_, _, _, rfl, rfl, h.rollback hc⟩

theorem Matches.call (h : ctx.Matches V ρ ctx') (hV : ∀ x, x = a.destination ∨ a.Reads x → V x) :
    ctx'.verdict a = ctx.verdict a ∧ (ctx.attempt a).Matches V ρ (ctx'.attempt a) := by
  obtain ⟨c, c', hrun, hrun', hc⟩ | ⟨e, c, c', hrun, hrun', hc⟩ := h.lowers hV
  · rw [attempt_of_ok hrun, attempt_of_ok hrun', verdict, verdict, hrun, hrun']
    exact ⟨rfl, hc⟩
  · rw [attempt_of_error hrun, attempt_of_error hrun', verdict, verdict, hrun, hrun']
    exact ⟨rfl, hc⟩

end Context

end BoxedLet
