import BoxedLet.Proofs.Agree
import BoxedLet.Proofs.Course

/-!
# BoxedLet.Proofs.Hazard

**A box is never cleared while its source still reads it.** Boxing a computed native scalar into a
variable that the source mentions goes through a fresh native temporary, filled before the box is
initialized; a source that does not mention the variable is written directly.

The check for this takes a shortcut for truth values that are spelled out, by their text. It is
sound because the text of every computed truth value has a parenthesis in it
(`Code.paren_mem_render`), so that only a literal is ever taken for one.
-/

namespace BoxedLet

variable {span : Span}

/-! ### Truth values that are spelled out -/

namespace Code

/-- The text of a computed truth value has a parenthesis in it. -/
theorem paren_mem_render {c : Code} (h : c.IsTest) (o : Options) : '(' ∈ (c.render o).toList := by
  cases c with
  | binary op l r => simp [render]
  | not c => simp [render]
  | compare op l r =>
      simp only [render, invocation]
      split <;> simp
  | _ => exact h.elim

end Code

/-- Only a literal is taken for a spelled-out truth value. -/
theorem literal_of_literalBool? {e : Expr} {ctx ctx' : Context} {s : Source} {o : Options}
    {value : Bool} (hrun : Lower.resolve span e ctx = .ok s ctx')
    (hs : s.literalBool? o = some value) :
    ∃ b, e = .bool b := by
  unfold Source.literalBool? at hs
  split at hs
  · rename_i hbool
    obtain hlit | ⟨x, rfl⟩ | hcomputed := Lower.resolve_computed e
    · exact hlit
    · obtain rfl := (Lower.resolve_var hrun).1
      exact absurd hbool.1 nofun
    -- neither of the two words has a parenthesis
    have hparen := Code.paren_mem_render ((hcomputed ctx s ctx' hrun).2 hbool.1) o
    exfalso
    dsimp only at hs
    split at hs
    · rename_i htext
      rw [htext] at hparen
      exact absurd hparen (by decide)
    split at hs
    · rename_i htext
      rw [htext] at hparen
      exact absurd hparen (by decide)
    · exact absurd hs (by simp)
  · exact absurd hs (by simp)

/-! ### Boxing a native value -/

namespace Lower

variable {dest : Symbol} {kind : BoxKind} {shape : Shape} {source : Source} {ctx : Context}

/-- The two ways of boxing a computed scalar. -/
theorem boxScalar_apply (expr? : Option Expr) :
    boxScalar dest kind shape source expr? ctx =
      if readsDestination ctx.options dest source expr? then
        rebuild dest (.scalar kind (.place (.temp ctx.table.nextName)))
          (ctx.filling shape.type
            (.store (.temp ctx.table.nextName) .set (source.scalarCode kind)))
      else rebuild dest ((boxContent? shape source).getD (.scalar kind source.code)) ctx := by
  simp only [boxScalar, bind_apply, get_apply]
  split
  · simp only [bind_apply, fillTemporary_apply]
  · rfl

/-- A native value is assigned to a box by boxing it. -/
theorem assignWhole_native (hwritable : dest.readOnly = false) (hdyn : dest.type = .dynamic)
    (hnative : source.type ∈ [StaticType.int, .char, .double, .bool])
    (hkind : BoxKind.ofType? source.type = some kind) (expr? : Option Expr) :
    assignWhole span dest .assign source expr? ctx =
      boxScalar dest kind (.value source.type) source expr? ctx := by
  have hshape : source.shape span ctx = .ok (.value source.type) ctx := by
    have hne : source.type ≠ .dynamic := by
      intro h
      rw [h] at hnative
      exact absurd hnative (by decide)
    simp only [Source.shape, if_neg hne, pure_apply]
  have hselect : Strategy.select? .dynamic (.value source.type) .assign =
      some (.boxValue kind) := by
    have hmap : Strategy.select? .dynamic (.value source.type) .assign =
        (BoxKind.ofType? source.type).map .boxValue := by
      revert hnative
      cases source.type <;> decide
    rw [hmap, hkind]
    rfl
  simp only [assignWhole, hwritable, Bool.false_eq_true, if_false, hdyn, StaticType.family?,
    bind_apply, hshape, hselect]
  rfl

end Lower

/-- A native value has a kind of box, and goes into it by its code as a truth value if it is
one. -/
theorem native_boxContent {s : Source} (h : s.type ∈ [StaticType.int, .char, .double, .bool]) :
    ∃ kind, BoxKind.ofType? s.type = some kind ∧
      boxContent? (.value s.type) s = some (.scalar kind (s.scalarCode kind)) ∧
      s.scalarCode kind = (if s.type = .bool then s.truth else s.code) ∧
      kind.constructor =
        match s.type with
        | .double => "ZVAL_DOUBLE"
        | .bool => "ZVAL_BOOL"
        | _ => "ZVAL_LONG" := by
  obtain ⟨type, code, truth, name?⟩ := s
  simp only [List.mem_cons, List.not_mem_nil, or_false] at h
  rcases h with rfl | rfl | rfl | rfl <;> exact ⟨_, rfl, rfl, rfl, rfl⟩

/-- Native temporaries live in the frame. -/
theorem storage_ofTemporary {t : StaticType} {name : String}
    (h : t ∈ [StaticType.int, .char, .double, .bool]) :
    (Symbol.ofTemporary name t).storage = .stackOnly := by
  simp only [List.mem_cons, List.not_mem_nil, or_false] at h
  rcases h with rfl | rfl | rfl | rfl <;> rfl

/-! ### The lines -/

section Text

variable (o : Options) (p : Place) (c : Code)

/-- The line of a statement without its semicolon. -/
def statementLine (o : Options) (text : String) : String :=
  repeated o.indent o.indentLevel.toNat ++ (text ++ ";")

theorem line_store :
    (Instr.store p .set c).line o = statementLine o (p.render o ++ " = " ++ c.render o) := by
  have hspaced : p.render o ++ " " ++ "=" ++ " " ++ c.render o =
      p.render o ++ (" " ++ "=" ++ " ") ++ c.render o := by simp only [String.append_assoc]
  simp only [Instr.line, Instr.render, Instr.body, NativeOp.token, hspaced, statementLine]
  rfl

theorem line_init (first : Bool) :
    (Instr.init p first).line o = statementLine o
      (o.kernelMacro (if first then "INIT_VAR" else "INIT_NVAR") ++ "(" ++ p.render o ++ ")") := rfl

theorem line_build (inFrame : Bool) (kind : BoxKind) :
    (Instr.build p inFrame (.scalar kind c)).line o = statementLine o
      (kind.constructor ++ "(" ++ (p.boxOperand o inFrame ++ ", " ++ c.render o) ++ ")") := rfl

end Text

/-! ### Safety -/

section Safety

variable {x : String} {d : Symbol} {e : Expr} {ctx ctx₁ : Context} {src : Source}

/-- A plain assignment of a native value comes to boxing it, in a state that agrees with the one
after lowering the source on its own. -/
theorem assignment_native (span : Span) {span' : Span} (hx : ctx.table.get? x = some d)
    (hwritable : d.readOnly = false) (hdyn : d.type = .dynamic)
    (hreceiver : ctx.options.isReceiver x = false) (hsrc : Lower.resolve span' e ctx = .ok src ctx₁)
    (hnative : src.type ∈ [StaticType.int, .char, .double, .bool]) {kind : BoxKind}
    (hkind : BoxKind.ofType? src.type = some kind) :
    ∃ (dest s : Symbol) (ready : Context),
      Lower.assignment ⟨.whole, x, .assign, some e, span⟩ ctx =
        Lower.boxScalar dest kind (.value src.type) src (some e) ready ∧
      dest.name = x ∧ dest.storage = d.storage ∧ ctx₁.Agrees ready ∧
      ready.table.get? x = some s ∧ s.storage = d.storage ∧ s.variantInits = d.variantInits := by
  let a : Assignment := ⟨.whole, x, .assign, some e, span⟩
  let dest : Symbol := { d with mutationCount := d.mutationCount + 1 }
  have hdname : d.name = x := SymbolTable.name_of_get? hx
  have hname : dest.name = x := hdname
  have hget : (ctx.counting x).table.get? x = some dest :=
    SymbolTable.get?_modify_self (fun _ => rfl) hx
  have hcheck : Lower.checkedDestination a ctx = .ok dest (ctx.counting x) := by
    rw [Lower.checkedDestination_apply hget]
    simp [dest, a, hwritable, hdyn, hdname, hreceiver, StaticType.isPseudo]
  -- the count is all that differs when the source is lowered here, and lowering never reads it
  have hagrees : ctx.Agrees (ctx.counting x) :=
    (Context.Agrees.refl ctx).modify x fun _ => ⟨rfl, rfl⟩
  obtain ⟨lowered, hresolve, hlowered⟩ := (Lower.resolve_blind e).run_ok hagrees hsrc span
  have hkept : lowered.table.get? x = some dest :=
    ((Lower.resolve_grows hresolve).get? (SymbolTable.mem_names_of_get? hget)).trans hget
  refine ⟨dest, { dest with initialized := true }, lowered.marking x, ?_, hname, rfl,
    hlowered.modify x fun _ => ⟨rfl, rfl⟩, SymbolTable.get?_modify_self (fun _ => rfl) hkept, rfl,
    rfl⟩
  rw [Lower.assignment_of_source hcheck rfl rfl hresolve, hname]
  exact Lower.assignWhole_native hwritable hdyn hnative hkind (some e)

/-- The shortcut for literals does not matter: the temporary is used exactly if the source mentions
the destination. -/
theorem readsDestination_eq {dest : Symbol} {o : Options}
    (hsrc : Lower.resolve span e ctx = .ok src ctx₁) (hname : dest.name = x) :
    Lower.readsDestination o dest src (some e) = e.mentions x := by
  cases hlit : src.literalBool? o with
  | none => simp [Lower.readsDestination, hlit, hname]
  | some value =>
      obtain ⟨b, rfl⟩ := literal_of_literalBool? hsrc hlit
      simp [Lower.readsDestination, Expr.mentions]

/-- The lines that rebuild the box of a variable from a native value. -/
def rebuildLines (o : Options) (x : String) (d : Symbol) (constructor value : String) :
    List String :=
  let init := if d.variantInits = 0 then "INIT_VAR" else "INIT_NVAR"
  if d.storage = .heapBoxed then
    [statementLine o (o.kernelMacro init ++ "(" ++ x ++ ")"),
      statementLine o (constructor ++ "(" ++ (x ++ ", " ++ value) ++ ")")]
  else [statementLine o (constructor ++ "(" ++ ("&" ++ x ++ ", " ++ value) ++ ")")]

/-- Rebuilding a box emits these lines and adds no symbol. -/
theorem rebuild_lines (base : Context) (kind : BoxKind) (value : Code) {dest s : Symbol}
    (hname : dest.name = x) (hstorage : dest.storage = d.storage)
    (hreceiver : base.options.isReceiver x = false) (hget : base.table.get? x = some s)
    (hs : s.storage = d.storage) (hinits : s.variantInits = d.variantInits) :
    ∃ ctx', Lower.rebuild dest (.scalar kind value) base = .ok () ctx' ∧
      ctx'.table.names = base.table.names ∧
      (∀ n, n ≠ x → ctx'.table.get? n = base.table.get? n) ∧
      ctx'.lines = base.lines ++
        rebuildLines base.options x d kind.constructor (value.render base.options) := by
  subst hname
  have hinit : base.inits dest.name =
      if d.storage = .heapBoxed then [.init (.var dest.name) (d.variantInits == 0)] else [] := by
    simp only [Context.inits, hget, Symbol.isLocalOnly, hs, hinits]
    cases d.storage <;> rfl
  have hrender : (Place.var dest.name).render base.options = dest.name := by
    simp [Place.render, Options.renderName, hreceiver]
  refine ⟨_, Lower.rebuild_apply dest _ base, Instr.names_foldl_book _ _, ?_, ?_⟩
  · intro n hn
    rw [hinit]
    split
    · exact SymbolTable.get?_modify_of_ne (fun _ => rfl) hn
    · rfl
  · rw [Context.lines_eq, Context.lines_eq, List.map_append, hinit]
    cases hd : d.storage with
    | heapBoxed =>
        have hlocal : dest.isLocalOnly = false := by rw [Symbol.isLocalOnly, hstorage, hd]; rfl
        simp [rebuildLines, hd, hlocal, line_init, line_build, Place.boxOperand, hrender]
    | stackOnly =>
        have hlocal : dest.isLocalOnly = true := by rw [Symbol.isLocalOnly, hstorage, hd]; rfl
        simp [rebuildLines, hd, hlocal, line_build, Place.boxOperand, Place.reference, hrender]

/-- Rebuilding a box by way of a new temporary, which is filled before the box is touched. -/
theorem fill_rebuild_lines (base : Context) (type : StaticType) (kind : BoxKind) (value : Code)
    {dest s : Symbol} (hname : dest.name = x) (hstorage : dest.storage = d.storage)
    (hreceiver : base.options.isReceiver x = false) (hget : base.table.get? x = some s)
    (hs : s.storage = d.storage) (hinits : s.variantInits = d.variantInits) :
    let t := base.table.nextName
    ∃ ctx', Lower.rebuild dest (.scalar kind (.place (.temp t)))
        (base.filling type (.store (.temp t) .set value)) = .ok () ctx' ∧
      ctx'.table.names = base.table.names ++ [t] ∧
      ctx'.table.get? t = some (.ofTemporary t type) ∧
      ctx'.lines = base.lines ++
        statementLine base.options (t ++ " = " ++ value.render base.options) ::
          rebuildLines base.options x d kind.constructor t := by
  intro t
  let filled := base.filling type (.store (.temp t) .set value)
  have hmem : x ∈ base.table.names := SymbolTable.mem_names_of_get? hget
  have hfilled : filled.table.get? x = some s :=
    (SymbolTable.get?_append (base.table.newTemporary_symbols type) hmem).trans hget
  have hcode : filled.code = base.code ++ [.store (.temp t) .set value] := rfl
  obtain ⟨ctx', hrebuild, hnames, hother, hlines⟩ :=
    rebuild_lines filled kind (.place (.temp t)) hname hstorage hreceiver hfilled hs hinits
  refine ⟨ctx', hrebuild, hnames.trans (base.table.newTemporary_names type), ?_, ?_⟩
  · have hfresh : t ∉ base.table.names := base.table.nextName_not_mem_names
    rw [hother t fun h => hfresh (h ▸ hmem)]
    exact base.table.get?_nextName type
  · rw [hlines, Context.lines_of_code_append hcode rfl, List.append_assoc, List.map_singleton,
      line_store]
    rfl

/-- **A box is never cleared while its source still reads it.** If the source mentions the variable,
it is evaluated into a fresh native temporary before the box is rebuilt from that; if not, the box
is rebuilt from the source itself. What is taken for a literal mentions nothing. -/
theorem boxing_is_hazard_free (span : Span) {span' : Span} (hx : ctx.table.get? x = some d)
    (hwritable : d.readOnly = false) (hdyn : d.type = .dynamic)
    (hreceiver : ctx.options.isReceiver x = false) (hsrc : Lower.resolve span' e ctx = .ok src ctx₁)
    (hnative : src.type ∈ [StaticType.int, .char, .double, .bool]) :
    let o := ctx.options
    let value := (if src.type = .bool then src.truth else src.code).render o
    let constructor :=
      match src.type with
      | .double => "ZVAL_DOUBLE"
      | .bool => "ZVAL_BOOL"
      | _ => "ZVAL_LONG"
    (∃ ctx', lowerAssignment ⟨.whole, x, .assign, some e, span⟩ ctx = .ok () ctx' ∧
      (e.mentions x = true → ∃ t s, t ∉ ctx₁.table.names ∧
        ctx'.table.names = ctx₁.table.names ++ [t] ∧ ctx'.table.get? t = some s ∧
        s.temporary = true ∧ s.storage = .stackOnly ∧ s.type = src.type ∧
        ctx'.lines = ctx₁.lines ++ statementLine o (t ++ " = " ++ value) ::
          rebuildLines o x d constructor t) ∧
      (e.mentions x = false → ctx'.table.names = ctx₁.table.names ∧
        ctx'.lines = ctx₁.lines ++ rebuildLines o x d constructor value)) ∧
    (src.literalBool? o ≠ none → ∀ y, e.mentions y = false) := by
  intro o value constructor
  obtain ⟨kind, hkind, hcontent, hcode, hconstructor⟩ := native_boxContent hnative
  obtain ⟨dest, s, ready, hrun, hname, hstorage, hagrees, hget, hs, hinits⟩ :=
    assignment_native span hx hwritable hdyn hreceiver hsrc hnative hkind
  have hoptions : ready.options = o := hagrees.options.trans (Lower.resolve_grows hsrc).options
  have hreceiver : ready.options.isReceiver x = false := hoptions ▸ hreceiver
  have hreads : Lower.readsDestination ready.options dest src (some e) = e.mentions x :=
    readsDestination_eq hsrc hname
  have hvalue : (src.scalarCode kind).render o = value := by rw [hcode]
  rw [Lower.boxScalar_apply, hreads, hcontent, Option.getD_some] at hrun
  refine ⟨?_, ?_⟩
  · cases hmentions : e.mentions x with
    | true =>
        -- the source is evaluated into a temporary first
        rw [hmentions, if_pos rfl] at hrun
        obtain ⟨ctx', hrebuild, hnames, htemp, hlines⟩ := fill_rebuild_lines ready src.type kind
          (src.scalarCode kind) hname hstorage hreceiver hget hs hinits
        have hfresh := ready.table.nextName_not_mem_names
        rw [hagrees.names] at hnames hfresh
        rw [hagrees.lines, hoptions, hvalue, hconstructor] at hlines
        refine ⟨ctx', lowerAssignment_ok (hrun.trans hrebuild), fun _ => ?_, nofun⟩
        exact ⟨_, _, hfresh, hnames, htemp, rfl, storage_ofTemporary hnative, rfl, hlines⟩
    | false =>
        rw [hmentions, if_neg Bool.false_ne_true] at hrun
        obtain ⟨ctx', hrebuild, hnames, -, hlines⟩ :=
          rebuild_lines ready kind (src.scalarCode kind) hname hstorage hreceiver hget hs hinits
        refine ⟨ctx', lowerAssignment_ok (hrun.trans hrebuild), nofun, fun _ => ?_⟩
        refine ⟨hnames.trans hagrees.names, ?_⟩
        rw [hlines, hagrees.lines, hoptions, hvalue, hconstructor]
  · intro hlit y
    obtain ⟨b, hb⟩ := Option.ne_none_iff_exists'.mp hlit
    obtain ⟨b, rfl⟩ := literal_of_literalBool? hsrc hb
    rfl

end Safety

/-- `x = (x == 1)` for a boxed `x`: the comparison of boxes is evaluated before `x` is cleared. -/
theorem boxing_is_hazard_free_comparison :
    let d : Symbol := { name := "x", type := .dynamic, storage := .heapBoxed }
    let ctx : Context := { table.symbols := [d] }
    let e : Expr := .binary (.compare .equals) (.var "x") (.int 1)
    ∃ ctx' t, lowerAssignment ⟨.whole, "x", .assign, some e, {}⟩ ctx = .ok () ctx' ∧
      ctx'.table.names = ["x", "_0", t] ∧
      ctx'.lines = "ZVAL_LONG(_0, 1);" ::
        statementLine {} (t ++ " = " ++ "ZEPHIR_IS_EQUAL(x, _0)") ::
          rebuildLines {} "x" d "ZVAL_BOOL" t := by
  intro d ctx e
  have hsrc : ∃ src ctx₁, Lower.resolve {} e ctx = .ok src ctx₁ ∧ src.type = .bool ∧
      src.truth.render {} = "ZEPHIR_IS_EQUAL(x, _0)" ∧ ctx₁.table.names = ["x", "_0"] ∧
      ctx₁.lines = ["ZVAL_LONG(_0, 1);"] :=
    ⟨_, _, rfl, rfl, by decide, by decide, by decide⟩
  obtain ⟨src, ctx₁, hrun, htype, htext, hnames, hlines⟩ := hsrc
  obtain ⟨⟨ctx', hlower, hmention, -⟩, -⟩ :=
    boxing_is_hazard_free (x := "x") (d := d) {} rfl rfl rfl rfl hrun (by simp [htype])
  obtain ⟨t, s, -, hnames', -, -, -, -, hlines'⟩ := hmention (by decide)
  refine ⟨ctx', t, hlower, by simp [hnames', hnames], ?_⟩
  rw [hlines', hlines, htype, if_pos rfl]
  exact congrArg (fun text => "ZVAL_LONG(_0, 1);" :: statementLine {} (t ++ " = " ++ text) ::
    rebuildLines {} "x" d "ZVAL_BOOL" t) htext

end BoxedLet
