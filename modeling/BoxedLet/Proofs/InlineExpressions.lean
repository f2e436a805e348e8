import BoxedLet.Proofs.CSyntax
import BoxedLet.Proofs.Growth

/-!
# BoxedLet.Proofs.InlineExpressions

**Native expressions stay inline.** `Expr.HasTree` gives a tree to the expressions that are made of
integers, truth values, variables and native operators. Lowering such an expression changes nothing
in the state, and reading the code that it returns gives back the tree, and so the value of the
expression (`inline_expressions_read_back`).
-/

namespace BoxedLet

open CSyntax

/-! ### Trees and values -/

/-- The operator as one of C. Division is left out, since integers are not divided exactly. -/
def BinaryOp.inline? : BinaryOp → Option Binary
  | .arith .add => some .add
  | .arith .sub => some .sub
  | .arith .mul => some .mul
  | .arith .div | .concat => none
  | .compare .equals => some .equal
  | .compare .notEquals => some .notEqual
  | .compare .less => some .less
  | .compare .greater => some .greater
  | .compare .lessEqual => some .lessEqual
  | .compare .greaterEqual => some .greaterEqual
  | .connect .and => some .and
  | .connect .or => some .or

/-- The tree of an integer; that of a negative one has a minus sign. -/
def CSyntax.Tree.ofInt : Int → Tree
  | .ofNat n => .number n
  | .negSucc n => .unary .minus (.number (n + 1))

/-- The expressions of native operators on integers, truth values and variables, and their trees. -/
inductive Expr.HasTree : Expr → Tree → Prop
  | int (n : Int64) : HasTree (.int n) (.ofInt n.toInt)
  | bool (b : Bool) : HasTree (.bool b) (.number (if b then 1 else 0))
  | var (x : String) : HasTree (.var x) (.name x)
  | binary {op : BinaryOp} {o : Binary} {l r : Expr} {tl tr : Tree} (hop : op.inline? = some o)
      (hl : HasTree l tl) (hr : HasTree r tr) : HasTree (.binary op l r) (.binary o tl tr)
  | not {e : Expr} {t : Tree} (he : HasTree e t) : HasTree (.not e) (.unary .not t)

/-- What an operator computes, where it is one of the native operators on integers. -/
def BinaryOp.value? (op : BinaryOp) (v w : Int) : Option Int :=
  match op with
  | .arith .add => some (v + w)
  | .arith .sub => some (v - w)
  | .arith .mul => some (v * w)
  | .arith .div | .concat => none
  | .compare .equals => some (decide (v = w)).toInt
  | .compare .notEquals => some (decide (v ≠ w)).toInt
  | .compare .less => some (decide (v < w)).toInt
  | .compare .greater => some (decide (w < v)).toInt
  | .compare .lessEqual => some (decide (v ≤ w)).toInt
  | .compare .greaterEqual => some (decide (w ≤ v)).toInt
  | .connect .and => some (decide (v ≠ 0 ∧ w ≠ 0)).toInt
  | .connect .or => some (decide (v ≠ 0 ∨ w ≠ 0)).toInt

/-- The value of such an expression, given the values of variables. Truth values are 1 and 0, and any
number but 0 counts as true. -/
def Expr.value? (ρ : String → Int) : Expr → Option Int
  | .int n => some n.toInt
  | .bool b => some b.toInt
  | .var x => some (ρ x)
  | .binary op l r => do op.value? (← l.value? ρ) (← r.value? ρ)
  | .not e => (e.value? ρ).map fun v => (decide (v = 0)).toInt
  | _ => none

theorem BinaryOp.value?_eq {op : BinaryOp} {o : Binary} (h : op.inline? = some o) (v w : Int) :
    op.value? v w = some (o.apply v w) := by
  have htruth : ∀ (p : Prop) [Decidable p], (decide p).toInt = if p then 1 else 0 := by
    intro p _
    by_cases hp : p <;> simp [hp]
  cases op with
  | concat => cases h
  | arith op => cases op <;> cases h <;> rfl
  | compare op => cases op <;> cases h <;> exact congrArg some (htruth _)
  | connect op => cases op <;> cases h <;> exact congrArg some (htruth _)

/-- **The value of an expression is that of its tree.** -/
theorem Expr.HasTree.value {e : Expr} {t : Tree} (h : e.HasTree t) (ρ : String → Int) :
    e.value? ρ = some (t.value ρ) := by
  induction h with
  | int n =>
      have hofInt : (Tree.ofInt n.toInt).value ρ = n.toInt := by
        cases n.toInt <;> simp [Tree.ofInt, Tree.value, Unary.apply, Int.negSucc_eq]
      rw [hofInt]
      rfl
  | bool b => cases b <;> rfl
  | var x => rfl
  | binary hop _ _ ihl ihr => simp [Expr.value?, ihl, ihr, BinaryOp.value?_eq hop, Tree.value]
  | not _ ih =>
      rename_i t _
      by_cases ht : t.value ρ = 0 <;> simp [Expr.value?, ih, Tree.value, Unary.apply, ht]

/-! ### Texts -/

theorem BinaryOp.symbol_of_inline? {op : BinaryOp} {o : Binary} (h : op.inline? = some o) :
    op.symbol = String.ofList o.sign := by
  cases op with
  | concat => cases h
  | arith op => cases op <;> cases h <;> rfl
  | compare op => cases op <;> cases h <;> rfl
  | connect op => cases op <;> cases h <;> rfl

theorem Code.spells_long (o : Options) (n : Int64) :
    Spells ((Code.long n).render o) (.ofInt n.toInt) := by
  rw [render]
  cases n.toInt with
  | ofNat n => exact .number n
  | negSucc n => exact .minus (n + 1)

theorem Code.spells_bit (o : Options) (b : Bool) :
    Spells ((Code.bit b).render o) (.number (if b then 1 else 0)) := by
  cases b with
  | false => exact .number 0
  | true => exact .number 1

theorem Code.spells_binary {o : Options} {l r : Code} {tl tr : Tree} {op : BinaryOp} {b : Binary}
    (hop : op.inline? = some b) (hl : Spells (l.render o) tl) (hr : Spells (r.render o) tr) :
    Spells ((Code.binary op l r).render o) (.binary b tl tr) := by
  rw [render, BinaryOp.symbol_of_inline? hop]
  exact .binary b hl hr

theorem Code.spells_not {o : Options} {c : Code} {t : Tree} (h : Spells (c.render o) t) :
    Spells ((Code.not c).render o) (.unary .not t) := by
  rw [render]
  exact h.not

/-! ### Lowering -/

/-- The code of a source as an operand of a native operator. -/
def Source.operand (s : Source) : Code :=
  if s.type = .bool then s.truth else s.code

/-- The source is a native scalar whose code as an operand spells the tree. -/
structure Source.Inlines (ctx : Context) (t : Tree) (s : Source) : Prop where
  native : ∃ type, (∀ span, s.subtype span ctx = .ok type ctx) ∧ type.isNativeScalar = true
  ne_null : s.type ≠ .null
  spells : Spells (s.operand.render ctx.options) t

namespace Source.Inlines

variable {ctx : Context} {t : Tree} {s : Source}

/-- A computed value whose truth value needs no code of its own. -/
theorem ofCode {type : StaticType} {c : Code} (hnative : type.isNativeScalar = true)
    (h : Spells (c.render ctx.options) t) : (Source.ofCode type c).Inlines ctx t := by
  refine ⟨⟨type, fun span => ?_, hnative⟩, ?_, ?_⟩
  · cases type <;> rfl
  · rintro (rfl : type = .null)
    cases hnative
  · unfold Source.operand
    split <;> exact h

theorem nativeOperand? (h : s.Inlines ctx t) (span : Span) :
    ∃ type, Lower.nativeOperand? span s ctx = .ok (some (type, s.operand)) ctx ∧
      type.isNativeScalar = true := by
  obtain ⟨type, hsubtype, hnative⟩ := h.native
  refine ⟨type, ?_, hnative⟩
  rw [Lower.nativeOperand?, Lower.bind_apply, hsubtype span]
  simp [hnative, Source.operand]

theorem condition (h : s.Inlines ctx t) (span : Span) :
    Lower.condition span s ctx = .ok s.operand ctx := by
  obtain ⟨type, hsubtype, hnative⟩ := h.native
  have hbox : type ≠ .dynamic := by
    rintro rfl
    cases hnative
  rw [Lower.condition, Lower.bind_apply, hsubtype span]
  by_cases hbool : s.type = .bool <;> simp [hbool, h.ne_null, hbox, hnative, Source.operand]

end Source.Inlines

namespace Lower

variable {ctx : Context} {left right : Source} {tl tr : Tree}

theorem nativeOperands?_inlines (hl : left.Inlines ctx tl) (hr : right.Inlines ctx tr)
    (span : Span) :
    ∃ s t, nativeOperands? span left right ctx =
      .ok (some ((s, left.operand), (t, right.operand))) ctx := by
  obtain ⟨s, hleft, -⟩ := hl.nativeOperand? span
  obtain ⟨t, hright, -⟩ := hr.nativeOperand? span
  refine ⟨s, t, ?_⟩
  rw [nativeOperands?, bind_apply, hleft]
  dsimp only
  rw [bind_apply, hright]
  rfl

/-- A native operator on two native scalars is written between them. -/
theorem binary_inlines {op : BinaryOp} {o : Binary} (hop : op.inline? = some o)
    (hl : left.Inlines ctx tl) (hr : right.Inlines ctx tr) (span : Span) :
    ∃ type, binary span op left right ctx =
      .ok (.ofCode type (.binary op left.operand right.operand)) ctx ∧
        type.isNativeScalar = true := by
  have harith : ∀ s t, (arithType s t).isNativeScalar = true := by
    intro s t
    unfold arithType
    split <;> rfl
  obtain ⟨s, t, hboth⟩ := nativeOperands?_inlines hl hr span
  cases op with
  | concat => cases hop
  | arith op =>
      refine ⟨arithType s t, ?_, harith s t⟩
      rw [binary, bind_apply, hboth]
      rfl
  | compare op =>
      refine ⟨.bool, ?_, rfl⟩
      rw [binary, bind_apply, hboth]
      rfl
  | connect op =>
      refine ⟨.bool, ?_, rfl⟩
      rw [binary, bind_apply, hl.condition span]
      dsimp only
      rw [bind_apply, hr.condition span]
      rfl

/-- **Lowering a native expression leaves the state as it is**, and the source spells the tree of
the expression. The code of a truth value is a word, and that of anything else is the code that
operators see. -/
theorem resolve_inlines {e : Expr} {t : Tree} (span : Span) (he : e.HasTree t)
    (hvars : ∀ x, e.mentions x = true → ctx.options.isReceiver x = false ∧ isName x = true ∧
      ∃ type, ctx.table.typeOf? x = some type ∧ (type.isIntegral = true ∨ type = .bool)) :
    ∃ s, resolve span e ctx = .ok s ctx ∧ s.Inlines ctx t ∧
      ((∀ b, e ≠ .bool b) → s.code = s.operand) := by
  have hofCode : ∀ type c, (Source.ofCode type c).code = (Source.ofCode type c).operand := by
    intro type c
    unfold Source.operand
    split <;> rfl
  induction he with
  | int n =>
      exact ⟨_, rfl, .ofCode rfl (Code.spells_long _ n), fun _ => hofCode _ _⟩
  -- The code of a truth value is a word; operators see its bit, which spells the tree.
  | bool b =>
      refine ⟨_, rfl, ⟨⟨.bool, fun _ => rfl, rfl⟩, by simp, Code.spells_bit _ b⟩, fun hne => ?_⟩
      exact absurd rfl (hne b)
  | var x =>
      obtain ⟨hreceiver, hname, type, htype, hnative⟩ := hvars x (by simp [Expr.mentions])
      -- Reading a variable returns its symbol and leaves the state alone.
      obtain ⟨symbol, hget, rfl⟩ := SymbolTable.typeOf?_eq_some.mp htype
      have hread (span : Span) : readSymbol span x ctx = .ok symbol ctx := readSymbol_apply hget
      have hscalar : symbol.type.isNativeScalar = true := by
        rcases hnative with hintegral | hbool
        · simp [StaticType.isNativeScalar, hintegral]
        · simp [StaticType.isNativeScalar, hbool]
      refine ⟨.ofVar x (.place (.var x)), ?_, ⟨⟨symbol.type, fun span => ?_, hscalar⟩, ?_, ?_⟩,
        fun _ => rfl⟩
      · rw [resolve, bareVariable, bind_apply, hread span]
        rfl
      · show (readSymbol span x >>= fun s => pure s.type) ctx = _
        rw [bind_apply, hread span]
        rfl
      · simp [Source.ofVar]
      · have htext : Code.render ctx.options (.place (.var x)) = x := by
          rw [Code.render, Place.render, Options.renderName, hreceiver]
          rfl
        show Spells (Code.render ctx.options (.place (.var x))) _
        rw [htext]
        exact .name hname
  | @binary op o l r tl tr hop _ _ ihl ihr =>
      obtain ⟨left, hleft, hlinlines, -⟩ := ihl fun x hx => hvars x (by simp [Expr.mentions, hx])
      obtain ⟨right, hright, hrinlines, -⟩ := ihr fun x hx => hvars x (by simp [Expr.mentions, hx])
      obtain ⟨type, hrun, hnative⟩ := binary_inlines hop hlinlines hrinlines span
      refine ⟨_, ?_, .ofCode hnative (Code.spells_binary hop hlinlines.spells hrinlines.spells),
        fun _ => hofCode _ _⟩
      rw [resolve, bind_apply, hleft]
      dsimp only
      rw [bind_apply, hright]
      exact hrun
  | @not e t _ ih =>
      obtain ⟨s, hrun, hinlines, -⟩ := ih fun x hx => hvars x (by simpa [Expr.mentions] using hx)
      have hnative : StaticType.isNativeScalar .bool = true := rfl
      refine ⟨_, ?_, .ofCode hnative (Code.spells_not hinlines.spells), fun _ => hofCode _ _⟩
      rw [resolve, bind_apply, hrun]
      dsimp only
      rw [negate, bind_apply, hinlines.condition span]
      rfl

end Lower

/-- **A native expression is lowered without a trace, and its code reads back as itself.** Nothing is
emitted, no header is needed and no symbol changes; the code, read with the precedence of C, is the
tree of the expression, and has its value. A single truth value is the one exception: its code is a
word. -/
theorem inline_expressions_read_back {e : Expr} {t : Tree} (ctx : Context) (span : Span)
    (he : e.HasTree t) (hbool : ∀ b, e ≠ .bool b)
    (hnames : ∀ x ∈ ctx.table.names, e.mentions x = true → isName x = true)
    (hvars : ∀ x, e.mentions x = true → ctx.options.isReceiver x = false ∧
      ∃ type, ctx.table.typeOf? x = some type ∧ (type.isIntegral = true ∨ type = .bool)) :
    ∃ s, Lower.resolve span e ctx = .ok s ctx ∧ read? (s.code.render ctx.options) = some t ∧
      ∀ ρ, e.value? ρ = some (t.value ρ) := by
  have hnamed : ∀ x, e.mentions x = true → ctx.options.isReceiver x = false ∧ isName x = true ∧
      ∃ type, ctx.table.typeOf? x = some type ∧ (type.isIntegral = true ∨ type = .bool) := by
    intro x hx
    obtain ⟨hreceiver, type, htype, hnative⟩ := hvars x hx
    obtain ⟨symbol, hget, -⟩ := SymbolTable.typeOf?_eq_some.mp htype
    have hname := hnames x (SymbolTable.mem_names_of_get? hget) hx
    exact ⟨hreceiver, hname, type, htype, hnative⟩
  obtain ⟨s, hrun, hinlines, hcode⟩ := Lower.resolve_inlines span he hnamed
  refine ⟨s, hrun, ?_, he.value⟩
  rw [hcode hbool]
  exact read?_of_spells hinlines.spells

/-- `(a - -3) * 2 < true || !x`: a negative constant after a minus sign, a truth value as an operand
and a negation as one. -/
theorem inline_expressions_read_back_nested :
    let ctx : Context :=
      { table.symbols :=
          [{ name := "a", type := .uchar, storage := .stackOnly },
            { name := "x", type := .bool, storage := .stackOnly }] }
    let e : Expr :=
      .binary (.connect .or)
        (.binary (.compare .less)
          (.binary (.arith .mul) (.binary (.arith .sub) (.var "a") (.int (-3))) (.int 2))
          (.bool true))
        (.not (.var "x"))
    let t : Tree :=
      .binary .or
        (.binary .less
          (.binary .mul (.binary .sub (.name "a") (.unary .minus (.number 3))) (.number 2))
          (.number 1))
        (.unary .not (.name "x"))
    e.HasTree t ∧ (∀ x, e.mentions x = true → x ∈ ctx.table.names) ∧
      ∃ s, Lower.resolve {} e ctx = .ok s ctx ∧
        s.code.render ctx.options = "((((a - -3) * 2) < 1) || !(x))" ∧
        read? "((((a - -3) * 2) < 1) || !(x))" = some t ∧
        ∀ ρ, e.value? ρ = some (t.value ρ) := by
  intro ctx e t
  have htree : e.HasTree t :=
    .binary rfl
      (.binary rfl (.binary rfl (.binary rfl (.var "a") (.int (-3))) (.int 2)) (.bool true))
      (.not (.var "x"))
  have hmentions : ∀ x, e.mentions x = true → "a" = x ∨ "x" = x := by
    intro x hx
    simpa [e, Expr.mentions] using hx
  have hread := inline_expressions_read_back ctx {} htree (by simp [e]) (by decide) fun x hx => by
    rcases hmentions x hx with rfl | rfl
    · exact ⟨by decide, .uchar, by decide, .inl (by decide)⟩
    · exact ⟨by decide, .bool, by decide, .inr rfl⟩
  obtain ⟨s, hrun, hcode, hvalue⟩ := hread
  have htext : s.code.render ctx.options = "((((a - -3) * 2) < 1) || !(x))" := by
    cases hrun
    decide
  refine ⟨htree, fun x hx => ?_, s, hrun, htext, htext ▸ hcode, hvalue⟩
  rcases hmentions x hx with rfl | rfl <;> decide

end BoxedLet
