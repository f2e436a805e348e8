import BoxedLet.Proofs.TwoRuns

/-!
# BoxedLet.Proofs.Agree

**Lowering an expression looks only at names and types.** Of a symbol it uses the name, to find it
and to avoid it, and the declared type; storage, flags and counters are never looked at. Two states
that agree on names and types, and on everything outside the symbols, therefore go through the same
lowering: the outcome is the same, and the states that they end in agree again.

`Lower.Blind` says this of a computation. Agreement is kept by all that lowering an expression does
to the state, and gives temporaries the same names, so that it is a case of two runs side by side.
The position of the assignment is not looked at either: it only goes into errors.
-/

namespace BoxedLet

variable {span : Span}

namespace SymbolTable

/-- The names and types of the symbols. -/
def signature (t : SymbolTable) : List (String × StaticType) :=
  t.symbols.map fun s => (s.name, s.type)

theorem names_eq_signature (t : SymbolTable) : t.names = t.signature.map Prod.fst := by
  simp [names, signature]

theorem typeOf?_eq_signature (t : SymbolTable) (n : String) :
    t.typeOf? n = (t.signature.find? fun p => p.1 == n).map Prod.snd := by
  simp only [typeOf?, get?, signature, List.find?_map, Option.map_map]
  rfl

theorem signature_modify (t : SymbolTable) (name : String) {f : Symbol → Symbol}
    (hf : ∀ s, (f s).name = s.name ∧ (f s).type = s.type) :
    (t.modify name f).signature = t.signature := by
  simp only [signature, modify, List.map_map]
  refine List.map_congr_left fun s _ => ?_
  rw [Function.comp_apply]
  split
  · rw [(hf s).1, (hf s).2]
  · rfl

end SymbolTable

/-- The two states differ at most in the storage, the flags and the counters of symbols. -/
structure Context.Agrees (ctx ctx' : Context) : Prop where
  options : ctx'.options = ctx.options
  classDef : ctx'.classDef = ctx.classDef
  code : ctx'.code = ctx.code
  headers : ctx'.headers = ctx.headers
  tempPrefix : ctx'.table.tempPrefix = ctx.table.tempPrefix
  nextTemp : ctx'.table.nextTemp = ctx.table.nextTemp
  signature : ctx'.table.signature = ctx.table.signature

namespace Context.Agrees

variable {ctx ctx' : Context}

theorem refl (ctx : Context) : ctx.Agrees ctx :=
  ⟨rfl, rfl, rfl, rfl, rfl, rfl, rfl⟩

theorem names (h : ctx.Agrees ctx') : ctx'.table.names = ctx.table.names := by
  rw [SymbolTable.names_eq_signature, h.signature, ← SymbolTable.names_eq_signature]

theorem typeOf? (h : ctx.Agrees ctx') (n : String) :
    ctx'.table.typeOf? n = ctx.table.typeOf? n := by
  rw [SymbolTable.typeOf?_eq_signature, h.signature, ← SymbolTable.typeOf?_eq_signature]

theorem lines (h : ctx.Agrees ctx') : ctx'.lines = ctx.lines := by
  rw [Context.lines_eq, Context.lines_eq, h.options, h.code]

/-- Candidates for temporaries are tried in the same order and found taken alike. -/
theorem freshFrom (h : ctx.Agrees ctx') (tries n : Nat) :
    ctx'.table.freshFrom tries n = ctx.table.freshFrom tries n := by
  have htemp : ∀ k, ctx'.table.tempName k = ctx.table.tempName k := by
    intro k
    simp only [SymbolTable.tempName, h.tempPrefix]
  have hcontains : ∀ name, ctx'.table.contains name = ctx.table.contains name := by
    intro name
    rw [Bool.eq_iff_iff, SymbolTable.contains_iff_mem_names, SymbolTable.contains_iff_mem_names,
      h.names]
  induction tries generalizing n with
  | zero => rfl
  | succ tries ih => simp only [SymbolTable.freshFrom, htemp, hcontains, ih]

theorem freshNumber (h : ctx.Agrees ctx') :
    ctx'.table.freshNumber = ctx.table.freshNumber := by
  have hlength : ctx'.table.symbols.length = ctx.table.symbols.length := by
    rw [← SymbolTable.length_names, ← SymbolTable.length_names, h.names]
  rw [SymbolTable.freshNumber, SymbolTable.freshNumber, h.freshFrom, hlength, h.nextTemp]

theorem nextName (h : ctx.Agrees ctx') : ctx'.table.nextName = ctx.table.nextName := by
  simp only [SymbolTable.nextName, SymbolTable.tempName, h.freshNumber, h.tempPrefix]

theorem needing (h : ctx.Agrees ctx') (header : Header) :
    (ctx.needing header).Agrees (ctx'.needing header) :=
  { h with headers := congrArg (·.insert header) h.headers }

theorem filling (h : ctx.Agrees ctx') (type : StaticType) (i : Instr) :
    (ctx.filling type i).Agrees (ctx'.filling type i) := by
  refine { h with code := ?_, nextTemp := ?_, signature := ?_ }
  · exact congrArg (· ++ [i]) h.code
  · exact congrArg (· + 1) h.freshNumber
  · have hsig := h.signature
    simp only [SymbolTable.signature] at hsig
    simp only [Context.filling, SymbolTable.signature, SymbolTable.newTemporary_symbols,
      List.map_append, hsig, h.nextName]

/-- A change of one symbol that keeps its name and type is not looked at. -/
theorem modify (h : ctx.Agrees ctx') (name : String) {f : Symbol → Symbol}
    (hf : ∀ s, (f s).name = s.name ∧ (f s).type = s.type) :
    ctx.Agrees { ctx' with table := ctx'.table.modify name f } :=
  { h with signature := (SymbolTable.signature_modify _ name hf).trans h.signature }

/-- Agreement is kept by lowering an expression. -/
theorem tracks : Tracks (fun _ => True) id Agrees where
  typeOf? h x _ := h.typeOf? x
  nextName h := h.nextName
  needing h header := h.needing header
  filling h type i i' hi := by
    rw [Instr.mapTemps_id, Instr.mapTemps_id] at hi
    exact hi ▸ h.filling type i

end Context.Agrees

namespace Lower

variable {α : Type}

/-- From states that agree, and at all positions, the computation has the same outcome and ends in
states that agree. -/
def Blind (x : Span → Lower α) : Prop :=
  ∀ span span', Follows Context.Agrees Eq (x span) (x span')

/-- The same outcome, in the form in which it is used. -/
theorem Blind.run_ok {x : Span → Lower α} {ctx ctx' c : Context} {a : α} (hx : Blind x)
    (h : ctx.Agrees ctx') (hrun : x span ctx = .ok a c) (span' : Span) :
    ∃ c', x span' ctx' = .ok a c' ∧ c.Agrees c' := by
  obtain ⟨_, b, _, c', hok, hrun', rfl, hagree⟩ | ⟨e, e', _, c', hfail, -⟩ := (hx span span').run h
  · cases hrun.symm.trans hok
    exact ⟨c', hrun', hagree⟩
  · cases hrun.symm.trans hfail

/-- **Lowering an expression looks only at names and types.** -/
theorem resolve_blind (e : Expr) : Blind (resolve · e) := fun _ _ =>
  (resolve_follows Context.Agrees.tracks e fun _ _ => trivial).mono fun _ _ h => h.eq_of_id

end Lower

end BoxedLet
