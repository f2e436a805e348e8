import BoxedLet.Proofs.Matching

/-!
# BoxedLet.Proofs.Declarations

**Only referenced declarations matter, and only as a map.** The table in which a function body starts
answers a lookup with the implicit receiver, if it is asked for, and else with the first declaration
of the name (`Context.get?_initial`). The order of declarations, and those that are hidden behind an
earlier one, leave no trace in these answers.

A body asks for the names that its assignments use, and for candidates for temporaries. Two lists of
declarations that answer these alike give states that match, with temporaries of the same names, and
compile to the same code or fail with the same error (`CompilationUnit.compile_congr`).
-/

namespace BoxedLet

/-! ### The table that a function body starts with -/

namespace SymbolTable

theorem get?_declare (t : SymbolTable) (s : Symbol) (x : String) :
    (t.declare s).get? x = (t.get? x).or (if s.name = x then some s else none) := by
  unfold declare declare?
  by_cases htaken : t.contains s.name = true
  · -- the name is taken: nothing is added
    rw [if_pos htaken, Option.getD_none]
    by_cases hx : s.name = x
    · have hmem : x ∈ t.names := hx ▸ (t.contains_iff_mem_names _).mp htaken
      cases hget : t.get? x with
      | none => exact absurd hmem (get?_eq_none_iff.mp hget)
      | some found => rfl
    · rw [if_neg hx, Option.or_none]
  · rw [if_neg htaken, Option.getD_some]
    simp only [get?, push, List.find?_append, List.find?_singleton, beq_iff_eq]

/-- Of several declarations of one name the first counts, after what the table had before. -/
theorem get?_foldl_declare (declarations : List Declaration) (t : SymbolTable) (x : String) :
    (declarations.foldl (fun t d => t.declare d.symbol) t).get? x =
      (t.get? x).or ((declarations.find? (·.name == x)).map Declaration.symbol) := by
  induction declarations generalizing t with
  | nil => rw [List.foldl_nil, List.find?_nil, Option.map_none, Option.or_none]
  | cons d declarations ih =>
      have hname : d.symbol.name = d.name := rfl
      rw [List.foldl_cons, ih, get?_declare, hname, Option.or_assoc]
      congr 1
      by_cases hx : d.name = x
      · rw [List.find?_cons_of_pos (by simpa using hx), if_pos hx]
        rfl
      · rw [List.find?_cons_of_neg (by simpa using hx), if_neg hx]
        rfl

end SymbolTable

namespace Context

variable {options : Options} {classDef : Option ClassDef} {declarations : List Declaration}

theorem symbols_withClass (options : Options) (c : ClassDef) :
    ((Context.ofOptions options).withClass c).table.symbols = [.ofReceiver options] := by
  simp [Symbol.ofReceiver, Context.ofOptions, Context.withClass, SymbolTable.declare,
    SymbolTable.declare?, SymbolTable.contains, SymbolTable.push, SymbolTable.markInitialized,
    SymbolTable.modify]

/-- **What a function body finds under a name** when it starts. -/
theorem get?_initial (options : Options) (classDef : Option ClassDef)
    (declarations : List Declaration) (x : String) :
    (Context.initial options classDef declarations).table.get? x =
      if classDef.isSome ∧ x = options.implicitReceiver then some (.ofReceiver options)
      else (declarations.find? (·.name == x)).map Declaration.symbol := by
  cases classDef with
  | none =>
      refine (SymbolTable.get?_foldl_declare declarations _ x).trans ?_
      rw [if_neg (by simp)]
      rfl
  | some c =>
      have hreceiver : ((Context.ofOptions options).withClass c).table.get? x =
          if x = options.implicitReceiver then some (.ofReceiver options) else none := by
        have hname : (Symbol.ofReceiver options).name = options.implicitReceiver := rfl
        rw [SymbolTable.get?, symbols_withClass, List.find?_singleton, hname]
        by_cases hx : x = options.implicitReceiver
        · simp [hx]
        · simp [hx, Ne.symm hx]
      refine (SymbolTable.get?_foldl_declare declarations _ x).trans ?_
      rw [hreceiver]
      by_cases hx : x = options.implicitReceiver <;> simp [hx]

end Context

/-! ### Runs of a function body -/

/-- **Assignments in a row end alike in states that match.** -/
theorem Context.Matches.lowersAll {V : String → Prop} {ρ : String → String}
    {calls : List Assignment} {ctx ctx' : Context} (h : ctx.Matches V ρ ctx')
    (hV : ∀ a ∈ calls, ∀ x, x = a.destination ∨ a.Reads x → V x) :
    (∃ c c', lowerAssignments calls ctx = .ok () c ∧ lowerAssignments calls ctx' = .ok () c' ∧
      c.Matches V ρ c') ∨
    ∃ e c c', lowerAssignments calls ctx = .error e c ∧
      lowerAssignments calls ctx' = .error e c' := by
  induction calls generalizing ctx ctx' with
  | nil => exact .inl ⟨ctx, ctx', rfl, rfl, h⟩
  | cons a calls ih =>
      simp only [lowerAssignments, bind, EStateM.bind]
      obtain ⟨c, c', hrun, hrun', hc⟩ | ⟨e, c, c', hrun, hrun', -⟩ :=
        h.lowers (hV a List.mem_cons_self)
      · rw [hrun, hrun']
        exact ih hc fun b hb => hV b (List.mem_cons_of_mem a hb)
      · rw [hrun, hrun']
        exact .inr ⟨e, c, c', rfl, rfl⟩

namespace CompilationUnit

/-- The assignments of all statements, in order. -/
def assignments (u : CompilationUnit) : List Assignment :=
  u.statements.flatMap LetStatement.assignments

/-- The names that the assignments use. -/
def Uses (u : CompilationUnit) (x : String) : Prop :=
  ∃ a ∈ u.assignments, x = a.destination ∨ a.Reads x

/-- A name that no assignment uses and that no temporary can have. -/
def Ignores (u : CompilationUnit) (x : String) : Prop :=
  ¬ u.Uses x ∧ ∀ k : Nat, x ≠ u.options.tempPrefix ++ toString k

section Congr

variable {u : CompilationUnit} {declarations : List Declaration}
  (h : ∀ x, ¬ u.Ignores x →
    (Context.initial u.options u.classDef declarations).table.get? x =
      (Context.initial u.options u.classDef u.declarations).table.get? x)
include h

theorem initial_matches :
    (Context.initial u.options u.classDef u.declarations).Matches (fun x => ¬ u.Ignores x) id
      (Context.initial u.options u.classDef declarations) := by
  obtain ⟨symbols, hstart⟩ := Context.initial_eq u.options u.classDef u.declarations
  obtain ⟨symbols', hstart'⟩ := Context.initial_eq u.options u.classDef declarations
  rw [hstart, hstart'] at h ⊢
  refine ⟨rfl, rfl, rfl, rfl, rfl, rfl, fun x hx => congrArg _ (h x hx), .inr ⟨rfl, fun k => ?_⟩⟩
  -- candidates for temporaries are never ignored
  have hk := h _ fun hignored => hignored.2 k rfl
  rw [← Decidable.not_iff_not, ← SymbolTable.get?_eq_none_iff, ← SymbolTable.get?_eq_none_iff,
    SymbolTable.tempName, hk]

/-- **Declarations that answer alike** for every name that is not ignored **compile alike**. -/
theorem compile_congr : { u with declarations }.compile = u.compile := by
  have hV : ∀ a ∈ u.assignments, ∀ x, x = a.destination ∨ a.Reads x → ¬ u.Ignores x :=
    fun a ha x hx hignored => hignored.1 ⟨a, ha, hx⟩
  simp only [compile, lowerStatements_eq]
  obtain ⟨c, c', hrun, hrun', hc⟩ | ⟨e, c, c', hrun, hrun'⟩ :=
    (initial_matches h).lowersAll hV
  · rw [assignments] at hrun hrun'
    rw [hrun, hrun']
    simp only [Context.compiled, hc.headers, hc.lines]
  · rw [assignments] at hrun hrun'
    rw [hrun, hrun']

end Congr

/-- The changes of a unit's declarations that no code can show. -/
inductive Redeclares (u : CompilationUnit) : List Declaration → Prop
  /-- Declarations of distinct names in another order. -/
  | permuted {declarations : List Declaration}
      (hdistinct : (u.declarations.map Declaration.name).Nodup)
      (hperm : u.declarations.Perm declarations) : Redeclares u declarations
  /-- Without a declaration that an earlier one or the implicit receiver hides. -/
  | hidden {before after : List Declaration} {d : Declaration}
      (hu : u.declarations = before ++ d :: after)
      (hd : d.name ∈ before.map Declaration.name ∨
        u.classDef.isSome ∧ d.name = u.options.implicitReceiver) :
      Redeclares u (before ++ after)
  /-- With one more declaration, of a name that is ignored. -/
  | added {before after : List Declaration} {d : Declaration}
      (hu : u.declarations = before ++ after) (hd : u.Ignores d.name) :
      Redeclares u (before ++ d :: after)
  /-- Without a declaration of a name that is ignored. -/
  | removed {before after : List Declaration} {d : Declaration}
      (hu : u.declarations = before ++ d :: after) (hd : u.Ignores d.name) :
      Redeclares u (before ++ after)
  /-- With another declaration of a name that is ignored. -/
  | retyped {before after : List Declaration} {d d' : Declaration}
      (hu : u.declarations = before ++ d :: after) (hname : d'.name = d.name)
      (hd : u.Ignores d.name) : Redeclares u (before ++ d' :: after)

theorem find?_declaration_of_ne {before after : List Declaration} {d : Declaration} {x : String}
    (hx : d.name ≠ x) :
    (before ++ d :: after).find? (·.name == x) = (before ++ after).find? (·.name == x) := by
  rw [List.find?_append, List.find?_append, List.find?_cons_of_neg (by simpa using hx)]

/-- A declaration that an earlier one hides is never found. -/
theorem find?_declaration_of_hidden {before after : List Declaration} {d : Declaration} {x : String}
    (hd : d.name ∈ before.map Declaration.name) :
    (before ++ d :: after).find? (·.name == x) = (before ++ after).find? (·.name == x) := by
  by_cases hx : d.name = x
  · obtain ⟨earlier, hmem, hname⟩ := List.mem_map.mp hd
    have hfound : (before.find? (·.name == x)).isSome := by
      rw [List.find?_isSome]
      exact ⟨earlier, hmem, by simpa using hname.trans hx⟩
    rw [List.find?_append, List.find?_append, Option.or_of_isSome hfound,
      Option.or_of_isSome hfound]
  · exact find?_declaration_of_ne hx

/-- Among distinct names it does not matter which comes first. -/
theorem find?_declaration_eq_some {declarations : List Declaration}
    (hdistinct : (declarations.map Declaration.name).Nodup) {x : String} {d : Declaration} :
    declarations.find? (·.name == x) = some d ↔ d ∈ declarations ∧ d.name = x := by
  induction declarations with
  | nil => simp
  | cons first declarations ih =>
      rw [List.map_cons, List.nodup_cons] at hdistinct
      by_cases hx : first.name = x
      · rw [List.find?_cons_of_pos (by simpa using hx)]
        constructor
        · rintro ⟨⟩
          exact ⟨List.mem_cons_self, hx⟩
        · rintro ⟨hmem, hname⟩
          rcases List.mem_cons.mp hmem with rfl | hmem
          · rfl
          · exact absurd (List.mem_map.mpr ⟨d, hmem, hname.trans hx.symm⟩) hdistinct.1
      · rw [List.find?_cons_of_neg (by simpa using hx), ih hdistinct.2, List.mem_cons]
        constructor
        · exact fun ⟨hmem, hname⟩ => ⟨.inr hmem, hname⟩
        · rintro ⟨rfl | hmem, hname⟩
          · exact absurd hname hx
          · exact ⟨hmem, hname⟩

theorem find?_declaration_of_perm {declarations declarations' : List Declaration} (x : String)
    (hdistinct : (declarations.map Declaration.name).Nodup)
    (hperm : declarations.Perm declarations') :
    declarations'.find? (·.name == x) = declarations.find? (·.name == x) := by
  have hdistinct' := (hperm.map Declaration.name).nodup_iff.mp hdistinct
  refine Option.ext fun d => ?_
  rw [find?_declaration_eq_some hdistinct, find?_declaration_eq_some hdistinct', hperm.mem_iff]

/-- **Only referenced declarations matter, and only as a map.** -/
theorem compile_of_redeclares {u : CompilationUnit} {declarations : List Declaration}
    (h : u.Redeclares declarations) : { u with declarations }.compile = u.compile := by
  refine compile_congr fun x hx => ?_
  rw [Context.get?_initial, Context.get?_initial]
  split
  · rfl
  rename_i hreceiver
  congr 1
  cases h with
  | permuted hdistinct hperm => exact find?_declaration_of_perm x hdistinct hperm
  | @hidden before after d hu hd =>
      rcases hd with hd | ⟨hclass, hd⟩
      · rw [hu, find?_declaration_of_hidden hd]
      · have hne : d.name ≠ x := fun heq => hreceiver ⟨hclass, heq ▸ hd⟩
        rw [hu, find?_declaration_of_ne hne]
  | @added before after d hu hd =>
      have hne : d.name ≠ x := fun heq => hx (heq ▸ hd)
      rw [hu, find?_declaration_of_ne hne]
  | @removed before after d hu hd =>
      have hne : d.name ≠ x := fun heq => hx (heq ▸ hd)
      rw [hu, find?_declaration_of_ne hne]
  | @retyped before after d d' hu hname hd =>
      have hne : d.name ≠ x := fun heq => hx (heq ▸ hd)
      rw [hu, find?_declaration_of_ne hne, find?_declaration_of_ne (hname ▸ hne)]

/-- `v[] = n` compiles the same without the declaration of `unused`, which nothing reads. -/
theorem compile_of_redeclares_unused :
    let v : Declaration := { name := "v", type := .dynamic }
    let n : Declaration := { name := "n", type := .int }
    let unused : Declaration := { name := "unused", type := .double }
    let u : CompilationUnit :=
      { declarations := [v, unused, n]
        statements :=
          [{ assignments :=
            [{ target := .append, destination := "v", source := some (.var "n") }] }] }
    ∃ out, u.compile = .ok out ∧
      out.lines = ["ZVAL_LONG(_0, n);", "zephir_array_append(&v, _0, PH_SEPARATE);"] ∧
      { u with declarations := [v, n] }.compile = .ok out := by
  intro v n unused u
  have hcompiled : ∃ out, u.compile = .ok out ∧
      out.lines = ["ZVAL_LONG(_0, n);", "zephir_array_append(&v, _0, PH_SEPARATE);"] := by
    simp only [u, v, n, unused]
    exact ⟨_, rfl, by decide⟩
  obtain ⟨out, hrun, hlines⟩ := hcompiled
  have hunused : u.Ignores unused.name := by
    constructor
    · rintro ⟨a, ha, hx⟩
      simp only [u, assignments, List.flatMap_cons, List.flatMap_nil, List.append_nil,
        List.mem_singleton] at ha
      subst ha
      obtain hx | ⟨e, he, hmention⟩ | ⟨i, hi, -⟩ := hx
      · exact absurd hx (by decide)
      · cases he
        exact absurd hmention (by decide)
      · cases hi
    · intro k hk
      have hfirst := congrArg (fun name => name.toList.head?) hk
      simp [u, unused] at hfirst
  have hedit : u.Redeclares [v, n] := @Redeclares.removed u [v] [n] unused rfl hunused
  exact ⟨out, hrun, hlines, (compile_of_redeclares hedit).trans hrun⟩

end CompilationUnit

end BoxedLet
