import BoxedLet.Proofs.LineText
import BoxedLet.Proofs.Runs

/-!
# BoxedLet.Proofs.StatementShape

**Every emitted line is one complete statement**, lexically: it is one line, its literals and
parentheses are closed, and the only semicolon outside of literals is its last character.

`Context.WellSpelled` is the invariant of a run. It asks of the names that emitted text is made of
only that they consist of word characters; literals, property names and function names are escaped
and may be anything.
-/

namespace BoxedLet

open Lexical

/-! ### Lines -/

/-- The text is a single line, closes what it opens, and has one semicolon, at its end. -/
structure Lexical.IsStatement (line : String) : Prop where
  unbroken : ∀ c ∈ line.toList, isLineBreak c = false
  closed : scan? {} line.toList = some { semicolons := 1 }
  last : line.toList.getLast? = some ';'

theorem isBlank_iff {c : Char} : isBlank c = true ↔ c = ' ' ∨ c = '\t' := by
  simp [isBlank]

/-- A text that lexes becomes a statement by a semicolon, whatever blanks stand before it. -/
theorem Lexical.Lexes.isStatement {N : List Char → Prop} {margin body : String}
    (hmargin : margin.toList.all isBlank = true) (h : Lexes N body) :
    IsStatement (margin ++ (body ++ ";")) := by
  have hblank : ∀ c ∈ margin.toList, c = ' ' ∨ c = '\t' :=
    fun c hc => isBlank_iff.mp (List.all_eq_true.mp hmargin c hc)
  have htext : (margin ++ (body ++ ";")).toList = margin.toList ++ (body.toList ++ [';']) := by
    simp
  refine ⟨fun c hc => ?_, ?_, ?_⟩
  · rw [htext] at hc
    have hc : c ∈ margin.toList ∨ c ∈ body.toList ∨ c = ';' := by simpa using hc
    rcases hc with hc | hc | rfl
    · rcases hblank c hc with rfl | rfl <;> decide
    · exact h.unbroken c hc
    · decide
  · have hinert : ∀ c ∈ margin.toList, isInert c = true := by
      intro c hc
      rcases hblank c hc with rfl | rfl <;> decide
    rw [htext, scan?_append, scan?_inert hinert, Option.bind_some, scan?_append, h.closed]
    rfl
  · rw [htext, ← List.append_assoc]
    exact List.getLast?_concat

/-- A text of word characters lexes, be it empty or not. -/
theorem isSpelled_lexes {s : String} (h : isSpelled s = true) : Lexes (fun _ => True) s := by
  cases hs : s.toList.isEmpty with
  | true =>
      obtain rfl : s = "" := String.toList_injective (List.isEmpty_iff.mp hs)
      exact .fixed (by decide)
  | false =>
      have hword : isWord s = true := by rw [isWord, hs, Bool.not_false, Bool.true_and]; exact h
      exact .word hword (.inr trivial)

/-! ### The invariant of a run -/

/-- All that emitted text is made of is spelled with word characters, and so far it lexes. -/
structure Context.WellSpelled (ctx : Context) : Prop where
  kernelPrefix : isSpelled ctx.options.kernelPrefix = true
  named : ctx.Named (isSpelled · = true)
  code : ∀ i ∈ ctx.code, Lexes (fun _ => True) (i.body ctx.options)

namespace Context.WellSpelled

variable {ctx ctx' : Context} {a : Assignment} {emitted : List Instr}

/-- **A call keeps the invariant.** -/
theorem advances (h : ctx.WellSpelled) (hadv : ctx.Advances a ctx' emitted) :
    ctx'.WellSpelled := by
  have hkernel : isSpelled ctx'.options.kernelPrefix = true := hadv.options ▸ h.kernelPrefix
  have hnamed := h.named.advances hadv
  refine ⟨hkernel, hnamed, fun i hi => ?_⟩
  have hwritten := isSpelled_lexes (hnamed.written i hi)
  rw [hadv.code] at hi
  rcases List.mem_append.mp hi with hi | hi
  · exact hadv.options ▸ h.code i hi
  · exact (hadv.typed i hi).1.lexes (List.all_eq_true.mp hkernel)
      (fun p t hp => isSpelled_lexes (hnamed.render hp)) hwritten

/-- **A run keeps the invariant.** -/
theorem attempts (h : ctx.WellSpelled) (calls : List Assignment) :
    (ctx.attempts calls).WellSpelled := by
  refine Context.attempts_induction (fun ctx a h => ?_) calls h
  obtain ⟨emitted, hadv⟩ := ctx.attempt_advances a
  exact h.advances hadv

/-- The invariant holds before anything is lowered. -/
theorem initial {options : Options} {classDef : Option ClassDef} {declarations : List Declaration}
    (hkernel : isSpelled options.kernelPrefix = true)
    (hreceiver : isSpelled options.receiverSymbol = true)
    (htemp : isSpelled options.tempPrefix = true)
    (hnames : ∀ d ∈ declarations, isSpelled d.name = true) :
    (Context.initial options classDef declarations).WellSpelled := by
  have hstart := Context.initial_starts options classDef declarations
  have htemps : ∀ t : SymbolTable, t.tempPrefix = options.tempPrefix →
      ∀ n, t.IsTempName n → isSpelled n = true := by
    intro t ht n hn
    have hword := SymbolTable.isWord_of_isTempName (ht ▸ htemp) hn
    exact (Bool.and_eq_true_iff.mp hword).2
  refine ⟨hstart.options.symm ▸ hkernel, .initial hreceiver htemps hnames, ?_⟩
  rw [hstart.code]
  simp

/-- The lines of such a state are statements. -/
theorem isStatement (h : ctx.WellSpelled) (hindent : ctx.options.indent.toList.all isBlank = true) :
    ∀ line ∈ ctx.lines, IsStatement line := by
  intro line hline
  rw [Context.lines_eq] at hline
  obtain ⟨i, hi, rfl⟩ := List.mem_map.mp hline
  exact (h.code i hi).isStatement (repeated_isBlank hindent _)

end Context.WellSpelled

/-- **Every line of a compiled function body is one complete statement**, as long as prefixes, the
name of the receiver in emitted code and declared names consist of letters, digits and underscores
and lines are indented by blanks. Nothing is asked of literals, properties and functions. -/
theorem compiled_lines_are_statements {u : CompilationUnit} {out : Compiled}
    (hkernel : isSpelled u.options.kernelPrefix = true)
    (htemp : isSpelled u.options.tempPrefix = true)
    (hreceiver : isSpelled u.options.receiverSymbol = true)
    (hindent : u.options.indent.toList.all isBlank = true)
    (hnames : ∀ d ∈ u.declarations, isSpelled d.name = true) (hrun : u.compile = .ok out) :
    ∀ line ∈ out.lines, IsStatement line := by
  unfold CompilationUnit.compile at hrun
  have hstart := Context.initial_starts u.options u.classDef u.declarations
  have hspelled : (Context.initial u.options u.classDef u.declarations).WellSpelled :=
    .initial hkernel hreceiver htemp hnames
  cases hlower : lowerStatements u.statements (.initial u.options u.classDef u.declarations) with
  | error e ctx =>
      rw [hlower] at hrun
      cases hrun
  | ok u ctx =>
      rw [hlower] at hrun
      obtain rfl := lowerStatements_ok hlower
      obtain rfl : Context.compiled _ = out := Except.ok.inj hrun
      refine (hspelled.attempts _).isStatement ?_
      rw [Context.attempts_options, hstart.options]
      exact hindent

/-- A string literal, a character literal, a property and a function whose names are made of all
that could break a line, in a method whose receiver has a source name that is no word. -/
theorem compiled_lines_are_statements_hostile :
    let u : CompilationUnit :=
      { options := { implicitReceiver := "a)b;" }
        classDef := some { name := "C", properties := [");\n\"("] }
        declarations := [{ name := "v", type := .dynamic }, { name := "c", type := .char }]
        statements :=
          [{ assignments :=
            [{ target := .whole, destination := "c", source := some (.char '\'') },
              { target := .property ");\n\"(", destination := "a)b;",
                source := some (.call "f);\\" [.string "\"; (\r"]) }] }] }
    ∃ out, u.compile = .ok out ∧
      out.lines = ["c = '\\'';", "ZVAL_STRING(_0, \"\\\"; (\\r\", 1);",
        "ZEPHIR_CALL_FUNCTION(_1, \"f);\\\\\", _0);",
        "zephir_update_property_this(this_ptr, SL(\");\\n\\\"(\"), _1);"] ∧
      ∀ line ∈ out.lines, IsStatement line := by
  intro u
  have hlines : u.compile.toOption.map Compiled.lines = some ["c = '\\'';",
      "ZVAL_STRING(_0, \"\\\"; (\\r\", 1);", "ZEPHIR_CALL_FUNCTION(_1, \"f);\\\\\", _0);",
      "zephir_update_property_this(this_ptr, SL(\");\\n\\\"(\"), _1);"] := by
    decide +kernel
  cases hrun : u.compile with
  | error e =>
      rw [hrun] at hlines
      cases hlines
  | ok out =>
      rw [hrun] at hlines
      refine ⟨out, rfl, Option.some.inj hlines, ?_⟩
      exact compiled_lines_are_statements (by decide) (by decide) (by decide) (by decide)
        (by decide) hrun

end BoxedLet
