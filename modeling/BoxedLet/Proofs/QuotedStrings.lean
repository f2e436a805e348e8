import BoxedLet.Proofs.LiteralValue
import BoxedLet.Proofs.StatementShape

/-!
# BoxedLet.Proofs.QuotedStrings

**The string literals of emitted code.** `Lexical.literals` finds the string literals of a line, and
`Instr.strings` says which strings an instruction quotes: the body of a literal, a key, a property
or a function. The two agree (`Instr.WellTyped.literals_body`), so that a line has no literal but
those of its instruction, each with the body that is written for its string.
-/

namespace BoxedLet

namespace Lexical

/-! ### The literals of a text -/

/-- Puts a character in front of the first body. -/
def prepend (c : Char) : List (List Char) → List (List Char)
  | [] => []
  | body :: bodies => (c :: body) :: bodies

/-- The bodies of the string literals of a text; inside of one, first what is left of its body.
Character literals are passed over. -/
def bodies : Mode → List Char → List (List Char)
  | .plain, [] => []
  | .quoted q, [] | .escaped q, [] => if q = '"' then [[]] else []
  | .plain, c :: cs => bodies (Mode.next .plain c) cs
  | .quoted q, c :: cs =>
    if q ≠ '"' then bodies (Mode.next (.quoted q) c) cs
    else if c = '"' then [] :: bodies .plain cs
    else prepend c (bodies (Mode.next (.quoted q) c) cs)
  | .escaped q, c :: cs =>
    if q ≠ '"' then bodies (.quoted q) cs else prepend c (bodies (.quoted q) cs)

/-- The bodies of the string literals of a text. -/
def literals (text : String) : List String :=
  (bodies .plain text.toList).map String.ofList

/-- Inside of a string literal there is something left of it. -/
theorem bodies_ne_nil {m : Mode} (h : m = .quoted '"' ∨ m = .escaped '"') (cs : List Char) :
    bodies m cs ≠ [] := by
  have hprepend : ∀ (c : Char) {bs : List (List Char)}, bs ≠ [] → prepend c bs ≠ [] := by
    intro c bs hbs
    cases bs with
    | nil => exact absurd rfl hbs
    | cons b bs => exact List.cons_ne_nil _ _
  induction cs generalizing m with
  | nil => rcases h with rfl | rfl <;> simp [bodies]
  | cons c cs ih =>
      rcases h with rfl | rfl
      · by_cases hc : c = '"'
        · simp [bodies, hc]
        · have hnext : Mode.next (.quoted '"') c = .quoted '"' ∨
              Mode.next (.quoted '"') c = .escaped '"' := by
            by_cases hslash : c = '\\' <;> simp [Mode.next, hslash, hc]
          simpa [bodies, hc] using hprepend c (ih hnext)
      · simpa [bodies] using hprepend c (ih (.inl rfl))

/-- **Two texts side by side**, the first of which leaves no literal open. -/
theorem bodies_append {m : Mode} {xs : List Char} (h : endMode m xs = .plain) (ys : List Char) :
    bodies m (xs ++ ys) = bodies m xs ++ bodies .plain ys := by
  have hprepend : ∀ (c : Char) {bs : List (List Char)} (cs : List (List Char)), bs ≠ [] →
      prepend c (bs ++ cs) = prepend c bs ++ cs := by
    intro c bs cs hbs
    cases bs with
    | nil => exact absurd rfl hbs
    | cons b bs => rfl
  induction xs generalizing m with
  | nil =>
      obtain rfl : m = .plain := h
      rfl
  | cons c cs ih =>
      have hrest := ih (m := m.next c) h
      cases m with
      | plain => simpa [bodies] using hrest
      | quoted q =>
          by_cases hq : q = '"'
          · subst hq
            by_cases hc : c = '"'
            · subst hc
              simpa [bodies, Mode.next] using hrest
            · have hnext : Mode.next (.quoted '"') c = .quoted '"' ∨
                  Mode.next (.quoted '"') c = .escaped '"' := by
                by_cases hslash : c = '\\' <;> simp [Mode.next, hslash, hc]
              have hne := bodies_ne_nil hnext cs
              simp only [List.cons_append, bodies, hc, ne_eq, not_true_eq_false, if_false]
              rw [hrest, hprepend c _ hne]
          · simpa [bodies, hq] using hrest
      | escaped q =>
          by_cases hq : q = '"'
          · subst hq
            have hne : bodies (.quoted '"') cs ≠ [] := bodies_ne_nil (.inl rfl) cs
            have hrest : bodies (.quoted '"') (cs ++ ys) =
                bodies (.quoted '"') cs ++ bodies .plain ys := hrest
            simp only [List.cons_append, bodies, ne_eq, not_true_eq_false, if_false]
            rw [hrest, hprepend c _ hne]
          · simpa [bodies, hq, Mode.next] using hrest

/-- A text without quotes has no literals. -/
theorem bodies_bare {cs : List Char} (h : ∀ c ∈ cs, isQuote c = false) : bodies .plain cs = [] := by
  induction cs with
  | nil => rfl
  | cons c cs ih =>
      have hc : isQuote c = false := h c (by simp)
      rw [bodies, Mode.next, if_neg (by simp [hc])]
      exact ih fun d hd => h d (by simp [hd])

/-- An escaped body, up to its quote. -/
theorem bodies_escapeChars (cs rest : List Char) :
    bodies (.quoted '"') (Text.escapeChars '"' cs ++ '"' :: rest) =
      Text.escapeChars '"' cs :: bodies .plain rest := by
  induction cs with
  | nil => simp [bodies]
  | cons c cs ih =>
      rw [Text.escapeChars_cons, List.append_assoc]
      unfold Text.escapeChar
      cases hletter : Text.escapeLetter? '"' c with
      | some letter => simp [bodies, Mode.next, ih, prepend]
      | none =>
          obtain ⟨hquote, hslash, -⟩ := escapeLetter?_eq_none hletter
          simp [bodies, Mode.next, hquote, hslash, ih, prepend]

/-- A character literal is passed over. -/
theorem bodies_character (cs rest : List Char) :
    bodies (.quoted '\'') (Text.escapeChars '\'' cs ++ '\'' :: rest) = bodies .plain rest := by
  induction cs with
  | nil => simp [bodies, Mode.next]
  | cons c cs ih =>
      rw [Text.escapeChars_cons, List.append_assoc]
      unfold Text.escapeChar
      cases hletter : Text.escapeLetter? '\'' c with
      | some letter => simpa [bodies, Mode.next] using ih
      | none =>
          obtain ⟨hquote, hslash, -⟩ := escapeLetter?_eq_none hletter
          simpa [bodies, Mode.next, hquote, hslash] using ih

theorem literals_quoted (s : String) :
    literals (Text.quoted (Text.stringBody s)) = [Text.stringBody s] := by
  rw [literals, quoted_stringBody, String.toList_ofList, List.cons_append, bodies]
  show (bodies (.quoted '"') (Text.escapeChars '"' s.toList ++ ['"'])).map String.ofList = _
  rw [bodies_escapeChars]
  rfl

theorem literals_charLiteral (c : Char) : literals (Text.charLiteral c) = [] := by
  rw [literals, charLiteral_eq, String.toList_ofList, List.cons_append, bodies]
  show (bodies (.quoted '\'') (Text.escapeChars '\'' [c] ++ ['\''])).map String.ofList = _
  rw [bodies_character]
  rfl

/-- A text without quotes. -/
def isBare (s : String) : Bool :=
  s.toList.all fun c => !isQuote c

theorem literals_bare {s : String} (h : isBare s = true) : literals s = [] := by
  have hquotes : ∀ c ∈ s.toList, isQuote c = false := by
    intro c hc
    simpa using List.all_eq_true.mp h c hc
  rw [literals, bodies_bare hquotes]
  rfl

theorem isBare_of_isSpelled {s : String} (h : isSpelled s = true) : isBare s = true := by
  refine List.all_eq_true.mpr fun c hc => ?_
  simp [isQuote_of_isWordChar (List.all_eq_true.mp h c hc)]

section Texts

variable {N : List Char → Prop} {a : String}

theorem literals_append (ha : Lexes N a) (b : String) :
    literals (a ++ b) = literals a ++ literals b := by
  rw [literals, String.toList_append, bodies_append ha.ends, List.map_append]
  rfl

/-- A text before one without quotes. -/
theorem literals_before (ha : Lexes N a) {b : String} (hb : isBare b = true) :
    literals (a ++ b) = literals a := by
  rw [literals_append ha, literals_bare hb, List.append_nil]

/-- A text after one without quotes. -/
theorem literals_after {lead : String} (hlead : isBare lead = true) (b : String) :
    literals (lead ++ b) = literals b := by
  have hquotes : ∀ c ∈ lead.toList, isQuote c = false := by
    intro c hc
    simpa using List.all_eq_true.mp hlead c hc
  have hends : endMode .plain lead.toList = .plain := by
    generalize lead.toList = cs at hquotes
    induction cs with
    | nil => rfl
    | cons c cs ih =>
        have hc : isQuote c = false := hquotes c (by simp)
        rw [endMode_cons, Mode.next, if_neg (by simp [hc])]
        exact ih fun d hd => hquotes d (by simp [hd])
  rw [literals, String.toList_append, bodies_append hends, bodies_bare hquotes, List.nil_append]
  rfl

theorem literals_parens (ha : Lexes N a) : literals ("(" ++ a ++ ")") = literals a := by
  rw [String.append_assoc, literals_after (by decide), literals_before ha (by decide)]

theorem literals_sep (ha : Lexes N a) {s : String} (hs : isBare s = true) (b : String) :
    literals (a ++ s ++ b) = literals a ++ literals b := by
  rw [String.append_assoc, literals_append ha, literals_after hs]

theorem literals_intercalate {args : List String} (h : ∀ arg ∈ args, Lexes N arg) :
    literals (String.intercalate ", " args) = args.flatMap literals := by
  induction args with
  | nil => rfl
  | cons a rest ih =>
      have ha : Lexes N a := h a (by simp)
      have hrest := ih fun arg harg => h arg (by simp [harg])
      cases rest with
      | nil => simp
      | cons b rest =>
          rw [String.intercalate_cons_cons, literals_sep ha (by decide), hrest]
          rfl

/-- **The literals of an invocation are those of its arguments.** -/
theorem literals_invocation {name : String} {args : List String} (hname : isBare name = true)
    (hargs : ∀ arg ∈ args, Lexes N arg) :
    literals (invocation name args) = args.flatMap literals := by
  rw [invocation_eq, literals_after hname, literals_parens (.intercalate hargs),
    literals_intercalate hargs]

end Texts

theorem isBare_of_isNumeral {s : String} (h : ∀ c ∈ s.toList, isNumeral c = true) :
    isBare s = true := by
  refine List.all_eq_true.mpr fun c hc => ?_
  have hne : ∀ q : Char, isNumeral q = false → c ≠ q := by
    intro q hq hcq
    exact absurd (hcq ▸ h c hc) (by simp [hq])
  simp [isQuote, hne '"' (by decide), hne '\'' (by decide)]

end Lexical

open Lexical

/-! ### What an instruction quotes -/

/-- The string that the body of a literal is written for. An empty body is written for null, too. -/
def Code.quoted : Code → List String
  | .stringBody s => [s]
  | .blank => [""]
  | _ => []

/-- The strings that the content of a box quotes. -/
def BoxContent.strings : BoxContent → List String
  | .string body => body.quoted
  | .null | .emptyArray | .buffer _ | .scalar _ _ => []

/-- The strings that a key quotes. -/
def Key.strings : Key → List String
  | .literal body => body.quoted
  | .long _ | .buffer _ | .boxed _ => []

/-- The strings that the source of a native string quotes: a literal twice, the second time for its
length. -/
def StringSource.strings : StringSource → List String
  | .literal body => body.quoted ++ body.quoted
  | .char _ | .long _ | .buffer _ => []

/-- The strings that an instruction quotes, from left to right. -/
def Instr.strings : Instr → List String
  | .build _ _ content => content.strings
  | .writeString _ _ source => source.strings
  | .call _ name _ => [name]
  | .fetch _ _ key | .update _ key _ => key.strings
  | .readProperty _ _ property | .setProperty _ property _ | .appendProperty _ property _
  | .updateProperty _ property _ _ => [property]
  | .store _ _ _ | .step _ _ | .init _ _ | .separate _ | .copy _ _ | .inPlace _ _ _ | .bump _ _ _
  | .boxed _ _ _ _ | .append _ _ => []

section Texts

variable {N : List Char → Prop} {o : Options}
  (hkernel : ∀ c ∈ o.kernelPrefix.toList, isWordChar c = true) {Γ : Typing}
  (hΓ : ∀ p t, Γ p t → isSpelled (p.render o) = true)

theorem isBare_of_isRuntimePart {s : String} (h : isRuntimePart s = true) : isBare s = true := by
  have hword := (Bool.and_eq_true_iff.mp h).1
  exact isBare_of_isSpelled (Bool.and_eq_true_iff.mp hword).2

theorem Code.IsBody.literals {c : Code} (hc : c.IsBody) :
    literals (Text.quoted (c.render o)) = c.quoted.map Text.stringBody := by
  cases c with
  | stringBody s => exact literals_quoted s
  | blank => exact literals_quoted ""
  | _ => exact hc.elim

theorem sizedLiteral_literals {body : String} (h : Lexes N (Text.quoted body)) :
    literals (sizedLiteral body) = literals (Text.quoted body) := by
  rw [sizedLiteral, literals_invocation (by decide) (by simpa using h)]
  simp

theorem property_literals (property : String) :
    literals (sizedLiteral (Text.stringBody property)) = [Text.stringBody property] := by
  rw [sizedLiteral_literals (N := fun _ => True) (quoted_lexes property), literals_quoted]

section Operands

include hΓ

theorem Code.IsBox.literals {c : Code} (hc : c.IsBox Γ) : literals (c.render o) = [] := by
  cases c with
  | place p => exact literals_bare (isBare_of_isSpelled (hΓ p _ hc))
  | _ => exact hc.elim

theorem Code.IsBuffer.literals {c : Code} (hc : c.IsBuffer Γ) :
    (bufferArgs (c.render o)).flatMap Lexical.literals = [] := by
  cases c with
  | place p =>
      cases p with
      | var x =>
          have hx : isBare (Place.render o (.var x)) = true := isBare_of_isSpelled (hΓ _ _ hc)
          have hstr : Lexical.literals ((Code.place (.var x)).render o ++ "->str") = [] :=
            (literals_after hx _).trans (by decide)
          have hlen : Lexical.literals ((Code.place (.var x)).render o ++ "->len") = [] :=
            (literals_after hx _).trans (by decide)
          simp [bufferArgs, hstr, hlen]
      | temp n => exact hc.elim
  | _ => exact hc.elim

end Operands

theorem symbol_isBare (op : BinaryOp) : isBare (" " ++ op.symbol ++ " ") = true := by
  cases op with
  | arith op => cases op <;> decide
  | concat => decide
  | compare op => cases op <;> decide
  | connect op => cases op <;> decide

theorem Instr.token_isBare (op : NativeOp) : isBare (" " ++ op.token ++ " ") = true := by
  cases op <;> decide

include hkernel hΓ

/-- Native code has no string literals. -/
theorem Code.IsScalar.literals {c : Code} (hc : c.IsScalar Γ) : literals (c.render o) = [] := by
  have hplace : ∀ p t, Γ p t → Lexes (fun _ => True) (p.render o) :=
    fun p t hp => isSpelled_lexes (hΓ p t hp)
  have hlexes : ∀ {c : Code}, c.IsScalar Γ → Lexes (fun _ => True) (c.render o) :=
    Code.IsScalar.lexes hkernel hplace
  have hbox : ∀ {c : Code}, c.IsBox Γ → Lexes (fun _ => True) (c.render o) :=
    Code.IsBox.lexes hplace
  have hnone : ∀ {c : Code}, c.IsBox Γ → Lexical.literals (c.render o) = [] :=
    Code.IsBox.literals hΓ
  induction c with
  | place p =>
      -- The texts of places and numbers have neither quotes nor backslashes in them.
      obtain ⟨t, hp, -⟩ := hc
      exact literals_bare (isBare_of_isSpelled (hΓ p t hp))
  | truth b =>
      have htext : ∀ b : Bool, isBare (if b then "true" else "false") = true := by decide
      exact literals_bare (htext b)
  | bit b =>
      have htext : ∀ b : Bool, isBare (if b then "1" else "0") = true := by decide
      exact literals_bare (htext b)
  | zero b =>
      have htext : ∀ b : Bool, isBare (if b then "0.0" else "0") = true := by decide
      exact literals_bare (htext b)
  | long n => exact literals_bare (isBare_of_isNumeral (intText_isNumeral n.toInt))
  | double x => exact literals_bare (isBare_of_isNumeral (doubleText_isNumeral x))
  | char c => exact literals_charLiteral c
  | binary op l r ihl ihr =>
      have hinner := (hlexes hc.1).sep _ (isSeparator_of_isDivider (symbol_isDivider op))
        (hlexes hc.2)
      rw [render_binary, literals_parens hinner, literals_sep (hlexes hc.1) (symbol_isBare op),
        ihl hc.1, ihr hc.2]
      rfl
  | not c ih =>
      have hc : c.IsScalar Γ := hc
      rw [render_not, literals_after (by decide), literals_parens (hlexes hc)]
      exact ih hc
  | cast kind grouped c ih =>
      have hc : c.IsScalar Γ := hc
      have hkind : isBare (kind.text ++ " ") = true := by cases kind <;> decide
      have hparens := literals_parens (hlexes hc)
      rw [render, literals_after hkind]
      cases grouped with
      | true => exact hparens.trans (ih hc)
      | false => exact ih hc
  | nonZero c ih =>
      have hc : c.IsScalar Γ := hc
      rw [render_nonZero, literals_before (hlexes hc).parens (by decide),
        literals_parens (hlexes hc)]
      exact ih hc
  | compare op l r =>
      have hname : isRuntimePart op.boxedMacro = true := by cases op <;> decide
      have htest : Lexical.literals
          (invocation (o.kernelMacro op.boxedMacro) [l.render o, r.render o]) = [] := by
        have hmacro := isBare_of_isRuntimePart (kernelMacro_isRuntimePart hkernel hname)
        rw [literals_invocation hmacro (by simpa using ⟨hbox hc.1, hbox hc.2⟩)]
        simp [hnone hc.1, hnone hc.2]
      unfold render
      dsimp only
      split
      · exact (literals_after (by decide) _).trans htest
      · exact htest
  | isTrue c =>
      have hname : isRuntimePart "is_true" = true := by decide
      have hfunction := isBare_of_isRuntimePart (kernelFunction_isRuntimePart hkernel hname)
      rw [render, literals_invocation hfunction (by simpa using hbox hc)]
      simpa using hnone hc
  | verbatim _ | null | stringBody _ | blank | coerce _ _ => exact hc.elim

theorem Code.IsCoercion.literals {kind : Coercion} {c : Code} (hc : c.IsCoercion Γ kind) :
    literals (c.render o) = [] := by
  cases c with
  | coerce k c =>
      have hname : isRuntimePart k.function = true := by cases k <;> decide
      have hfunction := isBare_of_isRuntimePart (kernelFunction_isRuntimePart hkernel hname)
      have hlexes : Lexes (fun _ => True) (c.render o) :=
        Code.IsBox.lexes (fun p t hp => isSpelled_lexes (hΓ p t hp)) hc.2
      rw [render, literals_invocation hfunction (by simpa using hlexes)]
      simpa using Code.IsBox.literals hΓ hc.2
  | _ => exact hc.elim

theorem BoxContent.WellTyped.literals {content : BoxContent} (hc : content.WellTyped Γ) :
    (content.args o).flatMap Lexical.literals = content.strings.map Text.stringBody := by
  have hone : Lexical.literals "1" = [] := by decide
  cases content with
  | null | emptyArray => rfl
  | string body => simp [BoxContent.args, BoxContent.strings, Code.IsBody.literals hc, hone]
  | buffer source =>
      simp [BoxContent.args, BoxContent.strings, Code.IsBuffer.literals hΓ hc, hone]
  | scalar kind value =>
      simp [BoxContent.args, BoxContent.strings, Code.IsScalar.literals hkernel hΓ hc]

theorem Key.WellTyped.literals {key : Key} (hk : key.WellTyped Γ) :
    (key.args o).flatMap Lexical.literals = key.strings.map Text.stringBody := by
  cases key with
  | long value => simp [Key.args, Key.strings, Code.IsScalar.literals hkernel hΓ hk]
  | literal body =>
      have hlexes : Lexes (fun _ => True) (Text.quoted (body.render o)) := Code.IsBody.lexes hk
      simp [Key.args, Key.strings, sizedLiteral_literals hlexes, Code.IsBody.literals hk]
  | buffer source => simp [Key.args, Key.strings, Code.IsBuffer.literals hΓ hk]
  | boxed value => simp [Key.args, Key.strings, Code.IsBox.literals hΓ hk]

theorem StringSource.WellTyped.literals {source : StringSource} (hs : source.WellTyped Γ) :
    (source.args o).flatMap Lexical.literals = source.strings.map Text.stringBody := by
  cases source with
  | char value =>
      simp [StringSource.args, StringSource.strings, Code.IsScalar.literals hkernel hΓ hs]
  | long value =>
      have hnone : Lexical.literals (value.render o) = [] :=
        hs.elim (Code.IsScalar.literals hkernel hΓ) (Code.IsCoercion.literals hkernel hΓ)
      simp [StringSource.args, StringSource.strings, hnone]
  | buffer source =>
      simp [StringSource.args, StringSource.strings, Code.IsBuffer.literals hΓ hs]
  | literal body =>
      have hlexes : Lexes (fun _ => True) (Text.quoted (body.render o)) := Code.IsBody.lexes hs
      have hsize : Lexical.literals (invocation "sizeof" [Text.quoted (body.render o)] ++ "-1") =
          body.quoted.map Text.stringBody := by
        have hargs : ∀ arg ∈ [Text.quoted (body.render o)], Lexes (fun _ => True) arg := by
          simpa using hlexes
        rw [literals_before (invocation_lexes (by decide) hargs) (by decide),
          literals_invocation (by decide) hargs]
        simp [Code.IsBody.literals hs]
      simp [StringSource.args, StringSource.strings, Code.IsBody.literals hs, hsize]

/-- The literals among the arguments of a primitive. -/
theorem Instr.WellTyped.args_literals {i : Instr} (hi : i.WellTyped Γ) {f : String} {byRef : Bool}
    {args : List String} (h : i.invoked o = some (f, byRef, args)) :
    args.flatMap Lexical.literals = i.strings.map Text.stringBody := by
  have hbox : ∀ {c : Code}, c.IsBox Γ → Lexical.literals (c.render o) = [] :=
    Code.IsBox.literals hΓ
  have hwords : Lexical.literals "PH_NOISY_CC" = [] ∧ Lexical.literals "PH_NOISY" = [] ∧
      Lexical.literals "PH_SEPARATE" = [] ∧ Lexical.literals "PH_COPY | PH_SEPARATE" = [] := by
    decide
  obtain ⟨hnoisyAccess, hnoisy, hseparate, hcopy⟩ := hwords
  have hargs : (i.invoked o).map (fun call => call.2.2) = some args := by
    rw [h]
    rfl
  cases i with
  | store dst op value | step dst direction => simp [Instr.invoked] at h
  | init dst first | separate dst | bump dst inFrame direction =>
      obtain rfl := Option.some.inj hargs
      rfl
  | build dst inFrame content =>
      obtain rfl := Option.some.inj hargs
      exact BoxContent.WellTyped.literals hkernel hΓ hi
  | copy dst source | inPlace dst op source =>
      obtain rfl := Option.some.inj hargs
      simpa [Instr.strings] using hbox hi
  | writeString dst mode source =>
      obtain rfl := Option.some.inj hargs
      exact StringSource.WellTyped.literals hkernel hΓ hi
  | boxed dst op l r =>
      obtain rfl := Option.some.inj hargs
      simp [Instr.strings, hbox hi.1, hbox hi.2]
  | call dst name args =>
      obtain rfl := Option.some.inj hargs
      have hboxes : (args.map (Code.render o)).flatMap Lexical.literals = [] := by
        rw [List.flatMap_map, List.flatMap_eq_nil_iff]
        exact fun c hc => hbox (hi c hc)
      rw [List.flatMap_cons, literals_quoted, hboxes]
      rfl
  | readProperty dst object property =>
      obtain rfl := Option.some.inj hargs
      simp [Instr.strings, hbox hi, property_literals, hnoisyAccess]
  | fetch dst array key =>
      obtain rfl := Option.some.inj hargs
      simp [Instr.strings, hbox hi.1, Key.WellTyped.literals hkernel hΓ hi.2, hnoisy]
  | append dst value =>
      obtain rfl := Option.some.inj hargs
      simp [Instr.strings, hbox hi, hseparate]
  | update dst key value =>
      obtain rfl := Option.some.inj hargs
      have hvalue : Lexical.literals ("&" ++ value.render o) = [] :=
        (literals_after (by decide) _).trans (hbox hi.2)
      simp [Instr.strings, Key.WellTyped.literals hkernel hΓ hi.1, hvalue, hcopy]
  | setProperty dst property value | appendProperty dst property value =>
      obtain rfl := Option.some.inj hargs
      simp [Instr.strings, property_literals, hbox hi]
  | updateProperty dst property key value =>
      obtain rfl := Option.some.inj hargs
      simp [Instr.strings, property_literals, hbox hi.1, hbox hi.2]

/-- **The literals of an instruction** are those of the strings that it quotes. -/
theorem Instr.WellTyped.literals_body {i : Instr} (hi : i.WellTyped Γ)
    (hdst : isSpelled (i.written.render o) = true) :
    literals (i.body o) = i.strings.map Text.stringBody := by
  have hwritten : isBare (i.written.render o) = true := isBare_of_isSpelled hdst
  cases h : i.invoked o with
  | some call =>
      obtain ⟨f, byRef, args⟩ := call
      have hname := isBare_of_isRuntimePart (Instr.isRuntimePart_of_invoked hkernel h)
      -- The written location comes first, as it is or by reference, and has no literals.
      have hoperand : Lexes (fun _ => True) (i.written.boxOperand o byRef) ∧
          literals (i.written.boxOperand o byRef) = [] := by
        have hlexes : Lexes (fun _ => True) (i.written.render o) := isSpelled_lexes hdst
        cases byRef with
        | true =>
            exact ⟨hlexes.after "&" (by decide),
              (literals_after (by decide) _).trans (literals_bare hwritten)⟩
        | false => exact ⟨hlexes, literals_bare hwritten⟩
      have hargs := hi.args_lexes (N := fun _ => True) hkernel
        (fun p t hp => isSpelled_lexes (hΓ p t hp)) h
      have hall : ∀ arg ∈ i.written.boxOperand o byRef :: args, Lexes (fun _ => True) arg := by
        simpa using ⟨hoperand.1, hargs⟩
      rw [Instr.body_of_invoked h, literals_invocation hname hall, List.flatMap_cons, hoperand.2,
        List.nil_append]
      exact hi.args_literals hkernel hΓ h
  | none =>
      cases i with
      | store dst op value =>
          have hwritten : isBare (dst.render o) = true := hwritten
          have hvalue : literals (value.render o) = [] := by
            rcases hi with hi | hi | hi
            · exact Code.IsScalar.literals hkernel hΓ hi
            · exact Code.IsCoercion.literals hkernel hΓ hi
            · exact Code.IsCoercion.literals hkernel hΓ hi
          rw [Instr.body_store, String.append_assoc, literals_after hwritten,
            literals_after (Instr.token_isBare op), hvalue]
          rfl
      | step dst direction =>
          have hwritten : isBare (dst.render o) = true := hwritten
          have htoken : isBare direction.token = true := by cases direction <;> decide
          rw [Instr.body, literals_after hwritten, literals_bare htoken]
          rfl
      | _ => exact absurd h (by simp [Instr.invoked])

end Texts

/-- The literals of a line are those of its instruction. -/
theorem Instr.literals_line {N : List Char → Prop} {o : Options} {i : Instr}
    (hindent : o.indent.toList.all isBlank = true) (hi : Lexes N (i.body o)) :
    literals (i.line o) = literals (i.body o) := by
  have hmargin : isBare (repeated o.indent o.indentLevel.toNat) = true := by
    refine List.all_eq_true.mpr fun c hc => ?_
    have hblank := List.all_eq_true.mp (repeated_isBlank hindent _) c hc
    rcases isBlank_iff.mp hblank with rfl | rfl <;> decide
  rw [Instr.line, literals_after hmargin, Instr.render, literals_before hi (by decide)]

end BoxedLet
