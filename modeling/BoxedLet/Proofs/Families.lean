import BoxedLet.Lowering.Resolve
import BoxedLet.Proofs.LineText

/-!
# BoxedLet.Proofs.Families

**Which headers a line needs.** A header declares one family of primitives, given by the names that
its functions and macros have after the kernel prefix. A text uses the header if it invokes one of
them (`Header.usedIn`); this is read off the text alone, outside of literals.

Code and instructions also say themselves which headers they need (`Code.needs`, `Instr.needs`). The
two agree on the text of well-typed instructions. Families are told apart whatever the kernel prefix
is, because it has the same length in functions and in macros.
-/

namespace BoxedLet

open Lexical

/-! ### Families of primitives -/

namespace Header

/-- The functions that a header declares, without the kernel prefix. -/
def functions : Header → List String
  | string | fcall => []
  | operators =>
    ["get_numberval", "get_boolval", "get_intval", "is_true", "add_function", "sub_function",
      "mul_function", "div_function", "increment", "decrement"]
  | concat => ["concat_function"]
  | array => ["array_append"]
  | object => ["read_property"]

/-- What the other functions that it declares begin with. -/
def stems : Header → List String
  | string => ["str_assign", "str_append"]
  | array => ["array_update_", "array_fetch"]
  | object => ["update_property_"]
  | operators | concat | fcall => []

/-- The macros that a header declares. -/
def macros : Header → List String
  | operators => ["IS_EQUAL", "LT", "GT", "LE", "GE", "ADD_ASSIGN", "SUB_ASSIGN"]
  | fcall => ["CALL_FUNCTION"]
  | string | array | object | concat => []

/-- Whether a function of that name belongs to the family. -/
def hasFunction (h : Header) (name : String) : Bool :=
  h.functions.contains name || h.stems.any fun stem => stem.toList.isPrefixOf name.toList

/-- Whether the header declares a function or macro that is called so in emitted code. -/
def declares (o : Options) (h : Header) (f : String) : Bool :=
  h.functions.any (fun name => f == o.kernelFunction name) ||
    h.macros.any (fun name => f == o.kernelMacro name) ||
    h.stems.any fun stem => (o.kernelFunction stem).toList.isPrefixOf f.toList

/-- Whether the text invokes a primitive of the family. -/
def usedIn (o : Options) (h : Header) (text : String) : Bool :=
  (callees text).any (h.declares o)

end Header

/-- What emitted code invokes besides the kernel: constructors of boxes and operators on literals. -/
def builtins : List String :=
  ["ZVAL_NULL", "ZVAL_LONG", "ZVAL_DOUBLE", "ZVAL_BOOL", "ZVAL_STRING", "ZVAL_STRINGL",
    "array_init", "SL", "sizeof"]

/-! ### Telling names apart -/

/-- Upper case keeps the length of a word. -/
theorem length_upper {s : String} (h : ∀ c ∈ s.toList, isWordChar c = true) :
    (Text.upper s).toList.length = s.toList.length := by
  have hascii : ∀ n : Fin 128, isWordChar (Char.ofNat n) = true →
      (Text.upperChar (Char.ofNat n)).length = 1 := by decide +kernel
  have hchar : ∀ c ∈ s.toList, (Text.upperChar c).length = 1 := by
    intro c hc
    have hone := hascii ⟨c.toNat, toNat_lt_of_isWordChar (h c hc)⟩
    simp only [Char.ofNat_toNat] at hone
    exact hone (h c hc)
  rw [Text.upper, String.toList_ofList, List.length_flatMap, List.map_congr_left hchar,
    List.map_const', List.sum_replicate_nat, Nat.mul_one]

theorem kernelFunction_toList (o : Options) (name : String) :
    (o.kernelFunction name).toList = o.kernelPrefix.toList ++ '_' :: name.toList := by
  simp [Options.kernelFunction]

theorem kernelMacro_toList (o : Options) (name : String) :
    (o.kernelMacro name).toList = (Text.upper o.kernelPrefix).toList ++ '_' :: name.toList := by
  simp [Options.kernelMacro]

section Names

variable {o : Options} {name other : String}

/-- Functions are told apart by what follows the kernel prefix. -/
theorem kernelFunction_prefix_iff :
    (o.kernelFunction other).toList <+: (o.kernelFunction name).toList ↔
      other.toList <+: name.toList := by
  rw [kernelFunction_toList, kernelFunction_toList, List.prefix_append_right_inj,
    List.cons_prefix_cons]
  simp

theorem kernelFunction_inj : o.kernelFunction other = o.kernelFunction name ↔ other = name := by
  refine ⟨fun h => String.toList_injective ?_, fun h => h ▸ rfl⟩
  have htext := congrArg String.toList h
  simpa [kernelFunction_toList] using htext

theorem kernelMacro_inj : o.kernelMacro other = o.kernelMacro name ↔ other = name := by
  refine ⟨fun h => String.toList_injective ?_, fun h => h ▸ rfl⟩
  have htext := congrArg String.toList h
  simpa [kernelMacro_toList] using htext

variable (hkernel : ∀ c ∈ o.kernelPrefix.toList, isWordChar c = true)
include hkernel

/-- A function and a macro differ behind the kernel prefix, if they differ at all. -/
theorem prefix_of_kernelFunction_prefix_kernelMacro
    (h : (o.kernelFunction other).toList <+: (o.kernelMacro name).toList) :
    other.toList <+: name.toList := by
  obtain ⟨rest, htext⟩ := h
  rw [kernelFunction_toList, kernelMacro_toList, List.append_assoc] at htext
  have hnames := (List.append_inj htext (length_upper hkernel).symm).2
  exact ⟨rest, by simpa using hnames⟩

namespace Header

/-- The family of a function. -/
theorem declares_kernelFunction (h : Header) (hname : name ∉ h.macros) :
    h.declares o (o.kernelFunction name) = h.hasFunction name := by
  have hmacros : h.macros.any (fun other => o.kernelFunction name == o.kernelMacro other) =
      false := by
    rw [List.any_eq_false]
    intro other hother heq
    have htext := congrArg String.toList (eq_of_beq heq)
    rw [kernelFunction_toList, kernelMacro_toList] at htext
    have hnames := (List.append_inj htext (length_upper hkernel).symm).2
    obtain rfl : name = other := String.toList_injective (by simpa using hnames)
    exact hname hother
  have hfunctions : h.functions.any (fun other => o.kernelFunction name == o.kernelFunction other) =
      h.functions.contains name := by
    rw [List.contains_eq_any_beq]
    refine congrArg _ (funext fun other => ?_)
    rw [Bool.eq_iff_iff, beq_iff_eq, beq_iff_eq, kernelFunction_inj]
  have hstems : h.stems.any
      (fun stem => (o.kernelFunction stem).toList.isPrefixOf (o.kernelFunction name).toList) =
        h.stems.any fun stem => stem.toList.isPrefixOf name.toList := by
    refine congrArg _ (funext fun stem => ?_)
    rw [Bool.eq_iff_iff, List.isPrefixOf_iff_prefix, List.isPrefixOf_iff_prefix,
      kernelFunction_prefix_iff]
  rw [declares, hmacros, hfunctions, hstems, Bool.or_false]
  rfl

/-- The family of a macro. -/
theorem declares_kernelMacro (h : Header) (hname : h.hasFunction name = false) :
    h.declares o (o.kernelMacro name) = h.macros.contains name := by
  obtain ⟨hfunction, hstem⟩ := Bool.or_eq_false_iff.mp hname
  have hfunctions : h.functions.any (fun other => o.kernelMacro name == o.kernelFunction other) =
      false := by
    rw [List.any_eq_false]
    intro other hother heq
    have htext := congrArg String.toList (eq_of_beq heq)
    rw [kernelFunction_toList, kernelMacro_toList] at htext
    have hnames := (List.append_inj htext (length_upper hkernel)).2
    obtain rfl : name = other := String.toList_injective (by simpa using hnames)
    exact absurd hother (by simpa using hfunction)
  have hmacros : h.macros.any (fun other => o.kernelMacro name == o.kernelMacro other) =
      h.macros.contains name := by
    rw [List.contains_eq_any_beq]
    refine congrArg _ (funext fun other => ?_)
    rw [Bool.eq_iff_iff, beq_iff_eq, beq_iff_eq, kernelMacro_inj]
  have hstems : h.stems.any
      (fun stem => (o.kernelFunction stem).toList.isPrefixOf (o.kernelMacro name).toList) =
        false := by
    simp only [List.any_eq_false, List.isPrefixOf_iff_prefix] at hstem ⊢
    intro stem hmem hpre
    exact hstem stem hmem (prefix_of_kernelFunction_prefix_kernelMacro hkernel hpre)
  rw [declares, hmacros, hfunctions, hstems, Bool.or_false, Bool.false_or]

omit hkernel in
/-- Nothing else belongs to a family. -/
theorem declares_builtin (h : Header) (hname : name ∈ builtins) : h.declares o name = false := by
  -- a primitive would show its name behind an underscore
  have hinfix : ∀ part ∈ h.functions ++ h.macros ++ h.stems,
      ¬ ('_' :: part.toList) <:+: name.toList := by
    have htable : ∀ name ∈ builtins, ∀ part ∈ h.functions ++ h.macros ++ h.stems,
        ¬ ('_' :: part.toList) <:+: name.toList := by
      cases h <;> decide +kernel
    exact htable name hname
  simp only [declares, Bool.or_eq_false_iff, List.any_eq_false, beq_iff_eq,
    List.isPrefixOf_iff_prefix]
  refine ⟨⟨fun other hother heq => ?_, fun other hother heq => ?_⟩, fun stem hmem hpre => ?_⟩
  · refine hinfix other (by simp [hother]) ⟨o.kernelPrefix.toList, [], ?_⟩
    rw [heq, kernelFunction_toList, List.append_nil]
  · refine hinfix other (by simp [hother]) ⟨(Text.upper o.kernelPrefix).toList, [], ?_⟩
    rw [heq, kernelMacro_toList, List.append_nil]
  · obtain ⟨rest, htext⟩ := hpre
    rw [kernelFunction_toList] at htext
    exact hinfix stem (by simp [hmem]) ⟨o.kernelPrefix.toList, rest, htext⟩

end Header

end Names

namespace Header

/-- The name is that of a function of the family, and of no other primitive. -/
def OwnsFunction (family : Header) (name : String) : Prop :=
  ∀ h : Header, name ∉ h.macros ∧ h.hasFunction name = (h == family)

/-- The name is that of a macro of the family, if there is one, and of no other primitive. -/
def OwnsMacro (family? : Option Header) (name : String) : Prop :=
  ∀ h : Header, h.hasFunction name = false ∧ h.macros.contains name = (some h == family?)

/-- All headers. -/
def all : List Header :=
  [string, array, object, operators, concat, fcall]

theorem forall_mem_all {P : Header → Prop} : (∀ h ∈ all, P h) ↔ ∀ h, P h :=
  ⟨fun hall h => hall h (by cases h <;> decide), fun hall h _ => hall h⟩

instance (family : Header) (name : String) : Decidable (family.OwnsFunction name) :=
  decidable_of_iff _ forall_mem_all

instance (family? : Option Header) (name : String) : Decidable (OwnsMacro family? name) :=
  decidable_of_iff _ forall_mem_all

section Owns

variable {o : Options} (hkernel : ∀ c ∈ o.kernelPrefix.toList, isWordChar c = true) (h : Header)
  {name : String}
include hkernel

theorem declares_function_iff {family : Header} (hname : family.OwnsFunction name) :
    h.declares o (o.kernelFunction name) = true ↔ h = family := by
  rw [declares_kernelFunction hkernel h (hname h).1, (hname h).2, beq_iff_eq]

theorem declares_macro_iff {family? : Option Header} (hname : OwnsMacro family? name) :
    h.declares o (o.kernelMacro name) = true ↔ some h = family? := by
  rw [declares_kernelMacro hkernel h (hname h).1, (hname h).2, beq_iff_eq]

end Owns

end Header

theorem Coercion.function_owned (kind : Coercion) :
    Header.operators.OwnsFunction kind.function := by
  cases kind <;> decide

theorem Comparison.boxedMacro_owned (op : Comparison) :
    Header.OwnsMacro (some .operators) op.boxedMacro := by
  cases op <;> decide

theorem Step.function_owned (direction : Step) :
    Header.operators.OwnsFunction direction.function := by
  cases direction <;> decide

theorem InPlaceOp.macroName_owned (op : InPlaceOp) :
    Header.OwnsMacro (some .operators) op.macroName := by
  cases op <;> decide

theorem BoxedOp.function_owned (op : BoxedOp) :
    (Lower.boxedOpHeader op).OwnsFunction op.function := by
  cases op with
  | arith op => cases op <;> decide
  | concat => decide

theorem StringMode.function_owned (mode : StringMode) (source : StringSource) :
    Header.string.OwnsFunction (mode.function ++ source.functionSuffix) := by
  cases mode <;> cases source <;> simp only [StringSource.functionSuffix] <;> decide

theorem Key.fetchFunction_owned (key : Key) : Header.array.OwnsFunction key.fetchFunction := by
  cases key <;> simp only [fetchFunction] <;> decide

theorem Key.updateFunction_owned (key : Key) : Header.array.OwnsFunction key.updateFunction := by
  cases key <;> simp only [updateFunction] <;> decide

/-! ### What code needs -/

/-- The headers of the primitives that code invokes. -/
def Code.needs : Code → List Header
  | .verbatim _ | .place _ | .null | .truth _ | .bit _ | .zero _ | .long _ | .double _ | .char _
  | .stringBody _ | .blank => []
  | .binary _ l r => l.needs ++ r.needs
  | .not c | .cast _ _ c | .nonZero c => c.needs
  | .compare _ l r => .operators :: (l.needs ++ r.needs)
  | .isTrue c | .coerce _ c => .operators :: c.needs

/-- The headers that the content of a box needs. -/
def BoxContent.needs : BoxContent → List Header
  | .null | .emptyArray => []
  | .string c | .buffer c | .scalar _ c => c.needs

/-- The headers that a key needs. -/
def Key.needs : Key → List Header
  | .long c | .literal c | .buffer c | .boxed c => c.needs

/-- The headers that the source of a string needs. -/
def StringSource.needs : StringSource → List Header
  | .char c | .long c | .buffer c | .literal c => c.needs

/-- The headers that an instruction needs. Native statements, and the macros that manage boxes, need
none of their own. -/
def Instr.needs : Instr → List Header
  | .step _ _ | .init _ _ | .separate _ => []
  | .store _ _ value | .copy _ value => value.needs
  | .build _ _ content => content.needs
  | .inPlace _ _ source => .operators :: source.needs
  | .bump _ _ _ => [.operators]
  | .writeString _ _ source => .string :: source.needs
  | .boxed _ op l r => Lower.boxedOpHeader op :: (l.needs ++ r.needs)
  | .call _ _ args => .fcall :: args.flatMap Code.needs
  | .readProperty _ object _ => .object :: object.needs
  | .fetch _ array key => .array :: (array.needs ++ key.needs)
  | .append _ value => .array :: value.needs
  | .update _ key value => .array :: (key.needs ++ value.needs)
  | .setProperty _ _ value | .appendProperty _ _ value => .object :: value.needs
  | .updateProperty _ _ key value => .object :: (key.needs ++ value.needs)

/-! ### Text without parentheses -/

/-- A literal is no invocation, whatever is in it. -/
theorem literal_callees {q : Char} (hq : isQuote q = true) (cs : List Char) :
    callees (String.ofList (q :: Text.escapeChars q cs ++ [q])) = [] := by
  have hclose : tokens (.quoted q) [q] = [] := by
    simp [tokens]
  rw [callees, lineTokens, String.toList_ofList, List.cons_append, tokens_cons_quote hq,
    (escapeChars_quoted q cs [q]).1, hclose]
  rfl

theorem quoted_callees (s : String) : callees (Text.quoted (Text.stringBody s)) = [] := by
  rw [quoted_stringBody]
  exact literal_callees rfl s.toList

theorem charLiteral_callees (c : Char) : callees (Text.charLiteral c) = [] := by
  rw [charLiteral_eq]
  exact literal_callees rfl [c]

/-- Numbers invoke nothing. -/
theorem numeral_callees {s : String} (h : ∀ c ∈ s.toList, isNumeral c = true) : callees s = [] :=
  callees_eq_nil fun hmem => absurd (h _ hmem) (by decide)

theorem doubleText_callees (x : Float) : callees (doubleText x) = [] :=
  numeral_callees (doubleText_isNumeral x)

/-! ### Text of code -/

/-- What an invocation invokes: its own name, and what its arguments do. -/
theorem invocation_callees {N : List Char → Prop} {f : String} {args : List String}
    (hf : isRuntimePart f = true) (hargs : ∀ arg ∈ args, Lexes N arg) :
    callees (invocation f args) = f :: args.flatMap callees := by
  have hlexes : Lexes N f := runtimePart_lexes hf
  have hword : isWord f = true := (Bool.and_eq_true_iff.mp hf).1
  have hname : lineTokens f = [.word f.toList] := by
    have htokens := @tokens_word_append f hword [] rfl
    rw [List.append_nil] at htokens
    rw [lineTokens, htokens]
    rfl
  rw [invocation_eq, callees, lineTokens_append hlexes (.inr (opensWord_parens _)), hname,
    lineTokens_parens (Lexes.intercalate hargs), ← callees_intercalate hargs]
  show String.ofList f.toList :: called (_ ++ [.mark ')']) = _
  rw [called_append (.inr (by simp)), String.ofList_toList]
  exact congrArg _ (List.append_nil _)

namespace Header

variable {o : Options} {N : List Char → Prop} {a : String} (h : Header)

theorem usedIn_of_callees (hnone : callees a = []) : h.usedIn o a = false := by
  rw [usedIn, hnone, List.any_nil]

theorem usedIn_after (lead : String) (hlead : isOpening lead = true) (b : String) :
    h.usedIn o (lead ++ b) = h.usedIn o b := by
  rw [usedIn, callees_after lead hlead, usedIn]

theorem usedIn_before (ha : Lexes N a) (trail : String) (htrail : isClosing trail = true) :
    h.usedIn o (a ++ trail) = h.usedIn o a := by
  rw [usedIn, callees_before ha trail htrail, usedIn]

theorem usedIn_sep (ha : Lexes N a) (s : String) (hs : isDivider s = true) (b : String) :
    h.usedIn o (a ++ s ++ b) = (h.usedIn o a || h.usedIn o b) := by
  rw [usedIn, callees_sep ha s hs, List.any_append, usedIn, usedIn]

theorem usedIn_parens (ha : Lexes N a) : h.usedIn o ("(" ++ a ++ ")") = h.usedIn o a := by
  rw [usedIn, callees_parens ha, usedIn]

theorem usedIn_invocation {f : String} {args : List String} (hf : isRuntimePart f = true)
    (hargs : ∀ arg ∈ args, Lexes N arg) :
    h.usedIn o (invocation f args) = (h.declares o f || args.any (h.usedIn o)) := by
  rw [usedIn, invocation_callees hf hargs, List.any_cons, List.any_flatMap]
  rfl

end Header

section Texts

variable {o : Options} {Γ : Typing} (hΓ : ∀ p t, Γ p t → isWord (p.render o) = true) (h : Header)

/-- Nothing but words are places. -/
theorem word_lexes (hΓ : ∀ p t, Γ p t → isWord (p.render o) = true) :
    ∀ p t, Γ p t → Lexes (fun _ => True) (p.render o) :=
  fun p t hp => .word (hΓ p t hp) (.inr trivial)

theorem Header.usedIn_word {s : String} (hs : isWord s = true) : h.usedIn o s = false :=
  h.usedIn_of_callees (callees_of_isSpelled (Bool.and_eq_true_iff.mp hs).2)

theorem Code.IsBox.needs {c : Code} (hc : c.IsBox Γ) : c.needs = [] := by
  cases c with
  | place p => rfl
  | _ => exact hc.elim

theorem Code.IsBuffer.needs {c : Code} (hc : c.IsBuffer Γ) : c.needs = [] := by
  cases c with
  | place p => rfl
  | _ => exact hc.elim

theorem Code.IsBody.needs {c : Code} (hc : c.IsBody) : c.needs = [] := by
  cases c with
  | stringBody s => rfl
  | blank => rfl
  | _ => exact hc.elim

theorem Code.IsBody.usedIn {c : Code} (hc : c.IsBody) :
    h.usedIn o (Text.quoted (c.render o)) = false := by
  cases c with
  | stringBody s => exact h.usedIn_of_callees (quoted_callees s)
  | blank => exact h.usedIn_of_callees (quoted_callees "")
  | _ => exact hc.elim

theorem sizedLiteral_usedIn {body : String}
    (hlexes : Lexes (fun _ => True) (Text.quoted body))
    (hbody : h.usedIn o (Text.quoted body) = false) : h.usedIn o (sizedLiteral body) = false := by
  rw [sizedLiteral, h.usedIn_invocation (by decide) (by simpa using hlexes),
    h.declares_builtin (by decide), List.any_cons, hbody, List.any_nil]
  rfl

theorem property_usedIn (property : String) :
    h.usedIn o (sizedLiteral (Text.stringBody property)) = false :=
  sizedLiteral_usedIn h (quoted_lexes property) (h.usedIn_of_callees (quoted_callees property))

include hΓ

theorem Code.IsBox.usedIn {c : Code} (hc : c.IsBox Γ) : h.usedIn o (c.render o) = false := by
  cases c with
  | place p => exact h.usedIn_word (hΓ p _ hc)
  | _ => exact hc.elim

/-- Passing the bytes of a native string invokes nothing. -/
theorem Code.IsBuffer.usedIn {c : Code} (hc : c.IsBuffer Γ) :
    (bufferArgs (c.render o)).any (h.usedIn o) = false := by
  have hlexes := Code.IsBuffer.lexes (word_lexes hΓ) hc
  have hplace : h.usedIn o (c.render o) = false := by
    cases c with
    | place p =>
        cases p with
        | var x => exact h.usedIn_word (hΓ _ _ hc)
        | temp n => exact hc.elim
    | _ => exact hc.elim
  simp only [bufferArgs, List.any_cons, List.any_nil, h.usedIn_before hlexes "->str" (by decide),
    h.usedIn_before hlexes "->len" (by decide), hplace, Bool.or_false]

variable (hkernel : ∀ c ∈ o.kernelPrefix.toList, isWordChar c = true)
include hkernel

/-- **The text of a native scalar** uses the headers that its code needs. -/
theorem Code.IsScalar.usedIn_iff {c : Code} (hc : c.IsScalar Γ) :
    h.usedIn o (c.render o) = true ↔ h ∈ c.needs := by
  have hnone : ∀ {c : Code}, callees (c.render o) = [] → c.needs = [] →
      (h.usedIn o (c.render o) = true ↔ h ∈ c.needs) := by
    intro c hcallees hneeds
    rw [h.usedIn_of_callees hcallees, hneeds]
    simp
  have hlexes : ∀ {c : Code}, c.IsScalar Γ → Lexes (fun _ => True) (c.render o) :=
    fun hc => Code.IsScalar.lexes hkernel (word_lexes hΓ) hc
  induction c with
  | place p =>
      obtain ⟨t, hp, -⟩ := hc
      exact hnone (callees_of_isSpelled (Bool.and_eq_true_iff.mp (hΓ p t hp)).2) rfl
  | truth b =>
      have htext : ∀ b : Bool, callees (if b then "true" else "false") = [] := by decide
      exact hnone (htext b) rfl
  | bit b =>
      have htext : ∀ b : Bool, callees (if b then "1" else "0") = [] := by decide
      exact hnone (htext b) rfl
  | zero b =>
      have htext : ∀ b : Bool, callees (if b then "0.0" else "0") = [] := by decide
      exact hnone (htext b) rfl
  | long n => exact hnone (numeral_callees (intText_isNumeral n.toInt)) rfl
  | double x => exact hnone (doubleText_callees x) rfl
  | char c => exact hnone (charLiteral_callees c) rfl
  | binary op l r ihl ihr =>
      have hop := symbol_isDivider op
      have hinner := (hlexes hc.1).sep _ (isSeparator_of_isDivider hop) (hlexes hc.2)
      rw [render_binary, h.usedIn_parens hinner, h.usedIn_sep (hlexes hc.1) _ hop,
        Bool.or_eq_true, Code.needs, List.mem_append]
      exact or_congr (ihl hc.1) (ihr hc.2)
  | not c ih =>
      have hc : c.IsScalar Γ := hc
      rw [render_not, h.usedIn_after "!" (by decide), h.usedIn_parens (hlexes hc)]
      exact ih hc
  | cast kind grouped c ih =>
      have hc : c.IsScalar Γ := hc
      have hkind : isOpening (kind.text ++ " ") = true := by cases kind <;> decide
      have hparens := h.usedIn_parens (o := o) (hlexes hc)
      rw [render, h.usedIn_after _ hkind]
      refine Iff.trans ?_ (ih hc)
      cases grouped with
      | true => rw [if_pos rfl, hparens]
      | false => rfl
  | nonZero c ih =>
      have hc : c.IsScalar Γ := hc
      rw [render_nonZero, h.usedIn_before (hlexes hc).parens " ? 1 : 0" (by decide),
        h.usedIn_parens (hlexes hc)]
      exact ih hc
  | compare op l r =>
      have hargs : ∀ arg ∈ [l.render o, r.render o], Lexes (fun _ => True) arg := by
        simpa using ⟨Code.IsBox.lexes (word_lexes hΓ) hc.1, Code.IsBox.lexes (word_lexes hΓ) hc.2⟩
      have hname : isRuntimePart op.boxedMacro = true := by cases op <;> decide
      have htest : h.usedIn o (invocation (o.kernelMacro op.boxedMacro) [l.render o, r.render o]) =
          true ↔ h = .operators := by
        rw [h.usedIn_invocation (kernelMacro_isRuntimePart hkernel hname) hargs, Bool.or_eq_true,
          h.declares_macro_iff hkernel op.boxedMacro_owned]
        simp [Code.IsBox.usedIn hΓ h hc.1, Code.IsBox.usedIn hΓ h hc.2]
      have hneeds : (Code.compare op l r).needs = [.operators] := by
        rw [Code.needs, Code.IsBox.needs hc.1, Code.IsBox.needs hc.2, List.append_nil]
      rw [hneeds, List.mem_singleton, ← htest, render]
      split
      · rw [h.usedIn_after "!" (by decide)]
      · rfl
  | isTrue c =>
      have hargs : ∀ arg ∈ [c.render o], Lexes (fun _ => True) arg := by
        simpa using Code.IsBox.lexes (word_lexes hΓ) hc
      have howned : Header.operators.OwnsFunction "is_true" := by decide
      rw [render, h.usedIn_invocation (kernelFunction_isRuntimePart hkernel (by decide)) hargs,
        Bool.or_eq_true, h.declares_function_iff hkernel howned, Code.needs, Code.IsBox.needs hc]
      simp [Code.IsBox.usedIn hΓ h hc]
  | verbatim _ | null | stringBody _ | blank | coerce _ _ => exact hc.elim

/-- The text of a coercion. -/
theorem Code.IsCoercion.usedIn_iff {kind : Coercion} {c : Code} (hc : c.IsCoercion Γ kind) :
    h.usedIn o (c.render o) = true ↔ h ∈ c.needs := by
  cases c with
  | coerce k c =>
      have hname : isRuntimePart k.function = true := by cases k <;> decide
      have hargs : ∀ arg ∈ [c.render o], Lexes (fun _ => True) arg := by
        simpa using Code.IsBox.lexes (word_lexes hΓ) hc.2
      rw [render, h.usedIn_invocation (kernelFunction_isRuntimePart hkernel hname) hargs,
        Bool.or_eq_true, h.declares_function_iff hkernel k.function_owned, Code.needs,
        Code.IsBox.needs hc.2]
      simp [Code.IsBox.usedIn hΓ h hc.2]
  | _ => exact hc.elim

/-! ### Text of instructions -/

theorem BoxContent.WellTyped.usedIn_iff {content : BoxContent} (hc : content.WellTyped Γ) :
    (content.args o).any (h.usedIn o) = true ↔ h ∈ content.needs := by
  have hone : h.usedIn o "1" = false := h.usedIn_of_callees (by decide)
  cases content with
  | null | emptyArray => simp [BoxContent.args, BoxContent.needs]
  | string body =>
      simp [BoxContent.args, BoxContent.needs, Code.IsBody.usedIn h hc, Code.IsBody.needs hc, hone]
  | buffer source =>
      rw [BoxContent.args, List.any_append, Code.IsBuffer.usedIn hΓ h hc]
      simp [BoxContent.needs, Code.IsBuffer.needs hc, hone]
  | scalar kind value =>
      simpa [BoxContent.args, BoxContent.needs] using Code.IsScalar.usedIn_iff hΓ h hkernel hc

theorem Key.WellTyped.usedIn_iff {key : Key} (hk : key.WellTyped Γ) :
    (key.args o).any (h.usedIn o) = true ↔ h ∈ key.needs := by
  cases key with
  | long value => simpa [Key.args, Key.needs] using Code.IsScalar.usedIn_iff hΓ h hkernel hk
  | literal body =>
      have hbody := sizedLiteral_usedIn h (Code.IsBody.lexes hk) (Code.IsBody.usedIn (o := o) h hk)
      simp [Key.args, Key.needs, Code.IsBody.needs hk, hbody]
  | buffer source =>
      rw [Key.args, Code.IsBuffer.usedIn hΓ h hk]
      simp [Key.needs, Code.IsBuffer.needs hk]
  | boxed value =>
      simp [Key.args, Key.needs, Code.IsBox.usedIn hΓ h hk, Code.IsBox.needs hk]

theorem StringSource.WellTyped.usedIn_iff {source : StringSource} (hs : source.WellTyped Γ) :
    (source.args o).any (h.usedIn o) = true ↔ h ∈ source.needs := by
  cases source with
  | char value =>
      simpa [StringSource.args, StringSource.needs] using Code.IsScalar.usedIn_iff hΓ h hkernel hs
  | long value =>
      have hvalue : h.usedIn o (value.render o) = true ↔ h ∈ value.needs :=
        hs.elim (Code.IsScalar.usedIn_iff hΓ h hkernel) (Code.IsCoercion.usedIn_iff hΓ h hkernel)
      simpa [StringSource.args, StringSource.needs] using hvalue
  | buffer source =>
      rw [StringSource.args, Code.IsBuffer.usedIn hΓ h hs]
      simp [StringSource.needs, Code.IsBuffer.needs hs]
  | literal body =>
      have hlexes : ∀ arg ∈ [Text.quoted (body.render o)], Lexes (fun _ => True) arg := by
        simpa using Code.IsBody.lexes hs
      have hbody : h.usedIn o (Text.quoted (body.render o)) = false := Code.IsBody.usedIn h hs
      have hsize : h.usedIn o (invocation "sizeof" [Text.quoted (body.render o)] ++ "-1") =
          false := by
        rw [h.usedIn_before (invocation_lexes (by decide) hlexes) "-1" (by decide),
          h.usedIn_invocation (by decide) hlexes, h.declares_builtin (by decide)]
        simp [hbody]
      simp [StringSource.args, StringSource.needs, Code.IsBody.needs hs, hbody, hsize]

/-- The primitive of an instruction and its arguments use the headers that the instruction needs. -/
theorem Instr.WellTyped.invoked_usedIn_iff {i : Instr} (hi : i.WellTyped Γ) {f : String}
    {byRef : Bool} {args : List String} (hinvoked : i.invoked o = some (f, byRef, args)) :
    (h.declares o f || args.any (h.usedIn o)) = true ↔ h ∈ i.needs := by
  have hfixed : ∀ {s : String}, callees s = [] → h.usedIn o s = false := h.usedIn_of_callees
  have hproperty : ∀ property, h.usedIn o (sizedLiteral (Text.stringBody property)) = false :=
    property_usedIn h
  have hbox : ∀ {c : Code}, c.IsBox Γ → h.usedIn o (c.render o) = false := Code.IsBox.usedIn hΓ h
  have hneeds : ∀ {c : Code}, c.IsBox Γ → c.needs = [] := Code.IsBox.needs
  rw [Bool.or_eq_true]
  cases i with
  | store | step => simp [Instr.invoked] at hinvoked
  | init dst first =>
      cases hinvoked
      have howned : ∀ first : Bool,
          Header.OwnsMacro none (if first then "INIT_VAR" else "INIT_NVAR") := by decide
      rw [h.declares_macro_iff hkernel (howned first)]
      simp [Instr.needs]
  | separate dst =>
      cases hinvoked
      have howned : Header.OwnsMacro none "SEPARATE" := by decide
      rw [h.declares_macro_iff hkernel howned]
      simp [Instr.needs]
  | build dst inFrame content =>
      cases hinvoked
      have hbuiltin : content.constructor ∈ builtins := by
        cases content with
        | scalar kind value => cases kind <;> simp only [BoxContent.constructor] <;> decide
        | _ => simp only [BoxContent.constructor]; decide
      rw [h.declares_builtin hbuiltin, BoxContent.WellTyped.usedIn_iff hΓ h hkernel hi]
      simp [Instr.needs]
  | copy dst source =>
      cases hinvoked
      have howned : Header.OwnsMacro none "CPY_WRT" := by decide
      rw [h.declares_macro_iff hkernel howned]
      simp [Instr.needs, hbox hi, hneeds hi]
  | inPlace dst op source =>
      cases hinvoked
      rw [h.declares_macro_iff hkernel op.macroName_owned]
      simp [Instr.needs, hbox hi, hneeds hi]
  | bump dst inFrame direction =>
      cases hinvoked
      rw [h.declares_function_iff hkernel direction.function_owned]
      simp [Instr.needs]
  | writeString dst mode source =>
      cases hinvoked
      rw [h.declares_function_iff hkernel (mode.function_owned source),
        StringSource.WellTyped.usedIn_iff hΓ h hkernel hi]
      simp [Instr.needs]
  | boxed dst op l r =>
      cases hinvoked
      rw [h.declares_function_iff hkernel op.function_owned]
      simp [Instr.needs, hbox hi.1, hbox hi.2, hneeds hi.1, hneeds hi.2]
  | call dst name args =>
      cases hinvoked
      have howned : Header.OwnsMacro (some .fcall) "CALL_FUNCTION" := by decide
      have hargs : (args.map (Code.render o)).any (h.usedIn o) = false := by
        simpa using fun c hc => hbox (hi c hc)
      have hnone : args.flatMap Code.needs = [] :=
        List.flatMap_eq_nil_iff.mpr fun c hc => hneeds (hi c hc)
      rw [h.declares_macro_iff hkernel howned, List.any_cons, hfixed (quoted_callees name), hargs]
      simp [Instr.needs, hnone]
  | readProperty dst object property =>
      cases hinvoked
      have howned : Header.object.OwnsFunction "read_property" := by decide
      have hflag : h.usedIn o "PH_NOISY_CC" = false := hfixed (by decide)
      rw [h.declares_function_iff hkernel howned]
      simp [Instr.needs, hbox hi, hneeds hi, hproperty, hflag]
  | fetch dst array key =>
      cases hinvoked
      have hflag : h.usedIn o "PH_NOISY" = false := hfixed (by decide)
      rw [h.declares_function_iff hkernel key.fetchFunction_owned, List.any_append, List.any_cons,
        Bool.or_eq_true, Bool.or_eq_true, Key.WellTyped.usedIn_iff hΓ h hkernel hi.2]
      simp [Instr.needs, hbox hi.1, hneeds hi.1, hflag]
  | append dst value =>
      cases hinvoked
      have howned : Header.array.OwnsFunction "array_append" := by decide
      have hflag : h.usedIn o "PH_SEPARATE" = false := hfixed (by decide)
      rw [h.declares_function_iff hkernel howned]
      simp [Instr.needs, hbox hi, hneeds hi, hflag]
  | update dst key value =>
      cases hinvoked
      have hvalue : h.usedIn o ("&" ++ value.render o) = false := by
        rw [h.usedIn_after "&" (by decide), hbox hi.2]
      have hflags : h.usedIn o "PH_COPY | PH_SEPARATE" = false := hfixed (by decide)
      rw [h.declares_function_iff hkernel key.updateFunction_owned, List.any_append,
        Bool.or_eq_true, Key.WellTyped.usedIn_iff hΓ h hkernel hi.1]
      simp [Instr.needs, hneeds hi.2, hvalue, hflags]
  | setProperty dst property value =>
      cases hinvoked
      have howned : ∀ receiver : Bool, Header.object.OwnsFunction
          (if receiver then "update_property_this" else "update_property_zval") := by decide
      rw [h.declares_function_iff hkernel (howned (isReceiver o dst))]
      simp [Instr.needs, hbox hi, hneeds hi, hproperty]
  | appendProperty dst property value =>
      cases hinvoked
      have howned : Header.object.OwnsFunction "update_property_array_append" := by decide
      rw [h.declares_function_iff hkernel howned]
      simp [Instr.needs, hbox hi, hneeds hi, hproperty]
  | updateProperty dst property key value =>
      cases hinvoked
      have howned : Header.object.OwnsFunction "update_property_array" := by decide
      rw [h.declares_function_iff hkernel howned]
      simp [Instr.needs, hbox hi.1, hbox hi.2, hneeds hi.1, hneeds hi.2, hproperty]

/-- **The text of an instruction uses the headers that the instruction needs.** -/
theorem Instr.WellTyped.usedIn_iff {i : Instr} (hi : i.WellTyped Γ)
    (hdst : isWord (i.written.render o) = true) :
    h.usedIn o (i.body o) = true ↔ h ∈ i.needs := by
  have hwritten : Lexes (fun _ => True) (i.written.render o) := .word hdst (.inr trivial)
  have hword : h.usedIn o (i.written.render o) = false := h.usedIn_word hdst
  cases hinvoked : i.invoked o with
  | some call =>
      obtain ⟨f, byRef, args⟩ := call
      have hoperand : Lexes (fun _ => True) (i.written.boxOperand o byRef) ∧
          h.usedIn o (i.written.boxOperand o byRef) = false := by
        unfold Place.boxOperand
        split
        · rw [Place.reference, h.usedIn_after "&" (by decide)]
          exact ⟨hwritten.after "&" (by decide), hword⟩
        · exact ⟨hwritten, hword⟩
      have hargs := hi.args_lexes hkernel (word_lexes hΓ) hinvoked
      rw [Instr.body_of_invoked hinvoked,
        h.usedIn_invocation (Instr.isRuntimePart_of_invoked hkernel hinvoked)
          (List.forall_mem_cons.mpr ⟨hoperand.1, hargs⟩),
        List.any_cons, hoperand.2, Bool.false_or]
      exact hi.invoked_usedIn_iff hΓ h hkernel hinvoked
  | none =>
      cases i with
      | store dst op value =>
          simp only [Instr.written] at hwritten hword
          have hvalue : h.usedIn o (value.render o) = true ↔ h ∈ value.needs := by
            rcases hi with hi | hi | hi
            · exact Code.IsScalar.usedIn_iff hΓ h hkernel hi
            · exact Code.IsCoercion.usedIn_iff hΓ h hkernel hi
            · exact Code.IsCoercion.usedIn_iff hΓ h hkernel hi
          rw [Instr.body_store, h.usedIn_sep hwritten _ (token_isDivider op), hword, Bool.false_or]
          exact hvalue
      | step dst direction =>
          have htoken : isClosing direction.token = true := by cases direction <;> decide
          simp only [Instr.written] at hwritten hword
          rw [Instr.body, h.usedIn_before hwritten _ htoken, hword]
          simp [Instr.needs]
      | _ => exact absurd hinvoked (by simp [Instr.invoked])

/-- **A line uses the headers that its instruction needs.** -/
theorem Instr.WellTyped.usedIn_line_iff (hindent : o.indent.toList.all isBlank = true) {i : Instr}
    (hi : i.WellTyped Γ) (hdst : isWord (i.written.render o) = true) :
    h.usedIn o (i.line o) = true ↔ h ∈ i.needs := by
  have hwritten : Lexes (fun _ => True) (i.written.render o) := .word hdst (.inr trivial)
  have hlexes := hi.lexes hkernel (word_lexes hΓ) hwritten
  have hline : h.usedIn o (i.line o) = h.usedIn o (i.render o) := by
    rw [Header.usedIn, callees, lineTokens_line hindent]
    rfl
  rw [hline, Instr.render, h.usedIn_before hlexes ";" (by decide)]
  exact hi.usedIn_iff hΓ h hkernel hdst

end Texts

end BoxedLet
