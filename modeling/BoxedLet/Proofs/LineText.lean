import BoxedLet.Proofs.Digits
import BoxedLet.Proofs.Fresh
import BoxedLet.Proofs.Lexical
import BoxedLet.Proofs.Typing

/-!
# BoxedLet.Proofs.LineText

**The words of emitted text.** The text of a well-typed instruction lexes cleanly: it is one line,
leaves no literal and no parenthesis open, and each of its words is plain (a number, or a word of the
runtime's vocabulary, none of which ends in a digit) or is the name of a location that the
instruction writes or reads. Literals contribute no words, whatever they denote.

The lemmas follow the definitions of the text: literals and numbers, names of the runtime,
invocations, code and instructions.
-/

namespace BoxedLet

open Lexical

variable {N : List Char → Prop}

/-! ### Literals -/

/-- What an escape letter stands for is neither the quote nor a backslash nor a line break. -/
theorem escapeLetter?_eq_none {q c : Char} (h : Text.escapeLetter? q c = none) :
    c ≠ q ∧ c ≠ '\\' ∧ isLineBreak c = false := by
  unfold Text.escapeLetter? at h
  grind [isLineBreak]

/-- An escaped body is never left. -/
theorem escapeChars_quoted (q : Char) (cs rest : List Char) :
    tokens (.quoted q) (Text.escapeChars q cs ++ rest) = tokens (.quoted q) rest ∧
      ∀ d k, scan? ⟨.quoted q, d, k⟩ (Text.escapeChars q cs ++ rest) =
        scan? ⟨.quoted q, d, k⟩ rest := by
  induction cs with
  | nil => exact ⟨rfl, fun _ _ => rfl⟩
  | cons c cs ih =>
      rw [Text.escapeChars_cons, List.append_assoc]
      unfold Text.escapeChar
      cases hletter : Text.escapeLetter? q c with
      | some letter => simpa [tokens, scan?, Scan.next?, Mode.next] using ih
      | none =>
          -- a character without an escape neither ends the literal nor starts an escape
          obtain ⟨hquote, hslash, -⟩ := escapeLetter?_eq_none hletter
          simpa [tokens, scan?, Scan.next?, Mode.next, hquote, hslash] using ih

/-- Line breaks are escaped. -/
theorem escapeChars_unbroken {q : Char} (hq : isLineBreak q = false) (cs : List Char) :
    ∀ c ∈ Text.escapeChars q cs, isLineBreak c = false := by
  intro c hc
  obtain ⟨d, -, hc⟩ := List.mem_flatMap.mp hc
  unfold Text.escapeChar at hc
  cases hletter : Text.escapeLetter? q d with
  | some letter =>
      rw [hletter] at hc
      have hc : c = '\\' ∨ c = letter := by simpa using hc
      unfold Text.escapeLetter? at hletter
      grind [isLineBreak]
  | none =>
      rw [hletter] at hc
      obtain rfl : c = d := by simpa using hc
      exact (escapeLetter?_eq_none hletter).2.2

/-- A literal has no words. -/
theorem literal_lexes {q : Char} (hq : isQuote q = true) (cs : List Char) :
    Lexes N (String.ofList (q :: Text.escapeChars q cs ++ [q])) := by
  have hchar : q = '"' ∨ q = '\'' := by simpa [isQuote] using hq
  have hbreak : isLineBreak q = false := by rcases hchar with rfl | rfl <;> decide
  obtain ⟨htokens, hscan⟩ := escapeChars_quoted q cs [q]
  refine ⟨fun d k => ?_, fun c hc => ?_, fun w hw => ?_⟩
  · have hopen : Scan.next? ⟨.plain, d, k⟩ q = some ⟨.quoted q, d, k⟩ := by
      rcases hchar with rfl | rfl <;> rfl
    have hclose : scan? ⟨.quoted q, d, k⟩ [q] = some ⟨.plain, d, k⟩ := by
      rcases hchar with rfl | rfl <;> rfl
    rw [String.toList_ofList, List.cons_append, scan?, hopen, Option.bind_some, hscan, hclose]
  · have hc : c = q ∨ c ∈ Text.escapeChars q cs ∨ c = q := by simpa using hc
    rcases hc with rfl | hc | rfl
    · exact hbreak
    · exact escapeChars_unbroken hbreak cs c hc
    · exact hbreak
  · rw [String.toList_ofList, List.cons_append, tokens_cons_quote hq, htokens] at hw
    simp [tokens] at hw

theorem quoted_stringBody (s : String) :
    Text.quoted (Text.stringBody s) =
      String.ofList ('"' :: Text.escapeChars '"' s.toList ++ ['"']) := by
  apply String.toList_injective
  simp [Text.quoted, Text.stringBody]

theorem charLiteral_eq (c : Char) :
    Text.charLiteral c = String.ofList ('\'' :: Text.escapeChars '\'' [c] ++ ['\'']) := by
  simp [Text.charLiteral, Text.escapeChars]

theorem quoted_lexes (s : String) : Lexes N (Text.quoted (Text.stringBody s)) := by
  rw [quoted_stringBody]
  exact literal_lexes rfl s.toList

theorem charLiteral_lexes (c : Char) : Lexes N (Text.charLiteral c) := by
  rw [charLiteral_eq]
  exact literal_lexes rfl [c]

/-! ### Numbers -/

theorem isWordChar_of_isDigit {c : Char} (h : c.isDigit = true) : isWordChar c = true := by
  simp [isWordChar, Char.isAlphanum, h]

/-- A word that begins with a digit is plain. -/
theorem digits_lexes {d : Char} {cs : List Char} (hd : d.isDigit = true)
    (hcs : ∀ c ∈ cs, isWordChar c = true) : Lexes N (String.ofList (d :: cs)) := by
  refine .word ?_ (.inl ?_)
  · simpa [isWord, isWordChar_of_isDigit hd] using hcs
  · simp [isPlain, hd]

/-- Digits form a plain word. -/
theorem number_lexes {ds : List Char} (hne : ds ≠ []) (hds : ∀ c ∈ ds, c.isDigit = true) :
    Lexes N (String.ofList ds) := by
  cases ds with
  | nil => exact absurd rfl hne
  | cons d ds =>
      exact digits_lexes (hds d (by simp)) fun c hc =>
        isWordChar_of_isDigit (hds c (by simp [hc]))

/-- The names of temporaries are words, if the prefix has word characters only. -/
theorem SymbolTable.isWord_of_isTempName {t : SymbolTable} (hpre : isSpelled t.tempPrefix = true)
    {n : String} (hn : t.IsTempName n) : isWord n = true := by
  obtain ⟨k, rfl⟩ := hn
  have hpre : t.tempPrefix.toList.all isWordChar = true := hpre
  have hdigits : (Nat.toDigits 10 k).all isWordChar = true :=
    List.all_eq_true.mpr fun c hc => isWordChar_of_isDigit (toDigits_isDigit k c hc)
  rw [isWord, SymbolTable.toList_tempName, List.all_append, hpre, hdigits]
  simp [Nat.toDigits_ne_nil]

theorem natText_lexes (n : Nat) : Lexes N (Nat.repr n) := by
  have htext : Nat.repr n = String.ofList (Nat.toDigits 10 n) := by
    apply String.toList_injective
    simp [Nat.toList_repr]
  rw [htext]
  exact number_lexes Nat.toDigits_ne_nil (toDigits_isDigit n)

theorem intText_lexes (n : Int) : Lexes N (toString n) := by
  rw [Int.toString_eq_repr]
  cases n with
  | ofNat m => exact natText_lexes m
  | negSucc m => exact (natText_lexes m.succ).after "-" (by decide)

/-- The exponent of a number belongs to the word before it, up to its sign. -/
theorem exponent_lexes {d : Char} {ds : List Char} (hd : d.isDigit = true)
    (hds : ∀ c ∈ ds, c.isDigit = true) (k : Int) :
    Lexes N (String.ofList (d :: ds ++ 'e' :: (toString k).toList)) := by
  have hmantissa : ∀ c ∈ ds ++ ['e'], isWordChar c = true := by
    intro c hc
    rcases List.mem_append.mp hc with hc | hc
    · exact isWordChar_of_isDigit (hds c hc)
    · obtain rfl : c = 'e' := by simpa using hc
      decide
  rw [Int.toString_eq_repr]
  cases k with
  | ofNat m =>
      refine digits_lexes hd fun c hc => ?_
      have hc : c ∈ ds ++ ['e'] ∨ c ∈ Nat.toDigits 10 m := by
        simpa [Int.repr, Nat.toList_repr, or_assoc] using hc
      exact hc.elim (hmantissa c) fun h => isWordChar_of_isDigit (toDigits_isDigit m c h)
  | negSucc m =>
      have htext : String.ofList (d :: ds ++ 'e' :: (Int.repr (.negSucc m)).toList) =
          String.ofList (d :: (ds ++ ['e'])) ++ "-" ++ Nat.repr (m + 1) := by
        apply String.toList_injective
        simp [Int.repr]
      rw [htext]
      exact (digits_lexes hd hmantissa).sep "-" (by decide) (natText_lexes (m + 1))

open Decimal in
/-- A number written without exponent. -/
theorem positional_lexes {ds : List Char} (hne : ds ≠ []) (hds : ∀ c ∈ ds, c.isDigit = true)
    (leading : Int) : Lexes N (String.ofList (positional ds leading)) := by
  have hzeros : ∀ (k : Nat), ∀ c ∈ List.replicate k '0', c.isDigit = true := by
    intro k c hc
    rw [(List.mem_replicate.mp hc).2]
    decide
  unfold positional
  split
  · have htext : String.ofList ('0' :: '.' :: List.replicate (-leading - 1).toNat '0' ++ ds) =
        "0." ++ String.ofList (List.replicate (-leading - 1).toNat '0' ++ ds) := by
      apply String.toList_injective
      simp
    rw [htext]
    refine (number_lexes (by simp [hne]) fun c hc => ?_).after "0." (by decide)
    exact (List.mem_append.mp hc).elim (hzeros _ c) (hds c)
  · let whole := leading.toNat + 1
    let padded := ds ++ List.replicate (whole - ds.length) '0'
    let rest := padded.drop whole
    have hpadded : ∀ c ∈ padded, c.isDigit = true :=
      fun c hc => (List.mem_append.mp hc).elim (hds c) (hzeros _ c)
    have hleft : Lexes N (String.ofList (padded.take whole)) := by
      refine number_lexes ?_ fun c hc => hpadded c (List.mem_of_mem_take hc)
      simp [padded, whole, hne]
    have hright : Lexes N (String.ofList (if rest.isEmpty then ['0'] else rest)) := by
      split
      · exact number_lexes (by simp) (hzeros 1)
      · rename_i hrest
        exact number_lexes (fun hnil => hrest (List.isEmpty_iff.mpr hnil)) fun c hc =>
          hpadded c (List.mem_of_mem_drop hc)
    have htext : String.ofList
        (padded.take whole ++ '.' :: (if rest.isEmpty then ['0'] else rest)) =
        String.ofList (padded.take whole) ++ "." ++
          String.ofList (if rest.isEmpty then ['0'] else rest) := by
      apply String.toList_injective
      simp
    exact htext ▸ hleft.sep "." (by decide) hright

open Decimal in
/-- A number written with an exponent. -/
theorem exponential_lexes {ds : List Char} (hne : ds ≠ []) (hds : ∀ c ∈ ds, c.isDigit = true)
    (leading : Int) : Lexes N (String.ofList (exponential ds leading)) := by
  match ds, hne, hds with
  | [d], _, hds => exact exponent_lexes (hds d (by simp)) (by simp) leading
  | d :: e :: rest, _, hds =>
      have htext : String.ofList (exponential (d :: e :: rest) leading) =
          String.ofList [d] ++ "." ++
            String.ofList (e :: rest ++ 'e' :: (toString leading).toList) := by
        apply String.toList_injective
        simp [exponential]
      rw [htext]
      refine (number_lexes (by simp) (by simpa using hds d (by simp))).sep "." (by decide) ?_
      exact exponent_lexes (hds e (by simp)) (fun c hc => hds c (by simp [hc])) leading

/-- The text of a double. -/
theorem doubleText_lexes (x : Float) : Lexes N (doubleText x) := by
  unfold doubleText
  split
  next finite _ =>
    have hdigits : Lexes N (String.ofList
        (Decimal.shortest finite.significand finite.exponent).text) := by
      unfold Decimal.Scientific.text
      dsimp only
      split
      · exact positional_lexes Nat.toDigits_ne_nil (toDigits_isDigit _) _
      · exact exponential_lexes Nat.toDigits_ne_nil (toDigits_isDigit _) _
    unfold Decimal.Finite.text
    dsimp only
    split
    · have htext : ∀ cs : List Char, String.ofList ('-' :: cs) = "-" ++ String.ofList cs := by
        intro cs
        apply String.toList_injective
        simp
      rw [htext]
      exact hdigits.after "-" (by decide)
    · exact hdigits
  next other _ => cases other <;> exact .fixed (by decide)

/-- The characters that numbers are written with. -/
def isNumeral (c : Char) : Bool :=
  isWordChar c || c == '.' || c == '-'

theorem isNumeral_of_isDigit {c : Char} (h : c.isDigit = true) : isNumeral c = true := by
  simp [isNumeral, isWordChar_of_isDigit h]

theorem intText_isNumeral (n : Int) : ∀ c ∈ (toString n).toList, isNumeral c = true := by
  intro c hc
  have hdigit : ∀ m, c ∈ Nat.toDigits 10 m → isNumeral c = true :=
    fun m h => isNumeral_of_isDigit (toDigits_isDigit m c h)
  rw [Int.toString_eq_repr] at hc
  cases n with
  | ofNat m => exact hdigit m (by simpa [Int.repr, Nat.toList_repr] using hc)
  | negSucc m =>
      have hc : c = '-' ∨ c ∈ Nat.toDigits 10 (m + 1) := by
        simpa [Int.repr, Nat.toList_repr] using hc
      rcases hc with rfl | hc
      · decide
      · exact hdigit _ hc

section Decimal

open Decimal

variable {ds : List Char} (hds : ∀ c ∈ ds, isNumeral c = true) (leading : Int)
include hds

theorem positional_isNumeral : ∀ c ∈ positional ds leading, isNumeral c = true := by
  have hzeros : ∀ (k : Nat), ∀ c ∈ List.replicate k '0', isNumeral c = true := by
    intro k c hc
    rw [(List.mem_replicate.mp hc).2]
    decide
  have hpadded : ∀ k : Nat, ∀ c ∈ ds ++ List.replicate k '0', isNumeral c = true :=
    fun k c hc => (List.mem_append.mp hc).elim (hds c) (hzeros k c)
  intro c hc
  unfold positional at hc
  split at hc
  · have hc : c = '0' ∨ c = '.' ∨ c ∈ List.replicate (-leading - 1).toNat '0' ∨ c ∈ ds := by
      simpa using hc
    rcases hc with rfl | rfl | hc | hc
    · decide
    · decide
    · exact hzeros _ c hc
    · exact hds c hc
  · dsimp only at hc
    rcases List.mem_append.mp hc with hc | hc
    · exact hpadded _ c (List.mem_of_mem_take hc)
    · rcases List.mem_cons.mp hc with rfl | hc
      · decide
      · split at hc
        · exact hzeros 1 c hc
        · exact hpadded _ c (List.mem_of_mem_drop hc)

theorem exponential_isNumeral : ∀ c ∈ exponential ds leading, isNumeral c = true := by
  intro c hc
  unfold exponential at hc
  dsimp only at hc
  rcases List.mem_append.mp hc with hc | hc
  · split at hc
    · rcases List.mem_cons.mp hc with rfl | hc
      · exact hds _ (by simp)
      · rcases List.mem_cons.mp hc with rfl | hc
        · decide
        · exact hds c (List.mem_cons_of_mem _ hc)
    · exact hds c hc
  · rcases List.mem_cons.mp hc with rfl | hc
    · decide
    · exact intText_isNumeral leading c hc

end Decimal

theorem doubleText_isNumeral (x : Float) : ∀ c ∈ (doubleText x).toList, isNumeral c = true := by
  unfold doubleText
  split
  next finite _ =>
    have hdigits : ∀ n, ∀ c ∈ Nat.toDigits 10 n, isNumeral c = true :=
      fun n c hc => isNumeral_of_isDigit (toDigits_isDigit n c hc)
    have htext : ∀ c ∈ (Decimal.shortest finite.significand finite.exponent).text,
        isNumeral c = true := by
      unfold Decimal.Scientific.text
      dsimp only
      split
      · exact positional_isNumeral (hdigits _) _
      · exact exponential_isNumeral (hdigits _) _
    intro c hc
    unfold Decimal.Finite.text at hc
    dsimp only at hc
    rw [String.toList_ofList] at hc
    split at hc
    · rcases List.mem_cons.mp hc with rfl | hc
      · decide
      · exact htext c hc
    · exact htext c hc
  next other _ =>
    rw [← List.all_eq_true]
    cases other <;> rfl

/-! ### Names of the runtime -/

/-- A word that can be the last part of a runtime name: it does not end in a digit. -/
def isRuntimePart (s : String) : Bool :=
  isWord s && s.toList.getLast?.any fun c => !c.isDigit

/-- A name that ends in such a part is a plain word. -/
theorem isRuntimePart_append {a : String} (ha : ∀ c ∈ a.toList, isWordChar c = true) {b : String}
    (hb : isRuntimePart b = true) : isRuntimePart (a ++ b) = true := by
  simp only [isRuntimePart, isWord, Bool.and_eq_true] at hb ⊢
  obtain ⟨⟨hne, hall⟩, hlast⟩ := hb
  have hne : b.toList ≠ [] := by simpa using hne
  refine ⟨⟨by simp [hne], ?_⟩, ?_⟩
  · rw [String.toList_append, List.all_append, hall, Bool.and_true]
    exact List.all_eq_true.mpr ha
  · rw [String.toList_append, List.getLast?_append, List.getLast?_eq_some_getLast hne] at *
    simpa using hlast

theorem runtimePart_lexes {s : String} (h : isRuntimePart s = true) : Lexes N s := by
  obtain ⟨hword, hlast⟩ := Bool.and_eq_true_iff.mp h
  exact .word hword (.inl (by simp only [isPlain, hlast, Bool.or_true]))

theorem isWordChar_of_isWord {s : String} (h : isWord s = true) :
    ∀ c ∈ s.toList, isWordChar c = true :=
  List.all_eq_true.mp (Bool.and_eq_true_iff.mp h).2

theorem isWordChar_of_isIdentifier {s : String} (h : isIdentifier s = true) :
    ∀ c ∈ s.toList, isWordChar c = true :=
  isWordChar_of_isWord (Bool.and_eq_true_iff.mp h).1

theorem toNat_lt_of_isWordChar {c : Char} (h : isWordChar c = true) : c.toNat < 128 := by
  delta isWordChar Char.isAlphanum Char.isAlpha Char.isUpper Char.isLower Char.isDigit at h
  simp only [Bool.or_eq_true, Bool.and_eq_true, decide_eq_true_eq, beq_iff_eq, ge_iff_le,
    UInt32.le_iff_toNat_le] at h
  rcases h with ((⟨-, h⟩ | ⟨-, h⟩) | ⟨-, h⟩) | rfl
  · exact Nat.lt_of_le_of_lt h (by decide)
  · exact Nat.lt_of_le_of_lt h (by decide)
  · exact Nat.lt_of_le_of_lt h (by decide)
  · decide

/-- The upper case of a letter, a digit or an underscore is one again. -/
theorem upperChar_isWordChar {c : Char} (h : isWordChar c = true) :
    ∀ d ∈ Text.upperChar c, isWordChar d = true := by
  -- the case maps are tables over all of Unicode: evaluate them on the part that matters
  have hascii : ∀ n : Fin 128, isWordChar (Char.ofNat n) = true →
      (Text.upperChar (Char.ofNat n)).all isWordChar = true := by decide +kernel
  have hc := hascii ⟨c.toNat, toNat_lt_of_isWordChar h⟩
  simp only [Char.ofNat_toNat] at hc
  exact List.all_eq_true.mp (hc h)

theorem upper_isWordChar {s : String} (h : ∀ c ∈ s.toList, isWordChar c = true) :
    ∀ c ∈ (Text.upper s).toList, isWordChar c = true := by
  intro c hc
  simp only [Text.upper, String.toList_ofList, List.mem_flatMap] at hc
  obtain ⟨d, hd, hc⟩ := hc
  exact upperChar_isWordChar (h d hd) c hc

section Names

variable {o : Options} (hkernel : ∀ c ∈ o.kernelPrefix.toList, isWordChar c = true) {name : String}
  (hname : isRuntimePart name = true)
include hkernel hname

theorem kernelFunction_isRuntimePart : isRuntimePart (o.kernelFunction name) = true := by
  unfold Options.kernelFunction
  refine isRuntimePart_append (fun c hc => ?_) hname
  rw [String.toList_append] at hc
  rcases List.mem_append.mp hc with hc | hc
  · exact hkernel c hc
  · obtain rfl : c = '_' := by simpa using hc
    decide

theorem kernelMacro_isRuntimePart : isRuntimePart (o.kernelMacro name) = true := by
  unfold Options.kernelMacro
  refine isRuntimePart_append (fun c hc => ?_) hname
  rw [String.toList_append] at hc
  rcases List.mem_append.mp hc with hc | hc
  · exact upper_isWordChar hkernel c hc
  · obtain rfl : c = '_' := by simpa using hc
    decide

end Names

/-! ### The vocabulary of the runtime -/

/-- The macros that only prepare a box for the next instruction. -/
def preparations : List String :=
  ["INIT_VAR", "INIT_NVAR", "SEPARATE"]

/-- All other primitives that instructions invoke. -/
def primitives : List String :=
  ["ZVAL_NULL", "ZVAL_LONG", "ZVAL_DOUBLE", "ZVAL_BOOL", "ZVAL_STRING", "ZVAL_STRINGL",
    "array_init", "CPY_WRT", "ADD_ASSIGN", "SUB_ASSIGN", "CALL_FUNCTION", "increment", "decrement",
    "str_assign", "str_assign_char", "str_assign_long",
    "str_append", "str_append_char", "str_append_long",
    "add_function", "sub_function", "mul_function", "div_function", "concat_function",
    "read_property", "array_fetch", "array_fetch_long", "array_fetch_string",
    "array_append", "array_update_zval", "array_update_long", "array_update_string",
    "update_property_this", "update_property_zval",
    "update_property_array", "update_property_array_append"]

/-- The names that a primitive can have in emitted code. -/
def Options.spellings (o : Options) (name : String) : List String :=
  [name, o.kernelFunction name, o.kernelMacro name]

theorem BoxContent.constructor_mem (content : BoxContent) : content.constructor ∈ primitives := by
  cases content with
  | scalar kind value => cases kind <;> simp only [BoxContent.constructor] <;> decide
  | _ => simp only [BoxContent.constructor]; decide

theorem Key.fetchFunction_mem (key : Key) : key.fetchFunction ∈ primitives := by
  cases key <;> simp only [Key.fetchFunction] <;> decide

theorem Key.updateFunction_mem (key : Key) : key.updateFunction ∈ primitives := by
  cases key <;> simp only [Key.updateFunction] <;> decide

theorem StringMode.function_mem (mode : StringMode) (source : StringSource) :
    mode.function ++ source.functionSuffix ∈ primitives := by
  cases mode <;> cases source <;> simp only [StringSource.functionSuffix] <;> decide

/-- Invocations are equal component by component. -/
theorem Instr.invoked_inj {f g : String} {byRef byRef' : Bool} {args args' : List String}
    (h : some (f, byRef, args) = some (g, byRef', args')) : f = g ∧ args = args' := by
  cases h
  exact ⟨rfl, rfl⟩

/-- The primitive that an instruction invokes, whether it gets the written location by reference,
and its other arguments. Native assignments and steps invoke none. -/
def Instr.invoked (o : Options) : Instr → Option (String × Bool × List String)
  | .store _ _ _ | .step _ _ => none
  | .init _ first => some (o.kernelMacro (if first then "INIT_VAR" else "INIT_NVAR"), false, [])
  | .separate _ => some (o.kernelMacro "SEPARATE", false, [])
  | .build _ inFrame content => some (content.constructor, inFrame, content.args o)
  | .copy _ source => some (o.kernelMacro "CPY_WRT", false, [source.render o])
  | .inPlace _ op source => some (o.kernelMacro op.macroName, false, [source.render o])
  | .bump _ inFrame direction => some (o.kernelFunction direction.function, inFrame, [])
  | .writeString _ mode source =>
    some (o.kernelFunction (mode.function ++ source.functionSuffix), false, source.args o)
  | .boxed _ op l r => some (o.kernelFunction op.function, false, [l.render o, r.render o])
  | .call _ name args =>
    some (o.kernelMacro "CALL_FUNCTION", false,
      Text.quoted (Text.stringBody name) :: args.map (Code.render o))
  | .readProperty _ object property =>
    some (o.kernelFunction "read_property", true,
      [object.render o, sizedLiteral (Text.stringBody property), "PH_NOISY_CC"])
  | .fetch _ array key =>
    some (o.kernelFunction key.fetchFunction, true, array.render o :: key.args o ++ ["PH_NOISY"])
  | .append _ value =>
    some (o.kernelFunction "array_append", true, [value.render o, "PH_SEPARATE"])
  | .update _ key value =>
    some (o.kernelFunction key.updateFunction, true,
      key.args o ++ ["&" ++ value.render o, "PH_COPY | PH_SEPARATE"])
  | .setProperty dst property value =>
    some (o.kernelFunction
        (if isReceiver o dst then "update_property_this" else "update_property_zval"), false,
      [sizedLiteral (Text.stringBody property), value.render o])
  | .appendProperty _ property value =>
    some (o.kernelFunction "update_property_array_append", false,
      [sizedLiteral (Text.stringBody property), value.render o])
  | .updateProperty _ property key value =>
    some (o.kernelFunction "update_property_array", false,
      [sizedLiteral (Text.stringBody property), key.render o, value.render o])

namespace Instr

/-- The name of that primitive, without the kernel prefix. -/
def primitive? (o : Options) : Instr → Option String
  | store _ _ _ | step _ _ => none
  | init _ first => some (if first then "INIT_VAR" else "INIT_NVAR")
  | separate _ => some "SEPARATE"
  | build _ _ content => some content.constructor
  | copy _ _ => some "CPY_WRT"
  | inPlace _ op _ => some op.macroName
  | bump _ _ direction => some direction.function
  | writeString _ mode source => some (mode.function ++ source.functionSuffix)
  | boxed _ op _ _ => some op.function
  | call _ _ _ => some "CALL_FUNCTION"
  | readProperty _ _ _ => some "read_property"
  | fetch _ _ key => some key.fetchFunction
  | append _ _ => some "array_append"
  | update _ key _ => some key.updateFunction
  | setProperty dst _ _ =>
    some (if isReceiver o dst then "update_property_this" else "update_property_zval")
  | appendProperty _ _ _ => some "update_property_array_append"
  | updateProperty _ _ _ _ => some "update_property_array"

variable {o : Options} {i : Instr} {f name : String} {byRef : Bool} {args : List String}

theorem primitive?_of_invoked (h : i.invoked o = some (f, byRef, args)) :
    ∃ name, i.primitive? o = some name ∧ f ∈ o.spellings name := by
  have hconstructor : ∀ name, name ∈ o.spellings name := by simp [Options.spellings]
  have hfunction : ∀ name, o.kernelFunction name ∈ o.spellings name := by simp [Options.spellings]
  have hupper : ∀ name, o.kernelMacro name ∈ o.spellings name := by simp [Options.spellings]
  cases i with
  | store | step => simp [invoked] at h
  | build =>
      obtain ⟨rfl, -⟩ := invoked_inj h
      exact ⟨_, rfl, hconstructor _⟩
  | init | separate | copy | inPlace | call =>
      obtain ⟨rfl, -⟩ := invoked_inj h
      exact ⟨_, rfl, hupper _⟩
  | bump | writeString | boxed | readProperty | fetch | append | update | setProperty
  | appendProperty | updateProperty =>
      obtain ⟨rfl, -⟩ := invoked_inj h
      exact ⟨_, rfl, hfunction _⟩

theorem primitive?_of_isPreparation (hprep : i.isPreparation = true)
    (h : i.primitive? o = some name) : name ∈ preparations := by
  cases i with
  | init dst first =>
      cases h
      cases first <;> decide
  | separate dst =>
      cases h
      decide
  | _ => simp [isPreparation] at hprep

theorem primitive?_mem (hprep : i.isPreparation = false) (h : i.primitive? o = some name) :
    name ∈ primitives := by
  cases i with
  | store | step => simp [primitive?] at h
  | init | separate => simp [isPreparation] at hprep
  | build dst inFrame content =>
      cases h
      exact content.constructor_mem
  | inPlace dst op source =>
      cases h
      cases op <;> decide
  | bump dst inFrame direction =>
      cases h
      cases direction <;> decide
  | writeString dst mode source =>
      cases h
      exact mode.function_mem source
  | boxed dst op l r =>
      cases h
      cases op with
      | arith op => cases op <;> decide
      | concat => decide
  | fetch dst array key =>
      cases h
      exact key.fetchFunction_mem
  | update dst key value =>
      cases h
      exact key.updateFunction_mem
  | setProperty dst property value =>
      cases h
      split <;> decide
  | copy | call | readProperty | append | appendProperty | updateProperty =>
      cases h
      decide

/-- What an instruction invokes belongs to the vocabulary. -/
theorem invoked_mem (hprep : i.isPreparation = false) (h : i.invoked o = some (f, byRef, args)) :
    ∃ name ∈ primitives, f ∈ o.spellings name := by
  obtain ⟨name, hname, hf⟩ := primitive?_of_invoked h
  exact ⟨name, primitive?_mem hprep hname, hf⟩

theorem invoked_of_isPreparation (o : Options) (hprep : i.isPreparation = true) :
    ∃ name ∈ preparations, i.invoked o = some (o.kernelMacro name, false, []) := by
  cases i with
  | init dst first =>
      refine ⟨if first then "INIT_VAR" else "INIT_NVAR", ?_, rfl⟩
      cases first <;> decide
  | separate dst => exact ⟨"SEPARATE", by decide, rfl⟩
  | _ => simp [isPreparation] at hprep

/-- Primitives have plain names. -/
theorem isRuntimePart_of_invoked (hkernel : ∀ c ∈ o.kernelPrefix.toList, isWordChar c = true)
    (h : i.invoked o = some (f, byRef, args)) : isRuntimePart f = true := by
  have hparts : ∀ name ∈ preparations ++ primitives, isRuntimePart name = true := by decide
  cases hprep : i.isPreparation with
  | true =>
      obtain ⟨name, hname, hinvoked⟩ := invoked_of_isPreparation o hprep
      cases h.symm.trans hinvoked
      exact kernelMacro_isRuntimePart hkernel (hparts name (List.mem_append_left _ hname))
  | false =>
      obtain ⟨name, hname, hf⟩ := invoked_mem hprep h
      have hpart := hparts name (List.mem_append_right _ hname)
      rcases List.mem_cons.mp hf with rfl | hf
      · exact hpart
      rcases List.mem_cons.mp hf with rfl | hf
      · exact kernelFunction_isRuntimePart hkernel hpart
      · obtain rfl := List.mem_singleton.mp hf
        exact kernelMacro_isRuntimePart hkernel hpart

end Instr

theorem invocation_eq (name : String) (args : List String) :
    invocation name args = name ++ ("(" ++ String.intercalate ", " args ++ ")") := by
  simp [invocation, String.append_assoc]

/-- An invocation, from its name and its arguments. -/
theorem invocation_lexes {name : String} {args : List String} (hname : isRuntimePart name = true)
    (hargs : ∀ arg ∈ args, Lexes N arg) : Lexes N (invocation name args) := by
  rw [invocation_eq]
  exact (runtimePart_lexes hname).append (Lexes.intercalate hargs).parens (.inr (opensWord_parens _))

/-! ### Code -/

section Texts

variable {o : Options} (hkernel : ∀ c ∈ o.kernelPrefix.toList, isWordChar c = true) {Γ : Typing}
  (hΓ : ∀ p t, Γ p t → Lexes N (p.render o))

section Operands

include hΓ

theorem Code.IsBox.lexes {c : Code} (hc : c.IsBox Γ) : Lexes N (c.render o) := by
  cases c with
  | place p => exact hΓ p _ hc
  | _ => exact hc.elim

theorem Code.IsBuffer.lexes {c : Code} (hc : c.IsBuffer Γ) : Lexes N (c.render o) := by
  cases c with
  | place p =>
      cases p with
      | var x => exact hΓ _ _ hc
      | temp n => exact hc.elim
  | _ => exact hc.elim

/-- The two arguments for the bytes of a native string. -/
theorem Code.IsBuffer.args_lexes {c : Code} (hc : c.IsBuffer Γ) :
    ∀ arg ∈ bufferArgs (c.render o), Lexes N arg := by
  have hplace := Code.IsBuffer.lexes hΓ hc
  simp only [bufferArgs, List.forall_mem_cons, List.not_mem_nil, false_implies, implies_true,
    and_true]
  exact ⟨hplace.before "->str" (by decide), hplace.before "->len" (by decide)⟩

end Operands

/-- The body of a literal, between quotes. -/
theorem Code.IsBody.lexes {c : Code} (hc : c.IsBody) : Lexes N (Text.quoted (c.render o)) := by
  cases c with
  | stringBody s => exact quoted_lexes s
  | blank => exact quoted_lexes ""
  | _ => exact hc.elim

theorem sizedLiteral_lexes {body : String} (h : Lexes N (Text.quoted body)) :
    Lexes N (sizedLiteral body) :=
  invocation_lexes (by decide) (by simpa using h)

theorem symbol_isDivider (op : BinaryOp) : isDivider (" " ++ op.symbol ++ " ") = true := by
  cases op with
  | arith op => cases op <;> decide
  | concat => decide
  | compare op => cases op <;> decide
  | connect op => cases op <;> decide

theorem token_isDivider (op : NativeOp) : isDivider (" " ++ op.token ++ " ") = true := by
  cases op <;> decide

/-- The texts of computed code, cut at the ends of its operands. -/
theorem Code.render_binary (o : Options) (op : BinaryOp) (l r : Code) :
    (Code.binary op l r).render o =
      "(" ++ (l.render o ++ (" " ++ op.symbol ++ " ") ++ r.render o) ++ ")" := by
  simp [render, String.append_assoc]

theorem Code.render_not (o : Options) (c : Code) :
    (Code.not c).render o = "!" ++ ("(" ++ c.render o ++ ")") := by
  apply String.toList_injective
  simp [render]

theorem Code.render_nonZero (o : Options) (c : Code) :
    (Code.nonZero c).render o = "(" ++ c.render o ++ ")" ++ " ? 1 : 0" := by
  apply String.toList_injective
  simp [render]

theorem Instr.body_store (o : Options) (dst : Place) (op : NativeOp) (value : Code) :
    (Instr.store dst op value).body o =
      dst.render o ++ (" " ++ op.token ++ " ") ++ value.render o := by
  simp [body, String.append_assoc]

include hkernel hΓ

/-- The text of a native scalar. -/
theorem Code.IsScalar.lexes {c : Code} (hc : c.IsScalar Γ) : Lexes N (c.render o) := by
  induction c with
  | place p =>
      obtain ⟨t, hp, -⟩ := hc
      exact hΓ p t hp
  | truth b =>
      have htext : ∀ b : Bool, isPlainText (if b then "true" else "false") = true := by decide
      exact .fixed (htext b)
  | bit b =>
      have htext : ∀ b : Bool, isPlainText (if b then "1" else "0") = true := by decide
      exact .fixed (htext b)
  | zero b =>
      have htext : ∀ b : Bool, isPlainText (if b then "0.0" else "0") = true := by decide
      exact .fixed (htext b)
  | long n => exact intText_lexes n.toInt
  | double x => exact doubleText_lexes x
  | char c => exact charLiteral_lexes c
  | binary op l r ihl ihr =>
      have hop := isSeparator_of_isDivider (symbol_isDivider op)
      rw [render_binary]
      exact ((ihl hc.1).sep _ hop (ihr hc.2)).parens
  | not c ih =>
      rw [render_not]
      exact (ih hc).parens.after "!" (by decide)
  | cast kind grouped c ih =>
      have hkind : Lexes N kind.text := by cases kind <;> exact .fixed (by decide)
      refine hkind.sep " " (by decide) ?_
      cases grouped with
      | true => exact (ih hc).parens
      | false => exact ih hc
  | nonZero c ih =>
      rw [render_nonZero]
      exact (ih hc).parens.before " ? 1 : 0" (by decide)
  | compare op l r =>
      have hname : isRuntimePart op.boxedMacro = true := by cases op <;> decide
      have htest : Lexes N
          (invocation (o.kernelMacro op.boxedMacro) [l.render o, r.render o]) := by
        refine invocation_lexes (kernelMacro_isRuntimePart hkernel hname) ?_
        simpa using ⟨Code.IsBox.lexes hΓ hc.1, Code.IsBox.lexes hΓ hc.2⟩
      unfold render
      dsimp only
      split
      · exact htest.after "!" (by decide)
      · exact htest
  | isTrue c =>
      refine invocation_lexes (kernelFunction_isRuntimePart hkernel (by decide)) ?_
      simpa using Code.IsBox.lexes hΓ hc
  | verbatim _ | null | stringBody _ | blank | coerce _ _ => exact hc.elim

/-- The text of a coercion. -/
theorem Code.IsCoercion.lexes {kind : Coercion} {c : Code} (hc : c.IsCoercion Γ kind) :
    Lexes N (c.render o) := by
  cases c with
  | coerce k c =>
      have hname : isRuntimePart k.function = true := by cases k <;> decide
      refine invocation_lexes (kernelFunction_isRuntimePart hkernel hname) ?_
      simpa using Code.IsBox.lexes hΓ hc.2
  | _ => exact hc.elim

/-! ### Instructions -/

theorem BoxContent.WellTyped.lexes {content : BoxContent} (hc : content.WellTyped Γ) :
    ∀ arg ∈ content.args o, Lexes N arg := by
  cases content with
  | null | emptyArray => simp [BoxContent.args]
  | string body =>
      simpa [BoxContent.args] using ⟨Code.IsBody.lexes hc, Lexes.fixed (by decide)⟩
  | buffer source =>
      intro arg harg
      rcases List.mem_append.mp harg with harg | harg
      · exact Code.IsBuffer.args_lexes hΓ hc arg harg
      · obtain rfl : arg = "1" := by simpa using harg
        exact .fixed (by decide)
  | scalar kind value => simpa [BoxContent.args] using Code.IsScalar.lexes hkernel hΓ hc

theorem Key.WellTyped.lexes {key : Key} (hk : key.WellTyped Γ) :
    ∀ arg ∈ key.args o, Lexes N arg := by
  cases key with
  | long value => simpa [Key.args] using Code.IsScalar.lexes hkernel hΓ hk
  | literal body => simpa [Key.args] using sizedLiteral_lexes (Code.IsBody.lexes hk)
  | buffer source => exact Code.IsBuffer.args_lexes hΓ hk
  | boxed value => simpa [Key.args] using Code.IsBox.lexes hΓ hk

theorem StringSource.WellTyped.lexes {source : StringSource} (hs : source.WellTyped Γ) :
    ∀ arg ∈ source.args o, Lexes N arg := by
  cases source with
  | char value => simpa [StringSource.args] using Code.IsScalar.lexes hkernel hΓ hs
  | long value =>
      have hvalue : Lexes N (value.render o) :=
        hs.elim (Code.IsScalar.lexes hkernel hΓ) (Code.IsCoercion.lexes hkernel hΓ)
      simpa [StringSource.args] using hvalue
  | buffer source => exact Code.IsBuffer.args_lexes hΓ hs
  | literal body =>
      have htext : Lexes N (Text.quoted (body.render o)) := Code.IsBody.lexes hs
      have hsize : Lexes N (invocation "sizeof" [Text.quoted (body.render o)] ++ "-1") :=
        (invocation_lexes (by decide) (by simpa using htext)).before "-1" (by decide)
      simpa [StringSource.args] using ⟨htext, hsize⟩

omit hkernel hΓ in
/-- The written location comes first among the arguments. -/
theorem Instr.body_of_invoked {i : Instr} {f : String} {byRef : Bool} {args : List String}
    (h : i.invoked o = some (f, byRef, args)) :
    i.body o = BoxedLet.invocation f (i.written.boxOperand o byRef :: args) := by
  cases i <;> simp only [Instr.invoked, Option.some.injEq, Prod.mk.injEq, reduceCtorEq] at h <;>
    obtain ⟨rfl, rfl, rfl⟩ := h <;> rfl

/-- The arguments of a primitive lex. -/
theorem Instr.WellTyped.args_lexes {i : Instr} (hi : i.WellTyped Γ) {f : String} {byRef : Bool}
    {args : List String} (h : i.invoked o = some (f, byRef, args)) : ∀ arg ∈ args, Lexes N arg := by
  have hproperty : ∀ property, Lexes N (sizedLiteral (Text.stringBody property)) :=
    fun property => sizedLiteral_lexes (quoted_lexes property)
  have hbox : ∀ {c : Code}, c.IsBox Γ → Lexes N (c.render o) := Code.IsBox.lexes hΓ
  cases i with
  | store dst op value | step dst direction => simp [Instr.invoked] at h
  | init dst first | separate dst | bump dst inFrame direction =>
      obtain ⟨-, rfl⟩ := Instr.invoked_inj h
      simp
  | build dst inFrame content =>
      obtain ⟨-, rfl⟩ := Instr.invoked_inj h
      exact BoxContent.WellTyped.lexes hkernel hΓ hi
  | copy dst source | inPlace dst op source =>
      obtain ⟨-, rfl⟩ := Instr.invoked_inj h
      simpa using hbox hi
  | writeString dst mode source =>
      obtain ⟨-, rfl⟩ := Instr.invoked_inj h
      exact StringSource.WellTyped.lexes hkernel hΓ hi
  | boxed dst op l r =>
      obtain ⟨-, rfl⟩ := Instr.invoked_inj h
      simpa using ⟨hbox hi.1, hbox hi.2⟩
  | call dst name args =>
      obtain ⟨-, rfl⟩ := Instr.invoked_inj h
      rintro arg (_ | ⟨_, harg⟩)
      · exact quoted_lexes name
      · obtain ⟨c, hc, rfl⟩ := List.mem_map.mp harg
        exact hbox (hi c hc)
  | readProperty dst object property =>
      obtain ⟨-, rfl⟩ := Instr.invoked_inj h
      simpa using ⟨hbox hi, hproperty property, .fixed (by decide)⟩
  | fetch dst array key =>
      obtain ⟨-, rfl⟩ := Instr.invoked_inj h
      rintro arg (_ | ⟨_, harg⟩)
      · exact hbox hi.1
      · rcases List.mem_append.mp harg with harg | harg
        · exact Key.WellTyped.lexes hkernel hΓ hi.2 arg harg
        · obtain rfl : arg = "PH_NOISY" := by simpa using harg
          exact .fixed (by decide)
  | append dst value =>
      obtain ⟨-, rfl⟩ := Instr.invoked_inj h
      simpa using ⟨hbox hi, .fixed (by decide)⟩
  | update dst key value =>
      obtain ⟨-, rfl⟩ := Instr.invoked_inj h
      have hvalue : Lexes N ("&" ++ value.render o) := (hbox hi.2).after "&" (by decide)
      have hflags : Lexes N "PH_COPY | PH_SEPARATE" := .fixed (by decide)
      intro arg harg
      rcases List.mem_append.mp harg with harg | harg
      · exact Key.WellTyped.lexes hkernel hΓ hi.1 arg harg
      · have harg : arg = "&" ++ value.render o ∨ arg = "PH_COPY | PH_SEPARATE" := by
          simpa using harg
        rcases harg with rfl | rfl
        · exact hvalue
        · exact hflags
  | setProperty dst property value | appendProperty dst property value =>
      obtain ⟨-, rfl⟩ := Instr.invoked_inj h
      simpa using ⟨hproperty property, hbox hi⟩
  | updateProperty dst property key value =>
      obtain ⟨-, rfl⟩ := Instr.invoked_inj h
      simpa using ⟨hproperty property, hbox hi.1, hbox hi.2⟩

/-- **The words of an instruction.** The text of a well-typed instruction lexes if the name of the
location that it writes does. -/
theorem Instr.WellTyped.lexes {i : Instr} (hi : i.WellTyped Γ)
    (hdst : Lexes N (i.written.render o)) : Lexes N (i.body o) := by
  cases h : i.invoked o with
  | some call =>
      obtain ⟨f, byRef, args⟩ := call
      have hargs := hi.args_lexes hkernel hΓ h
      rw [Instr.body_of_invoked h]
      refine invocation_lexes (Instr.isRuntimePart_of_invoked hkernel h) ?_
      rintro arg (_ | ⟨_, harg⟩)
      · unfold Place.boxOperand
        split
        · exact hdst.after "&" (by decide)
        · exact hdst
      · exact hargs arg harg
  | none =>
      cases i with
      | store dst op value =>
          rw [Instr.body_store]
          refine hdst.sep _ (isSeparator_of_isDivider (token_isDivider op)) ?_
          rcases hi with hi | hi | hi
          · exact Code.IsScalar.lexes hkernel hΓ hi
          · exact Code.IsCoercion.lexes hkernel hΓ hi
          · exact Code.IsCoercion.lexes hkernel hΓ hi
      | step dst direction =>
          cases direction with
          | increment => exact hdst.before "++" (by decide)
          | decrement => exact hdst.before "--" (by decide)
      | _ => exact absurd h (by simp [Instr.invoked])

end Texts

/-! ### What a line invokes and writes -/

/-- The text of an invocation up to its first argument. -/
theorem invocation_toList (f a : String) (args : List String) :
    ∃ rest, (invocation f (a :: args) ++ ";").toList = f.toList ++ '(' :: (a.toList ++ rest) ∧
      rest.head?.any isWordChar = false := by
  cases args with
  | nil => exact ⟨[')', ';'], by simp [invocation], by decide⟩
  | cons b args =>
      have hcomma : isWordChar ',' = false := by decide
      let others := (String.intercalate ", " (b :: args)).toList
      refine ⟨',' :: ' ' :: (others ++ [')', ';']), ?_, hcomma⟩
      simp [invocation, String.intercalate_cons_cons, others]

theorem repeated_isBlank {s : String} (h : s.toList.all isBlank = true) (n : Nat) :
    (repeated s n).toList.all isBlank = true := by
  unfold repeated
  split
  · rfl
  · rw [String.toList_join, List.all_eq_true]
    intro c hc
    obtain ⟨t, ht, hc⟩ := List.mem_flatMap.mp hc
    rw [(List.mem_replicate.mp ht).2] at hc
    exact List.all_eq_true.mp h c hc

section Lines

variable {o : Options} {i : Instr} (hindent : o.indent.toList.all isBlank = true)
  (hkernel : isIdentifier o.kernelPrefix = true) (hdst : isWord (i.written.render o) = true)
include hindent

/-- The margin of a line does not matter. -/
theorem lineTokens_line (i : Instr) : lineTokens (i.line o) = lineTokens (i.render o) :=
  lineTokens_indent (repeated_isBlank hindent _) _

section Invocation

variable {f : String} {byRef : Bool} {args : List String}
  (h : i.invoked o = some (f, byRef, args))
include hkernel h

/-- The tokens of an invocation up to its first argument. -/
theorem lineTokens_of_call :
    ∃ rest, rest.head?.any isWordChar = false ∧
      lineTokens (i.line o) = .word f.toList :: .mark '(' ::
        (tokens .plain ((i.written.boxOperand o byRef).toList ++ rest)).filter
          Token.isVisible := by
  have hpart := Instr.isRuntimePart_of_invoked (isWordChar_of_isIdentifier hkernel) h
  have hf : isWord f = true := (Bool.and_eq_true_iff.mp hpart).1
  obtain ⟨rest, htext, hrest⟩ := invocation_toList f (i.written.boxOperand o byRef) args
  refine ⟨rest, hrest, ?_⟩
  rw [lineTokens_line hindent, lineTokens, Instr.render, Instr.body_of_invoked h, htext,
    tokens_word_mark hf (by decide) (by decide)]
  rfl

/-- The line of an invocation invokes it, whatever its arguments are. -/
theorem callee?_of_invoked : callee? (i.line o) = some f := by
  obtain ⟨rest, -, htokens⟩ := lineTokens_of_call hindent hkernel h
  simp [callee?, htokens]

include hdst

/-- The tokens of an invocation up to the written location. -/
theorem lineTokens_of_invoked :
    ∃ rest, lineTokens (i.line o) = .word f.toList :: .mark '(' ::
      ((if byRef then [.mark '&'] else []) ++ .word (i.written.render o).toList :: rest) := by
  obtain ⟨rest, hrest, htokens⟩ := lineTokens_of_call hindent hkernel h
  refine ⟨(tokens .plain rest).filter Token.isVisible, ?_⟩
  have hreference : ∀ cs : List Char, tokens .plain ('&' :: cs) = .mark '&' :: tokens .plain cs :=
    tokens_cons_mark (by decide) (by decide)
  rw [htokens]
  cases byRef with
  | false =>
      rw [Place.boxOperand, if_neg Bool.false_ne_true, tokens_word_append hdst hrest]
      rfl
  | true =>
      have hoperand : (i.written.boxOperand o true).toList =
          '&' :: (i.written.render o).toList := by
        simp [Place.boxOperand, Place.reference]
      rw [hoperand, List.cons_append, hreference, tokens_word_append hdst hrest]
      rfl

end Invocation

include hdst

/-- The tokens of a native assignment or step up to its operator. -/
theorem lineTokens_of_native (h : i.invoked o = none) :
    ∃ c rest, lineTokens (i.line o) = .word (i.written.render o).toList :: .mark c :: rest ∧
      c ≠ '(' := by
  rw [lineTokens_line hindent, lineTokens]
  cases i with
  | store dst op value =>
      obtain ⟨c, cs, htoken, hquote, hword, hvisible, hc⟩ : ∃ c cs, op.token.toList = c :: cs ∧
          isQuote c = false ∧ isWordChar c = false ∧ isBlank c = false ∧ c ≠ '(' := by
        cases op <;> exact ⟨_, _, rfl, by decide⟩
      have htext : ((Instr.store dst op value).render o).toList =
          (dst.render o).toList ++ ' ' :: c :: (cs ++ ' ' :: (value.render o).toList ++ [';']) := by
        simp [Instr.render, Instr.body, htoken]
      have hseen : Token.isVisible (.mark c) = true := by simp [Token.isVisible, hvisible]
      -- the blank before the operator is no token of the line
      refine ⟨c, (tokens .plain (cs ++ ' ' :: (value.render o).toList ++ [';'])).filter
        Token.isVisible, ?_, hc⟩
      have hdst : isWord (dst.render o) = true := hdst
      rw [htext, tokens_word_mark (c := ' ') hdst (by decide) (by decide),
        tokens_cons_mark hquote hword,
        List.filter_cons_of_pos rfl, List.filter_cons_of_neg (by decide),
        List.filter_cons_of_pos hseen]
      rfl
  | step dst direction =>
      obtain ⟨c, cs, htoken, hquote, hword, hvisible, hc⟩ :
          ∃ c cs, direction.token.toList = c :: cs ∧
          isQuote c = false ∧ isWordChar c = false ∧ isBlank c = false ∧ c ≠ '(' := by
        cases direction <;> exact ⟨_, _, rfl, by decide⟩
      have htext : ((Instr.step dst direction).render o).toList =
          (dst.render o).toList ++ c :: (cs ++ [';']) := by
        simp [Instr.render, Instr.body, htoken]
      have hseen : Token.isVisible (.mark c) = true := by simp [Token.isVisible, hvisible]
      refine ⟨c, (tokens .plain (cs ++ [';'])).filter Token.isVisible, ?_, hc⟩
      have hdst : isWord (dst.render o) = true := hdst
      rw [htext, tokens_word_mark hdst hquote hword, List.filter_cons_of_pos rfl,
        List.filter_cons_of_pos hseen]
      rfl
  | _ => exact absurd h (by simp [Instr.invoked])

include hkernel

/-- **A line writes the location that its instruction writes.** -/
theorem writtenOperand?_line : writtenOperand? (i.line o) = some (i.written.render o) := by
  cases h : i.invoked o with
  | none =>
      obtain ⟨c, rest, htokens, hc⟩ := lineTokens_of_native hindent hdst h
      simp [writtenOperand?, htokens, hc]
  | some call =>
      obtain ⟨f, byRef, args⟩ := call
      obtain ⟨rest, htokens⟩ := lineTokens_of_invoked hindent hkernel hdst h
      cases byRef <;> simp [writtenOperand?, htokens]

/-- A line invokes the primitive of its instruction. -/
theorem callee?_line : callee? (i.line o) = (i.invoked o).map Prod.fst := by
  cases h : i.invoked o with
  | none =>
      obtain ⟨c, rest, htokens, hc⟩ := lineTokens_of_native hindent hdst h
      simp [callee?, htokens, hc]
  | some call => exact callee?_of_invoked hindent hkernel h

/-- **A line mentions the locations that its instruction writes and reads**, and plain words. -/
theorem mentioned_line {Γ : Typing} (hΓ : ∀ p t, Γ p t → isWord (p.render o) = true)
    (hi : i.WellTyped Γ) {w : String} (hw : w ∈ mentioned (i.line o)) :
    isPlain w.toList = true ∨ w = i.written.render o ∨ ∃ p t, Γ p t ∧ w = p.render o := by
  -- the words to allow: what the instruction writes and what it may read
  let N : List Char → Prop := fun v =>
    v = (i.written.render o).toList ∨ ∃ p t, Γ p t ∧ v = (p.render o).toList
  have hread : ∀ p t, Γ p t → Lexes N (p.render o) :=
    fun p t hp => .word (hΓ p t hp) (.inr (.inr ⟨p, t, hp, rfl⟩))
  have hwritten : Lexes N (i.written.render o) := .word hdst (.inr (.inl rfl))
  have hbody : Lexes N (i.body o) :=
    hi.lexes (isWordChar_of_isIdentifier hkernel) hread hwritten
  have hw : w ∈ mentioned (i.render o) := by
    rw [mentioned, ← lineTokens_line hindent]
    exact hw
  rcases hbody.mentioned hw with hplain | hname | ⟨p, t, hp, hname⟩
  · exact .inl hplain
  · exact .inr (.inl (String.toList_injective hname))
  · exact .inr (.inr ⟨p, t, hp, String.toList_injective hname⟩)

end Lines

end BoxedLet
