import BoxedLet.Text.Escape

/-!
# BoxedLet.Proofs.LiteralValue

**What a string literal of C stands for.** `literalBytes?` reads the body of a literal: simple
escapes, octal escapes, and characters that stand for their UTF-8 encoding. An octal escape takes as
many digits as it can get, up to three.

The null character is escaped as an octal escape of one digit. If an octal digit follows it in the
string, that digit becomes part of the escape, and the literal stands for another string, a shorter
one. This is the only way in which escaping can go wrong (`literalBytes?_stringBody_iff`).
-/

namespace BoxedLet.Text

/-! ### Reading a body -/

/-- The UTF-8 encoding of a text. -/
def utf8 (cs : List Char) : List UInt8 :=
  cs.flatMap String.utf8EncodeChar

/-- The octal digits. -/
def isOctal (c : Char) : Bool :=
  '0' ≤ c && c ≤ '7'

/-- The digits of an octal escape: the longest run, but no more than three. -/
def octalRun (cs : List Char) : List Char :=
  (cs.take 3).takeWhile isOctal

/-- The byte that a simple escape stands for. -/
def simpleByte? (c : Char) : Option UInt8 :=
  if c = '\\' then some 0x5C
  else if c = '"' then some 0x22
  else if c = 'n' then some 0x0A
  else if c = 'r' then some 0x0D
  else if c = 't' then some 0x09
  else none

/-- The byte that an octal escape stands for, and the text behind it. -/
def readOctal? (cs : List Char) : Option (UInt8 × List Char) :=
  let digits := octalRun cs
  let value := Nat.ofDigitChars 8 digits 0
  if digits = [] ∨ UInt8.size ≤ value then none
  else some (UInt8.ofNat value, cs.drop digits.length)

/-- The byte that the escape after a backslash stands for, and the text behind it. -/
def readEscape? : List Char → Option (UInt8 × List Char)
  | [] => none
  | c :: cs =>
    match simpleByte? c with
    | some b => some (b, cs)
    | none => readOctal? (c :: cs)

theorem readOctal?_length {cs rest : List Char} {b : UInt8} (h : readOctal? cs = some (b, rest)) :
    rest.length < cs.length := by
  simp only [readOctal?, Option.ite_none_left_eq_some, not_or, Option.some.injEq,
    Prod.mk.injEq] at h
  obtain ⟨⟨hdigits, -⟩, -, rfl⟩ := h
  have hpos : 0 < (octalRun cs).length := List.length_pos_iff.mpr hdigits
  have hle : (octalRun cs).length ≤ cs.length :=
    ((List.takeWhile_sublist isOctal).trans (List.take_sublist 3 cs)).length_le
  rw [List.length_drop]
  omega

theorem readEscape?_length {cs rest : List Char} {b : UInt8} (h : readEscape? cs = some (b, rest)) :
    rest.length < cs.length := by
  cases cs with
  | nil => cases h
  | cons c cs =>
      cases hsimple : simpleByte? c with
      | some b' =>
          simp only [readEscape?, hsimple, Option.some.injEq, Prod.mk.injEq] at h
          obtain ⟨-, rfl⟩ := h
          exact Nat.lt_succ_self _
      | none =>
          simp only [readEscape?, hsimple] at h
          exact readOctal?_length h

/-- The bytes that the body of a string literal stands for. Nothing can be read off a body that a
quote or a line break cuts short, or that has an escape which is none. -/
def literalBytes? (body : List Char) : Option (List UInt8) :=
  match body with
  | [] => some []
  | c :: cs =>
    if c = '\\' then
      match h : readEscape? cs with
      | none => none
      | some (b, rest) =>
        have : rest.length < cs.length := readEscape?_length h
        (literalBytes? rest).map (b :: ·)
    else if c = '"' ∨ c = '\n' ∨ c = '\r' then none
    else (literalBytes? cs).map (String.utf8EncodeChar c ++ ·)
termination_by body.length

theorem literalBytes?_nil : literalBytes? [] = some [] := by
  rw [literalBytes?]

theorem literalBytes?_escape {cs rest : List Char} {b : UInt8}
    (h : readEscape? cs = some (b, rest)) :
    literalBytes? ('\\' :: cs) = (literalBytes? rest).map (b :: ·) := by
  rw [literalBytes?, if_pos rfl]
  split
  · simp_all
  · simp_all

theorem literalBytes?_plain {c : Char} (hslash : c ≠ '\\') (hend : ¬ (c = '"' ∨ c = '\n' ∨ c = '\r'))
    (cs : List Char) :
    literalBytes? (c :: cs) = (literalBytes? cs).map (String.utf8EncodeChar c ++ ·) := by
  rw [literalBytes?, if_neg hslash, if_neg hend]

/-! ### Octal digits behind an escape -/

theorem isOctal_iff {c : Char} : isOctal c = true ↔ '0' ≤ c ∧ c ≤ '7' := by
  simp [isOctal]

/-- The value of an octal digit. -/
theorem toNat_of_isOctal {c : Char} (h : isOctal c = true) : c.toNat - '0'.toNat ≤ 7 := by
  obtain ⟨-, hle⟩ := isOctal_iff.mp h
  have hnat : c.toNat ≤ '7'.toNat := UInt32.le_iff_toNat_le.mp hle
  have h7 : '7'.toNat = '0'.toNat + 7 := rfl
  omega

/-- Octal digits are not escaped. -/
theorem escapeChar_of_isOctal {c : Char} (h : isOctal c = true) : escapeChar '"' c = [c] := by
  have hnone : escapeLetter? '"' c = none := by
    have hne : ∀ d : Char, isOctal d = false → c ≠ d := by
      intro d hd hcd
      exact absurd (hcd ▸ h) (by simp [hd])
    simp [escapeLetter?, hne '"' (by decide), hne '\\' (by decide), hne '\n' (by decide),
      hne '\r' (by decide), hne '\t' (by decide), hne '\x00' (by decide)]
  rw [escapeChar, hnone]

/-- What any other character is written as does not begin with an octal digit. -/
theorem escapeChar_head {c : Char} (h : isOctal c = false) :
    ∃ x xs, escapeChar '"' c = x :: xs ∧ isOctal x = false := by
  unfold escapeChar
  split
  · exact ⟨_, _, rfl, by decide⟩
  · exact ⟨_, _, rfl, h⟩

/-- An escaped text begins with the octal digits that the text begins with. -/
theorem takeWhile_escapeChars (n : Nat) (cs : List Char) :
    ((escapeChars '"' cs).take n).takeWhile isOctal = (cs.take n).takeWhile isOctal := by
  induction n generalizing cs with
  | zero => rfl
  | succ n ih =>
      cases cs with
      | nil => rfl
      | cons c cs =>
          cases hc : isOctal c with
          | true => simp [escapeChar_of_isOctal hc, hc, ih]
          | false =>
              obtain ⟨x, xs, hx, hnot⟩ := escapeChar_head hc
              simp [hx, hnot, hc]

/-- Behind these digits comes what is written for the rest of the text. -/
theorem drop_escapeChars (n : Nat) (cs : List Char) :
    (escapeChars '"' cs).drop ((cs.take n).takeWhile isOctal).length =
      escapeChars '"' (cs.drop ((cs.take n).takeWhile isOctal).length) := by
  induction n generalizing cs with
  | zero => rfl
  | succ n ih =>
      cases cs with
      | nil => rfl
      | cons c cs =>
          cases hc : isOctal c with
          | true => simpa [escapeChar_of_isOctal hc, hc] using ih cs
          | false => simp [hc]

/-- Three octal digits, the first of which is zero, make a byte. -/
theorem ofDigitChars_octal_lt {ds : List Char} (hlength : ds.length ≤ 2)
    (hds : ∀ d ∈ ds, isOctal d = true) : Nat.ofDigitChars 8 ('0' :: ds) 0 < UInt8.size := by
  have hsize : UInt8.size = 256 := rfl
  rcases ds with _ | ⟨a, _ | ⟨b, _ | ⟨c, ds⟩⟩⟩
  · decide
  · have ha := toNat_of_isOctal (hds a (by simp))
    simp only [Nat.ofDigitChars_cons, Nat.ofDigitChars_nil]
    omega
  · have ha := toNat_of_isOctal (hds a (by simp))
    have hb := toNat_of_isOctal (hds b (by simp))
    simp only [Nat.ofDigitChars_cons, Nat.ofDigitChars_nil]
    omega
  · simp at hlength

/-! ### Reading what has been escaped -/

/-- The digits that an escaped null character takes over from the text behind it. -/
def absorbed (cs : List Char) : List Char :=
  (cs.take 2).takeWhile isOctal

theorem absorbed_eq_nil_iff {cs : List Char} : absorbed cs = [] ↔ cs.head?.any isOctal = false := by
  cases cs with
  | nil => simp [absorbed]
  | cons c cs =>
      cases hc : isOctal c with
      | true => simp [absorbed, hc]
      | false => simp [absorbed, hc]

/-- **An escaped null character takes over the octal digits behind it.** -/
theorem literalBytes?_null (cs : List Char) :
    ∃ b, literalBytes? (escapeChars '"' ('\x00' :: cs)) =
        (literalBytes? (escapeChars '"' (cs.drop (absorbed cs).length))).map (b :: ·) ∧
      (absorbed cs = [] → b = 0) := by
  have hrun : octalRun ('0' :: escapeChars '"' cs) = '0' :: absorbed cs := by
    have hzero : isOctal '0' = true := by decide
    simp [octalRun, absorbed, hzero, takeWhile_escapeChars]
  have hlt : Nat.ofDigitChars 8 ('0' :: absorbed cs) 0 < UInt8.size := by
    have hlength : (absorbed cs).length ≤ (cs.take 2).length :=
      (List.takeWhile_sublist isOctal).length_le
    have htake : (cs.take 2).length ≤ 2 := List.length_take_le 2 cs
    exact ofDigitChars_octal_lt (by omega) (List.all_eq_true.mp List.all_takeWhile)
  have hread : readEscape? ('0' :: escapeChars '"' cs) =
      some (UInt8.ofNat (Nat.ofDigitChars 8 ('0' :: absorbed cs) 0),
        escapeChars '"' (cs.drop (absorbed cs).length)) := by
    have hoctal : readEscape? ('0' :: escapeChars '"' cs) =
        readOctal? ('0' :: escapeChars '"' cs) := rfl
    have hdrop := drop_escapeChars 2 cs
    rw [hoctal, readOctal?, hrun, if_neg (by simpa using hlt)]
    simpa [absorbed] using hdrop
  have htext : escapeChars '"' ('\x00' :: cs) = '\\' :: '0' :: escapeChars '"' cs := by
    rw [escapeChars_cons]
    rfl
  refine ⟨_, by rw [htext, literalBytes?_escape hread], fun hnil => ?_⟩
  rw [hnil]
  decide

/-- Any other character is read as it was. -/
theorem literalBytes?_escapeChar {c : Char} (h : c ≠ '\x00') (cs : List Char) :
    literalBytes? (escapeChar '"' c ++ cs) =
      (literalBytes? cs).map (String.utf8EncodeChar c ++ ·) := by
  have hsimple : ∀ {letter : Char} {b : UInt8}, escapeLetter? '"' c = some letter →
      simpleByte? letter = some b → String.utf8EncodeChar c = [b] →
      literalBytes? (escapeChar '"' c ++ cs) =
        (literalBytes? cs).map (String.utf8EncodeChar c ++ ·) := by
    intro letter b hletter hbyte hutf8
    have hread : readEscape? (letter :: cs) = some (b, cs) := by simp [readEscape?, hbyte]
    rw [escapeChar, hletter, hutf8]
    exact literalBytes?_escape hread
  by_cases hquote : c = '"'
  · subst hquote
    exact hsimple rfl rfl rfl
  by_cases hslash : c = '\\'
  · subst hslash
    exact hsimple rfl rfl rfl
  by_cases hbreak : c = '\n'
  · subst hbreak
    exact hsimple rfl rfl rfl
  by_cases hreturn : c = '\r'
  · subst hreturn
    exact hsimple rfl rfl rfl
  by_cases htab : c = '\t'
  · subst htab
    exact hsimple rfl rfl rfl
  have hnone : escapeLetter? '"' c = none := by
    simp [escapeLetter?, hquote, hslash, hbreak, hreturn, htab, h]
  rw [escapeChar, hnone]
  exact literalBytes?_plain hslash (by simp [hquote, hbreak, hreturn]) cs

/-- Whether an octal digit stands right behind a null character. -/
def digitAfterNull : List Char → Bool
  | [] => false
  | c :: cs => (c == '\x00' && cs.head?.any isOctal) || digitAfterNull cs

theorem utf8_cons (c : Char) (cs : List Char) :
    utf8 (c :: cs) = String.utf8EncodeChar c ++ utf8 cs :=
  rfl

theorem length_utf8_le_drop (cs : List Char) (n : Nat) :
    (cs.take n).length + (utf8 (cs.drop n)).length ≤ (utf8 cs).length := by
  induction cs generalizing n with
  | nil => simp [utf8]
  | cons c cs ih =>
      cases n with
      | zero => simp
      | succ n =>
          have hpos : 0 < (String.utf8EncodeChar c).length :=
            List.length_pos_iff.mpr String.utf8EncodeChar_ne_nil
          have hrest := ih n
          rw [utf8_cons, List.length_append, List.take_succ_cons, List.length_cons,
            List.drop_succ_cons]
          omega

/-- The bytes that an escaped text reads as. They are those of the text unless a digit is taken over,
and fewer if one is. -/
structure ReadsAs (cs : List Char) (bytes : List UInt8) : Prop where
  read : literalBytes? (escapeChars '"' cs) = some bytes
  same : digitAfterNull cs = false → bytes = utf8 cs
  fewer : digitAfterNull cs = true → bytes.length < (utf8 cs).length

namespace ReadsAs

variable {cs : List Char} {bytes : List UInt8}

theorem nil : ReadsAs [] [] :=
  ⟨literalBytes?_nil, fun _ => rfl, nofun⟩

theorem length_le (h : ReadsAs cs bytes) : bytes.length ≤ (utf8 cs).length := by
  cases hdigit : digitAfterNull cs with
  | false =>
      exact Nat.le_of_eq (congrArg List.length (h.same hdigit))
  | true => exact Nat.le_of_lt (h.fewer hdigit)

theorem cons {c : Char} (hc : c ≠ '\x00') (h : ReadsAs cs bytes) :
    ReadsAs (c :: cs) (String.utf8EncodeChar c ++ bytes) := by
  have hdigit : digitAfterNull (c :: cs) = digitAfterNull cs := by
    simp [digitAfterNull, hc]
  refine ⟨?_, ?_, ?_⟩
  · rw [escapeChars_cons, literalBytes?_escapeChar hc, h.read]
    rfl
  · intro hfree
    rw [utf8_cons, h.same (hdigit ▸ hfree)]
  · intro htaken
    have hlt := h.fewer (hdigit ▸ htaken)
    rw [utf8_cons, List.length_append, List.length_append]
    omega

/-- A null character, with the digits that it takes over. -/
theorem null (h : ReadsAs (cs.drop (absorbed cs).length) bytes) :
    ∃ b, ReadsAs ('\x00' :: cs) (b :: bytes) := by
  obtain ⟨b, hread, hzero⟩ := literalBytes?_null cs
  refine ⟨b, by rw [hread, h.read]; rfl, ?_, ?_⟩
  · intro hfree
    obtain ⟨hhead, hrest⟩ : cs.head?.any isOctal = false ∧ digitAfterNull cs = false := by
      simpa [digitAfterNull] using hfree
    have hnil : absorbed cs = [] := absorbed_eq_nil_iff.mpr hhead
    have hsame := h.same
    rw [hnil] at hsame
    rw [hzero hnil, hsame hrest]
    rfl
  · intro htaken
    show bytes.length + 1 < (utf8 cs).length + 1
    cases hhead : cs.head?.any isOctal with
    | true =>
        -- the digits that are taken over are bytes of the text, too
        have hle := h.length_le
        have hdrop := length_utf8_le_drop cs (absorbed cs).length
        have hne : absorbed cs ≠ [] := by simp [absorbed_eq_nil_iff, hhead]
        have htake : absorbed cs <+: cs :=
          (List.takeWhile_prefix isOctal).trans (List.take_prefix 2 cs)
        rw [← List.prefix_iff_eq_take.mp htake] at hdrop
        have hpos : 0 < (absorbed cs).length := List.length_pos_iff.mpr hne
        omega
    | false =>
        have hrest : digitAfterNull cs = true := by
          simpa [digitAfterNull, hhead] using htaken
        have hfewer := h.fewer
        rw [absorbed_eq_nil_iff.mpr hhead] at hfewer
        have hlt : bytes.length < (utf8 cs).length := hfewer hrest
        omega

end ReadsAs

theorem exists_readsAs (cs : List Char) : ∃ bytes, ReadsAs cs bytes := by
  -- by the length of the text, since a null character may take two more characters with it
  induction hn : cs.length using Nat.strongRecOn generalizing cs with
  | ind n ih =>
      cases cs with
      | nil => exact ⟨[], .nil⟩
      | cons c cs =>
          by_cases hc : c = '\x00'
          · subst hc
            have hshorter : (cs.drop (absorbed cs).length).length < n := by
              rw [← hn, List.length_drop, List.length_cons]
              omega
            obtain ⟨bytes, hbytes⟩ := ih _ hshorter _ rfl
            obtain ⟨b, hb⟩ := hbytes.null
            exact ⟨b :: bytes, hb⟩
          · obtain ⟨bytes, hbytes⟩ := ih _ (by simp [← hn]) cs rfl
            exact ⟨_, hbytes.cons hc⟩

/-! ### Strings -/

/-- The bytes of a string in memory. -/
def bytes (s : String) : List UInt8 :=
  s.toUTF8.data.toList

theorem bytes_eq_utf8 (s : String) : bytes s = utf8 s.toList := by
  have hs : s.toUTF8 = (utf8 s.toList).toByteArray := String.utf8Encode_toList.symm
  rw [bytes, hs, List.data_toByteArray]

theorem length_bytes (s : String) : (bytes s).length = s.utf8ByteSize :=
  rfl

/-- **The literal of a string stands for the string**, unless an octal digit stands right behind a
null character in it; then it stands for fewer bytes. -/
theorem literalBytes?_stringBody (s : String) :
    ∃ read, literalBytes? (stringBody s).toList = some read ∧
      (read = bytes s ↔ digitAfterNull s.toList = false) ∧
      (read.length = s.utf8ByteSize ↔ digitAfterNull s.toList = false) := by
  obtain ⟨read, h⟩ := exists_readsAs s.toList
  have hfewer : digitAfterNull s.toList ≠ false → read.length ≠ (bytes s).length := by
    intro htaken hlength
    have hlt := h.fewer (by simpa using htaken)
    rw [← bytes_eq_utf8] at hlt
    omega
  have hsame : digitAfterNull s.toList = false → read = bytes s := by
    intro hfree
    rw [h.same hfree, bytes_eq_utf8]
  refine ⟨read, by rw [stringBody, String.toList_ofList, h.read], ⟨?_, hsame⟩, ⟨?_, ?_⟩⟩
  · intro heq
    exact Decidable.byContradiction fun htaken => hfewer htaken (by rw [heq])
  · intro hlength
    exact Decidable.byContradiction fun htaken => hfewer htaken hlength
  · intro hfree
    rw [hsame hfree, length_bytes]

end BoxedLet.Text
