import BoxedLet.Json.Value
import BoxedLet.Proofs.Digits

/-!
# BoxedLet.Proofs.JsonText

**How values are written** in documents: `Written budget v text` says that the text is one of the ways
to write the value `v` which open at most `budget` brackets at once. Blanks may stand around
everything, and characters of strings may be escaped in all ways there are. Numbers are integers of
at most 64 bits.

The second half shows that the readers of lexemes invert writing, whatever comes behind.
-/

namespace BoxedLet.Json

/-! ### Strings -/

/-- Nothing but blanks. -/
def IsBlanks (ws : List Char) : Prop :=
  ∀ c ∈ ws, c = ' ' ∨ c = '\n' ∨ c = '\t' ∨ c = '\r'

/-- The character is the hexadecimal digit, in lower or upper case. -/
def IsHexDigit (digit : Nat) (c : Char) : Prop :=
  c = Nat.digitChar digit ∨ c = (Nat.digitChar digit).toUpper

/-- The text is the number in four hexadecimal digits. -/
def IsHex (n : Nat) (text : List Char) : Prop :=
  n < 0x10000 ∧ ∃ a b c d, text = [a, b, c, d] ∧ IsHexDigit (n / 0x1000) a ∧
    IsHexDigit (n / 0x100 % 16) b ∧ IsHexDigit (n / 0x10 % 16) c ∧ IsHexDigit (n % 16) d

/-- The one-letter escapes, and what they stand for. -/
def simpleEscapes : List (Char × Char) :=
  [('"', '"'), ('\\', '\\'), ('/', '/'), ('b', '\x08'), ('f', '\x0c'), ('n', '\n'), ('r', '\r'),
    ('t', '\t')]

/-- The characters of a string, and a text that stands for them between quotes. -/
inductive WrittenChars : List Char → List Char → Prop
  | nil : WrittenChars [] []
  | plain {c : Char} {cs text : List Char} (hquote : c ≠ '"') (hslash : c ≠ '\\')
      (hcontrol : 0x20 ≤ c.toNat) (h : WrittenChars cs text) : WrittenChars (c :: cs) (c :: text)
  | simple {letter c : Char} {cs text : List Char} (hletter : (letter, c) ∈ simpleEscapes)
      (h : WrittenChars cs text) : WrittenChars (c :: cs) ('\\' :: letter :: text)
  | unicode {c : Char} {cs hex text : List Char} (hhex : IsHex c.toNat hex)
      (h : WrittenChars cs text) : WrittenChars (c :: cs) ('\\' :: 'u' :: (hex ++ text))
  /-- A character beyond the first plane, as a surrogate pair. -/
  | pair {c : Char} {cs leading trailing text : List Char} (hplane : 0x10000 ≤ c.toNat)
      (hleading : IsHex (0xD800 + (c.toNat - 0x10000) / 0x400) leading)
      (htrailing : IsHex (0xDC00 + (c.toNat - 0x10000) % 0x400) trailing)
      (h : WrittenChars cs text) :
      WrittenChars (c :: cs) ('\\' :: 'u' :: (leading ++ '\\' :: 'u' :: (trailing ++ text)))

/-! ### Values -/

/-- A value without brackets, and a text for it. -/
inductive WrittenScalar : Value → List Char → Prop
  | null : WrittenScalar .null ['n', 'u', 'l', 'l']
  | true : WrittenScalar (.bool true) ['t', 'r', 'u', 'e']
  | false : WrittenScalar (.bool false) ['f', 'a', 'l', 's', 'e']
  | int {n : Int} (hlow : Int64.minValue.toInt ≤ n) (hhigh : n < UInt64.size) :
      WrittenScalar (.number (.int n)) (toString n).toList
  | string {s : String} {text : List Char} (h : WrittenChars s.toList text) :
      WrittenScalar (.string s) ('"' :: (text ++ ['"']))

/-- One or more entries, separated by commas. -/
inductive Separated {α : Type} (E : α → List Char → Prop) : List α → List Char → Prop
  | last {x : α} {before text after : List Char} (hbefore : IsBlanks before) (h : E x text)
      (hafter : IsBlanks after) : Separated E [x] (before ++ (text ++ after))
  | cons {x : α} {xs : List α} {before text after rest : List Char} (hbefore : IsBlanks before)
      (h : E x text) (hafter : IsBlanks after) (hrest : Separated E xs rest) :
      Separated E (x :: xs) (before ++ (text ++ (after ++ ',' :: rest)))

/-- What stands between brackets: entries, or nothing but blanks. -/
def Enclosed {α : Type} (E : α → List Char → Prop) (xs : List α) (text : List Char) : Prop :=
  xs = [] ∧ IsBlanks text ∨ Separated E xs text

section Brackets

variable (W : Value → List Char → Prop)

/-- A key, a colon and a value. -/
inductive WrittenMember : String × Value → List Char → Prop
  | mk {key : String} {v : Value} {name gap lead text : List Char}
      (hname : WrittenChars key.toList name) (hgap : IsBlanks gap) (hlead : IsBlanks lead)
      (h : W v text) :
      WrittenMember (key, v) ('"' :: (name ++ '"' :: (gap ++ ':' :: (lead ++ text))))

/-- A value in brackets, and a text for it. -/
inductive WrittenBrackets : Value → List Char → Prop
  | list {items : List Value} {text : List Char} (h : Enclosed W items text) :
      WrittenBrackets (.list items) ('[' :: (text ++ [']']))
  | object {members : List (String × Value)} {text : List Char}
      (h : Enclosed (WrittenMember W) members text) :
      WrittenBrackets (.object members) ('\x7b' :: (text ++ ['\x7d']))

end Brackets

/-- The text is a way to write the value, and at most `budget` brackets are open in it at once. -/
def Written : (budget : Nat) → Value → List Char → Prop
  | 0, v, text => WrittenScalar v text
  | budget + 1, v, text => WrittenScalar v text ∨ WrittenBrackets (Written budget) v text

theorem WrittenScalar.written {v : Value} {text : List Char} (h : WrittenScalar v text)
    (budget : Nat) : Written budget v text := by
  cases budget with
  | zero => exact h
  | succ budget => exact .inl h

/-! ### Blanks, and what comes behind -/

theorem IsBlanks.nil : IsBlanks [] := by
  intro c hc
  cases hc

theorem isBlank_iff {c : Char} :
    isBlank c = true ↔ c = ' ' ∨ c = '\n' ∨ c = '\t' ∨ c = '\r' := by
  simp [isBlank, or_assoc]

theorem skipBlank_append {ws : List Char} (hws : IsBlanks ws) (cs : List Char) :
    skipBlank (ws ++ cs) = skipBlank cs := by
  induction ws with
  | nil => rfl
  | cons c ws ih =>
      have hc : isBlank c = true := isBlank_iff.mpr (hws c (by simp))
      have hrest := ih fun d hd => hws d (by simp [hd])
      simpa [skipBlank, hc] using hrest

theorem skipBlank_cons {c : Char} (hc : isBlank c = false) (cs : List Char) :
    skipBlank (c :: cs) = c :: cs := by
  simp [skipBlank, hc]

/-- What can stand right behind a value: the end, a blank, a comma or a closing bracket. -/
def Stops (rest : List Char) : Prop :=
  ∀ c ∈ rest.head?, isBlank c = true ∨ c = ',' ∨ c = ']' ∨ c = '\x7d'

theorem Stops.nil : Stops [] := by
  simp [Stops]

theorem Stops.cons {c : Char} (h : isBlank c = true ∨ c = ',' ∨ c = ']' ∨ c = '\x7d')
    (cs : List Char) : Stops (c :: cs) := by
  simpa [Stops] using h

theorem Stops.append {ws : List Char} (hws : IsBlanks ws) {rest : List Char} (h : Stops rest) :
    Stops (ws ++ rest) := by
  cases ws with
  | nil => exact h
  | cons c ws => exact .cons (.inl (isBlank_iff.mpr (hws c (by simp)))) _

/-- Nothing that goes on with a number stops a value. -/
theorem Stops.head?_any {rest : List Char} (h : Stops rest) {p : Char → Bool}
    (hp : p ' ' = false ∧ p '\n' = false ∧ p '\t' = false ∧ p '\r' = false ∧ p ',' = false ∧
      p ']' = false ∧ p '\x7d' = false) : rest.head?.any p = false := by
  cases rest with
  | nil => rfl
  | cons c cs =>
      obtain ⟨h₁, h₂, h₃, h₄, h₅, h₆, h₇⟩ := hp
      have hc := h c (by simp)
      rw [isBlank_iff] at hc
      show p c = false
      rcases hc with (rfl | rfl | rfl | rfl) | rfl | rfl | rfl <;> assumption

/-! ### Reading strings -/

theorem hexDigit?_of_isHexDigit {digit : Nat} {c : Char} (hdigit : digit < 16)
    (h : IsHexDigit digit c) : hexDigit? c = some digit := by
  have hlower : ∀ d, d < 16 → hexDigit? (Nat.digitChar d) = some d := by decide
  have hupper : ∀ d, d < 16 → hexDigit? (Nat.digitChar d).toUpper = some d := by decide
  rcases h with rfl | rfl
  · exact hlower digit hdigit
  · exact hupper digit hdigit

theorem hexValue?_of_isHex {n : Nat} {text : List Char} (h : IsHex n text) :
    ∃ a b c d, text = [a, b, c, d] ∧ hexValue? a b c d = some n := by
  obtain ⟨hn, a, b, c, d, rfl, ha, hb, hc, hd⟩ := h
  refine ⟨a, b, c, d, rfl, ?_⟩
  have ha := hexDigit?_of_isHexDigit (by omega) ha
  have hb := hexDigit?_of_isHexDigit (by omega) hb
  have hc := hexDigit?_of_isHexDigit (by omega) hc
  have hd := hexDigit?_of_isHexDigit (by omega) hd
  simp only [hexValue?, ha, hb, hc, hd, Option.bind_eq_bind, Option.bind_some, Option.pure_def,
    Option.some.injEq]
  omega

theorem simpleEscape?_of_mem {letter c : Char} (h : (letter, c) ∈ simpleEscapes) :
    simpleEscape? letter = some c ∧ letter ≠ 'u' := by
  have hall : ∀ p ∈ simpleEscapes, simpleEscape? p.1 = some p.2 ∧ p.1 ≠ 'u' := by decide
  exact hall (letter, c) h

/-- A character is no half of a surrogate pair. -/
theorem not_surrogate (c : Char) : isTrailing c.toNat = false ∧ isLeading c.toNat = false := by
  have hvalid : c.toNat < 0xD800 ∨ 0xDFFF < c.toNat ∧ c.toNat < 0x110000 := c.valid
  simp only [isTrailing, isLeading, Bool.and_eq_false_iff, decide_eq_false_iff_not]
  omega

section Steps

variable (acc rest : List Char)

theorem readChars_quote : readChars acc ('"' :: rest) = .ok (acc.reverse, rest) := by
  rw [readChars.eq_def]
  simp

theorem readChars_plain {c : Char} (hquote : c ≠ '"') (hslash : c ≠ '\\')
    (hcontrol : 0x20 ≤ c.toNat) : readChars acc (c :: rest) = readChars (c :: acc) rest := by
  rw [readChars.eq_def]
  simp [hquote, hslash, Nat.not_lt.mpr hcontrol]

theorem readChars_simple {letter c : Char} (h : (letter, c) ∈ simpleEscapes) :
    readChars acc ('\\' :: letter :: rest) = readChars (c :: acc) rest := by
  obtain ⟨hescape, hletter⟩ := simpleEscape?_of_mem h
  rw [readChars.eq_def]
  simp [hescape, hletter]

theorem readChars_unicode {a b c d : Char} {n : Nat} (hvalue : hexValue? a b c d = some n)
    (htrailing : isTrailing n = false) (hleading : isLeading n = false) :
    readChars acc ('\\' :: 'u' :: a :: b :: c :: d :: rest) =
      readChars (Char.ofNat n :: acc) rest := by
  rw [readChars.eq_def]
  simp [hvalue, htrailing, hleading]

theorem readChars_pair {a b c d a' b' c' d' : Char} {n m : Nat}
    (hvalue : hexValue? a b c d = some n) (hvalue' : hexValue? a' b' c' d' = some m)
    (hleading : isLeading n = true) (htrailing : isTrailing m = true) :
    readChars acc ('\\' :: 'u' :: a :: b :: c :: d :: '\\' :: 'u' :: a' :: b' :: c' :: d' :: rest) =
      readChars (pairChar n m :: acc) rest := by
  have hone : isTrailing n = false := by
    simp only [isLeading, isTrailing, Bool.and_eq_true, Bool.and_eq_false_iff, decide_eq_true_eq,
      decide_eq_false_iff_not] at hleading ⊢
    omega
  rw [readChars.eq_def]
  simp [hvalue, hvalue', hone, hleading, htrailing]

end Steps

/-- **Reading a string inverts writing it.** -/
theorem readChars_written {cs text : List Char} (h : WrittenChars cs text)
    (acc rest : List Char) : readChars acc (text ++ '"' :: rest) = .ok (acc.reverse ++ cs, rest) := by
  induction h generalizing acc with
  | nil => simpa using readChars_quote acc rest
  | plain hquote hslash hcontrol _ ih =>
      rw [List.cons_append, readChars_plain _ _ hquote hslash hcontrol, ih]
      simp
  | simple hletter _ ih =>
      rw [List.cons_append, List.cons_append, readChars_simple _ _ hletter, ih]
      simp
  | @unicode c cs hex text hhex _ ih =>
      obtain ⟨h₁, h₂, h₃, h₄, rfl, hvalue⟩ := hexValue?_of_isHex hhex
      obtain ⟨htrailing, hleading⟩ := not_surrogate c
      have hread := readChars_unicode acc (text ++ '"' :: rest) hvalue htrailing hleading
      rw [Char.ofNat_toNat, ih] at hread
      simpa using hread
  | @pair c cs leading trailing text hplane hleading htrailing _ ih =>
      obtain ⟨h₁, h₂, h₃, h₄, rfl, hvalue⟩ := hexValue?_of_isHex hleading
      obtain ⟨l₁, l₂, l₃, l₄, rfl, hvalue'⟩ := hexValue?_of_isHex htrailing
      -- A character beyond the basic plane: the two halves are in range and give it back.
      have hvalid : c.toNat < 0xD800 ∨ 0xDFFF < c.toNat ∧ c.toNat < 0x110000 := c.valid
      have hfirst : isLeading (0xD800 + (c.toNat - 0x10000) / 0x400) = true := by
        simp only [isLeading, Bool.and_eq_true, decide_eq_true_eq]
        omega
      have hsecond : isTrailing (0xDC00 + (c.toNat - 0x10000) % 0x400) = true := by
        simp only [isTrailing, Bool.and_eq_true, decide_eq_true_eq]
        omega
      have hpair : pairChar (0xD800 + (c.toNat - 0x10000) / 0x400)
          (0xDC00 + (c.toNat - 0x10000) % 0x400) = c := by
        have hnat : (0xD800 + (c.toNat - 0x10000) / 0x400 - 0xD800) * 0x400 +
            (0xDC00 + (c.toNat - 0x10000) % 0x400 - 0xDC00) + 0x10000 = c.toNat := by
          omega
        rw [pairChar, hnat, Char.ofNat_toNat]
      have hread := readChars_pair acc (text ++ '"' :: rest) hvalue hvalue' hfirst hsecond
      rw [hpair, ih] at hread
      simpa using hread

theorem readString_written {s : String} {text : List Char} (h : WrittenChars s.toList text)
    (rest : List Char) : readString (text ++ '"' :: rest) = .ok (s, rest) := by
  rw [readString, readChars_written h]
  simp [Except.map]

section Steps

variable (rest : List Char)

theorem skipString_plain {c : Char} (hquote : c ≠ '"') (hslash : c ≠ '\\')
    (hcontrol : 0x20 ≤ c.toNat) : skipString (c :: rest) = skipString rest := by
  rw [skipString.eq_def]
  simp [hquote, hslash, Nat.not_lt.mpr hcontrol]

theorem skipString_simple {letter c : Char} (h : (letter, c) ∈ simpleEscapes) :
    skipString ('\\' :: letter :: rest) = skipString rest := by
  obtain ⟨hescape, hletter⟩ := simpleEscape?_of_mem h
  rw [skipString.eq_def]
  simp [hescape, hletter]

theorem skipString_hex {n : Nat} {text : List Char} (h : IsHex n text) :
    skipString ('\\' :: 'u' :: (text ++ rest)) = skipString rest := by
  obtain ⟨a, b, c, d, rfl, hvalue⟩ := hexValue?_of_isHex h
  rw [skipString.eq_def]
  simp [hvalue]

end Steps

/-- Passing over a string ends behind its quote. -/
theorem skipString_written {cs text : List Char} (h : WrittenChars cs text) (rest : List Char) :
    skipString (text ++ '"' :: rest) = .ok rest := by
  induction h with
  | nil =>
      rw [List.nil_append, skipString.eq_def]
      simp
  | plain hquote hslash hcontrol _ ih =>
      rw [List.cons_append, skipString_plain _ hquote hslash hcontrol, ih]
  | simple hletter _ ih => rw [List.cons_append, List.cons_append, skipString_simple _ hletter, ih]
  | unicode hhex _ ih =>
      rw [List.cons_append, List.cons_append, List.append_assoc, skipString_hex _ hhex, ih]
  | pair _ hleading htrailing _ ih =>
      rw [List.cons_append, List.cons_append, List.append_assoc, skipString_hex _ hleading,
        List.cons_append, List.cons_append, List.append_assoc, skipString_hex _ htrailing, ih]

/-! ### Reading numbers -/

/-- Digits of a number of at most 64 bits are taken in completely. -/
theorem absorb_eq {ds : List Char} {n : Nat} (h : Nat.ofDigitChars 10 ds n < UInt64.size) :
    absorb n ds = (Nat.ofDigitChars 10 ds n, []) := by
  induction ds generalizing n with
  | nil => simp [absorb]
  | cons d ds ih =>
      rw [Nat.ofDigitChars_cons, Nat.mul_comm] at h
      have hle := le_ofDigitChars ds (n * 10 + (d.toNat - '0'.toNat))
      rw [absorb, if_pos (Nat.lt_of_le_of_lt hle h), ih h, Nat.ofDigitChars_cons, Nat.mul_comm]

/-- Nothing that can stand behind a value goes on with a number. -/
theorem Stops.not_numeral {rest : List Char} (h : Stops rest) :
    rest.head?.any Char.isDigit = false ∧ ∀ c cs, rest = c :: cs → c ≠ '.' ∧ c ≠ 'e' ∧ c ≠ 'E' := by
  refine ⟨h.head?_any (by decide), ?_⟩
  rintro c cs rfl
  -- Blanks, commas and closing brackets are the only characters that can follow.
  have hother : ∀ q : Char, isBlank q = false → q ≠ ',' → q ≠ ']' → q ≠ '\x7d' → c ≠ q := by
    rintro q hblank hcomma hlist hobject rfl
    rcases h c (by simp) with hc | hc | hc | hc <;> simp_all
  exact ⟨hother '.' (by decide) (by decide) (by decide) (by decide),
    hother 'e' (by decide) (by decide) (by decide) (by decide),
    hother 'E' (by decide) (by decide) (by decide) (by decide)⟩

theorem readAfterWhole_written {n : Nat} (hn : n < UInt64.size) (negative : Bool)
    {rest : List Char} (h : Stops rest) :
    readAfterWhole negative (Nat.toDigits 10 n) rest = .ok (intNumber negative n, rest) := by
  have habsorb : absorb 0 (Nat.toDigits 10 n) = (n, []) := by
    rw [absorb_eq (by rwa [Nat.ofDigitChars_ten_toDigits]), Nat.ofDigitChars_ten_toDigits]
  obtain ⟨-, hnext⟩ := h.not_numeral
  rw [readAfterWhole, habsorb]
  cases rest with
  | nil => rfl
  | cons c cs =>
      obtain ⟨hpoint, he, hE⟩ := hnext c cs rfl
      simp [hpoint, he, hE]

theorem readUnsigned_written {n : Nat} (hn : n < UInt64.size) (negative : Bool)
    {rest : List Char} (h : Stops rest) :
    readUnsigned negative (Nat.toDigits 10 n ++ rest) = .ok (intNumber negative n, rest) := by
  have hafter := readAfterWhole_written hn negative h
  obtain ⟨hdigit, -⟩ := h.not_numeral
  obtain ⟨htake, hdrop⟩ := takeWhile_dropWhile_append (toDigits_isDigit n) hdigit
  cases n with
  -- Zero is read apart, for no number has a leading zero.
  | zero =>
      show readUnsigned negative ('0' :: rest) = _
      rw [readUnsigned, if_pos rfl, hdigit]
      exact hafter
  | succ n =>
      have hzero := head?_toDigits_ne (Nat.succ_pos n)
      cases hdigits : Nat.toDigits 10 (n + 1) with
      | nil => exact absurd hdigits Nat.toDigits_ne_nil
      | cons c cs =>
          have hc : c.isDigit = true := toDigits_isDigit (n + 1) c (by simp [hdigits])
          rw [hdigits] at hafter htake hdrop hzero
          rw [List.cons_append] at htake hdrop
          rw [List.takeWhile_cons_of_pos hc] at htake
          rw [List.dropWhile_cons_of_pos hc] at hdrop
          have hne : c ≠ '0' := by simpa using hzero
          rw [List.cons_append, readUnsigned, if_neg hne, if_pos hc, htake, hdrop]
          exact hafter

theorem toList_toString_nat (n : Nat) : (toString (Int.ofNat n)).toList = Nat.toDigits 10 n :=
  Nat.toList_repr

theorem toList_toString_negSucc (n : Nat) :
    (toString (Int.negSucc n)).toList = '-' :: Nat.toDigits 10 (n + 1) := by
  show ("-" ++ Nat.repr (n + 1)).toList = _
  rw [String.toList_append, Nat.toList_repr]
  rfl

/-- A number does not start with a minus. -/
theorem toDigits_append_ne_minus (n : Nat) (rest cs : List Char) :
    Nat.toDigits 10 n ++ rest ≠ '-' :: cs := by
  cases hdigits : Nat.toDigits 10 n with
  | nil => exact absurd hdigits Nat.toDigits_ne_nil
  | cons c ds =>
      intro heq
      have hc : c.isDigit = true := toDigits_isDigit n c (by simp [hdigits])
      rw [(List.cons.inj heq).1] at hc
      exact absurd hc (by decide)

/-- **Reading a number inverts writing it.** -/
theorem readNumber_written {n : Int} (hlow : Int64.minValue.toInt ≤ n) (hhigh : n < UInt64.size)
    {rest : List Char} (h : Stops rest) :
    readNumber ((toString n).toList ++ rest) = .ok (.int n, rest) := by
  have hmin : Int64.minValue.toInt = -9223372036854775808 := by decide
  have hsize : UInt64.size = 18446744073709551616 := rfl
  cases n with
  | ofNat n =>
      have hn : n < UInt64.size := by
        have hhigh : (n : Int) < UInt64.size := hhigh
        omega
      rw [toList_toString_nat, readNumber.eq_def]
      split
      · rename_i cs heq
        exact absurd heq (toDigits_append_ne_minus n rest cs)
      · exact readUnsigned_written hn false h
  | negSucc n =>
      have hn : n + 1 < UInt64.size := by omega
      -- Only minus zero and numbers below the range become doubles.
      have hint : intNumber true (n + 1) = .int (Int.negSucc n) := by
        have hrange : 0 < n + 1 ∧ Int64.minValue.toInt ≤ -((n + 1 : Nat) : Int) := by omega
        rw [intNumber, if_neg (by decide), if_pos hrange]
        congr
      rw [toList_toString_negSucc, List.cons_append, readNumber, readUnsigned_written hn true h, hint]

theorem skipUnsigned_written (n : Nat) {rest : List Char} (h : Stops rest) :
    skipUnsigned (Nat.toDigits 10 n ++ rest) = .ok rest := by
  obtain ⟨hdigit, hnext⟩ := h.not_numeral
  have hafter : skipAfterWhole rest = .ok rest := by
    cases rest with
    | nil => rfl
    | cons c cs =>
        obtain ⟨hpoint, he, hE⟩ := hnext c cs rfl
        rw [skipAfterWhole.eq_def]
        simp [hpoint, skipExponent?, he, hE]
  obtain ⟨-, hdrop⟩ := takeWhile_dropWhile_append (toDigits_isDigit n) hdigit
  cases n with
  | zero =>
      show skipUnsigned ('0' :: rest) = _
      rw [skipUnsigned, if_pos rfl, hdigit]
      exact hafter
  | succ n =>
      have hzero := head?_toDigits_ne (Nat.succ_pos n)
      cases hdigits : Nat.toDigits 10 (n + 1) with
      | nil => exact absurd hdigits Nat.toDigits_ne_nil
      | cons c cs =>
          have hc : c.isDigit = true := toDigits_isDigit (n + 1) c (by simp [hdigits])
          rw [hdigits] at hdrop hzero
          rw [List.cons_append, List.dropWhile_cons_of_pos hc] at hdrop
          have hne : c ≠ '0' := by simpa using hzero
          rw [List.cons_append, skipUnsigned, if_neg hne, if_pos hc, hdrop]
          exact hafter

theorem skipNumber_written (n : Int) {rest : List Char} (h : Stops rest) :
    skipNumber ((toString n).toList ++ rest) = .ok rest := by
  cases n with
  | ofNat n =>
      rw [toList_toString_nat, skipNumber.eq_def]
      split
      · rename_i cs heq
        exact absurd heq (toDigits_append_ne_minus n rest cs)
      · exact skipUnsigned_written n h
  | negSucc n =>
      rw [toList_toString_negSucc, List.cons_append, skipNumber, skipUnsigned_written (n + 1) h]

/-- The text of a number starts with a digit or a minus. -/
theorem head_toString_int (n : Int) :
    ∃ c cs, (toString n).toList = c :: cs ∧ (c = '-' ∨ c.isDigit = true) := by
  cases n with
  | ofNat n =>
      rw [toList_toString_nat]
      cases hdigits : Nat.toDigits 10 n with
      | nil => exact absurd hdigits Nat.toDigits_ne_nil
      | cons c cs => exact ⟨c, cs, rfl, .inr (toDigits_isDigit n c (by simp [hdigits]))⟩
  | negSucc n => exact ⟨'-', _, toList_toString_negSucc n, .inl rfl⟩

/-! ### Reading scalars -/

/-- The characters that a value can start with. -/
def StartsValue (c : Char) : Prop :=
  isBlank c = false ∧ c ≠ ']' ∧ c ≠ '\x7d' ∧ c ≠ ','

instance : DecidablePred StartsValue :=
  fun _ => inferInstanceAs (Decidable (_ ∧ _))

theorem startsValue_of_number {c : Char} (h : c = '-' ∨ c.isDigit = true) : StartsValue c := by
  have hne : ∀ q : Char, q ≠ '-' → q.isDigit = false → c ≠ q := by
    rintro q hminus hdigit rfl
    rcases h with h | h
    · exact hminus h
    · exact absurd h (by simp [hdigit])
  refine ⟨?_, hne _ (by decide) (by decide), hne _ (by decide) (by decide),
    hne _ (by decide) (by decide)⟩
  simp [isBlank, hne ' ' (by decide) (by decide), hne '\n' (by decide) (by decide),
    hne '\t' (by decide) (by decide), hne '\r' (by decide) (by decide)]

theorem WrittenScalar.head {v : Value} {text : List Char} (h : WrittenScalar v text) :
    ∃ c cs, text = c :: cs ∧ StartsValue c ∧ c ≠ '[' ∧ c ≠ '\x7b' := by
  cases h with
  | null => exact ⟨_, _, rfl, by decide, by decide, by decide⟩
  | true => exact ⟨_, _, rfl, by decide, by decide, by decide⟩
  | false => exact ⟨_, _, rfl, by decide, by decide, by decide⟩
  | string => exact ⟨_, _, rfl, by decide, by decide, by decide⟩
  | @int n =>
      obtain ⟨c, cs, htext, hc⟩ := head_toString_int n
      refine ⟨c, cs, htext, startsValue_of_number hc, ?_, ?_⟩
      · rintro rfl
        exact absurd hc (by decide)
      · rintro rfl
        exact absurd hc (by decide)

theorem Written.head {budget : Nat} {v : Value} {text : List Char} (h : Written budget v text) :
    ∃ c cs, text = c :: cs ∧ StartsValue c := by
  have hscalar : WrittenScalar v text → ∃ c cs, text = c :: cs ∧ StartsValue c := by
    intro h
    obtain ⟨c, cs, htext, hc, -⟩ := h.head
    exact ⟨c, cs, htext, hc⟩
  cases budget with
  | zero => exact hscalar h
  | succ budget =>
      rcases h with h | h
      · exact hscalar h
      · cases h <;> exact ⟨_, _, rfl, by decide⟩

/-- Blanks before a value are passed over. -/
theorem Written.skipBlank {budget : Nat} {v : Value} {text ws : List Char}
    (h : Written budget v text) (hws : IsBlanks ws) (rest : List Char) :
    skipBlank (ws ++ (text ++ rest)) = text ++ rest := by
  obtain ⟨c, cs, rfl, hc, -⟩ := h.head
  rw [skipBlank_append hws, List.cons_append, skipBlank_cons hc]

theorem readScalar_number {c : Char} (h : c = '-' ∨ c.isDigit = true) (cs : List Char) :
    readScalar (c :: cs) = (readNumber (c :: cs)).map fun (n, rest) => (.number n, rest) := by
  have hnot : ∀ q : Char, ¬(q = '-' ∨ q.isDigit = true) → c ≠ q := by
    rintro q hq rfl
    exact hq h
  rw [readScalar.eq_def]
  split
  · exact absurd (List.cons.inj ‹_›).1 (hnot _ (by decide))
  · exact absurd (List.cons.inj ‹_›).1 (hnot _ (by decide))
  · exact absurd (List.cons.inj ‹_›).1 (hnot _ (by decide))
  · exact absurd (List.cons.inj ‹_›).1 (hnot _ (by decide))
  · rename_i heq
    obtain ⟨rfl, rfl⟩ := List.cons.inj heq
    rw [if_pos (by simpa using h)]
  · contradiction

/-- **Reading a scalar inverts writing it.** -/
theorem readScalar_written {v : Value} {text rest : List Char} (h : WrittenScalar v text)
    (hrest : Stops rest) : readScalar (text ++ rest) = .ok (v, rest) := by
  cases h with
  | null | true | false => rfl
  | string h =>
      rw [List.cons_append, List.append_assoc, List.singleton_append, readScalar,
        readString_written h]
      rfl
  | @int n hlow hhigh =>
      have hread := readNumber_written hlow hhigh hrest
      obtain ⟨c, cs, htext, hc⟩ := head_toString_int n
      rw [htext, List.cons_append] at hread ⊢
      rw [readScalar_number hc, hread]
      rfl

/-- Passing over a scalar ends behind it. -/
theorem skipScalar_written {v : Value} {text rest : List Char} (h : WrittenScalar v text)
    (hrest : Stops rest) : skipScalar (text ++ rest) = .ok rest := by
  cases h with
  | null | true | false => rfl
  | string h =>
      rw [List.cons_append, List.append_assoc, List.singleton_append, skipScalar, if_pos rfl,
        skipString_written h]
  | @int n hlow hhigh =>
      have hskip := skipNumber_written n hrest
      obtain ⟨c, cs, htext, hc⟩ := head_toString_int n
      rw [htext, List.cons_append] at hskip ⊢
      have hquote : c ≠ '"' := by
        rintro rfl
        exact absurd hc (by decide)
      rw [skipScalar, if_neg hquote, if_pos (by simpa using hc), hskip]

end BoxedLet.Json
