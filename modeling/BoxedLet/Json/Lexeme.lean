import BoxedLet.Json.Fault

/-!
# BoxedLet.Json.Lexeme

The **lexemes** of a document: blanks, words, strings and numbers. A reader takes the text that is
left and returns what it has read together with the rest.

Strings and numbers can be read or just passed over. Reading a string decodes its escapes and
refuses a surrogate without its partner; reading a number refuses one beyond the range of doubles.
Passing over checks the grammar only.

Integers of up to 64 bits are exact. Any other number is a double: the leading digits that fit into
64 bits, rounded to a double and then scaled by a power of ten. Minus zero is such a number, too.
-/

namespace BoxedLet.Json

/-! ### Blanks and words -/

/-- The four blank characters. -/
def isBlank (c : Char) : Bool :=
  c == ' ' || c == '\n' || c == '\t' || c == '\r'

/-- The text from its first character that is not blank. -/
def skipBlank (cs : List Char) : List Char :=
  cs.dropWhile isBlank

/-- Passes over the rest of a word. -/
def skipWord : (word cs : List Char) → Except Fault (List Char)
  | [], cs => .ok cs
  | _ :: _, [] => .error (.ended .value)
  | w :: word, c :: cs =>
    if c = w then skipWord word cs else .error (.malformed .expectedWord)

/-! ### Strings -/

/-- The value of a hexadecimal digit. -/
def hexDigit? (c : Char) : Option Nat :=
  if '0' ≤ c ∧ c ≤ '9' then some (c.toNat - '0'.toNat)
  else if 'a' ≤ c ∧ c ≤ 'f' then some (c.toNat - 'a'.toNat + 10)
  else if 'A' ≤ c ∧ c ≤ 'F' then some (c.toNat - 'A'.toNat + 10)
  else none

/-- The value of four hexadecimal digits. -/
def hexValue? (a b c d : Char) : Option Nat := do
  let a ← hexDigit? a
  let b ← hexDigit? b
  let c ← hexDigit? c
  let d ← hexDigit? d
  return ((a * 16 + b) * 16 + c) * 16 + d

/-- What is wrong where four hexadecimal digits should follow: the text ends within four bytes, or
it goes on with something else. -/
def hexFault (cs : List Char) : Fault :=
  if (String.ofList (cs.take 4)).utf8ByteSize < 4 then .ended .string
  else .malformed .invalidEscape

/-- The character that a one-letter escape stands for. -/
def simpleEscape? (c : Char) : Option Char :=
  if c = '"' ∨ c = '\\' ∨ c = '/' then some c
  else if c = 'b' then some '\x08'
  else if c = 'f' then some '\x0c'
  else if c = 'n' then some '\n'
  else if c = 'r' then some '\r'
  else if c = 't' then some '\t'
  else none

/-- The first half of a surrogate pair. -/
def isLeading (n : Nat) : Bool :=
  0xD800 ≤ n && n ≤ 0xDBFF

/-- The second half of a surrogate pair. -/
def isTrailing (n : Nat) : Bool :=
  0xDC00 ≤ n && n ≤ 0xDFFF

/-- The character of a surrogate pair. -/
def pairChar (leading trailing : Nat) : Char :=
  Char.ofNat ((leading - 0xD800) * 0x400 + (trailing - 0xDC00) + 0x10000)

/-- Reads a string after its opening quote; `acc` holds what has been read, last character first.
-/
def readChars (acc : List Char) : List Char → Except Fault (List Char × List Char)
  | [] => .error (.ended .string)
  | c :: cs =>
    if c = '"' then .ok (acc.reverse, cs)
    else if c.toNat < 0x20 then .error (.malformed .controlCharacter)
    else if c ≠ '\\' then readChars (c :: acc) cs
    else match cs with
      | [] => .error (.ended .string)
      | e :: cs =>
        if e ≠ 'u' then
          match simpleEscape? e with
          | some c => readChars (c :: acc) cs
          | none => .error (.malformed .invalidEscape)
        else match cs with
          | h₁ :: h₂ :: h₃ :: h₄ :: rest =>
            match hexValue? h₁ h₂ h₃ h₄ with
            | none => .error (hexFault cs)
            | some n =>
              if isTrailing n then .error (.malformed .loneSurrogate)
              else if !isLeading n then readChars (Char.ofNat n :: acc) rest
              else match rest with
                | [] => .error (.ended .string)
                | b :: rest =>
                  if b ≠ '\\' then .error (.malformed .brokenSurrogatePair)
                  else match rest with
                    | [] => .error (.ended .string)
                    | u :: rest =>
                      if u ≠ 'u' then .error (.malformed .brokenSurrogatePair)
                      else match rest with
                        | l₁ :: l₂ :: l₃ :: l₄ :: tail =>
                          match hexValue? l₁ l₂ l₃ l₄ with
                          | none => .error (hexFault rest)
                          | some m =>
                            if isTrailing m then readChars (pairChar n m :: acc) tail
                            else .error (.malformed .loneSurrogate)
                        | short => .error (hexFault short)
          | short => .error (hexFault short)

/-- Reads a string after its opening quote. -/
def readString (cs : List Char) : Except Fault (String × List Char) :=
  (readChars [] cs).map fun (s, rest) => (String.ofList s, rest)

/-- Passes over a string after its opening quote. -/
def skipString : List Char → Except Fault (List Char)
  | [] => .error (.ended .string)
  | c :: cs =>
    if c = '"' then .ok cs
    else if c.toNat < 0x20 then .error (.malformed .controlCharacter)
    else if c ≠ '\\' then skipString cs
    else match cs with
      | [] => .error (.ended .string)
      | e :: cs =>
        if e ≠ 'u' then
          if (simpleEscape? e).isSome then skipString cs
          else .error (.malformed .invalidEscape)
        else match cs with
          | h₁ :: h₂ :: h₃ :: h₄ :: rest =>
            if (hexValue? h₁ h₂ h₃ h₄).isSome then skipString rest
            else .error (hexFault cs)
          | short => .error (hexFault short)

/-! ### Numbers -/

/-- A number as a document gives it. -/
inductive Number
  | int (value : Int)
  | float (value : Float)
  deriving Repr, Inhabited

/-- Takes in the digits, one after the other, as long as the number stays below `2^64`; returns it
and the digits that are left. -/
def absorb (n : Nat) : List Char → Nat × List Char
  | [] => (n, [])
  | d :: ds =>
    let next := n * 10 + (d.toNat - '0'.toNat)
    if next < UInt64.size then absorb next ds else (n, d :: ds)

/-- A power of ten as a double. -/
def powerOfTen (n : Nat) : Float :=
  Float.ofScientific 1 false n

/-- The largest power of ten below the end of the doubles. -/
def topPower : Nat := 308

/-- `significand · 10^exponent` in double arithmetic. A number too small for a double is zero; one
too large is none. -/
def scaled? (significand : Nat) (exponent : Int) : Option Float :=
  let f := (UInt64.ofNat significand).toFloat
  let n := exponent.natAbs
  if 0 ≤ exponent then
    if n ≤ topPower then
      let g := f * powerOfTen n
      if g.isInf then none else some g
    else if significand = 0 then some f else none
  else if n ≤ topPower then some (f / powerOfTen n)
  else if n ≤ 2 * topPower then some (f / powerOfTen topPower / powerOfTen (n - topPower))
  else some 0

/-- A double from its sign, its significand and its decimal exponent. -/
def floatNumber (negative : Bool) (significand : Nat) (exponent : Int) (rest : List Char) :
    Except Fault (Number × List Char) :=
  match scaled? significand exponent with
  | some f => .ok (.float (if negative then -f else f), rest)
  | none => .error (.malformed .numberOutOfRange)

/-- The value of a run of digits. -/
def digitsValue (ds : List Char) : Nat :=
  ds.foldl (fun n d => n * 10 + (d.toNat - '0'.toNat)) 0

/-- The sign of an exponent, positive if there is none. -/
def exponentSign : List Char → Bool × List Char
  | '+' :: cs => (false, cs)
  | '-' :: cs => (true, cs)
  | cs => (false, cs)

/-- Reads an exponent after its mark. -/
def readExponent (negative : Bool) (significand : Nat) (exponent : Int) (cs : List Char) :
    Except Fault (Number × List Char) :=
  let (down, cs) := exponentSign cs
  match cs with
  | [] => .error (.ended .value)
  | c :: _ =>
    if !c.isDigit then .error (.malformed .invalidNumber)
    else
      let n : Int := digitsValue (cs.takeWhile Char.isDigit)
      floatNumber negative significand (if down then exponent - n else exponent + n)
        (cs.dropWhile Char.isDigit)

/-- Reads a fraction after its point. -/
def readFraction (negative : Bool) (significand : Nat) (exponent : Int) (cs : List Char) :
    Except Fault (Number × List Char) :=
  let ds := cs.takeWhile Char.isDigit
  let rest := cs.dropWhile Char.isDigit
  if ds.isEmpty then
    .error (if rest.isEmpty then .ended .value else .malformed .invalidNumber)
  else
    let (significand, left) := absorb significand ds
    let exponent := exponent - ((ds.length - left.length : Nat) : Int)
    match rest with
    | 'e' :: rest | 'E' :: rest => readExponent negative significand exponent rest
    | rest => floatNumber negative significand exponent rest

/-- An integer, which is exact if it has at most 64 bits. -/
def intNumber (negative : Bool) (n : Nat) : Number :=
  if !negative then .int n
  else if 0 < n ∧ Int64.minValue.toInt ≤ -n then .int (-n)
  else .float (-(UInt64.ofNat n).toFloat)

/-- Reads a number after its digits before the point. -/
def readAfterWhole (negative : Bool) (ds rest : List Char) : Except Fault (Number × List Char) :=
  let (n, left) := absorb 0 ds
  match rest with
  | '.' :: rest => readFraction negative n left.length rest
  | 'e' :: rest | 'E' :: rest => readExponent negative n left.length rest
  | rest =>
    if left.isEmpty then .ok (intNumber negative n, rest)
    else floatNumber negative n left.length rest

/-- Reads a number after its sign. -/
def readUnsigned (negative : Bool) : List Char → Except Fault (Number × List Char)
  | [] => .error (.ended .value)
  | c :: cs =>
    if c = '0' then
      if (cs.head?.any Char.isDigit) then .error (.malformed .invalidNumber)
      else readAfterWhole negative [c] cs
    else if c.isDigit then
      readAfterWhole negative (c :: cs.takeWhile Char.isDigit) (cs.dropWhile Char.isDigit)
    else .error (.malformed .invalidNumber)

/-- Reads a number. -/
def readNumber : List Char → Except Fault (Number × List Char)
  | '-' :: cs => readUnsigned true cs
  | cs => readUnsigned false cs

/-- Passes over an exponent after its mark. -/
def skipExponent (cs : List Char) : Except Fault (List Char) :=
  let (_, cs) := exponentSign cs
  if cs.head?.any Char.isDigit then .ok (cs.dropWhile Char.isDigit)
  else .error (.malformed .invalidNumber)

/-- Passes over an exponent, if there is one. -/
def skipExponent? : List Char → Except Fault (List Char)
  | 'e' :: cs | 'E' :: cs => skipExponent cs
  | cs => .ok cs

/-- Passes over a fraction and an exponent, if there are any. -/
def skipAfterWhole : List Char → Except Fault (List Char)
  | '.' :: cs =>
    if cs.head?.any Char.isDigit then skipExponent? (cs.dropWhile Char.isDigit)
    else .error (.malformed .invalidNumber)
  | cs => skipExponent? cs

/-- Passes over a number after its sign. -/
def skipUnsigned : List Char → Except Fault (List Char)
  | [] => .error (.malformed .invalidNumber)
  | c :: cs =>
    if c = '0' then
      if cs.head?.any Char.isDigit then .error (.malformed .invalidNumber)
      else skipAfterWhole cs
    else if c.isDigit then skipAfterWhole (cs.dropWhile Char.isDigit)
    else .error (.malformed .invalidNumber)

/-- Passes over a number. -/
def skipNumber : List Char → Except Fault (List Char)
  | '-' :: cs => skipUnsigned cs
  | cs => skipUnsigned cs

end BoxedLet.Json
