import BoxedLet.Json.Lexeme

/-!
# BoxedLet.Json.Skip

**Passing over a value** without looking at its contents. Brackets may be nested to any depth: the
open ones are kept in a list, innermost first.

Every step but the first takes at least one character of the text, so that twice its length bounds
their number.
-/

namespace BoxedLet.Json

/-- An open bracket. -/
inductive Bracket
  | list
  | object
  deriving Repr, DecidableEq, Inhabited

/-- The fault of a text that ends inside such a bracket. -/
def Bracket.ended : Bracket → Fault
  | list => .ended .list
  | object => .ended .object

/-- The fault of a text that goes on inside such a bracket with neither a comma nor its end. -/
def Bracket.unclosed : Bracket → Fault
  | list => .malformed .expectedListEnd
  | object => .malformed .expectedObjectEnd

/-- The character that closes a bracket. -/
def Bracket.close : Bracket → Char
  | list => ']'
  | object => '\x7d'

/-- Reads the colon between a key and its value. -/
def readColon (cs : List Char) : Except Fault (List Char) :=
  match skipBlank cs with
  | [] => .error (.ended .object)
  | c :: rest => if c = ':' then .ok rest else .error (.malformed .expectedColon)

/-- Passes over a value that is no list and no object. -/
def skipScalar : List Char → Except Fault (List Char)
  | [] => .error (.ended .value)
  | c :: cs =>
    if c = '"' then skipString cs
    else if c = '-' || c.isDigit then skipNumber (c :: cs)
    else if c = 'n' then skipWord ['u', 'l', 'l'] cs
    else if c = 't' then skipWord ['r', 'u', 'e'] cs
    else if c = 'f' then skipWord ['a', 'l', 's', 'e'] cs
    else .error (.malformed .expectedValue)

/-- Passes over a key and its colon. -/
def skipKey (cs : List Char) : Except Fault (List Char) :=
  match skipBlank cs with
  | [] => .error (.ended .object)
  | c :: rest =>
    if c = '"' then skipString rest >>= readColon else .error (.malformed .keyNotString)

/-- Passes over what comes before an item inside a bracket: the key, in an object. -/
def Bracket.skipLabel : Bracket → List Char → Except Fault (List Char)
  | list, cs => .ok cs
  | object, cs => skipKey cs

mutual
/-- Passes over a value and on to the end of the open brackets. -/
def skipItem : (steps : Nat) → (opened : List Bracket) → List Char → Except Fault (List Char)
  | 0, _, _ => .error (.ended .value)
  | steps + 1, opened, cs =>
    match skipBlank cs with
    | '[' :: rest => skipRest steps false (.list :: opened) rest
    | '\x7b' :: rest => skipRest steps false (.object :: opened) rest
    | cs => do
      let rest ← skipScalar cs
      skipRest steps true opened rest

/-- Goes on after an item, or, if `later` is false, after an opening bracket. -/
def skipRest : (steps : Nat) → (later : Bool) → (opened : List Bracket) → List Char →
    Except Fault (List Char)
  | _, _, [], cs => .ok cs
  | 0, _, bracket :: _, _ => .error bracket.ended
  | steps + 1, later, bracket :: opened, cs =>
    match skipBlank cs with
    | [] => .error bracket.ended
    | c :: rest =>
      if c = bracket.close then skipRest steps true opened rest
      else if !later then do
        let rest ← bracket.skipLabel (c :: rest)
        skipItem steps (bracket :: opened) rest
      else if c = ',' then do
        let rest ← bracket.skipLabel rest
        skipItem steps (bracket :: opened) rest
      else .error bracket.unclosed
end

/-- Passes over a value. -/
def skipValue (cs : List Char) : Except Fault (List Char) :=
  skipItem (2 * cs.length + 1) [] cs

end BoxedLet.Json
