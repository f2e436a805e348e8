import BoxedLet.Json.Decoder

/-!
# BoxedLet.Json.Value

Whole **values** of a document. A value read as such is checked in full, its strings and numbers and
the depth of its brackets included, before anybody looks at what it means. Objects keep the order
of their members, and a key may occur in them more than once.
-/

namespace BoxedLet.Json

/-- A value of a document. -/
inductive Value
  | null
  | bool (value : Bool)
  | number (value : Number)
  | string (value : String)
  | list (items : List Value)
  | object (members : List (String × Value))
  deriving Repr, Inhabited

/-- Reads a value that is no list and no object. -/
def readScalar (cs : List Char) : Except Fault (Value × List Char) :=
  match cs with
  | '"' :: rest => (readString rest).map fun (s, rest) => (.string s, rest)
  | 'n' :: rest => (skipWord ['u', 'l', 'l'] rest).map fun rest => (.null, rest)
  | 't' :: rest => (skipWord ['r', 'u', 'e'] rest).map fun rest => (.bool true, rest)
  | 'f' :: rest => (skipWord ['a', 'l', 's', 'e'] rest).map fun rest => (.bool false, rest)
  | c :: _ =>
    if c = '-' || c.isDigit then (readNumber cs).map fun (n, rest) => (.number n, rest)
    else .error (.malformed .expectedValue)
  | [] => .error (.ended .value)

/-- Reads the items of a list after its opening bracket or, if they are not the `first`, after an
item, all of them with the same reader. -/
def readItems {α : Type} (item : List Char → Except Fault (α × List Char)) (first : Bool)
    (cs : List Char) : Except Fault (List α × List Char) := do
  let step := fun (acc : List α) cs => do
    let (a, cs) ← item cs
    return (a :: acc, cs)
  let (acc, rest) ← foldItems step (cs.length + 1) first [] cs
  return (acc.reverse, rest)

/-- Reads the members of an object after its opening bracket, all of them with the same reader. -/
def readMembers {α : Type} (item : List Char → Except Fault (α × List Char)) (cs : List Char) :
    Except Fault (List (String × α) × List Char) := do
  let step := fun (acc : List (String × α)) key cs => do
    let (a, cs) ← item (← readColon cs)
    return ((key, a) :: acc, cs)
  let (acc, rest) ← foldMembers step (cs.length + 1) true [] cs
  return (acc.reverse, rest)

/-- Any value. -/
def Decoder.value : Decoder Value
  | 0, cs =>
    match skipBlank cs with
    | '[' :: _ | '\x7b' :: _ => .error (.malformed .tooDeep)
    | cs => readScalar cs
  | budget + 1, cs =>
    match skipBlank cs with
    | '[' :: rest =>
      (readItems (Decoder.value budget) true rest).map fun (items, rest) => (.list items, rest)
    | '\x7b' :: rest =>
      (readMembers (Decoder.value budget) rest).map fun (ms, rest) => (.object ms, rest)
    | cs => readScalar cs

end BoxedLet.Json
