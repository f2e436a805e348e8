import BoxedLet.Json.Skip

/-!
# BoxedLet.Json.Decoder

**Decoders** read a value of a known type straight from the text of a document, from left to right.
The first fault they meet is the one reported, whether the text is malformed there or its contents
do not fit; what comes after it is not looked at.

A decoder is told how many more brackets may be opened. `record` decodes a structure, given as an
object, in any order and with other fields passed over, or as a list of its fields in order. Fields
that are not required keep the value they have in the blank record.
-/

namespace BoxedLet.Json

/-- Reads a value, with a bound on the brackets that may be opened. -/
abbrev Decoder (α : Type) := (budget : Nat) → List Char → Except Fault (α × List Char)

/-- At most so many brackets may be open at once. -/
def maxDepth : Nat := 127

/-- The fault of a value of the wrong kind. A list or an object is refused at its bracket; any
other value has to be well-formed. -/
def wrongKind (cs : List Char) : Fault :=
  match cs with
  | '[' :: _ | '\x7b' :: _ => .unfit .invalidType
  | [] => .malformed .expectedValue
  | c :: rest =>
    let scanned : Except Fault Unit :=
      if c = '"' then (readString rest).map fun _ => ()
      else if c = '-' || c.isDigit then (readNumber cs).map fun _ => ()
      else (skipScalar cs).map fun _ => ()
    match scanned with
    | .ok _ => .unfit .invalidType
    | .error e => e

/-- The text from its first character that is not blank; there has to be one. -/
def startValue (cs : List Char) : Except Fault (List Char) :=
  match skipBlank cs with
  | [] => .error (.ended .value)
  | cs => .ok cs

/-- Spends one bracket of the budget. -/
def opening {α : Type} (budget : Nat) (inside : Nat → Except Fault α) : Except Fault α :=
  match budget with
  | 0 => .error (.malformed .tooDeep)
  | budget + 1 => inside budget

/-! ### Inside brackets -/

/-- The text of the next item of a list, or none at the end of the list. -/
def nextItem? (first : Bool) (cs : List Char) : Except Fault (Option (List Char)) :=
  match skipBlank cs with
  | [] => .error (.ended .list)
  | ']' :: _ => .ok none
  | c :: rest =>
    if first then .ok (some (c :: rest))
    else if c = ',' then
      match skipBlank rest with
      | [] => .error (.ended .value)
      | ']' :: _ => .error (.malformed .trailingComma)
      | rest => .ok (some rest)
    else .error (.malformed .expectedListEnd)

/-- Reads the end of a list whose items are all known. -/
def endList (cs : List Char) : Except Fault (List Char) :=
  match skipBlank cs with
  | [] => .error (.ended .list)
  | ']' :: rest => .ok rest
  | ',' :: rest =>
    match skipBlank rest with
    | ']' :: _ => .error (.malformed .trailingComma)
    | _ => .error (.malformed .trailingCharacters)
  | _ => .error (.malformed .trailingCharacters)

/-- Reads the items of a list after its opening bracket, up to and including its end. `steps`
bounds their number. -/
def foldItems {β : Type} (step : β → List Char → Except Fault (β × List Char)) :
    (steps : Nat) → (first : Bool) → β → List Char → Except Fault (β × List Char)
  | 0, _, _, _ => .error (.ended .list)
  | steps + 1, first, acc, cs => do
    match ← nextItem? first cs with
    | none => return (acc, (skipBlank cs).drop 1)
    | some cs =>
      let (acc, cs) ← step acc cs
      foldItems step steps false acc cs

/-- The text of the next key of an object after its quote, or none at the end of the object. -/
def nextKey? (first : Bool) (cs : List Char) : Except Fault (Option (List Char)) :=
  match skipBlank cs with
  | [] => .error (.ended .object)
  | '\x7d' :: _ => .ok none
  | c :: rest =>
    if first then
      if c = '"' then .ok (some rest) else .error (.malformed .keyNotString)
    else if c = ',' then
      match skipBlank rest with
      | [] => .error (.ended .value)
      | '"' :: rest => .ok (some rest)
      | '\x7d' :: _ => .error (.malformed .trailingComma)
      | _ => .error (.malformed .keyNotString)
    else .error (.malformed .expectedObjectEnd)

/-- Reads the members of an object after its opening bracket, up to and including its end. A step
is given the key and the text after it, from the colon on. `steps` bounds their number. -/
def foldMembers {β : Type} (step : β → String → List Char → Except Fault (β × List Char)) :
    (steps : Nat) → (first : Bool) → β → List Char → Except Fault (β × List Char)
  | 0, _, _, _ => .error (.ended .object)
  | steps + 1, first, acc, cs => do
    match ← nextKey? first cs with
    | none => return (acc, (skipBlank cs).drop 1)
    | some cs =>
      let (key, cs) ← readString cs
      let (acc, cs) ← step acc key cs
      foldMembers step steps false acc cs

/-! ### Simple values -/

namespace Decoder

/-- A string. -/
def string : Decoder String := fun _ cs => do
  match ← startValue cs with
  | '"' :: rest => readString rest
  | cs => .error (wrongKind cs)

/-- A truth value. -/
def bool : Decoder Bool := fun _ cs => do
  match ← startValue cs with
  | 't' :: rest => return (true, ← skipWord ['r', 'u', 'e'] rest)
  | 'f' :: rest => return (false, ← skipWord ['a', 'l', 's', 'e'] rest)
  | cs => .error (wrongKind cs)

/-- A natural number below the limit. -/
def natBelow (limit : Nat) : Decoder Nat := fun _ cs => do
  let cs ← startValue cs
  if cs.head?.any fun c => c == '-' || c.isDigit then
    match ← readNumber cs with
    | (.int n, rest) =>
      if 0 ≤ n ∧ n < limit then .ok (n.toNat, rest) else .error (.unfit .invalidValue)
    | (.float _, _) => .error (.unfit .invalidType)
  else .error (wrongKind cs)

/-- A 32-bit number. -/
def uint32 : Decoder UInt32 := fun budget cs =>
  (natBelow UInt32.size budget cs).map fun (n, rest) => (UInt32.ofNat n, rest)

/-- A 64-bit number. -/
def uint64 : Decoder UInt64 := fun budget cs =>
  (natBelow UInt64.size budget cs).map fun (n, rest) => (UInt64.ofNat n, rest)

/-- Null, and nothing else. -/
def null : Decoder Unit := fun _ cs => do
  match ← startValue cs with
  | 'n' :: rest => return ((), ← skipWord ['u', 'l', 'l'] rest)
  | cs => .error (wrongKind cs)

/-- A value that may be absent, which null says. -/
def nullable {α : Type} (d : Decoder α) : Decoder (Option α) := fun budget cs =>
  match skipBlank cs with
  | 'n' :: rest => do return (none, ← skipWord ['u', 'l', 'l'] rest)
  | cs => (d budget cs).map fun (a, rest) => (some a, rest)

/-- A list. -/
def list {α : Type} (d : Decoder α) : Decoder (List α) := fun budget cs => do
  match ← startValue cs with
  | '[' :: rest =>
    opening budget fun budget => do
      let step := fun (acc : List α) cs => do
        let (a, cs) ← d budget cs
        return (a :: acc, cs)
      let (acc, rest) ← foldItems step (rest.length + 1) true [] rest
      return (acc.reverse, rest)
  | cs => .error (wrongKind cs)

/-! ### Names -/

/-- The meaning of a name, from a table of all names. -/
def lookupName {α : Type} (table : List (String × α)) (name : String) : Except Fault α :=
  match table.lookup name with
  | some a => .ok a
  | none => .error (.unfit (.unknownName name (table.map Prod.fst)))

/-- The text of the only key of an object after its quote. The object has to have one. -/
def onlyKey (cs : List Char) : Except Fault (List Char) :=
  match skipBlank cs with
  | [] => .error (.ended .object)
  | '"' :: rest => .ok rest
  | '\x7d' :: _ => .error (.malformed .expectedValue)
  | _ => .error (.malformed .keyNotString)

/-- One of the names in the table, as a string or as the only key of an object whose value is
null. -/
def choice {α : Type} (table : List (String × α)) : Decoder α := fun budget cs => do
  match ← startValue cs with
  | '"' :: rest =>
    let (name, rest) ← readString rest
    return (← lookupName table name, rest)
  | '\x7b' :: rest =>
    opening budget fun budget => do
      let (name, rest) ← readString (← onlyKey rest)
      let a ← lookupName table name
      let rest ← readColon rest
      let (_, rest) ← null budget rest
      match skipBlank rest with
      | [] => .error (.ended .object)
      | '\x7d' :: rest => return (a, rest)
      | _ => .error (.malformed .expectedValue)
  | _ => .error (.malformed .expectedValue)

end Decoder

/-! ### Records -/

/-- A field of a record of type `σ`. -/
structure RecordField (σ : Type) where
  name : String
  /-- A second name for the field. -/
  synonym : Option String := none
  required : Bool := false
  /-- Reads the field, giving the change it makes to the record. -/
  read : Decoder (σ → σ)

namespace RecordField

variable {σ α : Type}

/-- A field that may be missing, and which sets a part of the record. -/
def optional (name : String) (d : Decoder α) (put : α → σ → σ) : RecordField σ where
  name
  read := fun budget cs => (d budget cs).map fun (a, rest) => (put a, rest)

/-- A field that must be there, and which sets a part of the record. -/
def needed (name : String) (d : Decoder α) (put : α → σ → σ) : RecordField σ :=
  { optional name d put with required := true }

/-- The field under a second name as well. -/
def orNamed (f : RecordField σ) (synonym : String) : RecordField σ :=
  { f with synonym := some synonym }

/-- Whether a key stands for the field. -/
def answersTo (f : RecordField σ) (key : String) : Bool :=
  key == f.name || f.synonym == some key

end RecordField

namespace Decoder

variable {σ : Type}

/-- Reads one member of a record given as an object. `seen` holds the fields read before. -/
def recordMember (fields : List (RecordField σ)) (budget : Nat) (acc : σ × List String)
    (key : String) (cs : List Char) : Except Fault ((σ × List String) × List Char) := do
  let (record, seen) := acc
  match fields.find? (·.answersTo key) with
  | none =>
    let rest ← skipValue (← readColon cs)
    return ((record, seen), rest)
  | some f =>
    if seen.contains f.name then .error (.unfit (.duplicateField f.name))
    else
      let (change, rest) ← f.read budget (← readColon cs)
      return ((change record, f.name :: seen), rest)

/-- The first required field that is missing. -/
def missing? (fields : List (RecordField σ)) (seen : List String) : Option String :=
  (fields.find? fun f => f.required && !seen.contains f.name).map RecordField.name

/-- Reads a record given as a list of its fields. -/
def recordItems (budget : Nat) :
    List (RecordField σ) → (first : Bool) → σ → List Char → Except Fault (σ × List Char)
  | [], _, record, cs => do return (record, ← endList cs)
  | f :: fields, first, record, cs => do
    match ← nextItem? first cs with
    | none =>
      if f.required then .error (.unfit .invalidLength)
      else recordItems budget fields first record cs
    | some cs =>
      let (change, rest) ← f.read budget cs
      recordItems budget fields false (change record) rest

/-- A record with the given fields. -/
def record (blank : σ) (fields : List (RecordField σ)) : Decoder σ := fun budget cs => do
  match ← startValue cs with
  | '[' :: rest => opening budget fun budget => recordItems budget fields true blank rest
  | '\x7b' :: rest =>
    opening budget fun budget => do
      let ((record, seen), rest) ←
        foldMembers (recordMember fields budget) (rest.length + 1) true (blank, []) rest
      match missing? fields seen with
      | some name => .error (.unfit (.missingField name))
      | none => return (record, rest)
  | cs => .error (wrongKind cs)

/-- Decodes a whole text. -/
def decode {α : Type} (d : Decoder α) (text : String) : Except Fault α := do
  let (a, rest) ← d maxDepth text.toList
  if (skipBlank rest).isEmpty then return a else .error (.malformed .trailingCharacters)

end Decoder

end BoxedLet.Json
