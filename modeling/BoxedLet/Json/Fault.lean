/-!
# BoxedLet.Json.Fault

What can be wrong with a **document**: its text ends too soon, its text is malformed, or its
contents do not fit. Reading goes from left to right and stops at the first fault.
-/

namespace BoxedLet.Json

/-- What was being read when the text ended. -/
inductive Unfinished
  | value
  | list
  | object
  | string
  deriving Repr, DecidableEq, Inhabited

/-- Why a text is malformed. -/
inductive Malformed
  | expectedColon
  | expectedListEnd
  | expectedObjectEnd
  | expectedWord
  | expectedValue
  | invalidEscape
  | invalidNumber
  | numberOutOfRange
  | controlCharacter
  | keyNotString
  | loneSurrogate
  | brokenSurrogatePair
  | trailingComma
  | trailingCharacters
  | tooDeep
  deriving Repr, DecidableEq, Inhabited

/-- Why the contents of a well-formed document do not fit. -/
inductive Unfit
  | missingField (name : String)
  | duplicateField (name : String)
  /-- A name that is none of the expected ones. -/
  | unknownName (name : String) (expected : List String)
  /-- A kind of assignment without a field it needs. -/
  | requires (kind field : String)
  /-- A wrong kind of value. -/
  | invalidType
  /-- The right kind of value, out of range. -/
  | invalidValue
  /-- A wrong number of positional fields. -/
  | invalidLength
  deriving Repr, DecidableEq, Inhabited

/-- What is wrong with a document. -/
inductive Fault
  | ended (during : Unfinished)
  | malformed (why : Malformed)
  | unfit (why : Unfit)
  deriving Repr, DecidableEq, Inhabited

/-! ### Wording -/

/-- What the text ended in the middle of. -/
def Unfinished.text : Unfinished → String
  | value => "a value"
  | list => "a list"
  | object => "an object"
  | string => "a string"

/-- The wording for a malformed text. -/
def Malformed.text : Malformed → String
  | expectedColon => "expected `:`"
  | expectedListEnd => "expected `,` or `]`"
  | expectedObjectEnd => "expected `,` or `\x7d`"
  | expectedWord => "expected ident"
  | expectedValue => "expected value"
  | invalidEscape => "invalid escape"
  | invalidNumber => "invalid number"
  | numberOutOfRange => "number out of range"
  | controlCharacter => "control character (\\u0000-\\u001F) found while parsing a string"
  | keyNotString => "key must be a string"
  | loneSurrogate => "lone leading surrogate in hex escape"
  | brokenSurrogatePair => "unexpected end of hex escape"
  | trailingComma => "trailing comma"
  | trailingCharacters => "trailing characters"
  | tooDeep => "recursion limit exceeded"

/-- A text in backquotes. -/
def inBackquotes (s : String) : String :=
  "`" ++ s ++ "`"

/-- The wording for contents that do not fit. -/
def Unfit.text : Unfit → String
  | missingField name => "missing field " ++ inBackquotes name
  | duplicateField name => "duplicate field " ++ inBackquotes name
  | unknownName name expected =>
    "unknown variant " ++ inBackquotes name ++ ", expected one of " ++
      String.intercalate ", " (expected.map inBackquotes)
  | requires kind field => "assignment of kind '" ++ kind ++ "' requires '" ++ field ++ "'"
  | invalidType => "invalid type"
  | invalidValue => "invalid value"
  | invalidLength => "invalid length"

/-- The message of a fault. -/
def Fault.message : Fault → String
  | ended during => "EOF while parsing " ++ during.text
  | malformed why => why.text
  | unfit why => why.text

end BoxedLet.Json
