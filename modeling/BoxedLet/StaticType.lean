/-!
# BoxedLet.StaticType

The **static types** a variable or a value can have, and the five *families* they fall into when
they are the destination of an assignment.

Two of the types, `null` and `emptyArray`, are *pseudo types*: they are the types of two literals,
belong to no family, and no variable of such a type can be assigned to or read as a value.
-/

namespace BoxedLet

/-- The closed set of static types. -/
inductive StaticType
  | int
  | uint
  | long
  | ulong
  | char
  | uchar
  | double
  | bool
  | string
  /-- A reference-counted box whose content is known at run time only. -/
  | dynamic
  /-- The type of the null literal. -/
  | null
  /-- The type of the empty array literal. -/
  | emptyArray
  deriving Repr, DecidableEq, Inhabited

/-- The families of destination types: the first key of the strategy table. -/
inductive Family
  | integer
  | double
  | bool
  | string
  | dynamic
  deriving Repr, DecidableEq, Inhabited

namespace StaticType

/-- Every static type, in the order in which they are listed. -/
def all : List StaticType :=
  [int, uint, long, ulong, char, uchar, double, bool, string, dynamic, null, emptyArray]

/-- The name a type has in documents and messages. -/
def name : StaticType → String
  | int => "int"
  | uint => "uint"
  | long => "long"
  | ulong => "ulong"
  | char => "char"
  | uchar => "uchar"
  | double => "double"
  | bool => "bool"
  | string => "string"
  | dynamic => "dynamic"
  | null => "null"
  | emptyArray => "empty-array"

/-- One of the four integer types. -/
def isInteger : StaticType → Bool
  | int | uint | long | ulong => true
  | _ => false

/-- One of the two character types. -/
def isChar : StaticType → Bool
  | char | uchar => true
  | _ => false

/-- An integer or a character type. -/
def isIntegral (t : StaticType) : Bool :=
  t.isInteger || t.isChar

/-- A type whose values are held unboxed in the frame: integral, `double` or `bool`. -/
def isNativeScalar (t : StaticType) : Bool :=
  t.isIntegral || t == double || t == bool

/-- A type that only a literal has. -/
def isPseudo : StaticType → Bool
  | null | emptyArray => true
  | _ => false

/-- The family of a type as a destination; pseudo types have none. -/
def family? : StaticType → Option Family
  | int | uint | long | ulong | char | uchar => some .integer
  | double => some .double
  | bool => some .bool
  | string => some .string
  | dynamic => some .dynamic
  | null | emptyArray => none

/-- Exactly the pseudo types have no family. -/
theorem family?_eq_none_iff (t : StaticType) : t.family? = none ↔ t.isPseudo = true := by
  cases t <;> decide

end StaticType

/-- The name a family has in answers. -/
def Family.name : Family → String
  | .integer => "int"
  | .double => "double"
  | .bool => "bool"
  | .string => "string"
  | .dynamic => "dynamic"

end BoxedLet
