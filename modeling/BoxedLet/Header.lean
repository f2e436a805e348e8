import BoxedLet.OrderedSet

/-!
# BoxedLet.Header

The **headers** of the runtime. Each declares one family of primitives; emitted code needs those
whose primitives it uses, listed in the order of first use.
-/

namespace BoxedLet

/-- The families of runtime primitives. -/
inductive Header
  | string
  | array
  | object
  | operators
  | concat
  | fcall
  deriving Repr, DecidableEq, Inhabited

/-- The path of a header, without its extension. -/
def Header.path : Header → String
  | string => "kernel/string"
  | array => "kernel/array"
  | object => "kernel/object"
  | operators => "kernel/operators"
  | concat => "kernel/concat"
  | fcall => "kernel/fcall"

/-- The headers needed so far, in the order of first use. -/
abbrev Headers := OrderedSet Header

end BoxedLet
