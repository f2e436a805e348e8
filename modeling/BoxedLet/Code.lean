import BoxedLet.Decimal.Shortest
import BoxedLet.Expr
import BoxedLet.Options
import BoxedLet.Text.Escape

/-!
# BoxedLet.Code

**Target code that stands for a value.** A `Code` is the tree of a C expression; `Code.render` is
its text. Native operators and casts are written inline, everything that touches a box is a use of
a runtime primitive.

The code of a string is the body of its literal, without the quotes: each use adds what it needs
around it.
-/

namespace BoxedLet

/-- A storage location that emitted code names. -/
inductive Place
  /-- A variable, by its source name. -/
  | var (name : String)
  /-- A temporary, by its own name. -/
  | temp (name : String)
  deriving Repr, DecidableEq, Inhabited

/-- The native types a value can be cast to. -/
inductive NativeCast
  | long
  | double
  deriving Repr, DecidableEq, Inhabited

/-- The runtime's coercions of a boxed value to a native one. -/
inductive Coercion
  | number
  | boolean
  | long
  deriving Repr, DecidableEq, Inhabited

/-- Target code that stands for a value. -/
inductive Code
  /-- Code given as text. -/
  | verbatim (text : String)
  | place (p : Place)
  | null
  /-- A truth value as a word, `true` or `false`. -/
  | truth (value : Bool)
  /-- A truth value as a number, `1` or `0`. -/
  | bit (value : Bool)
  /-- The number zero, with or without a fraction. -/
  | zero (fractional : Bool)
  | long (value : Int64)
  | double (value : Float)
  | char (value : Char)
  /-- The body of a string literal. -/
  | stringBody (value : String)
  /-- No text at all: the code of an empty array, which no use shows. -/
  | blank
  /-- A native operator on two values. -/
  | binary (op : BinaryOp) (left right : Code)
  /-- Native negation of a truth value. -/
  | not (operand : Code)
  /-- A native cast; a computed operand is `grouped` in parentheses. -/
  | cast (kind : NativeCast) (grouped : Bool) (operand : Code)
  /-- `1` if the number is not zero and `0` if it is. -/
  | nonZero (operand : Code)
  /-- The runtime's comparison of two boxes. -/
  | compare (op : Comparison) (left right : Code)
  /-- The runtime's truth test of a box. -/
  | isTrue (operand : Code)
  /-- The runtime's coercion of a box. -/
  | coerce (kind : Coercion) (operand : Code)
  deriving Repr, Inhabited

/-- The name a location has in emitted code. -/
def Place.render (o : Options) : Place → String
  | var name => o.renderName name
  | temp name => name

/-- The text of a cast. -/
def NativeCast.text : NativeCast → String
  | long => "(long)"
  | double => "(double)"

/-- The runtime function of a coercion. -/
def Coercion.function : Coercion → String
  | number => "get_numberval"
  | boolean => "get_boolval"
  | long => "get_intval"

/-- The runtime macro of a comparison of boxes. Inequality is the negation of equality. -/
def Comparison.boxedMacro : Comparison → String
  | equals | notEquals => "IS_EQUAL"
  | less => "LT"
  | greater => "GT"
  | lessEqual => "LE"
  | greaterEqual => "GE"

/-- An invocation of a function or macro. -/
def invocation (name : String) (args : List String) : String :=
  name ++ "(" ++ String.intercalate ", " args ++ ")"

/-- The text of a double. -/
def doubleText (x : Float) : String :=
  match Decimal.decode x with
  | .ok finite => finite.text
  | .error other => other.text

namespace Code

/-- The text of the code. -/
def render (o : Options) : Code → String
  | verbatim text => text
  | place p => p.render o
  | null => "null"
  | truth b => if b then "true" else "false"
  | bit b => if b then "1" else "0"
  | zero fractional => if fractional then "0.0" else "0"
  | long n => toString n.toInt
  | double x => doubleText x
  | char c => Text.charLiteral c
  | stringBody s => Text.stringBody s
  | blank => ""
  | binary op l r => "(" ++ l.render o ++ " " ++ op.symbol ++ " " ++ r.render o ++ ")"
  | not c => "!(" ++ c.render o ++ ")"
  | cast kind grouped c =>
    kind.text ++ " " ++ (if grouped then "(" ++ c.render o ++ ")" else c.render o)
  | nonZero c => "(" ++ c.render o ++ ") ? 1 : 0"
  | compare op l r =>
    let test := invocation (o.kernelMacro op.boxedMacro) [l.render o, r.render o]
    if op = .notEquals then "!" ++ test else test
  | isTrue c => invocation (o.kernelFunction "is_true") [c.render o]
  | coerce kind c => invocation (o.kernelFunction kind.function) [c.render o]

end Code

end BoxedLet
