/-!
# BoxedLet.Expr

**Source expressions**: the right-hand sides and indexes of assignments.

`BinaryOp` sorts the binary operators by what they do. Arithmetic and comparison run natively on
two native scalars and through the runtime otherwise, concatenation always runs through the
runtime, and a connective works on truth values only.

`Expr.mentions` is the syntactic reading relation: a boxed destination that its own source mentions
must not be cleared before the source has been evaluated.
-/

namespace BoxedLet

/-- The arithmetic operators. -/
inductive Arith
  | add
  | sub
  | mul
  | div
  deriving Repr, DecidableEq, Inhabited

/-- The comparison operators. -/
inductive Comparison
  | equals
  | notEquals
  | less
  | greater
  | lessEqual
  | greaterEqual
  deriving Repr, DecidableEq, Inhabited

/-- The connectives of truth values. -/
inductive Connective
  | and
  | or
  deriving Repr, DecidableEq, Inhabited

/-- The binary operators. -/
inductive BinaryOp
  | arith (op : Arith)
  | concat
  | compare (op : Comparison)
  | connect (op : Connective)
  deriving Repr, DecidableEq, Inhabited

/-- The token of an arithmetic operator. -/
def Arith.symbol : Arith → String
  | add => "+"
  | sub => "-"
  | mul => "*"
  | div => "/"

/-- The token of a comparison. -/
def Comparison.symbol : Comparison → String
  | equals => "=="
  | notEquals => "!="
  | less => "<"
  | greater => ">"
  | lessEqual => "<="
  | greaterEqual => ">="

/-- The token of a connective. -/
def Connective.symbol : Connective → String
  | and => "&&"
  | or => "||"

namespace BinaryOp

/-- The token of an operator. -/
def symbol : BinaryOp → String
  | arith op => op.symbol
  | concat => "."
  | compare op => op.symbol
  | connect op => op.symbol

/-- One of the four arithmetic operators. -/
def isArithmetic : BinaryOp → Bool
  | arith _ => true
  | _ => false

/-- One of the six comparisons. -/
def isComparison : BinaryOp → Bool
  | compare _ => true
  | _ => false

end BinaryOp

/-- Source expressions. -/
inductive Expr
  | null
  | bool (value : Bool)
  | int (value : Int64)
  | double (value : Float)
  | char (value : Char)
  | string (value : String)
  | emptyArray
  | var (name : String)
  | binary (op : BinaryOp) (left right : Expr)
  | not (operand : Expr)
  /-- `object.property` -/
  | property (object : Expr) (property : String)
  /-- `array[index]` -/
  | index (array index : Expr)
  /-- `name(args)` -/
  | call (name : String) (args : List Expr)
  deriving Repr, Inhabited

/-! ### Variables read by an expression -/

mutual
/-- Whether the variable `name` occurs anywhere in the expression, be it below a property access,
inside an index or among the arguments of a call. -/
def Expr.mentions (name : String) : Expr → Bool
  | .var n => n == name
  | .binary _ l r => l.mentions name || r.mentions name
  | .not e => e.mentions name
  | .property e _ => e.mentions name
  | .index a i => a.mentions name || i.mentions name
  | .call _ args => Expr.anyMentions name args
  | .null | .bool _ | .int _ | .double _ | .char _ | .string _ | .emptyArray => false

/-- Whether `name` occurs in one of the expressions. -/
def Expr.anyMentions (name : String) : List Expr → Bool
  | [] => false
  | e :: es => e.mentions name || Expr.anyMentions name es
end

end BoxedLet
