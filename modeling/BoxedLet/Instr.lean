import BoxedLet.Assignment
import BoxedLet.Code

/-!
# BoxedLet.Instr

The **instructions** that lowering emits. An instruction is one statement of the target language:
a native assignment or step, or one invocation of a runtime primitive whose first argument is the
location it writes. `Instr.render` is its text.
-/

namespace BoxedLet

/-- The native kinds of box content. -/
inductive BoxKind
  | long
  | double
  | bool
  deriving Repr, DecidableEq, Inhabited

/-- What a box is built from. -/
inductive BoxContent
  | null
  | emptyArray
  /-- A string literal, by its body. -/
  | string (body : Code)
  /-- The bytes of a native string variable. -/
  | buffer (source : Code)
  | scalar (kind : BoxKind) (value : Code)
  deriving Repr, Inhabited

/-- The key of an array element. -/
inductive Key
  | long (value : Code)
  /-- A string literal, by its body. -/
  | literal (body : Code)
  /-- The bytes of a native string variable. -/
  | buffer (source : Code)
  | boxed (value : Code)
  deriving Repr, Inhabited

/-- Whether a native string is replaced or extended. -/
inductive StringMode
  | assign
  | append
  deriving Repr, DecidableEq, Inhabited

/-- What a native string is written from. -/
inductive StringSource
  | char (value : Code)
  | long (value : Code)
  /-- The bytes of another native string variable. -/
  | buffer (source : Code)
  /-- A string literal, by its body. -/
  | literal (body : Code)
  deriving Repr, Inhabited

/-- The directions of a step. -/
inductive Step
  | increment
  | decrement
  deriving Repr, DecidableEq, Inhabited

/-- In-place arithmetic on a box. -/
inductive InPlaceOp
  | add
  | sub
  deriving Repr, DecidableEq, Inhabited

/-- The runtime's operations that compute a new box from two. -/
inductive BoxedOp
  | arith (op : Arith)
  | concat
  deriving Repr, DecidableEq, Inhabited

/-- Instructions. -/
inductive Instr
  /-- Native assignment. -/
  | store (dst : Place) (op : NativeOp) (value : Code)
  /-- Native increment or decrement. -/
  | step (dst : Place) (direction : Step)
  /-- Initializes a heap box before it is rebuilt, for the `first` time or again. -/
  | init (dst : Place) (first : Bool)
  /-- Makes a shared box the only one of its content. -/
  | separate (dst : Place)
  /-- Builds a box; one that lives in the frame is passed by reference. -/
  | build (dst : Place) (inFrame : Bool) (content : BoxContent)
  /-- Reference-counted copy of a box. -/
  | copy (dst : Place) (source : Code)
  /-- In-place arithmetic on a box. -/
  | inPlace (dst : Place) (op : InPlaceOp) (source : Code)
  /-- The runtime's increment or decrement; a box that lives in the frame is passed by
  reference. -/
  | bump (dst : Place) (inFrame : Bool) (direction : Step)
  /-- Writes a native string. -/
  | writeString (dst : Place) (mode : StringMode) (source : StringSource)
  /-- Computes a new box from two. -/
  | boxed (dst : Place) (op : BoxedOp) (left right : Code)
  /-- Calls a function by name. -/
  | call (dst : Place) (name : String) (args : List Code)
  | readProperty (dst : Place) (object : Code) (property : String)
  | fetch (dst : Place) (array : Code) (key : Key)
  | append (dst : Place) (value : Code)
  | update (dst : Place) (key : Key) (value : Code)
  | setProperty (dst : Place) (property : String) (value : Code)
  | appendProperty (dst : Place) (property : String) (value : Code)
  | updateProperty (dst : Place) (property : String) (key value : Code)
  deriving Repr, Inhabited

/-- The location an instruction writes. -/
def Instr.written : Instr → Place
  | store dst _ _ | step dst _ | init dst _ | separate dst | build dst _ _ | copy dst _
  | inPlace dst _ _ | bump dst _ _ | writeString dst _ _ | boxed dst _ _ _ | call dst _ _
  | readProperty dst _ _ | fetch dst _ _ | append dst _ | update dst _ _ | setProperty dst _ _
  | appendProperty dst _ _ | updateProperty dst _ _ _ => dst

/-! ### Text of the operands -/

/-- The constructor of a scalar box. -/
def BoxKind.constructor : BoxKind → String
  | long => "ZVAL_LONG"
  | double => "ZVAL_DOUBLE"
  | bool => "ZVAL_BOOL"

/-- The two arguments that pass the bytes of a native string variable. -/
def bufferArgs (source : String) : List String :=
  [source ++ "->str", source ++ "->len"]

/-- A string literal passed together with its length. -/
def sizedLiteral (body : String) : String :=
  invocation "SL" [Text.quoted body]

namespace BoxContent

/-- The macro that builds a box with such content. -/
def constructor : BoxContent → String
  | null => "ZVAL_NULL"
  | emptyArray => "array_init"
  | string _ => "ZVAL_STRING"
  | buffer _ => "ZVAL_STRINGL"
  | scalar kind _ => kind.constructor

/-- The arguments of that macro after the box. -/
def args (o : Options) : BoxContent → List String
  | null | emptyArray => []
  | string body => [Text.quoted (body.render o), "1"]
  | buffer source => bufferArgs (source.render o) ++ ["1"]
  | scalar _ value => [value.render o]

end BoxContent

namespace Key

/-- The arguments that pass a key. -/
def args (o : Options) : Key → List String
  | long value | boxed value => [value.render o]
  | literal body => [sizedLiteral (body.render o)]
  | buffer source => bufferArgs (source.render o)

/-- The runtime function that reads an element under such a key. -/
def fetchFunction : Key → String
  | long _ => "array_fetch_long"
  | literal _ | buffer _ => "array_fetch_string"
  | boxed _ => "array_fetch"

/-- The runtime function that writes an element under such a key. -/
def updateFunction : Key → String
  | long _ => "array_update_long"
  | literal _ | buffer _ => "array_update_string"
  | boxed _ => "array_update_zval"

end Key

/-- The runtime function that writes a native string, but for its last part. -/
def StringMode.function : StringMode → String
  | assign => "str_assign"
  | append => "str_append"

namespace StringSource

/-- The last part of the name of the runtime function that writes from such a source. -/
def functionSuffix : StringSource → String
  | char _ => "_char"
  | long _ => "_long"
  | buffer _ | literal _ => ""

/-- The arguments that pass the source. -/
def args (o : Options) : StringSource → List String
  | char value | long value => [value.render o]
  | buffer source => bufferArgs (source.render o)
  | literal body =>
    let text := Text.quoted (body.render o)
    [text, invocation "sizeof" [text] ++ "-1"]

end StringSource

/-- The native token of a step. -/
def Step.token : Step → String
  | increment => "++"
  | decrement => "--"

/-- The runtime function of a step. -/
def Step.function : Step → String
  | increment => "increment"
  | decrement => "decrement"

/-- The runtime macro of in-place arithmetic. -/
def InPlaceOp.macroName : InPlaceOp → String
  | add => "ADD_ASSIGN"
  | sub => "SUB_ASSIGN"

/-- The runtime function of a boxed operation. -/
def BoxedOp.function : BoxedOp → String
  | arith .add => "add_function"
  | arith .sub => "sub_function"
  | arith .mul => "mul_function"
  | arith .div => "div_function"
  | concat => "concat_function"

/-- A location passed by reference. -/
def Place.reference (o : Options) (p : Place) : String :=
  "&" ++ p.render o

/-- A box as the first argument of a primitive that fills it. -/
def Place.boxOperand (o : Options) (p : Place) (inFrame : Bool) : String :=
  if inFrame then p.reference o else p.render o

/-! ### Text of an instruction -/

namespace Instr

/-- Whether the location is the implicit receiver. -/
def isReceiver (o : Options) : Place → Bool
  | .var name => o.isReceiver name
  | .temp _ => false

/-- The statement without its semicolon. -/
def body (o : Options) : Instr → String
  | store dst op value => dst.render o ++ " " ++ op.token ++ " " ++ value.render o
  | step dst direction => dst.render o ++ direction.token
  | init dst first =>
    invocation (o.kernelMacro (if first then "INIT_VAR" else "INIT_NVAR")) [dst.render o]
  | separate dst => invocation (o.kernelMacro "SEPARATE") [dst.render o]
  | build dst inFrame content =>
    invocation content.constructor (dst.boxOperand o inFrame :: content.args o)
  | copy dst source => invocation (o.kernelMacro "CPY_WRT") [dst.render o, source.render o]
  | inPlace dst op source =>
    invocation (o.kernelMacro op.macroName) [dst.render o, source.render o]
  | bump dst inFrame direction =>
    invocation (o.kernelFunction direction.function) [dst.boxOperand o inFrame]
  | writeString dst mode source =>
    invocation (o.kernelFunction (mode.function ++ source.functionSuffix))
      (dst.render o :: source.args o)
  | boxed dst op left right =>
    invocation (o.kernelFunction op.function) [dst.render o, left.render o, right.render o]
  | call dst name args =>
    invocation (o.kernelMacro "CALL_FUNCTION")
      (dst.render o :: Text.quoted (Text.stringBody name) :: args.map (Code.render o))
  | readProperty dst object property =>
    invocation (o.kernelFunction "read_property")
      [dst.reference o, object.render o, sizedLiteral (Text.stringBody property), "PH_NOISY_CC"]
  | fetch dst array key =>
    invocation (o.kernelFunction key.fetchFunction)
      (dst.reference o :: array.render o :: key.args o ++ ["PH_NOISY"])
  | append dst value =>
    invocation (o.kernelFunction "array_append") [dst.reference o, value.render o, "PH_SEPARATE"]
  | update dst key value =>
    invocation (o.kernelFunction key.updateFunction)
      (dst.reference o :: key.args o ++ ["&" ++ value.render o, "PH_COPY | PH_SEPARATE"])
  | setProperty dst property value =>
    invocation
      (o.kernelFunction
        (if isReceiver o dst then "update_property_this" else "update_property_zval"))
      [dst.render o, sizedLiteral (Text.stringBody property), value.render o]
  | appendProperty dst property value =>
    invocation (o.kernelFunction "update_property_array_append")
      [dst.render o, sizedLiteral (Text.stringBody property), value.render o]
  | updateProperty dst property key value =>
    invocation (o.kernelFunction "update_property_array")
      [dst.render o, sizedLiteral (Text.stringBody property), key.render o, value.render o]

/-- The text of an instruction. -/
def render (o : Options) (i : Instr) : String :=
  i.body o ++ ";"

end Instr

end BoxedLet
