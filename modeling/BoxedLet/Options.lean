import BoxedLet.Text.Uppercase

/-!
# BoxedLet.Options

The **tunables** of the emitted code, and the class whose method is being lowered.

Runtime functions and macros share a kernel prefix; a macro carries it in upper case. Inside a
method one variable, the *implicit receiver*, stands for the object itself and has a name of its
own in emitted code.
-/

namespace BoxedLet

/-- The tunables of the emitted code. -/
structure Options where
  /-- First part of the names of runtime functions and macros. -/
  kernelPrefix : String := "zephir"
  /-- First part of the names of temporaries. -/
  tempPrefix : String := "_"
  /-- Indentation of one nesting level. -/
  indent : String := "\t"
  /-- Nesting level of the emitted lines, a 64-bit number. -/
  indentLevel : UInt64 := 0
  /-- Source name of the implicit receiver. -/
  implicitReceiver : String := "this"
  /-- Name of the implicit receiver in emitted code. -/
  receiverSymbol : String := "this_ptr"
  deriving Repr, DecidableEq, Inhabited

namespace Options

/-- The name of a runtime function. -/
def kernelFunction (o : Options) (name : String) : String :=
  o.kernelPrefix ++ "_" ++ name

/-- The name of a runtime macro. -/
def kernelMacro (o : Options) (name : String) : String :=
  Text.upper o.kernelPrefix ++ "_" ++ name

/-- Whether `name` is the source name of the implicit receiver. -/
def isReceiver (o : Options) (name : String) : Bool :=
  name == o.implicitReceiver

/-- The name a variable has in emitted code. -/
def renderName (o : Options) (name : String) : String :=
  if o.isReceiver name then o.receiverSymbol else name

end Options

/-- The class whose method is being lowered. -/
structure ClassDef where
  name : String
  properties : List String := []
  deriving Repr, DecidableEq, Inhabited

/-- Whether the class declares the property. -/
def ClassDef.hasProperty (c : ClassDef) (property : String) : Bool :=
  c.properties.contains property

end BoxedLet
