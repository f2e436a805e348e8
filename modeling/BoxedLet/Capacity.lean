import BoxedLet.CompilationUnit

/-!
# BoxedLet.Capacity

**Lowering where texts have a largest size.** Every line starts with a margin, the indentation as
often as the nesting level says, and options can ask for a margin that no text can hold. A line is
made at the moment when its instruction is emitted: first its margin, in a text that has room for no
more, and then the rest, for which the text grows. Where it cannot, emitting breaks off and there is
no result at all; this happens to assignments that would fail later on, too, of which no line would
be kept.

`Halt` is what computations stop with then. How much memory there is does not count here.
-/

namespace BoxedLet

/-- The most bytes that a text can have room for on a 64-bit machine. -/
def textCapacity : Nat := 9223372036854775807

/-- The bytes that a text asks room for when it is full, has `size` bytes and gets `more` of them:
it at least doubles. -/
def grownRoom (size more : Nat) : Nat :=
  if more = 0 then size else max (2 * size) (size + more)

namespace Listing

/-- The bytes that the margin takes. -/
def marginSize (l : Listing) : Nat :=
  l.indent.utf8ByteSize * l.level

/-- Adds a line at the end, unless no text can hold it. -/
def output? (l : Listing) (line : String) : Option Listing :=
  if grownRoom l.marginSize line.utf8ByteSize ≤ textCapacity then some (l.output line) else none

end Listing

/-- What a computation stops with where texts have a largest size. -/
inductive Halt
  | error (e : LowerError)
  /-- No text can hold the line of an instruction. -/
  | brokenOff
  deriving Repr, DecidableEq, Inhabited

instance : Exits Halt where
  ofError := .error
  refused? o i := if (o.listing.output? (i.render o)).isSome then none else some .brokenOff

/-- Compiles a function body, or gives `none` if lowering it breaks off. -/
def CompilationUnit.compile? (u : CompilationUnit) : Option (Except LowerError Compiled) :=
  match (lowerStatements u.statements : LowerOr Halt Unit)
    (.initial u.options u.classDef u.declarations) with
  | .ok _ ctx => some (.ok ctx.compiled)
  | .error (.error e) _ => some (.error e)
  | .error .brokenOff _ => none

end BoxedLet
