/-!
# BoxedLet.Span

The position of an assignment in its source file. Every error about an assignment carries the
location of its span, and every message ends with the text of that location.
-/

namespace BoxedLet

/-- A source position: an optional file name, a line and a column, each a 32-bit number. -/
structure Span where
  file : Option String := none
  line : UInt32 := 0
  column : UInt32 := 0
  deriving Repr, DecidableEq, Inhabited

/-- Where an error arose. -/
structure Location where
  file : Option String
  line : UInt32
  column : UInt32
  deriving Repr, DecidableEq, Inhabited

/-- The location of a span. -/
def Span.location (s : Span) : Location where
  file := s.file
  line := s.line
  column := s.column

/-- `file:line:column`, or `line:column` where no file is known. -/
def Location.render (l : Location) : String :=
  let position := toString l.line ++ ":" ++ toString l.column
  match l.file with
  | some file => file ++ ":" ++ position
  | none => position

end BoxedLet
