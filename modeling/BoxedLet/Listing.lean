/-!
# BoxedLet.Listing

A **listing** collects lines of emitted code, all indented to the same nesting level.
-/

namespace BoxedLet

/-- The text `s`, `n` times over. Nothing is repeated for the empty text, however large `n` is. -/
def repeated (s : String) (n : Nat) : String :=
  if s.isEmpty then "" else String.join (List.replicate n s)

/-- Lines of code at a fixed nesting level. -/
structure Listing where
  indent : String := "\t"
  level : Nat := 0
  lines : List String := []
  deriving Repr, DecidableEq, Inhabited

namespace Listing

/-- What every line starts with. -/
def margin (l : Listing) : String :=
  repeated l.indent l.level

/-- Adds a line at the end. -/
def output (l : Listing) (line : String) : Listing :=
  { l with lines := l.lines ++ [l.margin ++ line] }

/-- Adds lines at the end. -/
def outputAll (l : Listing) (lines : List String) : Listing :=
  { l with lines := l.lines ++ lines.map (l.margin ++ ·) }

/-- Drops all but the first `n` lines. -/
def truncate (l : Listing) (n : Nat) : Listing :=
  { l with lines := l.lines.take n }

end Listing

end BoxedLet
