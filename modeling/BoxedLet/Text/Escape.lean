/-!
# BoxedLet.Text.Escape

**C literals.** A quoted literal is its body between two quotes. In the body the quote itself, the
backslash, the line break, the carriage return, the tab and the null character are written as a
backslash and one more character; every other character stands for itself.
-/

namespace BoxedLet.Text

/-- The character that follows the backslash when `c` is escaped inside `quote` marks, if it is. -/
def escapeLetter? (quote c : Char) : Option Char :=
  if c = quote then some quote
  else if c = '\\' then some '\\'
  else if c = '\n' then some 'n'
  else if c = '\r' then some 'r'
  else if c = '\t' then some 't'
  else if c = '\x00' then some '0'
  else none

/-- One character of a literal's body. -/
def escapeChar (quote c : Char) : List Char :=
  match escapeLetter? quote c with
  | some letter => ['\\', letter]
  | none => [c]

/-- The body of a literal with the given quote. -/
def escapeChars (quote : Char) (cs : List Char) : List Char :=
  cs.flatMap (escapeChar quote)

@[simp] theorem escapeChars_nil (quote : Char) : escapeChars quote [] = [] := rfl

@[simp] theorem escapeChars_cons (quote c : Char) (cs : List Char) :
    escapeChars quote (c :: cs) = escapeChar quote c ++ escapeChars quote cs := by
  simp [escapeChars]

/-- The body of the string literal that denotes `s`. -/
def stringBody (s : String) : String :=
  String.ofList (escapeChars '"' s.toList)

/-- The string literal with the given body. -/
def quoted (body : String) : String :=
  "\"" ++ body ++ "\""

/-- The character literal that denotes `c`. -/
def charLiteral (c : Char) : String :=
  String.ofList ('\'' :: escapeChar '\'' c ++ ['\''])

end BoxedLet.Text
