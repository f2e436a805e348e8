import BoxedLet.Proofs.LineText

/-!
# BoxedLet.Proofs.CSyntax

**Reading C expressions.** A text is cut into tokens, each as long as can be, and the tokens are put
together to a tree by the precedence of operators. Covered are names, decimal constants,
parentheses, the unary operators `!` and `-`, and the binary operators on numbers and truth values.

`Spells` relates a text in which every binary operation stands in parentheses to its tree, and
`read?_of_spells` shows that the tree is what is read.
-/

namespace BoxedLet.CSyntax

open Lexical

/-! ### Tokens -/

inductive Token
  | number (value : Nat)
  | name (text : String)
  | sign (text : List Char)
  deriving Repr, DecidableEq

/-- The punctuators, longer ones first. -/
def signs : List (List Char) :=
  [['.', '.', '.'], ['<', '<', '='], ['>', '>', '='],
    ['-', '>'], ['+', '+'], ['-', '-'], ['<', '<'], ['>', '>'], ['<', '='], ['>', '='],
    ['=', '='], ['!', '='], ['&', '&'], ['|', '|'], ['*', '='], ['/', '='], ['%', '='],
    ['+', '='], ['-', '='], ['&', '='], ['^', '='], ['|', '='], ['#', '#'],
    ['['], [']'], ['('], [')'], ['\x7b'], ['\x7d'], ['.'], ['&'], ['*'], ['+'], ['-'], ['~'],
    ['!'], ['/'], ['%'], ['<'], ['>'], ['^'], ['|'], ['?'], [':'], [';'], ['='], [','], ['#']]

/-- The words that name nothing. -/
def keywords : List String :=
  ["auto", "break", "case", "char", "const", "continue", "default", "do", "double", "else", "enum",
    "extern", "float", "for", "goto", "if", "inline", "int", "long", "register", "restrict",
    "return", "short", "signed", "sizeof", "static", "struct", "switch", "typedef", "union",
    "unsigned", "void", "volatile", "while", "_Alignas", "_Alignof", "_Atomic", "_Bool",
    "_Complex", "_Generic", "_Imaginary", "_Noreturn", "_Static_assert", "_Thread_local"]

/-- A word that can name a variable. -/
def isName (s : String) : Bool :=
  isIdentifier s && !keywords.contains s

/-- A decimal constant. One that starts with a zero is not decimal, and one that goes on with a
letter or a point is no integer of plain type. -/
def number? (cs : List Char) : Option (Token × List Char) :=
  let digits := cs.takeWhile Char.isDigit
  let rest := cs.dropWhile Char.isDigit
  if rest.head?.any (fun c => isWordChar c || c == '.') ||
      digits.head? == some '0' && digits.length != 1 then none
  else some (.number (Nat.ofDigitChars 10 digits 0), rest)

/-- A word that is no keyword. -/
def name? (cs : List Char) : Option (Token × List Char) :=
  let word := String.ofList (cs.takeWhile isWordChar)
  if keywords.contains word then none else some (.name word, cs.dropWhile isWordChar)

/-- The longest punctuator that the text starts with. -/
def sign? (cs : List Char) : Option (Token × List Char) :=
  (signs.find? (·.isPrefixOf cs)).map fun s => (.sign s, cs.drop s.length)

/-- The first token of a text that starts with the character `c`, and the text behind it. -/
def token? (c : Char) (cs : List Char) : Option (Token × List Char) :=
  if c.isDigit then number? (c :: cs)
  else if isWordChar c then name? (c :: cs)
  else sign? (c :: cs)

theorem length_dropWhile_cons_lt {p : Char → Bool} {c : Char} (hc : p c = true) (cs : List Char) :
    ((c :: cs).dropWhile p).length < (c :: cs).length := by
  rw [List.dropWhile_cons_of_pos hc]
  exact Nat.lt_succ_of_le (List.dropWhile_suffix p).length_le

theorem token?_length {c : Char} {cs rest : List Char} {t : Token}
    (h : token? c cs = some (t, rest)) : rest.length < (c :: cs).length := by
  unfold token? at h
  split at h
  · rename_i hdigit
    unfold number? at h
    dsimp only at h
    split at h
    · cases h
    · cases h
      exact length_dropWhile_cons_lt hdigit cs
  · split at h
    · rename_i hword
      unfold name? at h
      dsimp only at h
      split at h
      · cases h
      · cases h
        exact length_dropWhile_cons_lt hword cs
    · obtain ⟨s, hs, heq⟩ := Option.map_eq_some_iff.mp h
      cases heq
      have hne : ∀ s ∈ signs, s ≠ [] := by decide
      have hpos : 0 < s.length := List.length_pos_iff.mpr (hne s (List.mem_of_find?_eq_some hs))
      rw [List.length_drop, List.length_cons]
      omega

/-- The tokens of a text. -/
def tokens? (cs : List Char) : Option (List Token) :=
  match cs with
  | [] => some []
  | c :: cs =>
    if c = ' ' ∨ c = '\t' ∨ c = '\n' then tokens? cs
    else match _h : token? c cs with
      | none => none
      | some (t, rest) => (tokens? rest).map (t :: ·)
termination_by cs.length
decreasing_by
  · exact Nat.lt_succ_self _
  · exact token?_length _h

theorem tokens?_nil : tokens? [] = some [] := by
  rw [tokens?]

theorem tokens?_blank (cs : List Char) : tokens? (' ' :: cs) = tokens? cs := by
  rw [tokens?, if_pos (.inl rfl)]

theorem tokens?_cons {c : Char} {cs rest : List Char} {t : Token}
    (hc : ¬ (c = ' ' ∨ c = '\t' ∨ c = '\n')) (h : token? c cs = some (t, rest)) :
    tokens? (c :: cs) = (tokens? rest).map (t :: ·) := by
  rw [tokens?, if_neg hc]
  split
  · simp_all
  · simp_all

/-! ### Trees -/

inductive Unary
  | not
  | minus
  deriving Repr, DecidableEq

inductive Binary
  | mul
  | div
  | rem
  | add
  | sub
  | less
  | greater
  | lessEqual
  | greaterEqual
  | equal
  | notEqual
  | and
  | or
  deriving Repr, DecidableEq

/-- The tree of an expression. -/
inductive Tree
  | number (value : Nat)
  | name (text : String)
  | unary (op : Unary) (operand : Tree)
  | binary (op : Binary) (left right : Tree)
  deriving Repr, DecidableEq

namespace Unary

def sign : Unary → List Char
  | not => ['!']
  | minus => ['-']

def ofSign? (s : List Char) : Option Unary :=
  [not, minus].find? (·.sign == s)

/-- What the operator computes. -/
def apply : Unary → Int → Int
  | not, v => if v = 0 then 1 else 0
  | minus, v => -v

end Unary

namespace Binary

def all : List Binary :=
  [mul, div, rem, add, sub, less, greater, lessEqual, greaterEqual, equal, notEqual, and, or]

def sign : Binary → List Char
  | mul => ['*']
  | div => ['/']
  | rem => ['%']
  | add => ['+']
  | sub => ['-']
  | less => ['<']
  | greater => ['>']
  | lessEqual => ['<', '=']
  | greaterEqual => ['>', '=']
  | equal => ['=', '=']
  | notEqual => ['!', '=']
  | and => ['&', '&']
  | or => ['|', '|']

def ofSign? (s : List Char) : Option Binary :=
  all.find? (·.sign == s)

/-- How tightly the operator binds. -/
def level : Binary → Nat
  | mul | div | rem => 6
  | add | sub => 5
  | less | greater | lessEqual | greaterEqual => 4
  | equal | notEqual => 3
  | and => 2
  | or => 1

/-- What the operator computes. Truth values are 1 and 0, and any number but 0 counts as true. -/
def apply : Binary → Int → Int → Int
  | mul, v, w => v * w
  | div, v, w => v.tdiv w
  | rem, v, w => v.tmod w
  | add, v, w => v + w
  | sub, v, w => v - w
  | less, v, w => if v < w then 1 else 0
  | greater, v, w => if v > w then 1 else 0
  | lessEqual, v, w => if v ≤ w then 1 else 0
  | greaterEqual, v, w => if v ≥ w then 1 else 0
  | equal, v, w => if v = w then 1 else 0
  | notEqual, v, w => if v ≠ w then 1 else 0
  | and, v, w => if v ≠ 0 ∧ w ≠ 0 then 1 else 0
  | or, v, w => if v ≠ 0 ∨ w ≠ 0 then 1 else 0

theorem ofSign?_sign (op : Binary) : ofSign? op.sign = some op := by
  cases op <;> rfl

end Binary

/-- The value of an expression, given those of the names. -/
def Tree.value (ρ : String → Int) : Tree → Int
  | number n => n
  | name x => ρ x
  | unary op e => op.apply (e.value ρ)
  | binary op l r => op.apply (l.value ρ) (r.value ρ)

/-! ### Parsing -/

mutual

/-- An operand: a constant, a name, a unary operation, or an expression in parentheses. -/
def operand : (fuel : Nat) → List Token → Option (Tree × List Token)
  | 0, _ | _, [] => none
  | _ + 1, .number n :: ts => some (.number n, ts)
  | _ + 1, .name x :: ts => some (.name x, ts)
  | fuel + 1, .sign s :: ts =>
    if s = ['('] then
      match expression fuel 0 ts with
      | some (e, .sign s :: ts) => if s = [')'] then some (e, ts) else none
      | _ => none
    else
      match Unary.ofSign? s, operand fuel ts with
      | some op, some (e, ts) => some (.unary op e, ts)
      | _, _ => none

/-- An expression of operators that bind at least as tightly as the level says. -/
def expression : (fuel level : Nat) → List Token → Option (Tree × List Token)
  | 0, _, _ => none
  | fuel + 1, level, ts =>
    match operand fuel ts with
    | some (left, ts) => continued fuel level left ts
    | none => none

/-- What an expression becomes that has started with `left`. Operators of one level are grouped from
the left. -/
def continued : (fuel level : Nat) → Tree → List Token → Option (Tree × List Token)
  | 0, _, _, _ => none
  | fuel + 1, level, left, .sign s :: ts =>
    match Binary.ofSign? s with
    | some op =>
      if level ≤ op.level then
        match expression fuel (op.level + 1) ts with
        | some (right, ts) => continued fuel level (.binary op left right) ts
        | none => none
      else some (left, .sign s :: ts)
    | none => some (left, .sign s :: ts)
  | _ + 1, _, left, ts => some (left, ts)

end

/-- The tree of a text, if it is an expression. -/
def read? (text : String) : Option Tree :=
  match tokens? text.toList with
  | none => none
  | some ts =>
    match expression (2 * ts.length + 1) 0 ts with
    | some (e, []) => some e
    | _ => none

/-- The tokens of an expression in which every binary operation, and the operand of every negation,
stands in parentheses. -/
def Tree.tokens : Tree → List Token
  | number n => [.number n]
  | name x => [.name x]
  | unary .not e => .sign ['!'] :: .sign ['('] :: (e.tokens ++ [.sign [')']])
  | unary .minus e => .sign ['-'] :: e.tokens
  | binary op l r =>
    .sign ['('] :: (l.tokens ++ .sign op.sign :: (r.tokens ++ [.sign [')']]))

/-- The token does not go on with an expression. -/
def Closes (ts : List Token) : Prop :=
  ts = [] ∨ ∃ rest, ts = .sign [')'] :: rest

theorem continued_of_closes {ts : List Token} (h : Closes ts) (fuel level : Nat) (left : Tree) :
    continued (fuel + 1) level left ts = some (left, ts) := by
  rcases h with rfl | ⟨rest, rfl⟩
  · rw [continued]
    simp
  · rw [continued]
    rfl

theorem expression_of_operand (level : Nat) {fuel : Nat} {ts rest : List Token} {e : Tree}
    (h : operand (fuel + 1) ts = some (e, rest)) (hrest : Closes rest) :
    expression (fuel + 2) level ts = some (e, rest) := by
  rw [expression, h]
  exact continued_of_closes hrest fuel level e

/-- **Parsing inverts writing with parentheses**, whatever comes behind. -/
theorem operand_tokens (e : Tree) (rest : List Token) (fuel : Nat)
    (hfuel : 2 * e.tokens.length ≤ fuel) : operand fuel (e.tokens ++ rest) = some (e, rest) := by
  induction e generalizing rest fuel with
  | number n =>
      obtain ⟨fuel, rfl⟩ : ∃ k, fuel = k + 1 := ⟨fuel - 1, by simp [Tree.tokens] at hfuel; omega⟩
      simp [Tree.tokens, operand]
  | name x =>
      obtain ⟨fuel, rfl⟩ : ∃ k, fuel = k + 1 := ⟨fuel - 1, by simp [Tree.tokens] at hfuel; omega⟩
      simp [Tree.tokens, operand]
  | unary op e ih =>
      cases op with
      | minus =>
          have hlength : (Tree.unary .minus e).tokens.length = e.tokens.length + 1 := rfl
          obtain ⟨fuel, rfl⟩ : ∃ k, fuel = k + 1 := ⟨fuel - 1, by omega⟩
          have hoperand := ih rest fuel (by omega)
          have hsign : Unary.ofSign? ['-'] = some .minus := rfl
          rw [Tree.tokens, List.cons_append, operand, if_neg (by decide), hsign, hoperand]
      | not =>
          have hlength : (Tree.unary .not e).tokens.length = e.tokens.length + 3 := by
            simp [Tree.tokens]
          -- The sign, the parenthesis and the expression inside each take a unit of fuel.
          obtain ⟨fuel, rfl⟩ : ∃ k, fuel = k + 4 := ⟨fuel - 4, by omega⟩
          have hoperand := ih (.sign [')'] :: rest) (fuel + 1) (by omega)
          have hinner := expression_of_operand 0 hoperand (.inr ⟨rest, rfl⟩)
          have hsign : Unary.ofSign? ['!'] = some .not := rfl
          have hparens : operand (fuel + 3)
              (.sign ['('] :: (e.tokens ++ .sign [')'] :: rest)) = some (e, rest) := by
            rw [operand, if_pos rfl, hinner]
            rfl
          rw [Tree.tokens, List.cons_append, operand, if_neg (by decide), hsign, List.cons_append,
            List.append_assoc, List.singleton_append, hparens]
  | binary op l r ihl ihr =>
      have hlength : (Tree.binary op l r).tokens.length = l.tokens.length + r.tokens.length + 3 := by
        simp [Tree.tokens]
        omega
      obtain ⟨fuel, rfl⟩ : ∃ k, fuel = k + 6 := ⟨fuel - 6, by omega⟩
      have hleft := ihl (.sign op.sign :: (r.tokens ++ .sign [')'] :: rest)) (fuel + 4)
        (by omega)
      have hright := ihr (.sign [')'] :: rest) (fuel + 2) (by omega)
      have hclosed : Closes (.sign [')'] :: rest) := .inr ⟨rest, rfl⟩
      -- The right operand stands in parentheses, so the level it is read at does not matter.
      have hinner := expression_of_operand (op.level + 1) hright hclosed
      rw [Tree.tokens, List.cons_append, List.append_assoc, List.cons_append, List.append_assoc,
        List.singleton_append, operand, if_pos rfl, expression, hleft]
      dsimp only
      rw [continued, Binary.ofSign?_sign]
      dsimp only
      rw [if_pos (Nat.zero_le _), hinner]
      dsimp only
      rw [continued_of_closes hclosed]
      rfl

/-! ### Texts with parentheses -/

/-- The text can be followed by this without its last token getting longer. -/
def Bounded (rest : List Char) : Prop :=
  rest = [] ∨ ∃ cs, rest = ' ' :: cs ∨ rest = ')' :: cs

/-- The tokens of the text are those of the tree, written with parentheses. -/
def Spells (text : String) (e : Tree) : Prop :=
  ∀ rest, Bounded rest →
    tokens? (text.toList ++ rest) = (tokens? rest).map (e.tokens ++ ·)

theorem read?_of_spells {text : String} {e : Tree} (h : Spells text e) : read? text = some e := by
  have htokens : tokens? text.toList = some e.tokens := by
    have hend := h [] (.inl rfl)
    rw [tokens?_nil] at hend
    simpa using hend
  have hoperand := operand_tokens e [] (2 * e.tokens.length) (Nat.le_refl _)
  rw [List.append_nil] at hoperand
  -- A tree has a token at least, which leaves fuel for the step from operand to expression.
  have hpos : 0 < e.tokens.length := by
    cases e with
    | unary op e => cases op <;> simp [Tree.tokens]
    | _ => simp [Tree.tokens]
  obtain ⟨n, hn⟩ : ∃ n, 2 * e.tokens.length = n + 1 := ⟨2 * e.tokens.length - 1, by omega⟩
  rw [hn] at hoperand
  have hexpression := expression_of_operand 0 hoperand (.inl rfl)
  rw [read?, htokens]
  dsimp only
  rw [hn, hexpression]

theorem Bounded.head?_any {rest : List Char} (h : Bounded rest) {p : Char → Bool}
    (hblank : p ' ' = false) (hclose : p ')' = false) : rest.head?.any p = false := by
  rcases h with rfl | ⟨cs, rfl | rfl⟩
  · rfl
  · simp [hblank]
  · simp [hclose]

theorem token?_digit {c : Char} (h : c.isDigit = true) (cs : List Char) :
    token? c cs = number? (c :: cs) := by
  rw [token?, if_pos h]

theorem token?_word {c : Char} (hdigit : c.isDigit = false) (h : isWordChar c = true)
    (cs : List Char) : token? c cs = name? (c :: cs) := by
  rw [token?, if_neg (by simp [hdigit]), if_pos h]

theorem tokens?_sign {c : Char} {cs s rest : List Char} (hblank : ¬ (c = ' ' ∨ c = '\t' ∨ c = '\n'))
    (hword : isWordChar c = false) (h : sign? (c :: cs) = some (.sign s, rest)) :
    tokens? (c :: cs) = (tokens? rest).map (.sign s :: ·) := by
  refine tokens?_cons hblank ?_
  have hdigit : c.isDigit = false := by
    cases hdigit : c.isDigit with
    | false => rfl
    | true => exact absurd (isWordChar_of_isDigit hdigit) (by simp [hword])
  rw [token?, if_neg (by simp [hdigit]), if_neg (by simp [hword]), h]

theorem tokens?_open (cs : List Char) :
    tokens? ('(' :: cs) = (tokens? cs).map (.sign ['('] :: ·) :=
  tokens?_sign (by decide) (by decide) rfl

theorem tokens?_close (cs : List Char) :
    tokens? (')' :: cs) = (tokens? cs).map (.sign [')'] :: ·) :=
  tokens?_sign (by decide) (by decide) rfl

theorem not_blank_of_isWordChar {c : Char} (h : isWordChar c = true) :
    ¬ (c = ' ' ∨ c = '\t' ∨ c = '\n') := by
  rintro (rfl | rfl | rfl) <;> exact absurd h (by decide)

theorem number?_toDigits (n : Nat) {rest : List Char} (hrest : Bounded rest) :
    number? (Nat.toDigits 10 n ++ rest) = some (.number n, rest) := by
  obtain ⟨htake, hdrop⟩ := takeWhile_dropWhile_append (toDigits_isDigit n)
    (hrest.head?_any (by decide) (by decide))
  have hnext : rest.head?.any (fun c => isWordChar c || c == '.') = false :=
    hrest.head?_any (by decide) (by decide)
  have hzero : ((Nat.toDigits 10 n).head? == some '0' && (Nat.toDigits 10 n).length != 1) =
      false := by
    cases n with
    | zero => rfl
    | succ n => simp [head?_toDigits_ne (Nat.succ_pos n)]
  rw [number?, htake, hdrop, hnext, hzero, Nat.ofDigitChars_ten_toDigits]
  rfl

theorem tokens?_toDigits (n : Nat) {rest : List Char} (hrest : Bounded rest) :
    tokens? (Nat.toDigits 10 n ++ rest) = (tokens? rest).map (.number n :: ·) := by
  have hnumber := number?_toDigits n hrest
  cases hdigits : Nat.toDigits 10 n with
  | nil => exact absurd hdigits Nat.toDigits_ne_nil
  | cons c cs =>
      have hc : c.isDigit = true := toDigits_isDigit n c (by simp [hdigits])
      rw [hdigits] at hnumber
      exact tokens?_cons (not_blank_of_isWordChar (isWordChar_of_isDigit hc))
        ((token?_digit hc _).trans hnumber)

/-- A constant. -/
theorem Spells.number (n : Nat) : Spells (toString n) (.number n) := by
  intro rest hrest
  have htext : (toString n).toList = Nat.toDigits 10 n := Nat.toList_repr
  rw [htext]
  exact tokens?_toDigits n hrest

/-- A constant with a sign. -/
theorem Spells.minus (n : Nat) : Spells ("-" ++ toString n) (.unary .minus (.number n)) := by
  intro rest hrest
  have htext : ("-" ++ toString n).toList = '-' :: Nat.toDigits 10 n := by
    rw [String.toList_append]
    exact congrArg ('-' :: ·) Nat.toList_repr
  have hsign : sign? ('-' :: (Nat.toDigits 10 n ++ rest)) =
      some (.sign ['-'], Nat.toDigits 10 n ++ rest) := by
    cases hdigits : Nat.toDigits 10 n with
    | nil => exact absurd hdigits Nat.toDigits_ne_nil
    | cons c cs =>
        have hc : c.isDigit = true := toDigits_isDigit n c (by simp [hdigits])
        -- no punctuator starts with a minus and a digit
        have hne : ∀ d : Char, d.isDigit = false → ¬ d = c := by
          rintro d hd rfl
          exact absurd hc (by simp [hd])
        simp [sign?, signs, hne '>' (by decide), hne '-' (by decide), hne '=' (by decide)]
  rw [htext, List.cons_append, tokens?_sign (by decide) (by decide) hsign, tokens?_toDigits n hrest]
  cases tokens? rest <;> rfl

/-- A name. -/
theorem Spells.name {x : String} (h : isName x = true) : Spells x (.name x) := by
  intro rest hrest
  obtain ⟨hidentifier, hkeyword⟩ : isIdentifier x = true ∧ keywords.contains x = false := by
    simpa [isName] using h
  have hword : ∀ c ∈ x.toList, isWordChar c = true := isWordChar_of_isIdentifier hidentifier
  obtain ⟨htake, hdrop⟩ := takeWhile_dropWhile_append hword
    (hrest.head?_any (by decide) (by decide))
  have hname : name? (x.toList ++ rest) = some (.name x, rest) := by
    rw [name?, htake, hdrop, String.ofList_toList, hkeyword]
    rfl
  -- A name goes to the reader of names by its first character.
  cases hx : x.toList with
  | nil => exact absurd hidentifier (by simp [isIdentifier, isWord, hx])
  | cons c cs =>
      have hc : isWordChar c = true := hword c (by simp [hx])
      have hdigit : c.isDigit = false := by
        simpa [isIdentifier, hx] using (Bool.and_eq_true_iff.mp hidentifier).2
      rw [hx] at hname
      exact tokens?_cons (not_blank_of_isWordChar hc) ((token?_word hdigit hc _).trans hname)

/-- A negation. -/
theorem Spells.not {a : String} {e : Tree} (h : Spells a e) :
    Spells ("!(" ++ a ++ ")") (.unary .not e) := by
  intro rest hrest
  have htext : ("!(" ++ a ++ ")").toList ++ rest = '!' :: '(' :: (a.toList ++ ')' :: rest) := by
    simp
  have hnot : tokens? ('!' :: '(' :: (a.toList ++ ')' :: rest)) =
      (tokens? ('(' :: (a.toList ++ ')' :: rest))).map (.sign ['!'] :: ·) :=
    tokens?_sign (by decide) (by decide) rfl
  have hinner := h (')' :: rest) (.inr ⟨rest, .inr rfl⟩)
  rw [htext, hnot, tokens?_open, hinner, tokens?_close]
  cases tokens? rest <;> simp [Tree.tokens]

theorem tokens?_binary (op : Binary) (rest : List Char) :
    tokens? (op.sign ++ ' ' :: rest) = (tokens? rest).map (.sign op.sign :: ·) := by
  rw [← tokens?_blank rest]
  cases op <;> exact tokens?_sign (by decide) (by decide) rfl

/-- An operation. -/
theorem Spells.binary {a b : String} {l r : Tree} (op : Binary) (ha : Spells a l)
    (hb : Spells b r) :
    Spells ("(" ++ a ++ " " ++ String.ofList op.sign ++ " " ++ b ++ ")") (.binary op l r) := by
  intro rest hrest
  have htext : ("(" ++ a ++ " " ++ String.ofList op.sign ++ " " ++ b ++ ")").toList ++ rest =
      '(' :: (a.toList ++ ' ' :: (op.sign ++ ' ' :: (b.toList ++ ')' :: rest))) := by
    simp
  have hleft := ha (' ' :: (op.sign ++ ' ' :: (b.toList ++ ')' :: rest))) (.inr ⟨_, .inl rfl⟩)
  have hright := hb (')' :: rest) (.inr ⟨rest, .inr rfl⟩)
  rw [htext, tokens?_open, hleft, tokens?_blank, tokens?_binary, hright, tokens?_close]
  cases tokens? rest <;> simp [Tree.tokens]

end BoxedLet.CSyntax
