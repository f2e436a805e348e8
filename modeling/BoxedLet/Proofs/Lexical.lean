/-!
# BoxedLet.Proofs.Lexical

**A lexer for lines of C.** Outside of literals a line is cut into words, the maximal runs of
letters, digits and underscores, and single other characters. A string or character literal is one
token, whatever is in it; a backslash in it makes the next character an ordinary one.

The lexer is structural in the text. Two texts can be lexed separately (`tokens_append`) if the
first ends outside of literals and no word runs across the seam between them. A second, coarser pass
(`scan?`) counts open parentheses and semicolons outside of literals.

This is all that the proofs about emitted text use; `Lexes` puts it into the form in which they use
it, for texts that leave everything closed and whose words all satisfy some property.
-/

namespace BoxedLet.Lexical

/-- Where in a line the lexer stands. -/
inductive Mode
  | plain
  /-- Inside a literal that ends with the given quote. -/
  | quoted (quote : Char)
  /-- After a backslash inside such a literal. -/
  | escaped (quote : Char)
  deriving Repr, DecidableEq, Inhabited

/-- The tokens of a line. -/
inductive Token
  | word (text : List Char)
  /-- A string or character literal. -/
  | literal
  | mark (c : Char)
  deriving Repr, DecidableEq, Inhabited

/-- The characters of words. -/
def isWordChar (c : Char) : Bool :=
  c.isAlphanum || c == '_'

/-- The characters that start a literal. -/
def isQuote (c : Char) : Bool :=
  c == '"' || c == '\''

/-- The mode after one more character. -/
def Mode.next : Mode → Char → Mode
  | plain, c => if isQuote c then quoted c else plain
  | quoted q, c => if c == '\\' then escaped q else if c == q then plain else quoted q
  | escaped q, _ => quoted q

/-- The mode after a text. -/
def endMode (m : Mode) (text : List Char) : Mode :=
  text.foldl Mode.next m

/-- Puts a character in front of the word that follows, or starts a word with it. -/
def glue (c : Char) : List Token → List Token
  | .word w :: ts => .word (c :: w) :: ts
  | ts => .word [c] :: ts

/-- The tokens of a text. -/
def tokens : Mode → List Char → List Token
  | _, [] => []
  | .plain, c :: cs =>
    if isQuote c then .literal :: tokens (.quoted c) cs
    else if isWordChar c then glue c (tokens .plain cs)
    else .mark c :: tokens .plain cs
  | .quoted q, c :: cs => tokens (Mode.next (.quoted q) c) cs
  | .escaped q, _ :: cs => tokens (.quoted q) cs

/-! ### Texts side by side -/

@[simp] theorem endMode_nil (m : Mode) : endMode m [] = m := rfl

@[simp] theorem endMode_cons (m : Mode) (c : Char) (cs : List Char) :
    endMode m (c :: cs) = endMode (m.next c) cs := rfl

theorem tokens_cons_quote {c : Char} (h : isQuote c = true) (cs : List Char) :
    tokens .plain (c :: cs) = .literal :: tokens (.quoted c) cs :=
  if_pos h

theorem isQuote_of_isWordChar {c : Char} (h : isWordChar c = true) : isQuote c = false := by
  rw [Bool.eq_false_iff]
  intro hquote
  have hc : c = '"' ∨ c = '\'' := by simpa [isQuote] using hquote
  rcases hc with rfl | rfl <;> exact absurd h (by decide)

theorem tokens_cons_word {c : Char} (h : isWordChar c = true) (cs : List Char) :
    tokens .plain (c :: cs) = glue c (tokens .plain cs) := by
  have hquote : ¬ isQuote c = true := ne_true_of_eq_false (isQuote_of_isWordChar h)
  exact (if_neg hquote).trans (if_pos h)

theorem tokens_cons_mark {c : Char} (hq : isQuote c = false) (hw : isWordChar c = false)
    (cs : List Char) : tokens .plain (c :: cs) = .mark c :: tokens .plain cs := by
  have hquote : ¬ isQuote c = true := ne_true_of_eq_false hq
  have hword : ¬ isWordChar c = true := ne_true_of_eq_false hw
  exact (if_neg hquote).trans (if_neg hword)

/-- A text that does not begin with a word character does not begin with a word. -/
theorem glue_tokens {ys : List Char} (h : ys.head?.any isWordChar = false) (c : Char) :
    glue c (tokens .plain ys) = .word [c] :: tokens .plain ys := by
  cases ys with
  | nil => rfl
  | cons y ys =>
      have hy : isWordChar y = false := by simpa using h
      cases hq : isQuote y with
      | true => rw [tokens_cons_quote hq, glue]; simp
      | false => rw [tokens_cons_mark hq hy, glue]; simp

theorem tokens_ne_nil (c : Char) (cs : List Char) : tokens .plain (c :: cs) ≠ [] := by
  cases hq : isQuote c with
  | true =>
      rw [tokens_cons_quote hq]
      exact List.cons_ne_nil _ _
  | false =>
      cases hw : isWordChar c with
      | true =>
          rw [tokens_cons_word hw]
          unfold glue
          split <;> exact List.cons_ne_nil _ _
      | false =>
          rw [tokens_cons_mark hq hw]
          exact List.cons_ne_nil _ _

theorem glue_append {ts : List Token} (h : ts ≠ []) (c : Char) (us : List Token) :
    glue c (ts ++ us) = glue c ts ++ us := by
  cases ts with
  | nil => exact absurd rfl h
  | cons t ts => cases t <;> rfl

/-- Whether a word could run from the first text into the second. -/
def Joined (xs ys : List Char) : Prop :=
  xs.getLast?.any isWordChar = true ∧ ys.head?.any isWordChar = true

/-- **Two texts are lexed one after the other** unless a word runs across the seam. -/
theorem tokens_append {m : Mode} {xs ys : List Char} (h : ¬ Joined xs ys) :
    tokens m (xs ++ ys) = tokens m xs ++ tokens (endMode m xs) ys := by
  -- over the first text, in every mode; the seam only matters at its last character
  induction xs generalizing m with
  | nil => cases m <;> simp [tokens]
  | cons c cs ih =>
      have hrest : ∀ m, tokens m (cs ++ ys) = tokens m cs ++ tokens (endMode m cs) ys := by
        cases cs with
        | nil => intro m; cases m <;> simp [tokens]
        | cons d ds => exact fun m => ih (fun hj => h (by simpa [Joined] using hj))
      cases m with
      | quoted q => simpa [tokens] using hrest _
      | escaped q => simpa [tokens, Mode.next] using hrest _
      | plain =>
          cases hq : isQuote c with
          | true => simpa [tokens, hq, Mode.next] using hrest _
          | false =>
              have hnext : Mode.next .plain c = .plain := by simp [Mode.next, hq]
              rw [List.cons_append, endMode_cons, hnext]
              cases hw : isWordChar c with
              | false =>
                  rw [tokens_cons_mark hq hw, tokens_cons_mark hq hw, hrest, List.cons_append]
              | true =>
                  rw [tokens_cons_word hw, tokens_cons_word hw]
                  cases cs with
                  | nil =>
                      have hy : ys.head?.any isWordChar = false := by
                        simpa [Joined, hw] using h
                      exact glue_tokens hy c
                  | cons d ds => rw [hrest, glue_append (tokens_ne_nil d ds)]

/-- A text of word characters is one word. -/
theorem tokens_word {w : List Char} (hne : w ≠ []) (hw : ∀ c ∈ w, isWordChar c = true) :
    tokens .plain w = [.word w] ∧ endMode .plain w = .plain := by
  induction w with
  | nil => exact absurd rfl hne
  | cons c cs ih =>
      have hc : isWordChar c = true := hw c (by simp)
      have hnext : Mode.next .plain c = .plain := by simp [Mode.next, isQuote_of_isWordChar hc]
      rw [tokens_cons_word hc, endMode_cons, hnext]
      cases cs with
      | nil => exact ⟨rfl, rfl⟩
      | cons d ds =>
          obtain ⟨htokens, hend⟩ := ih (by simp) fun c hc => hw c (by simp [hc])
          exact ⟨by rw [htokens]; rfl, hend⟩

/-! ### Parentheses and semicolons -/

/-- How far a scan of a line has come. -/
structure Scan where
  mode : Mode := .plain
  /-- How many parentheses are open. -/
  depth : Nat := 0
  semicolons : Nat := 0
  deriving Repr, DecidableEq, Inhabited

/-- The scan after one more character, unless that closes a parenthesis which is not open. Within
literals nothing counts. -/
def Scan.next? (s : Scan) (c : Char) : Option Scan :=
  if s.mode = .plain then
    if c = '(' then some { s with depth := s.depth + 1 }
    else if c = ')' then
      match s.depth with
      | 0 => none
      | d + 1 => some { s with depth := d }
    else if c = ';' then some { s with semicolons := s.semicolons + 1 }
    else some { s with mode := s.mode.next c }
  else some { s with mode := s.mode.next c }

/-- The scan after a text. -/
def scan? (s : Scan) : List Char → Option Scan
  | [] => some s
  | c :: cs => (s.next? c).bind fun s' => scan? s' cs

theorem scan?_append (s : Scan) (xs ys : List Char) :
    scan? s (xs ++ ys) = (scan? s xs).bind fun s' => scan? s' ys := by
  induction xs generalizing s with
  | nil => rfl
  | cons c cs ih =>
      rw [List.cons_append, scan?, scan?]
      cases s.next? c with
      | none => rfl
      | some s' => exact ih s'

/-- Parentheses and semicolons are no quotes, so that the mode changes as it does without them. -/
theorem Scan.mode_next? {s s' : Scan} {c : Char} (h : s.next? c = some s') :
    s'.mode = s.mode.next c := by
  unfold Scan.next? at h
  grind [Mode.next, isQuote]

theorem mode_scan? {s s' : Scan} {cs : List Char} (h : scan? s cs = some s') :
    s'.mode = endMode s.mode cs := by
  induction cs generalizing s with
  | nil =>
      cases h
      rfl
  | cons c cs ih =>
      obtain ⟨t, ht, hrest⟩ := Option.bind_eq_some_iff.mp h
      rw [ih hrest, Scan.mode_next? ht, endMode_cons]

/-- What has been opened and counted before. -/
def Scan.above (s : Scan) (depth semicolons : Nat) : Scan :=
  { s with depth := depth + s.depth, semicolons := semicolons + s.semicolons }

theorem Scan.next?_above {s s' : Scan} {c : Char} (h : s.next? c = some s') (d k : Nat) :
    (s.above d k).next? c = some (s'.above d k) := by
  unfold Scan.next? at h ⊢
  grind [Scan.above]

/-- A scan that goes well does so below any number of open parentheses. -/
theorem scan?_above {s s' : Scan} {cs : List Char} (h : scan? s cs = some s') (d k : Nat) :
    scan? (s.above d k) cs = some (s'.above d k) := by
  induction cs generalizing s with
  | nil =>
      cases h
      rfl
  | cons c cs ih =>
      obtain ⟨t, ht, hrest⟩ := Option.bind_eq_some_iff.mp h
      rw [scan?, Scan.next?_above ht d k]
      exact ih hrest

/-- The characters that mean nothing to a scan. -/
def isInert (c : Char) : Bool :=
  !(isQuote c || c == '(' || c == ')' || c == ';')

/-- A text of such characters opens and closes nothing. -/
theorem scan?_inert {cs : List Char} (h : ∀ c ∈ cs, isInert c = true) (d k : Nat) :
    scan? ⟨.plain, d, k⟩ cs = some ⟨.plain, d, k⟩ := by
  induction cs with
  | nil => rfl
  | cons c cs ih =>
      have hc : isInert c = true := h c (by simp)
      simp only [isInert, Bool.not_eq_true', Bool.or_eq_false_iff, beq_eq_false_iff_ne] at hc
      obtain ⟨⟨⟨hquote, hopen⟩, hclose⟩, hsemicolon⟩ := hc
      have hnext : Scan.next? ⟨.plain, d, k⟩ c = some ⟨.plain, d, k⟩ := by
        simp [Scan.next?, hopen, hclose, hsemicolon, Mode.next, hquote]
      rw [scan?, hnext]
      exact ih fun c hc => h c (by simp [hc])

theorem isInert_of_isWordChar {c : Char} (h : isWordChar c = true) : isInert c = true := by
  have hne : ∀ m : Char, isWordChar m = false → c ≠ m := by
    rintro m hm rfl
    exact absurd (h.symm.trans hm) (by decide)
  simp [isInert, isQuote_of_isWordChar h, hne '(' (by decide), hne ')' (by decide),
    hne ';' (by decide)]

/-- The characters that end a line. -/
def isLineBreak (c : Char) : Bool :=
  c == '\n' || c == '\r'

theorem isLineBreak_of_isWordChar {c : Char} (h : isWordChar c = true) : isLineBreak c = false := by
  rw [Bool.eq_false_iff]
  intro hbreak
  have hc : c = '\n' ∨ c = '\r' := by simpa [isLineBreak] using hbreak
  rcases hc with rfl | rfl <;> exact absurd h (by decide)

/-! ### Texts whose words are known -/

/-- The words that are not taken for names of temporaries: numbers, and words that do not end in a
digit. -/
def isPlain (w : List Char) : Bool :=
  w.head?.any Char.isDigit || w.getLast?.any fun c => !c.isDigit

/-- The text is one line without a semicolon that leaves no literal and no parenthesis open, and all
its words are plain or satisfy `N`. -/
structure Lexes (N : List Char → Prop) (s : String) : Prop where
  closed : ∀ d k, scan? ⟨.plain, d, k⟩ s.toList = some ⟨.plain, d, k⟩
  unbroken : ∀ c ∈ s.toList, isLineBreak c = false
  words : ∀ w, .word w ∈ tokens .plain s.toList → isPlain w = true ∨ N w

theorem Lexes.ends {N : List Char → Prop} {s : String} (h : Lexes N s) :
    endMode .plain s.toList = .plain :=
  (mode_scan? (h.closed 0 0)).symm

/-- Whether the text begins with a character of a word. -/
def opensWord (s : String) : Bool :=
  s.toList.head?.any isWordChar

/-- Whether the text ends with a character of a word. -/
def closesWord (s : String) : Bool :=
  s.toList.getLast?.any isWordChar

theorem closesWord_append (a : String) {b : String} (h : b.toList ≠ []) :
    closesWord (a ++ b) = closesWord b := by
  simp [closesWord, List.getLast?_append, List.getLast?_eq_some_getLast h]

/-- No word runs across a seam if one of the texts has none there. -/
theorem not_joined {a b : String} (h : closesWord a = false ∨ opensWord b = false) :
    ¬ Joined a.toList b.toList := by
  rintro ⟨hclose, hopen⟩
  rcases h with h | h
  · exact absurd (hclose.symm.trans h) (by decide)
  · exact absurd (hopen.symm.trans h) (by decide)

theorem opensWord_parens (a : String) : opensWord ("(" ++ a ++ ")") = false := by
  have hopen : isWordChar '(' = false := by decide
  simp [opensWord, hopen]

/-- A fixed text with plain words only. -/
def isPlainText (s : String) : Bool :=
  (scan? {} s.toList == some {} && s.toList.all fun c => !isLineBreak c) &&
    (tokens .plain s.toList).all fun
      | .word w => isPlain w
      | _ => true

/-- A fixed text that a word can follow. -/
def isLead (s : String) : Bool :=
  isPlainText s && !closesWord s

/-- A fixed text that can follow a word. -/
def isTrail (s : String) : Bool :=
  isPlainText s && !opensWord s

/-- A fixed text that can stand between two words. -/
def isSeparator (s : String) : Bool :=
  isLead s && isTrail s && !s.toList.isEmpty

/-- A text of word characters. -/
def isWord (s : String) : Bool :=
  !s.toList.isEmpty && s.toList.all isWordChar

/-- A text of word characters, which may be empty. -/
def isSpelled (s : String) : Bool :=
  s.toList.all isWordChar

/-- A word that can name something in C. -/
def isIdentifier (s : String) : Bool :=
  isWord s && !s.toList.head?.any Char.isDigit

namespace Lexes

variable {N : List Char → Prop} {a b : String}

theorem append (ha : Lexes N a) (hb : Lexes N b)
    (h : closesWord a = false ∨ opensWord b = false) : Lexes N (a ++ b) := by
  have hseam := not_joined h
  refine ⟨?_, ?_, ?_⟩
  · intro d k
    rw [String.toList_append, scan?_append, ha.closed]
    exact hb.closed d k
  · intro c hc
    rw [String.toList_append] at hc
    rcases List.mem_append.mp hc with hc | hc
    · exact ha.unbroken c hc
    · exact hb.unbroken c hc
  · intro w hw
    rw [String.toList_append, tokens_append hseam, ha.ends] at hw
    rcases List.mem_append.mp hw with hw | hw
    · exact ha.words w hw
    · exact hb.words w hw

theorem fixed (h : isPlainText a = true) : Lexes N a := by
  obtain ⟨htext, hwords⟩ := Bool.and_eq_true_iff.mp h
  obtain ⟨hscan, hunbroken⟩ := Bool.and_eq_true_iff.mp htext
  have hscan : scan? {} a.toList = some {} := by simpa using hscan
  refine ⟨fun d k => scan?_above hscan d k, fun c hc => ?_, fun w hw => .inl ?_⟩
  · simpa using List.all_eq_true.mp hunbroken c hc
  · exact List.all_eq_true.mp hwords _ hw

theorem word (h : isWord a = true) (hN : isPlain a.toList = true ∨ N a.toList) : Lexes N a := by
  obtain ⟨hne, hall⟩ := Bool.and_eq_true_iff.mp h
  have hchars : ∀ c ∈ a.toList, isWordChar c = true := List.all_eq_true.mp hall
  obtain ⟨htokens, -⟩ := tokens_word (w := a.toList) (by simpa using hne) hchars
  refine ⟨scan?_inert fun c hc => isInert_of_isWordChar (hchars c hc),
    fun c hc => isLineBreak_of_isWordChar (hchars c hc), fun w hw => ?_⟩
  rw [htokens] at hw
  obtain rfl : w = a.toList := by simpa using hw
  exact hN

/-- A text after a fixed one. -/
theorem after (lead : String) (h : isLead lead = true) (hb : Lexes N b) : Lexes N (lead ++ b) := by
  obtain ⟨hplain, hclose⟩ := Bool.and_eq_true_iff.mp h
  exact (Lexes.fixed hplain).append hb (.inl (by simpa using hclose))

/-- A text before a fixed one. -/
theorem before (ha : Lexes N a) (trail : String) (h : isTrail trail = true) :
    Lexes N (a ++ trail) := by
  obtain ⟨hplain, hopen⟩ := Bool.and_eq_true_iff.mp h
  exact ha.append (.fixed hplain) (.inr (by simpa using hopen))

/-- Two texts with a fixed one between them. -/
theorem sep (ha : Lexes N a) (s : String) (h : isSeparator s = true) (hb : Lexes N b) :
    Lexes N (a ++ s ++ b) := by
  simp only [isSeparator, Bool.and_eq_true] at h
  obtain ⟨⟨hlead, htrail⟩, hne⟩ := h
  have hclose : closesWord s = false := by simpa using (Bool.and_eq_true_iff.mp hlead).2
  refine (ha.before s htrail).append hb (.inl ?_)
  rw [closesWord_append a (by simpa using hne), hclose]

/-- A text in parentheses. -/
theorem parens (ha : Lexes N a) : Lexes N ("(" ++ a ++ ")") := by
  have htext : ("(" ++ a ++ ")").toList = '(' :: (a.toList ++ [')']) := by simp
  have hseam : ¬ Joined a.toList [')'] := fun hj => absurd hj.2 (by decide)
  refine ⟨fun d k => ?_, fun c hc => ?_, fun w hw => ?_⟩
  · -- one deeper inside, and back at the end
    rw [htext, scan?]
    show scan? ⟨.plain, d + 1, k⟩ (a.toList ++ [')']) = _
    rw [scan?_append, ha.closed]
    rfl
  · rw [htext] at hc
    have hc : c = '(' ∨ c ∈ a.toList ∨ c = ')' := by simpa using hc
    rcases hc with rfl | hc | rfl
    · decide
    · exact ha.unbroken c hc
    · decide
  · rw [htext, tokens_cons_mark (by decide) (by decide), tokens_append hseam, ha.ends] at hw
    have hclose : tokens .plain [')'] = [.mark ')'] := by decide
    rw [hclose] at hw
    exact ha.words w (by simpa using hw)

/-- Texts in a row, with commas between them. -/
theorem intercalate {args : List String} (h : ∀ arg ∈ args, Lexes N arg) :
    Lexes N (String.intercalate ", " args) := by
  induction args with
  | nil =>
      rw [String.intercalate_nil]
      exact .fixed (by decide)
  | cons a rest ih =>
      have ha : Lexes N a := h a (by simp)
      have hrest := ih fun arg harg => h arg (by simp [harg])
      cases rest with
      | nil =>
          rw [String.intercalate_singleton]
          exact ha
      | cons b rest =>
          rw [String.intercalate_cons_cons]
          exact ha.sep ", " (by decide) hrest

end Lexes

/-! ### Reading a line -/

/-- The characters that may indent a line. -/
def isBlank (c : Char) : Bool :=
  c == ' ' || c == '\t'

/-- Whether the token is more than a blank. -/
def Token.isVisible : Token → Bool
  | .mark c => !isBlank c
  | _ => true

/-- The tokens of a line, without blanks. -/
def lineTokens (line : String) : List Token :=
  (tokens .plain line.toList).filter Token.isVisible

/-- The words that a line mentions. -/
def mentioned (line : String) : List String :=
  (lineTokens line).filterMap fun
    | .word w => some (String.ofList w)
    | _ => none

/-- The function or macro that a line invokes. -/
def callee? (line : String) : Option String :=
  match lineTokens line with
  | .word f :: .mark '(' :: _ => some (String.ofList f)
  | _ => none

/-- The operand that a line writes: the first argument of an invocation, be it passed by reference
or not, and the left-hand side of an assignment. -/
def writtenOperand? (line : String) : Option String :=
  match lineTokens line with
  | .word _ :: .mark '(' :: .mark '&' :: .word w :: _ => some (String.ofList w)
  | .word _ :: .mark '(' :: .word w :: _ => some (String.ofList w)
  | .word _ :: .mark '(' :: _ => none
  | .word w :: _ => some (String.ofList w)
  | _ => none

/-- Blanks in front of a line do not matter. -/
theorem lineTokens_indent {margin : String} (h : margin.toList.all isBlank = true) (line : String) :
    lineTokens (margin ++ line) = lineTokens line := by
  unfold lineTokens
  rw [String.toList_append]
  generalize margin.toList = cs at h
  induction cs with
  | nil => rfl
  | cons c cs ih =>
      obtain ⟨hc, hcs⟩ : isBlank c = true ∧ cs.all isBlank = true := by simpa using h
      have hmark : isQuote c = false ∧ isWordChar c = false := by
        have hc : c = ' ' ∨ c = '\t' := by simpa [isBlank] using hc
        rcases hc with rfl | rfl <;> decide
      rw [List.cons_append, tokens_cons_mark hmark.1 hmark.2,
        List.filter_cons_of_neg (by simp [Token.isVisible, hc]), ih hcs]

/-- A word, and then something else. -/
theorem tokens_word_append {w : String} (hw : isWord w = true) {rest : List Char}
    (h : rest.head?.any isWordChar = false) :
    tokens .plain (w.toList ++ rest) = .word w.toList :: tokens .plain rest := by
  obtain ⟨hne, hall⟩ := Bool.and_eq_true_iff.mp hw
  obtain ⟨htokens, hends⟩ := tokens_word (w := w.toList) (by simpa using hne)
    (List.all_eq_true.mp hall)
  have hseam : ¬ Joined w.toList rest := fun hj => absurd (hj.2.symm.trans h) (by decide)
  rw [tokens_append hseam, htokens, hends, List.singleton_append]

theorem tokens_word_mark {w : String} (hw : isWord w = true) {c : Char} (hq : isQuote c = false)
    (hc : isWordChar c = false) (cs : List Char) :
    tokens .plain (w.toList ++ c :: cs) = .word w.toList :: .mark c :: tokens .plain cs := by
  have hhead : (c :: cs).head?.any isWordChar = false := hc
  rw [tokens_word_append hw hhead, tokens_cons_mark hq hc]

/-! ### Invocations in a text -/

/-- The words that stand right before an opening parenthesis. -/
def called : List Token → List String
  | .word f :: .mark '(' :: ts => String.ofList f :: called ts
  | _ :: ts => called ts
  | [] => []

/-- The functions and macros that a text invokes, from left to right. -/
def callees (text : String) : List String :=
  called (lineTokens text)

/-- Whether the text ends with a word, up to blanks. -/
def endsInWord (s : String) : Bool :=
  (lineTokens s).getLast?.any fun
    | .word _ => true
    | _ => false

/-- Whether the text begins with an opening parenthesis, up to blanks. -/
def opensGroup (s : String) : Bool :=
  (lineTokens s).head? == some (.mark '(')

theorem called_cons {t : Token} {ts : List Token}
    (h : (∀ f, t ≠ .word f) ∨ ts.head? ≠ some (.mark '(')) : called (t :: ts) = called ts := by
  rw [called]
  rintro f us rfl rfl
  rcases h with h | h
  · exact h f rfl
  · exact h rfl

/-- Token lists are searched one after the other, unless a word in front of the seam meets an opening
parenthesis behind it. -/
theorem called_append {ts us : List Token}
    (h : (∀ f, ts.getLast? ≠ some (.word f)) ∨ us.head? ≠ some (.mark '(')) :
    called (ts ++ us) = called ts ++ called us := by
  fun_induction called ts with
  | case1 f ts ih =>
      have hrest : called (ts ++ us) = called ts ++ called us := by
        refine ih (h.imp_left fun hlast g hg => ?_)
        cases ts with
        | nil => simp at hg
        | cons t ts => exact hlast g (by simpa [List.getLast?_cons_cons] using hg)
      simp [called, hrest]
  | case2 t ts hnot ih =>
      cases ts with
      | nil =>
          rw [List.singleton_append, called_cons]
          · rfl
          · exact h.imp_left fun hlast f hf => hlast f (by simp [hf])
      | cons t' ts =>
          rw [List.cons_append, called_cons]
          · exact ih (by simpa [List.getLast?_cons_cons] using h)
          · by_cases hword : ∃ f, t = .word f
            · obtain ⟨f, rfl⟩ := hword
              refine .inr fun hmark => hnot f ts rfl ?_
              simpa using hmark
            · exact .inl fun f hf => hword ⟨f, hf⟩
  | case3 => rfl

/-- A list of tokens without parentheses invokes nothing. -/
theorem called_eq_nil {ts : List Token} (h : .mark '(' ∉ ts) : called ts = [] := by
  fun_induction called ts with
  | case1 f ts ih => simp at h
  | case2 t ts hnot ih => exact ih fun hmem => h (List.mem_cons_of_mem t hmem)
  | case3 => rfl

theorem mem_glue {t : Token} {c : Char} {ts : List Token} (h : t ∈ glue c ts) :
    (∃ w, t = .word w) ∨ t ∈ ts := by
  unfold glue at h
  split at h <;> grind

/-- Marks are characters of the text. -/
theorem mem_of_mark_mem_tokens {m : Mode} {cs : List Char} {c : Char}
    (h : .mark c ∈ tokens m cs) : c ∈ cs := by
  fun_induction tokens m cs with
  | case1 => simp at h
  | case2 d cs hquote ih => exact List.mem_cons_of_mem d (ih (by simpa using h))
  | case3 d cs hquote hword ih =>
      rcases mem_glue h with ⟨w, hw⟩ | h
      · cases hw
      · exact List.mem_cons_of_mem d (ih h)
  | case4 d cs hquote hword ih =>
      rcases List.mem_cons.mp h with hd | h
      · obtain rfl : c = d := by simpa using hd
        exact List.mem_cons_self
      · exact List.mem_cons_of_mem d (ih h)
  | case5 q d cs ih => exact List.mem_cons_of_mem d (ih h)
  | case6 q d cs ih => exact List.mem_cons_of_mem d (ih h)

/-- A text without parentheses invokes nothing. -/
theorem callees_eq_nil {s : String} (h : '(' ∉ s.toList) : callees s = [] :=
  called_eq_nil fun hmem => h (mem_of_mark_mem_tokens (List.mem_filter.mp hmem).1)

theorem callees_of_isSpelled {s : String} (h : isSpelled s = true) : callees s = [] := by
  refine callees_eq_nil fun hmem => ?_
  exact absurd (List.all_eq_true.mp h _ hmem) (by decide)

/-- A fixed text that does not invoke what is put in parentheses behind it. -/
def isOpening (s : String) : Bool :=
  isLead s && (callees s).isEmpty && !endsInWord s

/-- A fixed text that is not invoked by what stands in front of it. -/
def isClosing (s : String) : Bool :=
  !opensWord s && (callees s).isEmpty && !opensGroup s

/-- A fixed text that can stand between two texts. -/
def isDivider (s : String) : Bool :=
  isOpening s && isClosing s && isSeparator s && !(lineTokens s).isEmpty

theorem isSeparator_of_isDivider {s : String} (h : isDivider s = true) : isSeparator s = true := by
  simp only [isDivider, Bool.and_eq_true] at h
  exact h.1.2

theorem lineTokens_append {N : List Char → Prop} {a b : String} (ha : Lexes N a)
    (h : closesWord a = false ∨ opensWord b = false) :
    lineTokens (a ++ b) = lineTokens a ++ lineTokens b := by
  rw [lineTokens, String.toList_append, tokens_append (not_joined h), ha.ends, List.filter_append]
  rfl

theorem callees_append {N : List Char → Prop} {a b : String} (ha : Lexes N a)
    (h : closesWord a = false ∨ opensWord b = false)
    (hcall : endsInWord a = false ∨ opensGroup b = false) :
    callees (a ++ b) = callees a ++ callees b := by
  rw [callees, lineTokens_append ha h, called_append]
  · rfl
  · refine hcall.imp (fun hlast f hf => ?_) fun hopen => ?_
    · simp [endsInWord, hf] at hlast
    · simpa [opensGroup] using hopen

/-- What a text after a fixed one invokes. -/
theorem callees_after (lead : String) (h : isOpening lead = true) (b : String) :
    callees (lead ++ b) = callees b := by
  simp only [isOpening, Bool.and_eq_true, Bool.not_eq_true', List.isEmpty_iff] at h
  obtain ⟨⟨hlead, hnone⟩, hcall⟩ := h
  obtain ⟨hplain, hclose⟩ := Bool.and_eq_true_iff.mp hlead
  have hlexes : Lexes (fun _ => True) lead := .fixed hplain
  rw [callees_append hlexes (.inl (by simpa using hclose)) (.inl hcall), hnone, List.nil_append]

section Texts

variable {N : List Char → Prop} {a : String}

/-- What a text before a fixed one invokes. -/
theorem callees_before (ha : Lexes N a) (trail : String) (h : isClosing trail = true) :
    callees (a ++ trail) = callees a := by
  simp only [isClosing, Bool.and_eq_true, Bool.not_eq_true', List.isEmpty_iff] at h
  obtain ⟨⟨hopen, hnone⟩, hcall⟩ := h
  rw [callees_append ha (.inr hopen) (.inr hcall), hnone, List.append_nil]

/-- What two texts with a fixed one between them invoke. -/
theorem callees_sep (ha : Lexes N a) (s : String) (h : isDivider s = true) (b : String) :
    callees (a ++ s ++ b) = callees a ++ callees b := by
  simp only [isDivider, Bool.and_eq_true, Bool.not_eq_true'] at h
  obtain ⟨⟨⟨hopening, hclosing⟩, hseparator⟩, hvisible⟩ := h
  simp only [isSeparator, Bool.and_eq_true] at hseparator
  obtain ⟨⟨hlead, htrail⟩, hne⟩ := hseparator
  have hlexes : Lexes N (a ++ s) := ha.before s htrail
  have hopen : opensWord s = false := by simpa using (Bool.and_eq_true_iff.mp htrail).2
  have hclose : closesWord s = false := by simpa using (Bool.and_eq_true_iff.mp hlead).2
  -- the divider is what the second text meets
  have hword : endsInWord (a ++ s) = false := by
    have hs : endsInWord s = false := by
      simpa using (Bool.and_eq_true_iff.mp hopening).2
    have hne : lineTokens s ≠ [] := by simpa using hvisible
    rw [← hs, endsInWord, endsInWord, lineTokens_append ha (.inr hopen), List.getLast?_append,
      List.getLast?_eq_some_getLast hne]
    rfl
  rw [callees_append hlexes (.inl _) (.inl hword), callees_before ha s hclosing]
  rw [closesWord_append a (by simpa using hne), hclose]

theorem lineTokens_parens (ha : Lexes N a) :
    lineTokens ("(" ++ a ++ ")") = .mark '(' :: (lineTokens a ++ [.mark ')']) := by
  have htext : ("(" ++ a ++ ")").toList = '(' :: (a.toList ++ [')']) := by simp
  have hseam : ¬ Joined a.toList [')'] := fun hj => absurd hj.2 (by decide)
  have hclose : tokens .plain [')'] = [.mark ')'] := by decide
  rw [lineTokens, htext, tokens_cons_mark (by decide) (by decide), tokens_append hseam, ha.ends,
    hclose, List.filter_cons_of_pos (by decide), List.filter_append]
  rfl

/-- What a text in parentheses invokes. -/
theorem callees_parens (ha : Lexes N a) : callees ("(" ++ a ++ ")") = callees a := by
  rw [callees, lineTokens_parens ha, called_cons (.inl (by simp)), called_append (.inr (by simp))]
  exact List.append_nil _

/-- What texts in a row invoke. -/
theorem callees_intercalate {args : List String} (h : ∀ arg ∈ args, Lexes N arg) :
    callees (String.intercalate ", " args) = args.flatMap callees := by
  induction args with
  | nil => rw [String.intercalate_nil]; decide
  | cons a rest ih =>
      have ha : Lexes N a := h a (by simp)
      have hrest := ih fun arg harg => h arg (by simp [harg])
      cases rest with
      | nil => simp
      | cons b rest =>
          rw [String.intercalate_cons_cons, callees_sep ha ", " (by decide), hrest]
          rfl

end Texts

/-- All words of a text that lexes are known, also when it is made a statement. -/
theorem Lexes.mentioned {N : List Char → Prop} {body : String} (h : Lexes N body) {w : String}
    (hw : w ∈ mentioned (body ++ ";")) : isPlain w.toList = true ∨ N w.toList := by
  have hseam : ¬ Joined body.toList [';'] := fun hj => absurd hj.2 (by decide)
  have hmark : tokens .plain [';'] = [.mark ';'] := by decide
  have htokens : tokens .plain (body ++ ";").toList = tokens .plain body.toList ++ [.mark ';'] := by
    rw [String.toList_append, String.toList_ofList, tokens_append hseam, h.ends, hmark]
  simp only [Lexical.mentioned, lineTokens, List.mem_filterMap, List.mem_filter, htokens] at hw
  obtain ⟨t, ⟨ht, -⟩, hword⟩ := hw
  cases t with
  | word v =>
      obtain rfl : String.ofList v = w := by simpa using hword
      rw [String.toList_ofList]
      exact h.words v (by simpa using ht)
  | literal | mark c => exact absurd hword (by simp)

end BoxedLet.Lexical
