import BoxedLet.Proofs.JsonText

/-!
# BoxedLet.Proofs.JsonReading

**Reading inverts writing.** `Decoder.Reads d R` says what a decoder is for: on every text of a value
that describes `a`, within the same budget of brackets and whatever comes behind, it returns `a` and
stops right behind the value. `R` is the format, a relation between contents and values, and does
not mention the decoder.

The loops over lists and objects are treated once, for any step that reads what one entry says
(`foldItems_enclosed`, `foldMembers_enclosed`). Passing over a value goes through the same brackets
with a list of its own; it stops where reading stops (`skipValue_written`).
-/

namespace BoxedLet.Json

/-! ### Inside brackets -/

theorem Written.bracket {budget : Nat} {v : Value} {text : List Char} (h : Written budget v text) :
    WrittenScalar v text ∨ ∃ inner, budget = inner + 1 ∧ WrittenBrackets (Written inner) v text := by
  cases budget with
  | zero => exact .inl h
  | succ inner =>
      rcases h with h | h
      · exact .inl h
      · exact .inr ⟨inner, rfl, h⟩

theorem Written.scalar {budget : Nat} {v : Value} {text : List Char} (h : Written budget v text)
    (hlist : ∀ items, v ≠ .list items) (hobject : ∀ members, v ≠ .object members) :
    WrittenScalar v text := by
  rcases h.bracket with h | ⟨inner, -, h⟩
  · exact h
  · cases h with
    | @list items => exact absurd rfl (hlist items)
    | @object members => exact absurd rfl (hobject members)

/-- Only null starts with its first letter. -/
theorem Written.head_ne_n {budget : Nat} {v : Value} {text : List Char} (h : Written budget v text)
    (hv : v ≠ .null) : ∃ c cs, text = c :: cs ∧ c ≠ 'n' := by
  rcases h.bracket with h | ⟨inner, -, h⟩
  · cases h with
    | null => exact absurd rfl hv
    | true | false | string => exact ⟨_, _, rfl, by decide⟩
    | @int n =>
        obtain ⟨c, cs, htext, hc⟩ := head_toString_int n
        refine ⟨c, cs, htext, ?_⟩
        rintro rfl
        exact absurd hc (by decide)
  · cases h with
    | list | object => exact ⟨_, _, rfl, by decide⟩

theorem Written.of_list {budget : Nat} {items : List Value} {text : List Char}
    (h : Written budget (.list items) text) :
    ∃ inner body, budget = inner + 1 ∧ text = '[' :: (body ++ [']']) ∧
      Enclosed (Written inner) items body := by
  rcases h.bracket with h | ⟨inner, hbudget, h⟩
  · cases h
  · cases h with
    | @list _ body hbody => exact ⟨inner, body, hbudget, rfl, hbody⟩

theorem Written.of_object {budget : Nat} {members : List (String × Value)} {text : List Char}
    (h : Written budget (.object members) text) :
    ∃ inner body, budget = inner + 1 ∧ text = '\x7b' :: (body ++ ['\x7d']) ∧
      Enclosed (WrittenMember (Written inner)) members body := by
  rcases h.bracket with h | ⟨inner, hbudget, h⟩
  · cases h
  · cases h with
    | @object _ body hbody => exact ⟨inner, body, hbudget, rfl, hbody⟩

/-- What stands before the blanks of an entry: nothing before the first, a comma before a later
one. -/
inductive Lead : (first : Bool) → List Char → Prop
  | first : Lead true []
  | later {ws : List Char} (h : IsBlanks ws) : Lead false (ws ++ [','])

theorem nextItem?_lead {first : Bool} {lead before : List Char} {c : Char} (hlead : Lead first lead)
    (hbefore : IsBlanks before) (hc : StartsValue c) (cs : List Char) :
    nextItem? first (lead ++ (before ++ c :: cs)) = .ok (some (c :: cs)) := by
  obtain ⟨hblank, hclose, -, -⟩ := hc
  have hskip : skipBlank (before ++ c :: cs) = c :: cs := by
    rw [skipBlank_append hbefore, skipBlank_cons hblank]
  cases hlead with
  | first =>
      rw [List.nil_append, nextItem?, hskip]
      simp
  | later hws =>
      rw [List.append_assoc, List.singleton_append, nextItem?, skipBlank_append hws,
        skipBlank_cons (by decide)]
      simp [hskip, hclose]

theorem nextItem?_end {ws : List Char} (hws : IsBlanks ws) (first : Bool) (cs : List Char) :
    nextItem? first (ws ++ ']' :: cs) = .ok none ∧ (skipBlank (ws ++ ']' :: cs)).drop 1 = cs := by
  have hskip : skipBlank (ws ++ ']' :: cs) = ']' :: cs := by
    rw [skipBlank_append hws, skipBlank_cons (by decide)]
  exact ⟨by simp [nextItem?, hskip], by simp [hskip]⟩

theorem nextKey?_lead {first : Bool} {lead before : List Char} (hlead : Lead first lead)
    (hbefore : IsBlanks before) (cs : List Char) :
    nextKey? first (lead ++ (before ++ '"' :: cs)) = .ok (some cs) := by
  have hskip : skipBlank (before ++ '"' :: cs) = '"' :: cs := by
    rw [skipBlank_append hbefore, skipBlank_cons (by decide)]
  cases hlead with
  | first =>
      rw [List.nil_append, nextKey?, hskip]
      rfl
  | later hws =>
      rw [List.append_assoc, List.singleton_append, nextKey?, skipBlank_append hws,
        skipBlank_cons (by decide)]
      simp [hskip]

theorem nextKey?_end {ws : List Char} (hws : IsBlanks ws) (first : Bool) (cs : List Char) :
    nextKey? first (ws ++ '\x7d' :: cs) = .ok none ∧
      (skipBlank (ws ++ '\x7d' :: cs)).drop 1 = cs := by
  have hskip : skipBlank (ws ++ '\x7d' :: cs) = '\x7d' :: cs := by
    rw [skipBlank_append hws, skipBlank_cons (by decide)]
  exact ⟨by simp [nextKey?, hskip], by simp [hskip]⟩

theorem readColon_blanks {gap : List Char} (hgap : IsBlanks gap) (cs : List Char) :
    readColon (gap ++ ':' :: cs) = .ok cs := by
  rw [readColon, skipBlank_append hgap, skipBlank_cons (by decide)]
  rfl

/-! ### Loops -/

/-- Entries, one after the other, take the accumulator from one value to another. -/
inductive Folds {α β : Type} (next : β → α → β → Prop) : β → List α → β → Prop
  | nil {b : β} : Folds next b [] b
  | cons {b c d : β} {x : α} {xs : List α} (h : next b x c) (hrest : Folds next c xs d) :
      Folds next b (x :: xs) d

section Loops

variable {β : Type} {budget : Nat}

/-- The step reads an item as `next` says. -/
def ItemStep (budget : Nat) (next : β → Value → β → Prop)
    (step : β → List Char → Except Fault (β × List Char)) : Prop :=
  ∀ ⦃acc acc' v text rest⦄, next acc v acc' → Written budget v text → Stops rest →
    step acc (text ++ rest) = .ok (acc', rest)

/-- The step reads a member, from the end of its key on, as `next` says. -/
def MemberStep (budget : Nat) (next : β → String × Value → β → Prop)
    (step : β → String → List Char → Except Fault (β × List Char)) : Prop :=
  ∀ ⦃acc acc' key v gap lead text rest⦄, next acc (key, v) acc' → Written budget v text →
    IsBlanks gap → IsBlanks lead → Stops rest →
    step acc key (gap ++ ':' :: (lead ++ (text ++ rest))) = .ok (acc', rest)

theorem foldItems_separated {next : β → Value → β → Prop}
    {step : β → List Char → Except Fault (β × List Char)} (hstep : ItemStep budget next step)
    {items : List Value} {body : List Char} (h : Separated (Written budget) items body)
    {acc acc' : β} (hfold : Folds next acc items acc') {first : Bool} {lead : List Char}
    (hlead : Lead first lead) (steps : Nat) (hsteps : body.length < steps)
    (rest : List Char) :
    foldItems step steps first acc (lead ++ (body ++ ']' :: rest)) = .ok (acc', rest) := by
  induction h generalizing acc first lead steps with
  | @last v before text after hbefore hv hafter =>
      obtain _ | ⟨hnext, hnil⟩ := hfold
      cases hnil
      obtain ⟨c, cs, rfl, hc⟩ := hv.head
      -- One step for the item and one for the end; an item has a character at least.
      obtain ⟨steps, rfl⟩ : ∃ n, steps = n + 2 := ⟨steps - 2, by simp at hsteps; omega⟩
      have hstops : Stops (after ++ ']' :: rest) := .append hafter (.cons (by decide) rest)
      have hread := hstep hnext hv hstops
      obtain ⟨hend, hdrop⟩ := nextItem?_end hafter false rest
      rw [List.append_assoc, List.append_assoc, List.cons_append, foldItems,
        nextItem?_lead hlead hbefore hc, ← List.cons_append]
      show (step acc _ >>= _) = _
      rw [hread]
      show foldItems step (steps + 1) false acc' _ = _
      rw [foldItems, hend]
      show Except.ok (acc', _) = _
      rw [hdrop]
  | @cons v vs before text after tail hbefore hv hafter hvs ih =>
      obtain _ | ⟨hnext, hfold⟩ := hfold
      rename_i mid
      obtain ⟨c, cs, rfl, hc⟩ := hv.head
      obtain ⟨steps, rfl⟩ : ∃ n, steps = n + 1 := ⟨steps - 1, by omega⟩
      have hstops : Stops (after ++ ',' :: (tail ++ ']' :: rest)) :=
        .append hafter (.cons (by decide) _)
      have hread := hstep hnext hv hstops
      -- The comma becomes the lead of the next item.
      have hrest := ih hfold (.later hafter) steps (by simp at hsteps; omega)
      rw [List.append_assoc, List.append_assoc, List.append_assoc, List.cons_append,
        List.cons_append, foldItems, nextItem?_lead hlead hbefore hc, ← List.cons_append]
      show (step acc _ >>= _) = _
      rw [hread]
      show foldItems step steps false mid _ = _
      simpa using hrest

theorem foldMembers_separated {next : β → String × Value → β → Prop}
    {step : β → String → List Char → Except Fault (β × List Char)}
    (hstep : MemberStep budget next step) {members : List (String × Value)} {body : List Char}
    (h : Separated (WrittenMember (Written budget)) members body) {acc acc' : β}
    (hfold : Folds next acc members acc') {first : Bool} {lead : List Char}
    (hlead : Lead first lead) (steps : Nat) (hsteps : body.length < steps) (rest : List Char) :
    foldMembers step steps first acc (lead ++ (body ++ '\x7d' :: rest)) = .ok (acc', rest) := by
  induction h generalizing acc first lead steps with
  | @last _ before text after hbefore hm hafter =>
      obtain _ | ⟨hnext, hnil⟩ := hfold
      cases hnil
      obtain @⟨key, v, name, gap, blanks, text, hname, hgap, hblanks, hv⟩ := hm
      obtain ⟨steps, rfl⟩ : ∃ n, steps = n + 2 := ⟨steps - 2, by simp at hsteps; omega⟩
      have hstops : Stops (after ++ '\x7d' :: rest) := .append hafter (.cons (by decide) rest)
      have hread := hstep hnext hv hgap hblanks hstops
      obtain ⟨hend, hdrop⟩ := nextKey?_end hafter false rest
      simp only [List.append_assoc, List.cons_append]
      rw [foldMembers, nextKey?_lead hlead hbefore]
      show (readString _ >>= _) = _
      rw [readString_written hname]
      show (step acc key _ >>= _) = _
      rw [hread]
      show foldMembers step (steps + 1) false acc' _ = _
      rw [foldMembers, hend]
      show Except.ok (acc', _) = _
      rw [hdrop]
  | @cons _ ms before text after tail hbefore hm hafter hms ih =>
      obtain _ | ⟨hnext, hfold⟩ := hfold
      rename_i mid
      obtain @⟨key, v, name, gap, blanks, text, hname, hgap, hblanks, hv⟩ := hm
      obtain ⟨steps, rfl⟩ : ∃ n, steps = n + 1 := ⟨steps - 1, by omega⟩
      have hstops : Stops (after ++ ',' :: (tail ++ '\x7d' :: rest)) :=
        .append hafter (.cons (by decide) _)
      have hread := hstep hnext hv hgap hblanks hstops
      have hrest := ih hfold (.later hafter) steps (by simp at hsteps; omega)
      simp only [List.append_assoc, List.cons_append]
      rw [foldMembers, nextKey?_lead hlead hbefore]
      show (readString _ >>= _) = _
      rw [readString_written hname]
      show (step acc key _ >>= _) = _
      rw [hread]
      show foldMembers step steps false mid _ = _
      simpa using hrest

/-- **Reading the items of a list** takes the accumulator through all of them. -/
theorem foldItems_enclosed {next : β → Value → β → Prop}
    {step : β → List Char → Except Fault (β × List Char)} (hstep : ItemStep budget next step)
    {items : List Value} {body : List Char} (h : Enclosed (Written budget) items body)
    {acc acc' : β} (hfold : Folds next acc items acc') (rest : List Char) :
    foldItems step ((body ++ ']' :: rest).length + 1) true acc (body ++ ']' :: rest) =
      .ok (acc', rest) := by
  rcases h with ⟨rfl, hblanks⟩ | h
  · cases hfold
    obtain ⟨hend, hdrop⟩ := nextItem?_end hblanks true rest
    rw [foldItems, hend]
    show Except.ok (acc, _) = _
    rw [hdrop]
  · have hlength : (body ++ ']' :: rest).length = body.length + (rest.length + 1) := by simp
    exact foldItems_separated hstep h hfold .first _ (by omega) rest

/-- **Reading the members of an object** takes the accumulator through all of them. -/
theorem foldMembers_enclosed {next : β → String × Value → β → Prop}
    {step : β → String → List Char → Except Fault (β × List Char)}
    (hstep : MemberStep budget next step) {members : List (String × Value)} {body : List Char}
    (h : Enclosed (WrittenMember (Written budget)) members body) {acc acc' : β}
    (hfold : Folds next acc members acc') (rest : List Char) :
    foldMembers step ((body ++ '\x7d' :: rest).length + 1) true acc (body ++ '\x7d' :: rest) =
      .ok (acc', rest) := by
  rcases h with ⟨rfl, hblanks⟩ | h
  · cases hfold
    obtain ⟨hend, hdrop⟩ := nextKey?_end hblanks true rest
    rw [foldMembers, hend]
    show Except.ok (acc, _) = _
    rw [hdrop]
  · have hlength : (body ++ '\x7d' :: rest).length = body.length + (rest.length + 1) := by simp
    exact foldMembers_separated hstep h hfold .first _ (by omega) rest

end Loops

/-! ### Lists of contents -/

/-- The list describes the contents one by one. -/
inductive Each {α β : Type} (R : α → β → Prop) : List α → List β → Prop
  | nil : Each R [] []
  | cons {a : α} {b : β} {as : List α} {bs : List β} (h : R a b) (hrest : Each R as bs) :
      Each R (a :: as) (b :: bs)

/-- Collecting the contents of entries, the last one first. -/
def Collects {α β : Type} (R : α → β → Prop) (acc : List α) (b : β) (acc' : List α) : Prop :=
  ∃ a, R a b ∧ acc' = a :: acc

theorem Each.folds {α β : Type} {R : α → β → Prop} {as : List α} {bs : List β} (h : Each R as bs)
    (acc : List α) : Folds (Collects R) acc bs (as.reverse ++ acc) := by
  induction h generalizing acc with
  | nil => exact .nil
  | @cons a b as bs h _ ih =>
      have hrest := ih (a :: acc)
      rw [List.reverse_cons, List.append_assoc]
      exact .cons ⟨a, h, rfl⟩ hrest

theorem Each.refl {α : Type} {R : α → α → Prop} (h : ∀ a, R a a) (as : List α) : Each R as as := by
  induction as with
  | nil => exact .nil
  | cons a as ih => exact .cons (h a) ih

/-- A member with the same key describes the contents. -/
def Keyed {α : Type} (R : α → Value → Prop) (m : String × α) (member : String × Value) : Prop :=
  m.1 = member.1 ∧ R m.2 member.2

/-! ### Simple formats -/

section Formats

variable {α : Type}

/-- A string. -/
def IsString (s : String) (v : Value) : Prop :=
  v = .string s

/-- A truth value. -/
def IsBool (b : Bool) (v : Value) : Prop :=
  v = .bool b

/-- A natural number. -/
def IsNumber (n : Nat) (v : Value) : Prop :=
  v = .number (.int n)

/-- One of the names of a thing. -/
def Named (names : α → List String) (a : α) (v : Value) : Prop :=
  ∃ name ∈ names a, v = .string name

/-- Null, where there is nothing. -/
def Nullable (R : α → Value → Prop) : Option α → Value → Prop
  | none, v => v = .null
  | some a, v => R a v

/-- A list. -/
def ListOf (R : α → Value → Prop) (as : List α) (v : Value) : Prop :=
  ∃ items, v = .list items ∧ Each R as items

end Formats

/-! ### Decoders -/

section ReadsAt

variable {α : Type} {budget : Nat}

/-- The reader reads what values describe: from any text of a value within the budget, whatever
blanks come before it and whatever comes behind, it returns the contents and the text behind. -/
def ReadsAt (budget : Nat) (R : α → Value → Prop)
    (read : List Char → Except Fault (α × List Char)) : Prop :=
  ∀ ⦃a v text ws rest⦄, R a v → Written budget v text → IsBlanks ws → Stops rest →
    read (ws ++ (text ++ rest)) = .ok (a, rest)

variable {R : α → Value → Prop} {read : List Char → Except Fault (α × List Char)}

theorem ReadsAt.item (h : ReadsAt budget R read) :
    ItemStep budget (Collects R) fun acc cs => do
      let (a, cs) ← read cs
      return (a :: acc, cs) := by
  rintro acc _ v text rest ⟨a, ha, rfl⟩ hv hrest
  have hread := h ha hv .nil hrest
  rw [List.nil_append] at hread
  show (read _ >>= _) = _
  rw [hread]
  rfl

theorem ReadsAt.member (h : ReadsAt budget R read) :
    MemberStep budget (Collects (Keyed R)) fun acc key cs => do
      let (a, cs) ← read (← readColon cs)
      return ((key, a) :: acc, cs) := by
  rintro acc _ key v gap lead text rest ⟨⟨_, a⟩, ⟨rfl, ha⟩, rfl⟩ hv hgap hlead hrest
  show (readColon _ >>= _) = _
  rw [readColon_blanks hgap]
  show (read _ >>= _) = _
  rw [h ha hv hlead hrest]
  rfl

theorem ReadsAt.readItems (h : ReadsAt budget R read) {items : List Value} {body : List Char}
    (hbody : Enclosed (Written budget) items body) {as : List α} (heach : Each R as items)
    (rest : List Char) : readItems read true (body ++ ']' :: rest) = .ok (as, rest) := by
  have hfold := foldItems_enclosed h.item hbody (heach.folds []) rest
  show (foldItems _ _ _ _ _ >>= _) = _
  rw [hfold]
  simp [bind, Except.bind, pure, Except.pure]

theorem ReadsAt.readMembers (h : ReadsAt budget R read) {members : List (String × Value)}
    {body : List Char} (hbody : Enclosed (WrittenMember (Written budget)) members body)
    {as : List (String × α)} (heach : Each (Keyed R) as members) (rest : List Char) :
    readMembers read (body ++ '\x7d' :: rest) = .ok (as, rest) := by
  have hfold := foldMembers_enclosed h.member hbody (heach.folds []) rest
  show (foldMembers _ _ _ _ _ >>= _) = _
  rw [hfold]
  simp [bind, Except.bind, pure, Except.pure]

end ReadsAt

namespace Decoder

variable {α β : Type}

/-- The decoder reads what values describe, with any budget. -/
def Reads (d : Decoder α) (R : α → Value → Prop) : Prop :=
  ∀ budget, ReadsAt budget R (d budget)

theorem startValue_written {budget : Nat} {v : Value} {text ws : List Char}
    (h : Written budget v text) (hws : IsBlanks ws) (rest : List Char) :
    startValue (ws ++ (text ++ rest)) = .ok (text ++ rest) := by
  rw [startValue, h.skipBlank hws]
  obtain ⟨c, cs, rfl, -⟩ := h.head
  rfl

theorem string_reads : string.Reads IsString := by
  rintro budget s _ text ws rest rfl h hws hrest
  rw [string, startValue_written h hws]
  cases h.scalar (by rintro _ ⟨⟩) (by rintro _ ⟨⟩) with
  | string hchars =>
      rw [List.cons_append, List.append_assoc, List.singleton_append]
      show readString _ = _
      rw [readString_written hchars]

theorem bool_reads : bool.Reads IsBool := by
  rintro budget b _ text ws rest rfl h hws hrest
  rw [bool, startValue_written h hws]
  cases h.scalar (by rintro _ ⟨⟩) (by rintro _ ⟨⟩) with
  | true | false => rfl

theorem natBelow_reads (limit : Nat) :
    (natBelow limit).Reads fun n v => IsNumber n v ∧ n < limit := by
  rintro budget n _ text ws rest ⟨rfl, hn⟩ h hws hrest
  rw [natBelow, startValue_written h hws]
  cases h.scalar (by rintro _ ⟨⟩) (by rintro _ ⟨⟩) with
  | int hlow hhigh =>
      have hread := readNumber_written hlow hhigh hrest
      obtain ⟨c, cs, htext, hc⟩ := head_toString_int n
      rw [htext, List.cons_append] at hread ⊢
      have hdigit : (c == '-' || c.isDigit) = true := by simpa using hc
      have hrange : (0 : Int) ≤ n ∧ (n : Int) < limit := by omega
      show (if (c == '-' || c.isDigit) = true then _ else _) = _
      rw [if_pos hdigit, hread]
      show (if (0 : Int) ≤ n ∧ (n : Int) < limit then _ else _) = _
      rw [if_pos hrange]
      rfl

theorem uint32_reads : uint32.Reads fun n v => IsNumber n.toNat v := by
  rintro budget n _ text ws rest rfl h hws hrest
  rw [uint32, natBelow_reads _ _ ⟨rfl, n.toNat_lt⟩ h hws hrest]
  simp [Except.map]

theorem uint64_reads : uint64.Reads fun n v => IsNumber n.toNat v := by
  rintro budget n _ text ws rest rfl h hws hrest
  rw [uint64, natBelow_reads _ _ ⟨rfl, n.toNat_lt⟩ h hws hrest]
  simp [Except.map]

theorem nullable_reads {d : Decoder α} {R : α → Value → Prop} (h : d.Reads R)
    (hnull : ∀ a, ¬R a .null) : d.nullable.Reads (Nullable R) := by
  intro budget o v text ws rest hdescribes hv hws hrest
  cases o with
  | none =>
      obtain rfl : v = .null := hdescribes
      rw [nullable, hv.skipBlank hws]
      cases hv.scalar (by rintro _ ⟨⟩) (by rintro _ ⟨⟩)
      rfl
  | some a =>
      have hread := h budget hdescribes hv .nil hrest
      -- The reader decides by the first letter, which only null has.
      obtain ⟨c, cs, htext, hc⟩ := hv.head_ne_n (by rintro rfl; exact hnull a hdescribes)
      rw [nullable, hv.skipBlank hws]
      rw [List.nil_append] at hread
      rw [htext, List.cons_append] at hread ⊢
      split
      · rename_i heq
        exact absurd (List.cons.inj heq).1 hc
      · rw [hread]
        rfl

theorem list_reads {d : Decoder α} {R : α → Value → Prop} (h : d.Reads R) :
    d.list.Reads (ListOf R) := by
  rintro budget as _ text ws rest ⟨items, rfl, heach⟩ hv hws hrest
  rw [list, startValue_written hv hws]
  obtain ⟨inner, body, rfl, rfl, hbody⟩ := hv.of_list
  have hfold := foldItems_enclosed (h inner).item hbody (heach.folds []) rest
  rw [List.cons_append, List.append_assoc, List.singleton_append]
  show (foldItems _ _ _ _ _ >>= _) = _
  rw [hfold]
  simp [bind, Except.bind, pure, Except.pure]

theorem choice_reads {table : List (String × α)} {names : α → List String}
    (h : ∀ a, ∀ name ∈ names a, table.lookup name = some a) : (choice table).Reads (Named names) := by
  rintro budget a _ text ws rest ⟨name, hname, rfl⟩ hv hws hrest
  rw [choice, startValue_written hv hws]
  cases hv.scalar (by rintro _ ⟨⟩) (by rintro _ ⟨⟩) with
  | string hchars =>
      rw [List.cons_append, List.append_assoc, List.singleton_append]
      show (readString _ >>= _) = _
      rw [readString_written hchars]
      simp [bind, Except.bind, pure, Except.pure, lookupName, h a name hname]

/-! ### Whole values -/

theorem value_scalar {budget : Nat} {v : Value} {text ws rest : List Char}
    (h : WrittenScalar v text) (hws : IsBlanks ws) (hrest : Stops rest) :
    value budget (ws ++ (text ++ rest)) = .ok (v, rest) := by
  have hskip := (h.written 0).skipBlank hws rest
  have hread := readScalar_written h hrest
  obtain ⟨c, cs, rfl, -, hlist, hobject⟩ := h.head
  rw [List.cons_append] at hskip hread
  -- With or without a budget the reader goes for a scalar, as no bracket is opened.
  cases budget with
  | zero =>
      rw [value, List.cons_append, hskip]
      split
      · exact absurd (List.cons.inj ‹_›).1 hlist
      · exact absurd (List.cons.inj ‹_›).1 hobject
      · exact hread
  | succ budget =>
      rw [value, List.cons_append, hskip]
      split
      · exact absurd (List.cons.inj ‹_›).1 hlist
      · exact absurd (List.cons.inj ‹_›).1 hobject
      · exact hread

/-- **Reading a whole value** inverts writing it. -/
theorem value_reads : value.Reads Eq := by
  intro budget
  induction budget with
  | zero =>
      rintro v _ text ws rest rfl h hws hrest
      exact value_scalar h hws hrest
  | succ budget ih =>
      rintro v _ text ws rest rfl h hws hrest
      have hskip := h.skipBlank hws rest
      rcases h with h | h
      · exact value_scalar h hws hrest
      · rw [value, hskip]
        cases h with
        | list hbody =>
            rw [List.cons_append, List.append_assoc, List.singleton_append]
            show Except.map _ (readItems _ _ _) = _
            rw [ih.readItems hbody (.refl (fun _ => rfl) _)]
            rfl
        | object hbody =>
            rw [List.cons_append, List.append_assoc, List.singleton_append]
            show Except.map _ (readMembers _ _) = _
            rw [ih.readMembers hbody (.refl (fun _ => ⟨rfl, rfl⟩) _)]
            rfl

end Decoder

/-! ### Passing over a value -/

theorem skipKey_written {key : String} {name before gap : List Char}
    (hname : WrittenChars key.toList name) (hbefore : IsBlanks before) (hgap : IsBlanks gap)
    (cs : List Char) :
    skipKey (before ++ '"' :: (name ++ '"' :: (gap ++ ':' :: cs))) = .ok cs := by
  rw [skipKey, skipBlank_append hbefore, skipBlank_cons (by decide)]
  show (skipString _ >>= readColon) = _
  rw [skipString_written hname]
  exact readColon_blanks hgap cs

section Skip

variable {α : Type} {budget : Nat}

/-- The entries of a bracket can be told from its end, and what comes before the value of an entry
is passed over. -/
def Bracket.Labels (b : Bracket) (budget : Nat) (E : α → List Char → Prop) : Prop :=
  ∀ ⦃x text before⦄, E x text → IsBlanks before →
    (∃ c cs, text = c :: cs ∧ isBlank c = false ∧ c ≠ b.close) ∧
    ∃ v value ws, Written budget v value ∧ IsBlanks ws ∧ value.length ≤ text.length ∧
      ∀ rest, b.skipLabel (before ++ (text ++ rest)) = .ok (ws ++ (value ++ rest))

theorem Bracket.labels_list : Bracket.list.Labels budget (Written budget) := by
  intro v text before h hbefore
  obtain ⟨c, cs, htext, hblank, hclose, -⟩ := h.head
  exact ⟨⟨c, cs, htext, hblank, hclose⟩, v, text, before, h, hbefore, Nat.le_refl _, fun _ => rfl⟩

theorem Bracket.labels_object : Bracket.object.Labels budget (WrittenMember (Written budget)) := by
  intro m text before h hbefore
  obtain @⟨key, v, name, gap, lead, text, hname, hgap, hlead, hv⟩ := h
  refine ⟨⟨'"', _, rfl, by decide, by decide⟩, v, text, lead, hv, hlead, ?_, ?_⟩
  · simp
    omega
  · intro rest
    simp only [List.append_assoc, List.cons_append]
    exact skipKey_written hname hbefore hgap _

/-- Passing over values with so many brackets open costs at most two steps for each character. -/
def Skips (budget : Nat) : Prop :=
  ∀ ⦃v text ws rest⦄, Written budget v text → IsBlanks ws → Stops rest →
    ∀ opened steps, 2 * text.length ≤ steps → ∃ left, steps ≤ left + 2 * text.length ∧
      skipItem steps opened (ws ++ (text ++ rest)) = skipRest left true opened rest

theorem Bracket.close_stops (b : Bracket) (rest : List Char) : Stops (b.close :: rest) := by
  cases b <;> exact .cons (by decide) rest

theorem skipRest_close {b : Bracket} {ws : List Char} (hws : IsBlanks ws) (steps : Nat)
    (later : Bool) (opened : List Bracket) (rest : List Char) :
    skipRest (steps + 1) later (b :: opened) (ws ++ b.close :: rest) =
      skipRest steps true opened rest := by
  have hblank : isBlank b.close = false := by cases b <;> rfl
  rw [skipRest, skipBlank_append hws, skipBlank_cons hblank]
  exact if_pos rfl

theorem skipRest_lead {b : Bracket} {E : α → List Char → Prop} (hlabels : b.Labels budget E)
    (hskips : Skips budget) {first : Bool} {lead before text : List Char} {x : α}
    (hlead : Lead first lead) (hbefore : IsBlanks before) (hx : E x text) {rest : List Char}
    (hrest : Stops rest) (opened : List Bracket) (steps : Nat) (hsteps : 2 * text.length < steps) :
    ∃ left, steps ≤ left + 2 * text.length + 1 ∧
      skipRest steps (!first) (b :: opened) (lead ++ (before ++ (text ++ rest))) =
        skipRest left true (b :: opened) rest := by
  obtain ⟨steps, rfl⟩ : ∃ n, steps = n + 1 := ⟨steps - 1, by omega⟩
  cases hlead with
  | first =>
      obtain ⟨⟨c, cs, rfl, hblank, hclose⟩, v, value, ws, hv, hws, hlength, hlabel⟩ :=
        hlabels hx .nil
      obtain ⟨left, hleft, hitem⟩ := hskips hv hws hrest (b :: opened) steps (by omega)
      refine ⟨left, by omega, ?_⟩
      rw [List.nil_append, skipRest, skipBlank_append hbefore, List.cons_append,
        skipBlank_cons hblank]
      show (if c = b.close then _ else _) = _
      rw [if_neg hclose]
      show (b.skipLabel ([] ++ (c :: cs ++ rest)) >>= _) = _
      rw [hlabel rest]
      exact hitem
  | later hblanks =>
      obtain ⟨-, v, value, ws, hv, hws, hlength, hlabel⟩ := hlabels hx hbefore
      obtain ⟨left, hleft, hitem⟩ := hskips hv hws hrest (b :: opened) steps (by omega)
      have hcomma : ',' ≠ b.close := by cases b <;> decide
      refine ⟨left, by omega, ?_⟩
      rw [List.append_assoc, List.singleton_append, skipRest, skipBlank_append hblanks,
        skipBlank_cons (by decide)]
      show (if ',' = b.close then _ else _) = _
      rw [if_neg hcomma]
      show (b.skipLabel _ >>= _) = _
      rw [hlabel rest]
      exact hitem

/-- Passing over the entries of a bracket leads behind it. -/
theorem skipRest_separated {b : Bracket} {E : α → List Char → Prop} (hlabels : b.Labels budget E)
    (hskips : Skips budget) {xs : List α} {body : List Char} (h : Separated E xs body)
    {first : Bool} {lead : List Char} (hlead : Lead first lead) (rest : List Char)
    (opened : List Bracket) (steps : Nat) (hsteps : 2 * body.length + 2 ≤ steps) :
    ∃ left, steps ≤ left + 2 * body.length + 2 ∧
      skipRest steps (!first) (b :: opened) (lead ++ (body ++ b.close :: rest)) =
        skipRest left true opened rest := by
  induction h generalizing first lead steps with
  | @last x before text after hbefore hx hafter =>
      have hlength : (before ++ (text ++ after)).length =
          before.length + (text.length + after.length) := by simp
      obtain ⟨left, hleft, hentry⟩ := skipRest_lead hlabels hskips hlead hbefore hx
        (.append hafter (b.close_stops rest)) opened steps (by omega)
      -- Two steps were set aside for the bracket itself; closing it takes one.
      obtain ⟨left, rfl⟩ : ∃ n, left = n + 1 := ⟨left - 1, by omega⟩
      refine ⟨left, by omega, ?_⟩
      rw [List.append_assoc, List.append_assoc, hentry, skipRest_close hafter]
  | @cons x xs before text after tail hbefore hx hafter _ ih =>
      have hlength : (before ++ (text ++ (after ++ ',' :: tail))).length =
          before.length + (text.length + (after.length + (tail.length + 1))) := by simp
      have hstops : Stops (after ++ ',' :: (tail ++ b.close :: rest)) :=
        .append hafter (.cons (by decide) _)
      obtain ⟨mid, hmid, hentry⟩ :=
        skipRest_lead hlabels hskips hlead hbefore hx hstops opened steps (by omega)
      obtain ⟨left, hleft, htail⟩ := ih (.later hafter) mid (by omega)
      refine ⟨left, by omega, ?_⟩
      rw [← htail]
      simpa using hentry

theorem skipRest_enclosed {b : Bracket} {E : α → List Char → Prop} (hlabels : b.Labels budget E)
    (hskips : Skips budget) {xs : List α} {body : List Char} (h : Enclosed E xs body)
    (rest : List Char) (opened : List Bracket) (steps : Nat)
    (hsteps : 2 * body.length + 2 ≤ steps) :
    ∃ left, steps ≤ left + 2 * body.length + 2 ∧
      skipRest steps false (b :: opened) (body ++ b.close :: rest) =
        skipRest left true opened rest := by
  rcases h with ⟨-, hblanks⟩ | h
  · obtain ⟨steps, rfl⟩ : ∃ n, steps = n + 1 := ⟨steps - 1, by omega⟩
    exact ⟨steps, by omega, skipRest_close hblanks steps false opened rest⟩
  · exact skipRest_separated hlabels hskips h .first rest opened steps hsteps

theorem skips_scalar {v : Value} {text ws rest : List Char} (h : WrittenScalar v text)
    (hws : IsBlanks ws) (hrest : Stops rest) (opened : List Bracket) (steps : Nat)
    (hsteps : 2 * text.length ≤ steps) :
    ∃ left, steps ≤ left + 2 * text.length ∧
      skipItem steps opened (ws ++ (text ++ rest)) = skipRest left true opened rest := by
  have hskip := (h.written 0).skipBlank hws rest
  have hscalar := skipScalar_written h hrest
  obtain ⟨c, cs, rfl, -, hlist, hobject⟩ := h.head
  rw [List.cons_append] at hskip hscalar
  rw [List.length_cons] at hsteps ⊢
  obtain ⟨steps, rfl⟩ : ∃ n, steps = n + 1 := ⟨steps - 1, by omega⟩
  refine ⟨steps, by omega, ?_⟩
  rw [skipItem, List.cons_append, hskip]
  split
  · exact absurd (List.cons.inj ‹_›).1 hlist
  · exact absurd (List.cons.inj ‹_›).1 hobject
  · rw [hscalar]
    rfl

theorem skips (budget : Nat) : Skips budget := by
  induction budget with
  | zero =>
      intro v text ws rest h hws hrest opened steps hsteps
      exact skips_scalar h hws hrest opened steps hsteps
  | succ budget ih =>
      intro v text ws rest h hws hrest opened steps hsteps
      have hskip := h.skipBlank hws rest
      rcases h with h | h
      · exact skips_scalar h hws hrest opened steps hsteps
      · -- One step for the opening bracket; the rest is paid by the characters inside.
        cases h with
        | @list _ body hbody =>
            have hlength : ('[' :: (body ++ [']'])).length = body.length + 2 := by simp
            obtain ⟨steps, rfl⟩ : ∃ n, steps = n + 1 := ⟨steps - 1, by omega⟩
            obtain ⟨left, hleft, hbrackets⟩ :=
              skipRest_enclosed Bracket.labels_list ih hbody rest opened steps (by omega)
            refine ⟨left, by omega, ?_⟩
            rw [skipItem, hskip, List.cons_append, List.append_assoc, List.singleton_append]
            exact hbrackets
        | @object _ body hbody =>
            have hlength : ('\x7b' :: (body ++ ['\x7d'])).length = body.length + 2 := by simp
            obtain ⟨steps, rfl⟩ : ∃ n, steps = n + 1 := ⟨steps - 1, by omega⟩
            obtain ⟨left, hleft, hbrackets⟩ :=
              skipRest_enclosed Bracket.labels_object ih hbody rest opened steps (by omega)
            refine ⟨left, by omega, ?_⟩
            rw [skipItem, hskip, List.cons_append, List.append_assoc, List.singleton_append]
            exact hbrackets

/-- **Passing over a value** stops right behind it. -/
theorem skipValue_written {v : Value} {text ws rest : List Char} (h : Written budget v text)
    (hws : IsBlanks ws) (hrest : Stops rest) : skipValue (ws ++ (text ++ rest)) = .ok rest := by
  have hlength : text.length ≤ (ws ++ (text ++ rest)).length := by
    simp
    omega
  obtain ⟨left, -, hitem⟩ :=
    skips budget h hws hrest [] (2 * (ws ++ (text ++ rest)).length + 1) (by omega)
  rw [skipValue, hitem]
  -- No bracket is open any more, so nothing is left to do.
  cases left <;> rfl

end Skip

end BoxedLet.Json
