import BoxedLet.Proofs.Fresh

/-!
# BoxedLet.Proofs.NameSupply

**The supply of names for temporaries never runs dry and never repeats itself.** The search for a
free candidate is told here without a bound on its tries (`Search`). It ends all the same, with the
least free number and after one candidate more than there are symbols at most, and it is what the
table does (`search_freshNumber`).

A run of calls on a table, declarations and allocations in any order, only adds names that are not
taken (`Serves`). So the names of its temporaries differ from each other and from all names that
are declared before or after them, and their numbers go up.
-/

namespace BoxedLet.SymbolTable

/-! ### The search without a bound -/

/-- The search from a number on: how many candidates it tries, and the number it ends with. -/
inductive Search (t : SymbolTable) : Nat → Nat → Nat → Prop
  | stop {n : Nat} (hfree : t.tempName n ∉ t.names) : Search t n 1 n
  | pass {n tried found : Nat} (htaken : t.tempName n ∈ t.names)
      (hrest : Search t (n + 1) tried found) : Search t n (tried + 1) found

section Search

variable {t : SymbolTable} {n tried found : Nat}

/-- A search has one end. -/
theorem Search.unique (h : t.Search n tried found) {tried' found' : Nat}
    (h' : t.Search n tried' found') : tried' = tried ∧ found' = found := by
  induction h generalizing tried' found' with
  | stop hfree =>
      cases h' with
      | stop => exact ⟨rfl, rfl⟩
      | pass htaken => exact absurd htaken hfree
  | pass htaken hrest ih =>
      cases h' with
      | stop hfree => exact absurd htaken hfree
      | pass _ hrest' =>
          obtain ⟨rfl, rfl⟩ := ih hrest'
          exact ⟨rfl, rfl⟩

/-- A search gets to the first free candidate. -/
theorem search_of_free (hle : n ≤ found) (hfree : t.tempName found ∉ t.names)
    (htaken : ∀ k, n ≤ k → k < found → t.tempName k ∈ t.names) :
    t.Search n (found + 1 - n) found := by
  induction hdistance : found - n generalizing n with
  | zero =>
      obtain rfl : n = found := by omega
      rw [Nat.add_sub_cancel_left]
      exact .stop hfree
  | succ distance ih =>
      have hrest : t.Search (n + 1) (found + 1 - (n + 1)) found :=
        ih (by omega) (fun k hk => htaken k (by omega)) (by omega)
      have htried : found + 1 - n = found + 1 - (n + 1) + 1 := by omega
      rw [htried]
      exact .pass (htaken n (Nat.le_refl n) (by omega)) hrest

theorem freshFrom_le (t : SymbolTable) (tries n : Nat) : t.freshFrom tries n ≤ n + tries := by
  induction tries generalizing n with
  | zero => exact Nat.le_refl n
  | succ tries ih =>
      unfold freshFrom
      split
      · have hle := ih (n + 1)
        omega
      · omega

/-- **The search ends**, and the bound on its tries takes nothing away. -/
theorem search_freshNumber (t : SymbolTable) :
    t.Search t.nextTemp (t.freshNumber + 1 - t.nextTemp) t.freshNumber :=
  search_of_free (t.le_freshFrom _ _) t.freshNumber_not_mem_names
    fun _ hle hlt => tempName_mem_of_lt_freshFrom hle hlt

end Search

/-! ### Runs of calls -/

/-- A call on the table. -/
inductive Request
  | declare (s : Symbol)
  | newTemporary (type : StaticType)

/-- The answer to a call. -/
inductive Reply
  | declared (name : String)
  | refused (name : String)
  | temporary (s : Symbol)

namespace Reply

/-- The name that a successful declaration has added. -/
def declaredName? : Reply → Option String
  | declared name => some name
  | _ => none

/-- The name of the temporary. -/
def temporaryName? : Reply → Option String
  | temporary s => some s.name
  | _ => none

/-- The name that the call has added, if it has. -/
def added? : Reply → Option String
  | declared name => some name
  | refused _ => none
  | temporary s => some s.name

end Reply

/-- Answers a call. -/
def serve (t : SymbolTable) : Request → Reply × SymbolTable
  | .declare s =>
    match t.declare? s with
    | some t' => (.declared s.name, t')
    | none => (.refused s.name, t)
  | .newTemporary type =>
    let (s, t') := t.newTemporary type
    (.temporary s, t')

/-- Answers calls in order. -/
def serveAll (t : SymbolTable) : List Request → List Reply × SymbolTable
  | [] => ([], t)
  | request :: requests =>
    let (reply, t') := t.serve request
    let (replies, t'') := t'.serveAll requests
    (reply :: replies, t'')

/-- The second table comes from the first by calls with the given answers. -/
structure Serves (t : SymbolTable) (replies : List Reply) (t' : SymbolTable) : Prop where
  tempPrefix : t'.tempPrefix = t.tempPrefix
  nextTemp : t.nextTemp ≤ t'.nextTemp
  /-- Names are added at the end. -/
  names : t'.names = t.names ++ replies.filterMap Reply.added?
  /-- What is added was not there, and it is not added twice. -/
  fresh : (replies.filterMap Reply.added?).Nodup ∧
    ∀ x ∈ replies.filterMap Reply.added?, x ∉ t.names
  /-- The numbers of temporaries go up, between the two counters. -/
  numbers : ∃ numbers : List Nat,
    replies.filterMap Reply.temporaryName? = numbers.map t.tempName ∧
      numbers.Pairwise (· < ·) ∧ ∀ n ∈ numbers, t.nextTemp ≤ n ∧ n < t'.nextTemp

namespace Serves

variable {t t' t'' : SymbolTable} {replies replies' : List Reply}

theorem refl (t : SymbolTable) : t.Serves [] t :=
  ⟨rfl, Nat.le_refl _, by simp, by simp, [], by simp⟩

theorem trans (h : t.Serves replies t') (h' : t'.Serves replies' t'') :
    t.Serves (replies ++ replies') t'' := by
  constructor
  case tempPrefix => exact h'.tempPrefix.trans h.tempPrefix
  case nextTemp => exact Nat.le_trans h.nextTemp h'.nextTemp
  case names => rw [h'.names, h.names, List.filterMap_append, List.append_assoc]
  case fresh =>
    rw [List.filterMap_append]
    -- what comes later was not there before, be it from the start or from the calls between
    have hlater : ∀ x ∈ replies'.filterMap Reply.added?,
        x ∉ t.names ∧ x ∉ replies.filterMap Reply.added? := by
      intro x hx
      have hnew := h'.fresh.2 x hx
      rw [h.names, List.mem_append, not_or] at hnew
      exact hnew
    refine ⟨List.nodup_append.mpr ⟨h.fresh.1, h'.fresh.1, fun x hx y hy hxy => ?_⟩, fun x hx => ?_⟩
    · exact (hlater y hy).2 (hxy ▸ hx)
    · rcases List.mem_append.mp hx with hx | hx
      · exact h.fresh.2 x hx
      · exact (hlater x hx).1
  case numbers =>
    obtain ⟨first, hfirst, hup, hbounds⟩ := h.numbers
    obtain ⟨second, hsecond, hup', hbounds'⟩ := h'.numbers
    have hname : t'.tempName = t.tempName := funext (tempName_congr h.tempPrefix)
    refine ⟨first ++ second, ?_, ?_, fun n hn => ?_⟩
    · rw [List.filterMap_append, hfirst, hsecond, hname, List.map_append]
    · refine List.pairwise_append.mpr ⟨hup, hup', fun m hm n hn => ?_⟩
      exact Nat.lt_of_lt_of_le (hbounds m hm).2 (hbounds' n hn).1
    · have hnext := h.nextTemp
      have hnext' := h'.nextTemp
      rcases List.mem_append.mp hn with hn | hn
      · have hn := hbounds n hn
        omega
      · have hn := hbounds' n hn
        omega

end Serves

theorem serve_of_taken {t : SymbolTable} {s : Symbol} (h : s.name ∈ t.names) :
    t.serve (.declare s) = (.refused s.name, t) := by
  simp only [serve, declare?, (t.contains_iff_mem_names _).mpr h, if_true]

theorem serve_of_free {t : SymbolTable} {s : Symbol} (h : s.name ∉ t.names) :
    t.serve (.declare s) = (.declared s.name, t.push s) := by
  simp only [serve, declare?, t.contains_iff_mem_names, h, if_false]

/-- **One call** adds a name that is not taken, or none. -/
theorem serve_serves (t : SymbolTable) (request : Request) :
    t.Serves [(t.serve request).1] (t.serve request).2 := by
  cases request with
  | declare s =>
      by_cases htaken : s.name ∈ t.names
      · rw [serve_of_taken htaken]
        have hadded : [Reply.refused s.name].filterMap Reply.added? = [] := rfl
        exact ⟨rfl, Nat.le_refl _, by simp [hadded], by simp [hadded], [],
          by simp [Reply.temporaryName?]⟩
      · rw [serve_of_free htaken]
        have hadded : [Reply.declared s.name].filterMap Reply.added? = [s.name] := rfl
        exact ⟨rfl, Nat.le_refl _, by simp [hadded], by simpa [hadded] using htaken, [],
          by simp [Reply.temporaryName?]⟩
  | newTemporary type =>
      have hle : t.nextTemp ≤ t.freshNumber := t.le_freshFrom _ _
      have hadded : [(t.serve (.newTemporary type)).1].filterMap Reply.added? = [t.nextName] := rfl
      refine ⟨rfl, Nat.le_succ_of_le hle, ?_, ?_, [t.freshNumber], rfl, by simp, ?_⟩
      · rw [hadded]
        exact t.newTemporary_names type
      · rw [hadded]
        simpa using t.nextName_not_mem_names
      · simpa using ⟨hle, Nat.lt_succ_self _⟩

/-- **A run of calls** adds names that are not taken. -/
theorem serveAll_serves (t : SymbolTable) (requests : List Request) :
    t.Serves (t.serveAll requests).1 (t.serveAll requests).2 := by
  induction requests generalizing t with
  | nil => exact .refl t
  | cons request requests ih => exact (t.serve_serves request).trans (ih _)

/-! ### The supply -/

/-- The names of the temporaries among the answers, in the order of their allocation. -/
def temporaryNames (replies : List Reply) : List String :=
  replies.filterMap Reply.temporaryName?

/-- The names that have been declared. -/
def declaredNames (replies : List Reply) : List String :=
  replies.filterMap Reply.declaredName?

/-- What is named in an answer in some way has been added, if each answer tells so. -/
theorem mem_added {name? : Reply → Option String} {replies : List Reply} {x : String}
    (hadded : ∀ reply, name? reply = some x → reply.added? = some x)
    (h : x ∈ replies.filterMap name?) : x ∈ replies.filterMap Reply.added? := by
  obtain ⟨reply, hreply, hx⟩ := List.mem_filterMap.mp h
  exact List.mem_filterMap.mpr ⟨reply, hreply, hadded reply hx⟩

theorem mem_added_of_temporary {replies : List Reply} {x : String}
    (h : x ∈ temporaryNames replies) : x ∈ replies.filterMap Reply.added? :=
  mem_added (fun reply => by cases reply <;> simp [Reply.temporaryName?, Reply.added?]) h

theorem mem_added_of_declared {replies : List Reply} {x : String}
    (h : x ∈ declaredNames replies) : x ∈ replies.filterMap Reply.added? :=
  mem_added (fun reply => by cases reply <;> simp [Reply.declaredName?, Reply.added?]) h

/-- Where no name is added twice, a temporary shares its name with no other one and with nothing
that is declared before or after it. -/
theorem temporaryNames_apart {replies : List Reply}
    (h : (replies.filterMap Reply.added?).Nodup) :
    (temporaryNames replies).Nodup ∧ ∀ x ∈ temporaryNames replies, x ∉ declaredNames replies := by
  induction replies with
  | nil => simp [temporaryNames]
  | cons reply replies ih =>
      cases reply with
      | refused name => exact ih h
      | declared name =>
          obtain ⟨hnew, hrest⟩ := List.nodup_cons.mp h
          obtain ⟨hnodup, hapart⟩ := ih hrest
          refine ⟨hnodup, fun x hx hdeclared => ?_⟩
          rcases List.mem_cons.mp hdeclared with rfl | hdeclared
          · exact hnew (mem_added_of_temporary hx)
          · exact hapart x hx hdeclared
      | temporary s =>
          obtain ⟨hnew, hrest⟩ := List.nodup_cons.mp h
          obtain ⟨hnodup, hapart⟩ := ih hrest
          refine ⟨List.nodup_cons.mpr ⟨fun hs => hnew (mem_added_of_temporary hs), hnodup⟩, ?_⟩
          intro x hx hdeclared
          rcases List.mem_cons.mp hx with rfl | hx
          · exact hnew (mem_added_of_declared hdeclared)
          · exact hapart x hx hdeclared

/-- What an allocation does: the search ends at the least free number, the temporary is named by it,
and nothing else changes but the counter. -/
structure Allocated (t : SymbolTable) (n : Nat) (s : Symbol) (t' : SymbolTable) : Prop where
  /-- The search ends, in one way only, after trying one candidate more than there are symbols at
  most. -/
  search : ∃ tried, t.Search t.nextTemp tried n ∧ tried ≤ t.symbols.length + 1 ∧
    ∀ tried' n', t.Search t.nextTemp tried' n' → tried' = tried ∧ n' = n
  name : s.name = t.tempPrefix ++ toString n
  le : t.nextTemp ≤ n
  free : t.tempPrefix ++ toString n ∉ t.names
  least : ∀ k, t.nextTemp ≤ k → k < n → t.tempPrefix ++ toString k ∈ t.names
  /-- All symbols stay as they are, and the temporary comes behind them. -/
  table : t' = { t with symbols := t.symbols ++ [s], nextTemp := n + 1 }

theorem newTemporary_allocated (t : SymbolTable) (type : StaticType) :
    t.Allocated t.freshNumber (t.newTemporary type).1 (t.newTemporary type).2 where
  search := by
    have hle : t.freshNumber ≤ t.nextTemp + t.symbols.length := t.freshFrom_le _ _
    exact ⟨_, t.search_freshNumber, by omega, fun _ _ h => t.search_freshNumber.unique h⟩
  name := rfl
  le := t.le_freshFrom _ _
  free := t.freshNumber_not_mem_names
  least := fun _ hle hlt => tempName_mem_of_lt_freshFrom hle hlt
  table := rfl

/-- **Allocation ends, is fresh and never gives a name twice.** For every table, whatever its prefix
is, the search ends after one candidate more than there are symbols at most, with the least number
from the counter on whose name is free; the counter moves behind it, and all symbols stay. In a run
of declarations and allocations in any order, the names of all temporaries differ from each other,
from all names in the table and from all names that are ever declared with success, and their
numbers go up. -/
theorem temporaries_never_reused (t : SymbolTable) (type : StaticType) (requests : List Request) :
    (∃ n, t.Allocated n (t.newTemporary type).1 (t.newTemporary type).2) ∧
      (temporaryNames (t.serveAll requests).1).Nodup ∧
      (∀ x ∈ temporaryNames (t.serveAll requests).1,
        x ∉ declaredNames (t.serveAll requests).1 ∧ x ∉ t.names) ∧
      ∃ numbers : List Nat, numbers.Pairwise (· < ·) ∧ (∀ n ∈ numbers, t.nextTemp ≤ n) ∧
        temporaryNames (t.serveAll requests).1 =
          numbers.map (fun n => t.tempPrefix ++ toString n) := by
  have hserves := t.serveAll_serves requests
  obtain ⟨hnodup, hapart⟩ := temporaryNames_apart hserves.fresh.1
  refine ⟨⟨_, t.newTemporary_allocated type⟩, hnodup, fun x hx => ?_, ?_⟩
  · exact ⟨hapart x hx, hserves.fresh.2 x (mem_added_of_temporary hx)⟩
  · obtain ⟨numbers, hnames, hup, hbounds⟩ := hserves.numbers
    exact ⟨numbers, hup, fun n hn => (hbounds n hn).1, hnames⟩

-- without a prefix, and with declarations that get in the way before and after
example :
    temporaryNames (serveAll { tempPrefix := "" }
      [.declare { name := "0", type := .int, storage := .stackOnly }, .newTemporary .int,
        .declare { name := "1", type := .int, storage := .stackOnly },
        .declare { name := "2", type := .int, storage := .stackOnly }, .newTemporary .dynamic]).1 =
      ["1", "3"] := by
  decide

end BoxedLet.SymbolTable
