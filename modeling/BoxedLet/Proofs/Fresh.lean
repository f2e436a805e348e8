import BoxedLet.Symbol

/-!
# BoxedLet.Proofs.Fresh

**Temporaries are fresh.** The search for the number of a temporary tries at most as many taken
names as there are symbols. Different numbers give different names, so that among one candidate
more than there are symbols one is free: the name that the search ends with is in no table entry
(`freshNumber_not_mem_names`). Everything else about allocation is read off this.
-/

namespace BoxedLet.SymbolTable

/-! ### Names of candidates -/

theorem toList_tempName (t : SymbolTable) (n : Nat) :
    (t.tempName n).toList = t.tempPrefix.toList ++ Nat.toDigits 10 n := by
  rw [tempName, Nat.toString_eq_repr, String.toList_append, Nat.toList_repr]

/-- Different numbers give different names, whatever the prefix is. -/
theorem tempName_injective (t : SymbolTable) {m n : Nat} (h : t.tempName m = t.tempName n) :
    m = n := by
  have hlist : (t.tempName m).toList = (t.tempName n).toList := by rw [h]
  rw [toList_tempName, toList_tempName, List.append_cancel_left_eq] at hlist
  rw [← Nat.ofDigitChars_ten_toDigits (n := m), hlist, Nat.ofDigitChars_ten_toDigits]

@[simp] theorem length_names (t : SymbolTable) : t.names.length = t.symbols.length := by
  simp [names]

/-! ### The search -/

/-- Every candidate that the search passes over is taken. -/
theorem tempName_mem_of_lt_freshFrom {t : SymbolTable} {tries n k : Nat} (hle : n ≤ k)
    (hlt : k < t.freshFrom tries n) : t.tempName k ∈ t.names := by
  induction tries generalizing n with
  | zero =>
      simp only [freshFrom] at hlt
      omega
  | succ tries ih =>
      unfold freshFrom at hlt
      by_cases htaken : t.contains (t.tempName n) = true
      · rw [if_pos htaken] at hlt
        by_cases hkn : k = n
        · subst hkn
          exact (t.contains_iff_mem_names _).mp htaken
        · exact ih (by omega) hlt
      · rw [if_neg htaken] at hlt
        omega

/-- The search ends with a free candidate unless it runs out of tries. -/
theorem freshFrom_not_mem_or {t : SymbolTable} (tries n : Nat) :
    t.tempName (t.freshFrom tries n) ∉ t.names ∨ t.freshFrom tries n = n + tries := by
  induction tries generalizing n with
  | zero => exact Or.inr rfl
  | succ tries ih =>
      unfold freshFrom
      by_cases htaken : t.contains (t.tempName n) = true
      · rw [if_pos htaken]
        rcases ih (n + 1) with h | h
        · exact Or.inl h
        · exact Or.inr (by omega)
      · rw [if_neg htaken]
        exact Or.inl (fun hmem => htaken ((t.contains_iff_mem_names _).mpr hmem))

/-- **Freshness.** The next temporary gets a name that no symbol has. -/
theorem freshNumber_not_mem_names (t : SymbolTable) : t.tempName t.freshNumber ∉ t.names := by
  intro hmem
  rcases freshFrom_not_mem_or (t := t) t.symbols.length t.nextTemp with h | h
  · exact h hmem
  -- all tries used up: one candidate more than there are symbols is taken
  let candidates := (List.range' t.nextTemp (t.symbols.length + 1)).map t.tempName
  have hnodup : candidates.Nodup :=
    List.Pairwise.map _ (fun m n hne heq => hne (t.tempName_injective heq)) List.nodup_range'
  have hsub : candidates ⊆ t.names := by
    intro name hname
    obtain ⟨k, hk, rfl⟩ := List.mem_map.mp hname
    rw [List.mem_range'_1] at hk
    by_cases hlast : k = t.freshNumber
    · rw [hlast]
      exact hmem
    · have hlt : k < t.freshFrom t.symbols.length t.nextTemp := by
        simp only [freshNumber] at hlast
        omega
      exact tempName_mem_of_lt_freshFrom hk.1 hlt
  have hlen := hnodup.length_le_of_subset hsub
  simp only [candidates, List.length_map, List.length_range', length_names] at hlen
  omega

theorem le_freshFrom (t : SymbolTable) (tries n : Nat) : n ≤ t.freshFrom tries n := by
  induction tries generalizing n with
  | zero => exact Nat.le_refl n
  | succ tries ih =>
      unfold freshFrom
      split
      · exact Nat.le_of_succ_le (ih (n + 1))
      · exact Nat.le_refl n

/-- Names of temporaries depend on the beginning that they share alone. -/
theorem tempName_congr {t t' : SymbolTable} (h : t'.tempPrefix = t.tempPrefix) (k : Nat) :
    t'.tempName k = t.tempName k := by
  rw [tempName, tempName, h]

/-- The search goes no further than in a table where more is taken. -/
theorem freshNumber_le {t t' : SymbolTable} (hstem : t'.tempPrefix = t.tempPrefix)
    (hnext : t'.nextTemp = t.nextTemp)
    (htaken : ∀ k, t.tempName k ∈ t.names → t.tempName k ∈ t'.names) :
    t.freshNumber ≤ t'.freshNumber := by
  refine Nat.le_of_not_lt fun hlt => ?_
  have hle : t.nextTemp ≤ t'.freshNumber := hnext ▸ t'.le_freshFrom _ _
  have hmem : t.tempName t'.freshNumber ∈ t.names :=
    tempName_mem_of_lt_freshFrom hle hlt
  have hname := tempName_congr hstem.symm t'.freshNumber
  exact t'.freshNumber_not_mem_names (hname ▸ htaken _ hmem)

/-- **Which number is next** depends on the counter and on the taken candidates alone. -/
theorem freshNumber_congr {t t' : SymbolTable} (hstem : t'.tempPrefix = t.tempPrefix)
    (hnext : t'.nextTemp = t.nextTemp)
    (htaken : ∀ k, t.tempName k ∈ t'.names ↔ t.tempName k ∈ t.names) :
    t'.freshNumber = t.freshNumber := by
  refine Nat.le_antisymm (freshNumber_le hstem.symm hnext.symm fun k hk => ?_)
    (freshNumber_le hstem hnext fun k => (htaken k).mpr)
  rw [tempName_congr hstem] at hk ⊢
  exact (htaken k).mp hk

/-! ### Allocation -/

/-- The names that temporaries can have. -/
def IsTempName (t : SymbolTable) (name : String) : Prop :=
  ∃ n, name = t.tempName n

theorem isTempName_congr {t t' : SymbolTable} (h : t'.tempPrefix = t.tempPrefix) {name : String} :
    t'.IsTempName name ↔ t.IsTempName name := by
  simp only [IsTempName, tempName_congr h]

/-- The name that the next temporary will have. -/
def nextName (t : SymbolTable) : String :=
  t.tempName t.freshNumber

theorem isTempName_nextName (t : SymbolTable) : t.IsTempName t.nextName :=
  ⟨t.freshNumber, rfl⟩

theorem nextName_not_mem_names (t : SymbolTable) : t.nextName ∉ t.names :=
  t.freshNumber_not_mem_names

@[simp] theorem newTemporary_symbols (t : SymbolTable) (type : StaticType) :
    (t.newTemporary type).2.symbols = t.symbols ++ [.ofTemporary t.nextName type] := rfl

@[simp] theorem newTemporary_names (t : SymbolTable) (type : StaticType) :
    (t.newTemporary type).2.names = t.names ++ [t.nextName] := by
  simp [names, Symbol.ofTemporary]

end BoxedLet.SymbolTable
