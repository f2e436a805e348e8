/-!
# BoxedLet.Proofs.Digits

**Decimal digits**, and runs of characters in a text: what is known about the digits of a number
before any reader of numbers looks at them.
-/

namespace BoxedLet

theorem toDigits_isDigit (n : Nat) : ∀ c ∈ Nat.toDigits 10 n, c.isDigit = true :=
  fun _ hc => Nat.isDigit_of_mem_toDigits (by decide) (by decide) hc

/-- Only zero is written with a zero in front. -/
theorem head?_toDigits_ne {n : Nat} (hn : 0 < n) : (Nat.toDigits 10 n).head? ≠ some '0' := by
  induction n using Nat.strongRecOn with
  | ind n ih =>
      by_cases hsmall : n < 10
      · have hdigit : ∀ k, k < 10 → 0 < k → Nat.digitChar k ≠ '0' := by decide
        simpa [Nat.toDigits_of_lt_base hsmall] using hdigit n hsmall hn
      · have hrest := ih (n / 10) (by omega) (by omega)
        rw [Nat.toDigits_of_base_le (by omega) (by omega)]
        cases hdigits : Nat.toDigits 10 (n / 10) with
        | nil => exact absurd hdigits Nat.toDigits_ne_nil
        | cons c cs =>
            rw [hdigits] at hrest
            simpa using hrest

theorem le_ofDigitChars (ds : List Char) (n : Nat) : n ≤ Nat.ofDigitChars 10 ds n := by
  induction ds generalizing n with
  | nil => simp
  | cons d ds ih =>
      rw [Nat.ofDigitChars_cons]
      have hle := ih (10 * n + (d.toNat - '0'.toNat))
      omega

/-- A run of characters ends where another character follows, or none. -/
theorem takeWhile_dropWhile_append {p : Char → Bool} {xs rest : List Char}
    (hxs : ∀ c ∈ xs, p c = true) (hrest : rest.head?.any p = false) :
    (xs ++ rest).takeWhile p = xs ∧ (xs ++ rest).dropWhile p = rest := by
  induction xs with
  | nil =>
      cases rest with
      | nil => simp
      | cons c cs =>
          have hc : p c = false := by simpa using hrest
          simp [hc]
  | cons c cs ih =>
      have hc : p c = true := hxs c (by simp)
      obtain ⟨htake, hdrop⟩ := ih fun d hd => hxs d (by simp [hd])
      simp [hc, htake, hdrop]

end BoxedLet
