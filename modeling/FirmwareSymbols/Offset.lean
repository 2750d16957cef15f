/-!
# Searching an interval of offsets

An image is searched in two ways: upward from an offset for the first
position with a property, and downward from a bound for the last one.
Both searches are written once, over an arbitrary Boolean property of
offsets, and everything that walks an image is stated through them.

## Main results

* `leastFrom_eq_some_iff`, `leastFrom_eq_none_iff`: `leastFrom p lo n` is
  the least offset of `[lo, lo + n)` with `p`, and there is none only if
  no offset of the interval has `p`.
* `greatestBelow_eq_some_iff`, `greatestBelow_eq_none_iff`: the same for
  the greatest offset below a bound.
-/

namespace FirmwareSymbols

/-! ## Upward search -/

/-- The least offset of `[lo, lo + n)` with property `p`. -/
def leastFrom (p : Nat → Bool) (lo : Nat) : Nat → Option Nat
  | 0 => none
  | n + 1 => if p lo then some lo else leastFrom p (lo + 1) n

theorem leastFrom_eq_none_iff {p : Nat → Bool} {lo n : Nat} :
    leastFrom p lo n = none ↔ ∀ k, lo ≤ k → k < lo + n → p k = false := by
  induction n generalizing lo with
  | zero => simp only [leastFrom, true_iff]; intro k; omega
  | succ n ih =>
    rw [leastFrom]
    by_cases h : p lo = true
    · simp only [h, if_true, reduceCtorEq, false_iff]
      intro all
      simp [all lo (Nat.le_refl lo) (by omega)] at h
    · rw [if_neg h, ih]
      constructor
      · intro all k hk hlt
        by_cases hk' : k = lo
        · subst hk'; simpa using h
        · exact all k (by omega) (by omega)
      · exact fun all k hk hlt => all k (by omega) (by omega)

theorem leastFrom_eq_some_iff {p : Nat → Bool} {lo n o : Nat} :
    leastFrom p lo n = some o ↔
      lo ≤ o ∧ o < lo + n ∧ p o = true ∧ ∀ k, lo ≤ k → k < o → p k = false := by
  induction n generalizing lo with
  | zero => simp only [leastFrom, reduceCtorEq, false_iff]; omega
  | succ n ih =>
    rw [leastFrom]
    by_cases h : p lo = true
    · rw [if_pos h, Option.some.injEq]
      constructor
      · rintro rfl
        exact ⟨Nat.le_refl _, by omega, h, fun k _ _ => by omega⟩
      · rintro ⟨hlo, _, _, below⟩
        by_cases hlt : lo < o
        · simp [below lo (Nat.le_refl lo) hlt] at h
        · omega
    · rw [if_neg h, ih]
      constructor
      · rintro ⟨hlo, hlt, ho, below⟩
        refine ⟨by omega, by omega, ho, fun k hk hko => ?_⟩
        by_cases hk' : k = lo
        · subst hk'; simpa using h
        · exact below k (by omega) hko
      · rintro ⟨hlo, hlt, ho, below⟩
        have : lo ≠ o := by rintro rfl; exact h ho
        exact ⟨by omega, by omega, ho, fun k hk hko => below k (by omega) hko⟩

/-! ## Downward search -/

/-- The greatest offset below the bound with property `p`. -/
def greatestBelow (p : Nat → Bool) : Nat → Option Nat
  | 0 => none
  | n + 1 => if p n then some n else greatestBelow p n

theorem greatestBelow_eq_none_iff {p : Nat → Bool} {n : Nat} :
    greatestBelow p n = none ↔ ∀ k, k < n → p k = false := by
  induction n with
  | zero => simp [greatestBelow]
  | succ n ih =>
    rw [greatestBelow]
    by_cases h : p n = true
    · simp only [h, if_true, reduceCtorEq, false_iff]
      intro all
      simp [all n (by omega)] at h
    · rw [if_neg h, ih]
      constructor
      · intro all k hk
        by_cases hk' : k = n
        · subst hk'; simpa using h
        · exact all k (by omega)
      · exact fun all k hk => all k (by omega)

theorem greatestBelow_eq_some_iff {p : Nat → Bool} {n o : Nat} :
    greatestBelow p n = some o ↔
      o < n ∧ p o = true ∧ ∀ k, o < k → k < n → p k = false := by
  induction n with
  | zero => simp [greatestBelow]
  | succ n ih =>
    rw [greatestBelow]
    by_cases h : p n = true
    · rw [if_pos h, Option.some.injEq]
      constructor
      · rintro rfl
        exact ⟨by omega, h, fun k _ _ => by omega⟩
      · rintro ⟨hlt, _, above⟩
        by_cases hon : o < n
        · simp [above n hon (by omega)] at h
        · omega
    · rw [if_neg h, ih]
      constructor
      · rintro ⟨hlt, ho, above⟩
        refine ⟨by omega, ho, fun k hk hkn => ?_⟩
        by_cases hk' : k = n
        · subst hk'; simpa using h
        · exact above k hk (by omega)
      · rintro ⟨hlt, ho, above⟩
        have : o ≠ n := by rintro rfl; exact h ho
        exact ⟨by omega, ho, fun k hk hkn => above k hk (by omega)⟩

end FirmwareSymbols
