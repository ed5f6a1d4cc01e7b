import Mathlib.Data.Rat.Floor
import Pgaio.Go.Format

/-!
# Uint64 — unsigned integers as floating-point numbers

A `float64` keeps 53 significant bits.  An integer that needs more of them is rounded, half to even;
this changes it by one part in `2 ^ 53` at most (`roundSignificant_le`).
-/

namespace Pgaio
namespace Go

/-- `n` with 53 significant bits. -/
def roundSignificant (n : Nat) : Nat :=
  let unit := 2 ^ (n.log2 - 52)
  roundHalfEven n unit * unit

/-- `float64(n)`. -/
def float64 (n : UInt64) : ℚ :=
  roundSignificant n.toNat

theorem roundHalfEven_one (n : Nat) : roundHalfEven n 1 = n := by
  simp [roundHalfEven, Nat.mod_one]

/-- A number that divides is not rounded. -/
theorem roundHalfEven_of_dvd {num den : Nat} (hden : 0 < den) (h : den ∣ num) :
    roundHalfEven num den = num / den := by
  have hrem : num % den = 0 := Nat.mod_eq_zero_of_dvd h
  unfold roundHalfEven
  dsimp only
  rw [hrem, if_pos (by omega)]

/-- Rounding moves a quotient by half at most. -/
theorem roundHalfEven_le (num : Nat) {den : Nat} (hden : 0 < den) :
    2 * (roundHalfEven num den * den) ≤ 2 * num + den := by
  have hsplit : num / den * den + num % den = num := Nat.div_add_mod' num den
  have hle : num / den * den ≤ num := Nat.div_mul_le_self num den
  have hrem : num % den < den := Nat.mod_lt num hden
  unfold roundHalfEven
  dsimp only
  split
  · linarith
  · -- The quotient is increased when the remainder is half of `den` or more.
    have hup : (num / den + 1) * den = num / den * den + den := Nat.succ_mul _ _
    split
    · linarith
    · split
      · linarith
      · linarith

/-- Rounding does not cross a whole number. -/
theorem roundHalfEven_le_of_le_mul {num den k : Nat} (hden : 0 < den) (h : num ≤ k * den) :
    roundHalfEven num den ≤ k := by
  have hsplit : num / den * den + num % den = num := Nat.div_add_mod' num den
  by_cases hrem : num % den = 0
  · rw [roundHalfEven_of_dvd hden (Nat.dvd_of_mod_eq_zero hrem)]
    exact Nat.div_le_of_le_mul (by rwa [Nat.mul_comm])
  · -- There is something to round up, so the quotient is below `k`.
    have hlt : num / den < k := by
      by_contra hge
      have hmul : k * den ≤ num / den * den := Nat.mul_le_mul_right den (not_lt.1 hge)
      omega
    unfold roundHalfEven
    dsimp only
    split_ifs <;> omega

theorem le_roundHalfEven (num den : Nat) : num / den ≤ roundHalfEven num den := by
  unfold roundHalfEven
  dsimp only
  split_ifs <;> omega

theorem roundHalfEven_mono {m n : Nat} (den : Nat) (h : m ≤ n) :
    roundHalfEven m den ≤ roundHalfEven n den := by
  have hquotient : m / den ≤ n / den := Nat.div_le_div_right h
  rcases Nat.lt_or_eq_of_le hquotient with hlt | heq
  · have hup : roundHalfEven m den ≤ m / den + 1 := by
      unfold roundHalfEven
      dsimp only
      split_ifs <;> omega
    exact hup.trans (hlt.trans_le (le_roundHalfEven n den))
  · -- The same quotient, and a remainder that is not smaller.
    have hm : m / den * den + m % den = m := Nat.div_add_mod' m den
    have hn : n / den * den + n % den = n := Nat.div_add_mod' n den
    have hrem : m % den ≤ n % den := by
      rw [← heq] at hn
      omega
    unfold roundHalfEven
    dsimp only
    rw [← heq]
    split_ifs <;> omega

theorem roundSignificant_of_lt {n : Nat} (h : n < 2 ^ 53) : roundSignificant n = n := by
  have hunit : n.log2 - 52 = 0 := by
    by_cases hn : n = 0
    · rw [hn]
      rfl
    · have hlog : n.log2 < 53 := (Nat.log2_lt hn).2 h
      omega
  simp only [roundSignificant, hunit, pow_zero, roundHalfEven_one, mul_one]

/-- What is a multiple of its last place is not rounded. -/
theorem roundSignificant_of_dvd {n k : Nat} (hlog : n < 2 ^ (53 + k)) (h : 2 ^ k ∣ n) :
    roundSignificant n = n := by
  have hunit : 2 ^ (n.log2 - 52) ∣ n := by
    by_cases hn : n = 0
    · rw [hn]
      exact Nat.dvd_zero _
    · have hlog2 : n.log2 < 53 + k := (Nat.log2_lt hn).2 hlog
      exact (Nat.pow_dvd_pow 2 (by omega)).trans h
  unfold roundSignificant
  dsimp only
  rw [roundHalfEven_of_dvd (Nat.two_pow_pos _) hunit, Nat.div_mul_cancel hunit]

theorem roundSignificant_le (n : Nat) :
    2 ^ 53 * roundSignificant n ≤ (2 ^ 53 + 1) * n := by
  by_cases hsmall : n < 2 ^ 53
  · rw [roundSignificant_of_lt hsmall]
    exact Nat.mul_le_mul_right n (Nat.le_succ _)
  · have hn : n ≠ 0 := by
      rintro rfl
      exact hsmall (by decide)
    have hlog : 53 ≤ n.log2 := by
      by_contra hlt
      exact hsmall ((Nat.log2_lt hn).1 (not_le.1 hlt))
    -- The unit of the last place is `2 ^ 52` times smaller than the number.
    have hunit : 2 ^ 52 * 2 ^ (n.log2 - 52) ≤ n := by
      rw [← pow_add, Nat.add_sub_cancel' (by omega)]
      exact Nat.log2_self_le hn
    have hround := roundHalfEven_le n (Nat.two_pow_pos (n.log2 - 52))
    unfold roundSignificant
    dsimp only
    nlinarith

theorem roundSignificant_mono {m n : Nat} (h : m ≤ n) : roundSignificant m ≤ roundSignificant n := by
  by_cases hzero : m = 0
  · rw [hzero, roundSignificant_of_lt (by decide)]
    exact Nat.zero_le _
  · have hm := hzero
    have hn : n ≠ 0 := by omega
    have hlog : m.log2 ≤ n.log2 :=
      (Nat.le_log2 hn).2 ((Nat.log2_self_le hm).trans h)
    unfold roundSignificant
    dsimp only
    rcases Nat.lt_or_eq_of_le hlog with hlt | heq
    · -- A power of two lies between them, and it is not rounded.
      have hpower (k l : Nat) : 2 ^ (k + l) = 2 ^ k * 2 ^ l := pow_add 2 k l
      have hlow : roundHalfEven m (2 ^ (m.log2 - 52)) * 2 ^ (m.log2 - 52) ≤ 2 ^ (m.log2 + 1) := by
        have hsplit : 2 ^ (m.log2 + 1) = 2 ^ (m.log2 + 1 - (m.log2 - 52)) * 2 ^ (m.log2 - 52) := by
          rw [← hpower]
          congr 1
          omega
        rw [hsplit]
        apply Nat.mul_le_mul_right
        apply roundHalfEven_le_of_le_mul (Nat.two_pow_pos _)
        rw [← hsplit]
        exact Nat.lt_log2_self.le
      have hhigh : 2 ^ n.log2 ≤ roundHalfEven n (2 ^ (n.log2 - 52)) * 2 ^ (n.log2 - 52) := by
        have hsplit : 2 ^ n.log2 = 2 ^ (n.log2 - (n.log2 - 52)) * 2 ^ (n.log2 - 52) := by
          rw [← hpower]
          congr 1
          omega
        rw [hsplit]
        apply Nat.mul_le_mul_right
        refine le_trans ?_ (le_roundHalfEven _ _)
        rw [Nat.le_div_iff_mul_le (Nat.two_pow_pos _), ← hsplit]
        exact Nat.log2_self_le hn
      exact hlow.trans ((Nat.pow_le_pow_right (by decide) hlt).trans hhigh)
    · rw [← heq]
      exact Nat.mul_le_mul_right _ (roundHalfEven_mono _ h)

theorem float64_mono {m n : UInt64} (h : m ≤ n) : float64 m ≤ float64 n := by
  unfold float64
  exact_mod_cast roundSignificant_mono (UInt64.le_iff_toNat_le.1 h)

theorem float64_pos {n : UInt64} (h : n ≠ 0) : 0 < float64 n := by
  have hpos : 1 ≤ n.toNat := by
    by_contra hlt
    exact h (UInt64.toNat_inj.1 (by simpa using hlt))
  have hone : roundSignificant 1 = 1 := roundSignificant_of_lt (by decide)
  have hround : 1 ≤ roundSignificant n.toNat := hone ▸ roundSignificant_mono hpos
  unfold float64
  exact_mod_cast hround

theorem float64_zero : float64 0 = 0 := by
  unfold float64
  rw [show (0 : UInt64).toNat = 0 from rfl, roundSignificant_of_lt (by decide), Nat.cast_zero]

end Go
end Pgaio
