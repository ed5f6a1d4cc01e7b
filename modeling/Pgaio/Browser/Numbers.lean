import Mathlib.Data.Int.Log
import Mathlib.Tactic.FieldSimp
import Pgaio.Go.Uint64

/-!
# Numbers — the numbers of JavaScript

A number is a `float64`: it keeps 53 significant bits, and what an operation yields is rounded to them,
half to even.  This changes it by one part in `2 ^ 53` at most (`abs_rounded_sub_le`), and integers below
`2 ^ 53` not at all.  A large integer is written with zeros at the end, as few digits before them as
still stand for the same number.

Exponents are not bounded: what the pages compute is far from the largest and the smallest numbers.
-/

namespace Pgaio
namespace Browser

open Go

/-! ## Rounding -/

/-- The unit in the last of 53 places. -/
def lastPlace (x : ℚ) : ℚ :=
  2 ^ (Int.log 2 |x| - 52)

/-- The number nearest to `x`. -/
def rounded (x : ℚ) : ℚ :=
  let places := |x| / lastPlace x
  let magnitude := roundHalfEven places.num.natAbs places.den * lastPlace x
  if x < 0 then -magnitude else magnitude

variable {x : ℚ}

theorem lastPlace_pos (x : ℚ) : 0 < lastPlace x :=
  zpow_pos two_pos _

theorem lastPlace_le (h : x ≠ 0) : 2 ^ 52 * lastPlace x ≤ |x| := by
  have hlog : (2 : ℚ) ^ Int.log 2 |x| ≤ |x| := Int.zpow_log_le_self Nat.one_lt_two (abs_pos.2 h)
  rwa [lastPlace, ← zpow_natCast, ← zpow_add₀ two_ne_zero, Nat.cast_ofNat, add_sub_cancel]

/-- Rounding moves a quotient by half at most, up or down. -/
theorem le_roundHalfEven_add (num : Nat) {den : Nat} (hden : 0 < den) :
    2 * num ≤ 2 * (roundHalfEven num den * den) + den := by
  have hsplit : num / den * den + num % den = num := Nat.div_add_mod' num den
  have hrem : num % den < den := Nat.mod_lt num hden
  have hup : (num / den + 1) * den = num / den * den + den := Nat.succ_mul _ _
  unfold roundHalfEven
  dsimp only
  split_ifs <;> omega

theorem abs_roundHalfEven_sub_le {q : ℚ} (h : 0 ≤ q) :
    |(roundHalfEven q.num.natAbs q.den : ℚ) - q| ≤ 1 / 2 := by
  have hden : (0 : ℚ) < q.den := by
    exact_mod_cast q.den_pos
  have hnum : (q.num.natAbs : ℚ) = q * q.den := by
    rw [Nat.cast_natAbs, abs_of_nonneg (Rat.num_nonneg.2 h), Rat.mul_den_eq_num]
  have hupper : 2 * ((roundHalfEven q.num.natAbs q.den : ℚ) * q.den) ≤ 2 * q.num.natAbs + q.den := by
    exact_mod_cast roundHalfEven_le q.num.natAbs q.den_pos
  have hlower : 2 * (q.num.natAbs : ℚ) ≤ 2 * (roundHalfEven q.num.natAbs q.den * q.den) + q.den := by
    exact_mod_cast le_roundHalfEven_add q.num.natAbs q.den_pos
  rw [hnum] at hupper hlower
  rw [abs_le]
  constructor
  · nlinarith
  · nlinarith

theorem rounded_of_nonneg (h : 0 ≤ x) :
    rounded x = roundHalfEven (x / lastPlace x).num.natAbs (x / lastPlace x).den * lastPlace x := by
  simp [rounded, not_lt.2 h, abs_of_nonneg h]

theorem rounded_neg (x : ℚ) : rounded (-x) = -rounded x := by
  have hplace : lastPlace (-x) = lastPlace x := by
    rw [lastPlace, abs_neg, lastPlace]
  rcases lt_trichotomy x 0 with h | h | h
  · simp [rounded, hplace, h, not_lt.2 h.le]
  · simp [rounded, h, roundHalfEven]
  · simp [rounded, hplace, h, not_lt.2 h.le]

theorem abs_rounded_sub_le_of_nonneg (h : 0 ≤ x) : |rounded x - x| ≤ lastPlace x / 2 := by
  have hplace := lastPlace_pos x
  have hsplit : rounded x - x =
      ((roundHalfEven (x / lastPlace x).num.natAbs (x / lastPlace x).den : ℚ) - x / lastPlace x) *
        lastPlace x := by
    rw [rounded_of_nonneg h, sub_mul, div_mul_cancel₀ _ hplace.ne']
  have hhalf := abs_roundHalfEven_sub_le (div_nonneg h hplace.le)
  rw [hsplit, abs_mul, abs_of_pos hplace]
  nlinarith

/-- The nearest number is nearer than one part in `2 ^ 53`. -/
theorem abs_rounded_sub_le (h : 0 ≤ x) : |rounded x - x| ≤ x / 2 ^ 53 := by
  by_cases hzero : x = 0
  · rw [hzero]
    simp [rounded, roundHalfEven]
  · have hplace := lastPlace_le hzero
    rw [abs_of_nonneg h] at hplace
    refine (abs_rounded_sub_le_of_nonneg h).trans ?_
    rw [le_div_iff₀ (by positivity)]
    linarith

theorem rounded_le (h : 0 ≤ x) : rounded x ≤ x + x / 2 ^ 53 := by
  linarith [(abs_le.1 (abs_rounded_sub_le h)).2]

theorem le_rounded (h : 0 ≤ x) : x - x / 2 ^ 53 ≤ rounded x := by
  linarith [(abs_le.1 (abs_rounded_sub_le h)).1]

theorem rounded_pos (h : 0 < x) : 0 < rounded x := by
  have hle := le_rounded h.le
  have hsmall : x / 2 ^ 53 < x := div_lt_self h (by norm_num)
  linarith

/-! ## Integers -/

/-- A fraction may be expanded. -/
theorem roundHalfEven_mul (num : Nat) {den k : Nat} (hk : 0 < k) :
    roundHalfEven (k * num) (k * den) = roundHalfEven num den := by
  have hlow (r : Nat) : 2 * (k * r) < k * den ↔ 2 * r < den := by
    rw [← mul_left_comm]
    exact Nat.mul_lt_mul_left hk
  have hhigh (r : Nat) : k * den < 2 * (k * r) ↔ den < 2 * r := by
    rw [← mul_left_comm]
    exact Nat.mul_lt_mul_left hk
  unfold roundHalfEven
  dsimp only
  simp only [Nat.mul_div_mul_left _ _ hk, Nat.mul_mod_mul_left, hlow, hhigh]

theorem roundHalfEven_div (num : Nat) {den : Nat} (hden : den ≠ 0) :
    roundHalfEven ((num : ℚ) / den).num.natAbs ((num : ℚ) / den).den = roundHalfEven num den := by
  obtain ⟨c, hnum, hcden⟩ :=
    Rat.exists_eq_mul_div_num_and_eq_mul_div_den (num : ℤ) (Int.natCast_ne_zero.2 hden)
  rw [Int.cast_natCast, Int.cast_natCast] at hnum hcden
  generalize (num : ℚ) / den = q at hnum hcden ⊢
  -- What is cancelled from the fraction.
  have hnum' : num = c.natAbs * q.num.natAbs := by
    rw [← Int.natAbs_mul, ← hnum, Int.natAbs_natCast]
  have hden' : den = c.natAbs * q.den := by
    rw [← Int.natAbs_natCast q.den, ← Int.natAbs_mul, ← hcden, Int.natAbs_natCast]
  have hc : 0 < c.natAbs := Nat.pos_of_ne_zero fun hzero => hden (by rw [hden', hzero, Nat.zero_mul])
  rw [hnum', hden', roundHalfEven_mul _ hc]

/-- An integer is rounded as `float64(n)` of Go does. -/
theorem rounded_natCast (n : Nat) : rounded n = roundSignificant n := by
  rw [rounded_of_nonneg n.cast_nonneg]
  have hlog : Int.log 2 |(n : ℚ)| = n.log2 := by
    rw [Nat.abs_cast, Int.log_natCast, Nat.log2_eq_log_two]
  rcases Nat.lt_or_ge n.log2 52 with hsmall | hlarge
  · -- There are places left behind the point.
    have hplace : lastPlace n = (((2 ^ (52 - n.log2) : Nat) : ℚ))⁻¹ := by
      rw [lastPlace, hlog, Nat.cast_pow, Nat.cast_ofNat, ← zpow_natCast, ← zpow_neg]
      congr 1
      omega
    have hlt : n < 2 ^ 53 := by
      by_cases hn : n = 0
      · omega
      · exact (Nat.log2_lt hn).1 (by omega)
    have hquotient : (n : ℚ) / lastPlace n = ((n * 2 ^ (52 - n.log2) : Nat) : ℚ) := by
      rw [hplace, div_inv_eq_mul, Nat.cast_mul]
    have hpower : ((2 ^ (52 - n.log2) : Nat) : ℚ) ≠ 0 := Nat.cast_ne_zero.2 (Nat.two_pow_pos _).ne'
    rw [hquotient, Rat.num_natCast, Rat.den_natCast, Int.natAbs_natCast, roundHalfEven_one,
      roundSignificant_of_lt hlt, hplace, Nat.cast_mul, mul_inv_cancel_right₀ hpower]
  · have hplace : lastPlace n = ((2 ^ (n.log2 - 52) : Nat) : ℚ) := by
      rw [lastPlace, hlog, Nat.cast_pow, Nat.cast_ofNat, ← zpow_natCast, Nat.cast_sub hlarge]
      rfl
    rw [hplace, roundHalfEven_div _ (Nat.two_pow_pos _).ne', roundSignificant]
    exact (Nat.cast_mul _ _).symm

theorem rounded_intCast {n : Int} (h : n.natAbs < 2 ^ 53) : rounded n = n := by
  have hexact (k : Nat) (hk : k < 2 ^ 53) : rounded (k : ℚ) = k := by
    rw [rounded_natCast, roundSignificant_of_lt hk]
  rcases Int.natAbs_eq n with hn | hn
  · rw [hn, Int.cast_natCast, hexact _ h]
  · rw [hn, Int.cast_neg, Int.cast_natCast, rounded_neg, hexact _ h]

/-! ## Large integers -/

/-- An integer as a number. -/
def number (n : Int) : Int :=
  n.sign * roundSignificant n.natAbs

/-- The nearest number with so many zeros at the end, if it stands for `n`, else with fewer. -/
def shortest (n : Nat) : Nat → Nat
  | 0 => n
  | k + 1 =>
      let low := n / 10 ^ (k + 1) * 10 ^ (k + 1)
      let high := low + 10 ^ (k + 1)
      let lowFits := roundSignificant low = n
      let highFits := roundSignificant high = n
      if lowFits ∧ (highFits → n - low ≤ high - n) then low
      else if highFits then high
      else shortest n k

/-- The integer that the decimal text of a number shows; from `10 ^ 21` on it would have an exponent. -/
def shown (n : Int) : Int :=
  n.sign * shortest n.natAbs 21

example : shown (number 9007199254740993) = 9007199254740992 ∧
    shown (number (2 ^ 63 - 1)) = 9223372036854776000 := by decide +kernel

theorem number_of_lt {n : Int} (h : n.natAbs < 2 ^ 53) : number n = n := by
  rw [number, roundSignificant_of_lt h, Int.sign_mul_natAbs]

theorem one_le_roundSignificant {n : Nat} (h : 1 ≤ n) : 1 ≤ roundSignificant n := by
  have hone : roundSignificant 1 = 1 := roundSignificant_of_lt (by decide)
  exact hone ▸ roundSignificant_mono h

theorem number_of_pos {n : Int} (h : 0 < n) : number n = roundSignificant n.natAbs := by
  rw [number, Int.sign_eq_one_of_pos h, one_mul]

theorem number_pos {n : Int} (h : 0 < n) : 0 < number n := by
  have hround := @one_le_roundSignificant n.natAbs (by omega)
  rw [number_of_pos h]
  omega

theorem number_neg {n : Int} (h : n < 0) : number n < 0 := by
  have hround := @one_le_roundSignificant n.natAbs (by omega)
  rw [number, Int.sign_eq_neg_one_of_neg h]
  omega

/-- A large number stays large. -/
theorem le_number {n : Int} (h : 2 ^ 53 ≤ n) : 2 ^ 53 ≤ number n := by
  have hmono := @roundSignificant_mono (2 ^ 53) n.natAbs (by omega)
  rw [roundSignificant_of_dvd (k := 1) (by decide) (by decide)] at hmono
  rw [number_of_pos (by omega)]
  omega

theorem shown_nonpos {n : Int} (h : n ≤ 0) : shown n ≤ 0 :=
  Int.mul_nonpos_of_nonpos_of_nonneg (Int.sign_nonpos_iff.2 h) (Int.natCast_nonneg _)

theorem shortest_of_lt {n : Nat} (h : n < 2 ^ 53) (k : Nat) : shortest n k = n := by
  -- Nothing else stands for a number that is exact.
  have hfits (m : Nat) (hm : roundSignificant m = n) : m = n := by
    rcases Nat.lt_or_ge m (2 ^ 53) with hlt | hge
    · rwa [roundSignificant_of_lt hlt] at hm
    · have hmono := roundSignificant_mono hge
      rw [roundSignificant_of_dvd (k := 1) (by decide) (by decide), hm] at hmono
      omega
  induction k with
  | zero => rfl
  | succ k ih =>
      unfold shortest
      dsimp only
      split_ifs with hlow hhigh
      · exact hfits _ hlow.1
      · exact hfits _ hhigh
      · exact ih

theorem shown_number_of_lt {n : Int} (h : n.natAbs < 2 ^ 53) : shown (number n) = n := by
  rw [number_of_lt h, shown, shortest_of_lt h, Int.sign_mul_natAbs]

end Browser
end Pgaio
