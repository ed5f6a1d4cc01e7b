import Pgaio.Go.Format

/-!
# Memory — sizes as PostgreSQL reads them

A size is a number and a unit; the units are powers of 1024.
-/

namespace Pgaio
namespace Postgres

open Go

/-- The bytes of a unit. -/
def unitBytes? : List Char → Option Nat
  | ['B'] => some 1
  | ['k', 'B'] => some 1024
  | ['M', 'B'] => some (1024 ^ 2)
  | ['G', 'B'] => some (1024 ^ 3)
  | ['T', 'B'] => some (1024 ^ 4)
  | _ => none

/-- The bytes of a size. -/
def readSize (text : String) : Option Nat :=
  let digits := text.toList.takeWhile isDigit
  if digits = [] then none
  else (unitBytes? (text.toList.dropWhile isDigit)).map (Nat.ofDigitChars 10 digits 0 * ·)

/-- A setting that is kept in units of so many bytes holds a whole number of them, the nearest one. -/
def storedUnits (text : String) (unit : Nat) : Option Nat :=
  (readSize text).map (roundHalfEven · unit)

example : readSize "100MB" = some 104857600 := by decide

/-- A unit does not start with a digit. -/
theorem head_unit {unit : List Char} {bytes : Nat} (h : unitBytes? unit = some bytes) :
    ∃ c rest, unit = c :: rest ∧ isDigit c = false := by
  unfold unitBytes? at h
  split at h
  · exact ⟨_, _, rfl, by decide⟩
  · exact ⟨_, _, rfl, by decide⟩
  · exact ⟨_, _, rfl, by decide⟩
  · exact ⟨_, _, rfl, by decide⟩
  · exact ⟨_, _, rfl, by decide⟩
  · cases h

/-- What is printed as a number and a unit is read back. -/
theorem readSize_itoa (n : Nat) {unit : String} {bytes : Nat}
    (h : unitBytes? unit.toList = some bytes) : readSize (itoa n ++ unit) = some (n * bytes) := by
  have hdigits : ∀ c ∈ Nat.toDigits 10 n, isDigit c = true :=
    fun _ hc => isDigit_of_mem_toDigits hc
  have htext : (itoa n ++ unit).toList = Nat.toDigits 10 n ++ unit.toList := by
    rw [String.toList_append]
    exact congrArg (· ++ unit.toList) (toList_itoa_ofNat n)
  -- The digits end where the unit begins.
  rcases head_unit h with ⟨c, rest, hunit, hc⟩
  have htake : (Nat.toDigits 10 n ++ unit.toList).takeWhile isDigit = Nat.toDigits 10 n := by
    rw [List.takeWhile_append_of_pos hdigits, hunit, List.takeWhile_cons_of_neg (by simp [hc]),
      List.append_nil]
  have hdrop : (Nat.toDigits 10 n ++ unit.toList).dropWhile isDigit = unit.toList := by
    rw [List.dropWhile_append_of_pos hdigits, hunit, List.dropWhile_cons_of_neg (by simp [hc])]
  unfold readSize
  dsimp only
  rw [htext, htake, hdrop, if_neg Nat.toDigits_ne_nil, h,
    Nat.ofDigitChars_toDigits (by decide) (by decide)]
  rfl

end Postgres
end Pgaio
