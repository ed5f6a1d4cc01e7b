import Mathlib.Data.List.Forall2
import Mathlib.Data.Nat.Digits.Defs

/-!
# Numeral — numbers written in a base

A numeral is a sequence of digits with the most significant one first, and its number is the one that
`Nat.ofDigits` gives to them.  Zeros in front and the case of letters do not change the number
(`Numeral.replicate_zero`, `Numeral.of_toLower_eq`).
-/

namespace Pgaio
namespace Text

/-- The digits of all bases up to 36. -/
def digitChars : List Char :=
  "0123456789abcdefghijklmnopqrstuvwxyz".toList

/-- The character is the digit `d` of the base, in either case. -/
def IsDigit (base : Nat) (c : Char) (d : Nat) : Prop :=
  digitChars.idxOf? c.toLower = some d ∧ d < base

instance (base : Nat) (c : Char) (d : Nat) : Decidable (IsDigit base c d) :=
  inferInstanceAs (Decidable (_ ∧ _))

/-- The text is a numeral of `n`. -/
def Numeral (base : Nat) (text : List Char) (n : Nat) : Prop :=
  ∃ digits : List Nat, digits ≠ [] ∧ List.Forall₂ (IsDigit base) text digits ∧
    n = Nat.ofDigits base digits.reverse

/-- The number of some digits, read from the left. -/
theorem ofDigits_reverse_eq_foldl (base : Nat) (digits : List Nat) :
    Nat.ofDigits base digits.reverse = digits.foldl (fun n d => base * n + d) 0 := by
  rw [Nat.ofDigits_eq_foldr, List.foldr_reverse]
  congr 1
  funext n d
  exact Nat.add_comm _ _

/-- Reading on makes a number no smaller. -/
theorem le_foldl_digits {base : Nat} (hbase : 0 < base) (n : Nat) (digits : List Nat) :
    n ≤ digits.foldl (fun n d => base * n + d) n := by
  induction digits generalizing n with
  | nil => exact Nat.le_refl n
  | cons d digits ih =>
      calc n ≤ base * n := Nat.le_mul_of_pos_left n hbase
        _ ≤ base * n + d := Nat.le_add_right _ _
        _ ≤ digits.foldl (fun n d => base * n + d) (base * n + d) := ih _

namespace Numeral

variable {base n d : Nat} {c : Char} {text text' : List Char}

theorem digit (h : IsDigit base c d) : Numeral base [c] d :=
  ⟨[d], List.cons_ne_nil _ _, .cons h .nil, Nat.ofDigits_singleton.symm⟩

theorem snoc (h : Numeral base text n) (hd : IsDigit base c d) :
    Numeral base (text ++ [c]) (base * n + d) := by
  obtain ⟨digits, hne, hdigits, rfl⟩ := h
  refine ⟨digits ++ [d], by simp, List.rel_append hdigits (.cons hd .nil), ?_⟩
  rw [ofDigits_reverse_eq_foldl, ofDigits_reverse_eq_foldl, List.foldl_append]
  rfl

/-- A zero in front. -/
theorem cons_zero (hbase : 0 < base) (h : Numeral base text n) : Numeral base ('0' :: text) n := by
  obtain ⟨digits, hne, hdigits, rfl⟩ := h
  refine ⟨0 :: digits, List.cons_ne_nil _ _, .cons ⟨by decide, hbase⟩ hdigits, ?_⟩
  rw [List.reverse_cons, Nat.ofDigits_append_zero]

theorem replicate_zero (hbase : 0 < base) (h : Numeral base text n) (k : Nat) :
    Numeral base (List.replicate k '0' ++ text) n := by
  induction k with
  | zero => exact h
  | succ k ih => exact ih.cons_zero hbase

theorem of_toLower_eq (h : Numeral base text n) (hsame : text'.map Char.toLower = text.map Char.toLower) :
    Numeral base text' n := by
  obtain ⟨digits, hne, hdigits, rfl⟩ := h
  refine ⟨digits, hne, ?_, rfl⟩
  have hlower (t : List Char) : List.Forall₂ (IsDigit base) t digits ↔
      List.Forall₂ (fun c d => digitChars.idxOf? c = some d ∧ d < base) (t.map Char.toLower) digits := by
    rw [List.forall₂_map_left_iff]
    rfl
  rw [hlower, hsame, ← hlower]
  exact hdigits

theorem isDigit_of_mem (h : Numeral base text n) (hc : c ∈ text) : ∃ d, IsDigit base c d := by
  obtain ⟨digits, -, hdigits, -⟩ := h
  induction hdigits with
  | nil => cases hc
  | cons hd _ ih =>
      rcases List.mem_cons.1 hc with rfl | hmem
      · exact ⟨_, hd⟩
      · exact ih hmem

end Numeral

end Text
end Pgaio
