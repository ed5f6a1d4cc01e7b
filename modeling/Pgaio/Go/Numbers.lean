import Pgaio.Go.Strings
import Pgaio.Text.Numeral

/-!
# Numbers — `strconv.ParseUint` and the verb `%X`

`ParseUint` reads the numerals of its base and nothing else, up to the greatest number of its width
(`parseUint_eq_ok_iff`).  What `%X` prints is a numeral in base 16, so it is read back.
-/

namespace Pgaio
namespace Go

open Text

/-- `*strconv.NumError` without the name of the function. -/
inductive NumError where
  | errSyntax (num : String)
  | errRange (num : String)
  deriving DecidableEq, Repr

/-- The value of a digit or letter. -/
def digitOf (c : Char) : Option Nat :=
  if '0' ≤ c ∧ c ≤ '9' then some (c.toNat - '0'.toNat)
  else if 'a' ≤ c ∧ c ≤ 'z' then some (c.toNat - 'a'.toNat + 10)
  else if 'A' ≤ c ∧ c ≤ 'Z' then some (c.toNat - 'A'.toNat + 10)
  else none

/-- The loop over the digits of `num`, `n` being the value of those before. -/
def parseDigits (base maxVal : Nat) (num : String) (n : Nat) : List Char → Except NumError Nat
  | [] => .ok n
  | c :: rest =>
      match digitOf c with
      | none => .error (.errSyntax num)
      | some d =>
          if base ≤ d then .error (.errSyntax num)
          else if maxVal < base * n + d then .error (.errRange num)
          else parseDigits base maxVal num (base * n + d) rest

/-- `strconv.ParseUint(num, base, bits)` for a base between 2 and 36, `maxVal` being the greatest number
of that many bits. -/
def parseUint (base maxVal : Nat) (num : String) : Except NumError Nat :=
  if num = "" then .error (.errSyntax num) else parseDigits base maxVal num 0 num.toList

/-- `fmt.Sprintf("%X", n)`. -/
def upperHex (n : Nat) : String :=
  String.ofList ((Nat.toDigits 16 n).map Char.toUpper)

/-! ## The texts that are read -/

theorem le_iff_toNat_le {c d : Char} : c ≤ d ↔ c.toNat ≤ d.toNat :=
  UInt32.le_iff_toNat_le

theorem digitOf_eq (c : Char) : digitOf c = digitChars.idxOf? c.toLower := by
  by_cases hc : c.toNat < 128
  · have hascii : ∀ i : Fin 128,
        digitOf (Char.ofNat i) = digitChars.idxOf? (Char.ofNat i).toLower := by
      decide +kernel
    have hchar := hascii ⟨c.toNat, hc⟩
    rwa [Char.ofNat_toNat] at hchar
  · -- A character beyond ASCII is no digit, and it has no other case.
    have hbeyond {d : Char} (hd : d.toNat < 128) : ¬ c ≤ d := by
      rw [le_iff_toNat_le]
      omega
    have hlower : c.toLower = c := dif_neg fun h => hbeyond (d := 'Z') (by decide) h.2
    have hchars : ∀ x ∈ digitChars, x.toNat < 128 := List.forall_iff_forall_mem.1 (by decide)
    have hnone : c ∉ digitChars := fun hmem => hc (hchars c hmem)
    rw [hlower, List.idxOf?_eq_none_iff.2 hnone, digitOf, if_neg fun h => hbeyond (by decide) h.2,
      if_neg fun h => hbeyond (by decide) h.2, if_neg fun h => hbeyond (by decide) h.2]

theorem parseDigits_eq_ok_iff {base maxVal n m : Nat} {num : String} {text : List Char} (hn : n ≤ maxVal) :
    parseDigits base maxVal num n text = .ok m ↔
      ∃ digits, List.Forall₂ (IsDigit base) text digits ∧
        m = digits.foldl (fun n d => base * n + d) n ∧ m ≤ maxVal := by
  induction text generalizing n with
  | nil =>
      constructor
      · intro h
        cases h
        exact ⟨[], .nil, rfl, hn⟩
      · rintro ⟨digits, hdigits, rfl, -⟩
        cases hdigits
        rfl
  | cons c text ih =>
      rw [parseDigits]
      cases hd : digitOf c with
      | none =>
          constructor
          · intro h
            cases h
          · rintro ⟨digits, hdigits, -⟩
            cases hdigits with
            | cons hc _ =>
                rw [digitOf_eq, hc.1] at hd
                cases hd
      | some d =>
          have hc : digitChars.idxOf? c.toLower = some d := by
            rw [← digitOf_eq, hd]
          dsimp only
          constructor
          · intro h
            -- Neither test fails, and the induction goes on with the greater number.
            split at h
            · cases h
            · rename_i hbase
              split at h
              · cases h
              · rename_i hmax
                obtain ⟨digits, hdigits, hm, hle⟩ := (ih (Nat.le_of_not_lt hmax)).1 h
                exact ⟨d :: digits, .cons ⟨hc, Nat.lt_of_not_le hbase⟩ hdigits, hm, hle⟩
          · rintro ⟨digits, hdigits, hm, hle⟩
            cases hdigits with
            | @cons _ d' _ digits hc' hdigits =>
                obtain rfl : d = d' := Option.some.inj (hc.symm.trans hc'.1)
                -- The number so far is no greater than the whole one.
                have hsofar : base * n + d ≤ maxVal := by
                  rw [hm] at hle
                  exact (le_foldl_digits (Nat.zero_lt_of_lt hc'.2) _ digits).trans hle
                rw [if_neg (Nat.not_le.2 hc'.2), if_neg (Nat.not_lt.2 hsofar)]
                exact (ih hsofar).2 ⟨digits, hdigits, hm, hle⟩

theorem parseUint_eq_ok_iff {base maxVal n : Nat} {num : String} :
    parseUint base maxVal num = .ok n ↔ Numeral base num.toList n ∧ n ≤ maxVal := by
  unfold parseUint
  by_cases hnum : num = ""
  · rw [if_pos hnum, hnum]
    constructor
    · intro h
      cases h
    · rintro ⟨⟨digits, hne, hdigits, -⟩, -⟩
      exact absurd (List.forall₂_nil_left_iff.1 hdigits) hne
  · rw [if_neg hnum, parseDigits_eq_ok_iff (Nat.zero_le _)]
    constructor
    · rintro ⟨digits, hdigits, hn, hle⟩
      refine ⟨⟨digits, ?_, hdigits, ?_⟩, hle⟩
      · rintro rfl
        exact hnum (String.toList_eq_nil_iff.1 (List.forall₂_nil_right_iff.1 hdigits))
      · rw [ofDigits_reverse_eq_foldl, hn]
    · rintro ⟨⟨digits, -, hdigits, hn⟩, hle⟩
      rw [ofDigits_reverse_eq_foldl] at hn
      exact ⟨digits, hdigits, hn, hle⟩

/-! ## Reading back what has been printed -/

@[simp] theorem toList_upperHex (n : Nat) :
    (upperHex n).toList = (Nat.toDigits 16 n).map Char.toUpper := by
  simp [upperHex]

theorem isDigit_upper {d : Nat} (hd : d < 16) : IsDigit 16 (Nat.digitChar d).toUpper d := by
  have hall : ∀ i : Fin 16, IsDigit 16 (Nat.digitChar i).toUpper i.val := by decide
  exact hall ⟨d, hd⟩

theorem numeral_upperHex (n : Nat) : Numeral 16 (upperHex n).toList n := by
  rw [toList_upperHex]
  induction n using Nat.strongRecOn with
  | ind n ih =>
      by_cases hsmall : n < 16
      · rw [Nat.toDigits_of_lt_base hsmall]
        exact .digit (isDigit_upper hsmall)
      · -- All digits but the last are those of the quotient.
        have hquotient := ih (n / 16) (Nat.div_lt_self (by omega) (by decide))
        have hall := hquotient.snoc (isDigit_upper (Nat.mod_lt n (by decide)))
        rw [Nat.div_add_mod] at hall
        rw [Nat.toDigits_of_base_le (by decide) (Nat.le_of_not_lt hsmall), List.map_append]
        exact hall

/-- A numeral has no white space in it. -/
theorem isSpace_of_isDigit {base d : Nat} {c : Char} (h : IsDigit base c d) : isSpace c = false := by
  have hvalue : digitOf c = some d := (digitOf_eq c).trans h.1
  have hrange : ('0' ≤ c ∧ c ≤ '9') ∨ ('a' ≤ c ∧ c ≤ 'z') ∨ ('A' ≤ c ∧ c ≤ 'Z') := by
    by_contra hnone
    rw [digitOf, if_neg fun h => hnone (.inl h), if_neg fun h => hnone (.inr (.inl h)),
      if_neg fun h => hnone (.inr (.inr h))] at hvalue
    cases hvalue
  have hchars : ('0'.toNat = 48 ∧ '9'.toNat = 57) ∧ ('a'.toNat = 97 ∧ 'z'.toNat = 122) ∧
      ('A'.toNat = 65 ∧ 'Z'.toNat = 90) := by
    decide
  simp only [le_iff_toNat_le] at hrange
  cases hspace : isSpace c with
  | false => rfl
  | true =>
      simp only [isSpace, Bool.or_eq_true, List.contains_iff_mem, List.mem_cons, List.not_mem_nil,
        or_false, Bool.and_eq_true, decide_eq_true_eq] at hspace
      omega

end Go
end Pgaio
