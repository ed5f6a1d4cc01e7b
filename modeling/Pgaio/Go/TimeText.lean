import Mathlib.Data.List.TakeWhile
import Pgaio.Go.Time

/-!
# TimeText — what `time.Parse` reads of a text with padded numbers

The elements of a layout one by one, on a text in which every number has its full width.  The lemmas are
rewriting rules: what an element takes is gone from the text, and its field is set.
-/

namespace Pgaio
namespace Go

/-! ## Numbers -/

theorem length_padLeft {w n : Nat} (hw : 0 < w) (hn : n < 10 ^ w) : (padLeft w n).toList.length = w := by
  have hdigits : (Nat.toDigits 10 n).length ≤ w := (Nat.length_toDigits_le_iff (by decide) hw).2 hn
  have htext : (toString n).length = (Nat.toDigits 10 n).length := by
    rw [Nat.toString_eq_ofList_toDigits, String.length_ofList]
  rw [toList_padLeft, List.length_append, List.length_replicate, htext]
  omega

theorem isDigit_of_mem_padLeft {w n : Nat} {c : Char} (hc : c ∈ (padLeft w n).toList) : isDigit c = true := by
  rw [toList_padLeft] at hc
  rcases List.mem_append.1 hc with hzero | hdigit
  · rw [List.eq_of_mem_replicate hzero]
    decide
  · exact isDigit_of_mem_toDigits hdigit

/-- A number that is padded with zeros is read back. -/
theorem decimal_padLeft (w n : Nat) : decimal (padLeft w n).toList = some n := by
  have hdigits : (padLeft w n).toList.all isDigit = true :=
    List.all_eq_true.2 fun _ hc => isDigit_of_mem_padLeft hc
  have hvalue := ofDigitChars_padLeft w n
  rw [Nat.ofDigitChars_eq_foldl] at hvalue
  unfold decimal
  rw [if_pos hdigits]
  exact congrArg some hvalue

theorem getnum_padLeft {n : Nat} (hn : n < 100) (fixed : Bool) (rest : List Char) :
    getnum fixed ((padLeft 2 n).toList ++ rest) = some (n, rest) := by
  have hlength : (padLeft 2 n).toList.length = 2 := length_padLeft (by decide) hn
  have hvalue := decimal_padLeft 2 n
  have hdigits : ∀ c ∈ (padLeft 2 n).toList, isDigit c = true := fun _ hc => isDigit_of_mem_padLeft hc
  generalize (padLeft 2 n).toList = cs at hlength hvalue hdigits
  obtain ⟨a, b, rfl⟩ := List.length_eq_two.1 hlength
  have ha := hdigits a (by simp)
  have hb := hdigits b (by simp)
  simp only [decimal, List.all_cons, List.all_nil, ha, hb, Bool.and_self, if_true, List.foldl_cons,
    List.foldl_nil, Nat.mul_zero, Nat.zero_add, Option.some.injEq] at hvalue
  simp [getnum, ha, hb, hvalue]

/-! ## Elements of a layout -/

section Elements

variable {layout : List Chunk} {f : Fields} {n : Nat}

theorem parseFields_longYear (hn : n < 10000) (rest : List Char) :
    parseFields (.longYear :: layout) ((padLeft 4 n).toList ++ rest) f =
      parseFields layout rest { f with year := n } := by
  have hlength : (padLeft 4 n).toList.length = 4 := length_padLeft (by decide) hn
  have hvalue := decimal_padLeft 4 n
  generalize (padLeft 4 n).toList = cs at hlength hvalue
  obtain ⟨a, b, c, d, rfl⟩ : ∃ a b c d, cs = [a, b, c, d] := by
    rcases cs with _ | ⟨a, _ | ⟨b, _ | ⟨c, _ | ⟨d, _ | _⟩⟩⟩⟩ <;> simp at hlength
    exact ⟨a, b, c, d, rfl⟩
  simp [parseFields, parseChunk, hvalue]

/-- A year with more digits leaves some of them in the place of the literal. -/
theorem parseFields_longYear_eq_none {c : Char} (hn : 10000 ≤ n) (hc : isDigit c = false) (hblank : c ≠ ' ')
    (rest : List Char) :
    parseFields (.longYear :: .lit c :: layout) ((padLeft 4 n).toList ++ rest) f = none := by
  have hlength : 4 < (padLeft 4 n).toList.length := by
    have hlong : ¬ (Nat.toDigits 10 n).length ≤ 4 := by
      rw [Nat.length_toDigits_le_iff (by decide) (by decide)]
      omega
    rw [toList_padLeft, List.length_append]
    omega
  have hdigits : ∀ d ∈ (padLeft 4 n).toList, isDigit d = true := fun _ hd => isDigit_of_mem_padLeft hd
  generalize (padLeft 4 n).toList = cs at hlength hdigits
  obtain ⟨a, b, d, e, next, digits, rfl⟩ : ∃ a b d e next digits, cs = a :: b :: d :: e :: next :: digits := by
    rcases cs with _ | ⟨a, _ | ⟨b, _ | ⟨d, _ | ⟨e, _ | ⟨next, digits⟩⟩⟩⟩⟩ <;> simp at hlength
    exact ⟨a, b, d, e, next, digits, rfl⟩
  have hnext : next ≠ c := by
    rintro rfl
    rw [hdigits next (by simp)] at hc
    cases hc
  cases hyear : decimal [a, b, d, e] with
  | none => simp [parseFields, parseChunk, hyear]
  | some year => simp [parseFields, parseChunk, hyear, hblank, hnext]

theorem parseFields_lit {c : Char} (hc : c ≠ ' ') (rest : List Char) :
    parseFields (.lit c :: layout) (c :: rest) f = parseFields layout rest f := by
  simp [parseFields, parseChunk, hc]

theorem parseFields_lit_ne {c v : Char} (hc : c ≠ ' ') (hv : v ≠ c) (rest : List Char) :
    parseFields (.lit c :: layout) (v :: rest) f = none := by
  simp [parseFields, parseChunk, hc, hv]

/-- One blank, before a number. -/
theorem parseFields_blank (w n : Nat) (rest : List Char) :
    parseFields (.lit ' ' :: layout) (' ' :: ((padLeft w n).toList ++ rest)) f =
      parseFields layout ((padLeft w n).toList ++ rest) f := by
  have hne : (padLeft w n).toList ≠ [] := by
    rw [toList_padLeft]
    exact List.append_ne_nil_of_right_ne_nil _ Nat.toDigits_ne_nil
  cases hcs : (padLeft w n).toList with
  | nil => exact absurd hcs hne
  | cons c cs =>
      have hdigit : isDigit c = true := isDigit_of_mem_padLeft (hcs ▸ List.mem_cons_self)
      have hblank : c ≠ ' ' := by
        rintro rfl
        exact absurd hdigit (by decide)
      simp [parseFields, parseChunk, hblank]

theorem parseFields_zeroMonth (hpos : 1 ≤ n) (hn : n ≤ 12) (rest : List Char) :
    parseFields (.zeroMonth :: layout) ((padLeft 2 n).toList ++ rest) f =
      parseFields layout rest { f with month := n } := by
  simp [parseFields, parseChunk, getnum_padLeft (show n < 100 by omega), hpos, hn]

theorem parseFields_zeroDay (hn : n < 100) (rest : List Char) :
    parseFields (.zeroDay :: layout) ((padLeft 2 n).toList ++ rest) f =
      parseFields layout rest { f with day := n } := by
  simp [parseFields, parseChunk, getnum_padLeft hn]

theorem parseFields_hour (hn : n < 24) (rest : List Char) :
    parseFields (.hour :: layout) ((padLeft 2 n).toList ++ rest) f =
      parseFields layout rest { f with hour := n } := by
  simp [parseFields, parseChunk, getnum_padLeft (show n < 100 by omega), hn]

theorem parseFields_zeroMinute (hn : n < 60) (rest : List Char) :
    parseFields (.zeroMinute :: layout) ((padLeft 2 n).toList ++ rest) f =
      parseFields layout rest { f with min := n } := by
  simp [parseFields, parseChunk, getnum_padLeft (show n < 100 by omega), hn]

/-- The seconds at the end, with what may be a fraction behind them. -/
theorem parseFields_zeroSecond (hn : n < 60) (rest : List Char) :
    parseFields [.zeroSecond] ((padLeft 2 n).toList ++ rest) f =
      parseFields [] (optionalFraction rest { f with sec := n }).2
        (optionalFraction rest { f with sec := n }).1 := by
  have hsmall : n < 100 := by omega
  have hnone : fractionNext [] = false := rfl
  simp only [parseFields, parseChunk, getnum_padLeft hsmall, if_pos hn, hnone, Bool.false_eq_true, if_false]

/-! ## Fractions -/

/-- A fraction of at most nine digits is read in nanoseconds. -/
theorem optionalFraction_digits {digits : List Char} (hne : digits ≠ []) (hlength : digits.length ≤ 9)
    (hdigits : ∀ c ∈ digits, isDigit c = true) {value : Nat} (hvalue : decimal digits = some value) :
    optionalFraction ('.' :: digits) f = ({ f with nsec := value * 10 ^ (9 - digits.length) }, []) := by
  cases digits with
  | nil => exact absurd rfl hne
  | cons d ds =>
      have hall : (d :: ds).takeWhile isDigit = d :: ds := List.takeWhile_eq_self_iff.2 hdigits
      have hrest : (d :: ds).dropWhile isDigit = [] := List.dropWhile_eq_nil_iff.2 hdigits
      have hd : isDigit d = true := hdigits d List.mem_cons_self
      have hsign : d ≠ '-' ∧ d ≠ '+' := by
        constructor <;>
          · rintro rfl
            exact absurd hd (by decide)
      have hatoi : atoi (d :: ds) = some (value : Int) := by
        unfold atoi
        split
        · rename_i heq
          cases heq
          exact absurd rfl hsign.1
        · rename_i heq
          cases heq
          exact absurd rfl hsign.2
        · rw [hvalue]
          rfl
      have htake : ('.' :: d :: ds).take (1 + (d :: ds).length) = '.' :: d :: ds := by
        apply List.take_of_length_le
        simp only [List.length_cons]
        omega
      have hmin : min (1 + (d :: ds).length) 10 = 1 + (d :: ds).length := by omega
      have hns : parseNanoseconds ('.' :: d :: ds) (1 + (d :: ds).length) =
          some (value * 10 ^ (9 - (d :: ds).length)) := by
        have hpower : 10 - (1 + (d :: ds).length) = 9 - (d :: ds).length := by omega
        simp only [parseNanoseconds, commaOrPeriod, hmin, htake, List.drop_one, List.tail_cons, hatoi, hpower]
        simp
      have hfraction : takeFraction ('.' :: d :: ds) = some (value * 10 ^ (9 - (d :: ds).length), []) := by
        have hperiod : commaOrPeriod '.' = true := rfl
        simp only [takeFraction, hperiod, hd, Bool.and_self, if_true, hall, hns, hrest, Option.map_some]
      simp only [optionalFraction, hfraction]

end Elements

end Go
end Pgaio
