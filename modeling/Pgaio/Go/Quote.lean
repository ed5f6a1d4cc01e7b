import Mathlib.Data.List.Basic

/-!
# Quote — Go's way of writing a string between double quotes

`strconv.Quote`, which `%q` prints: quotes and backslashes get a backslash in front, and what cannot be
printed is written as an escape.  Which characters beyond ASCII can be printed is left to the Unicode
tables, a parameter here.
-/

namespace Pgaio
namespace Go

/-- `strconv.IsPrint`. -/
def isPrint (beyondASCII : Char → Bool) (c : Char) : Bool :=
  if c.toNat < 128 then 32 ≤ c.toNat && c.toNat < 127 else beyondASCII c

/-- The last `width` hexadecimal digits. -/
def hexDigits : Nat → Nat → List Char
  | 0, _ => []
  | width + 1, n => hexDigits width (n / 16) ++ [Nat.digitChar (n % 16)]

/-- What is written for a character that cannot be printed. -/
def escape (c : Char) : List Char :=
  if c.toNat = 7 then ['\\', 'a']
  else if c.toNat = 8 then ['\\', 'b']
  else if c.toNat = 12 then ['\\', 'f']
  else if c.toNat = 10 then ['\\', 'n']
  else if c.toNat = 13 then ['\\', 'r']
  else if c.toNat = 9 then ['\\', 't']
  else if c.toNat = 11 then ['\\', 'v']
  else if c.toNat < 32 || c.toNat = 127 then '\\' :: 'x' :: hexDigits 2 c.toNat
  else if c.toNat < 0x10000 then '\\' :: 'u' :: hexDigits 4 c.toNat
  else '\\' :: 'U' :: hexDigits 8 c.toNat

/-- `appendEscapedRune`. -/
def escapedRune (beyondASCII : Char → Bool) (c : Char) : List Char :=
  if c = '"' || c = '\\' then ['\\', c]
  else if isPrint beyondASCII c then [c]
  else escape c

/-- What stands between the quotes. -/
def quotedBody (beyondASCII : Char → Bool) (s : List Char) : List Char :=
  s.flatMap (escapedRune beyondASCII)

/-- `strconv.Quote`. -/
def quote (beyondASCII : Char → Bool) (s : String) : String :=
  String.ofList ('"' :: (quotedBody beyondASCII s.toList ++ ['"']))

/-- The characters that are written as they are. -/
def isPlainRune (beyondASCII : Char → Bool) (c : Char) : Bool :=
  isPrint beyondASCII c && c ≠ '"' && c ≠ '\\'

variable {beyondASCII : Char → Bool} {c : Char} {s : List Char}

theorem toList_quote (s : String) :
    (quote beyondASCII s).toList = '"' :: (quotedBody beyondASCII s.toList ++ ['"']) := by
  rw [quote, String.toList_ofList]

theorem escapedRune_of_plain (h : isPlainRune beyondASCII c = true) :
    escapedRune beyondASCII c = [c] := by
  obtain ⟨⟨hprint, hquote⟩, hslash⟩ :
      (isPrint beyondASCII c = true ∧ c ≠ '"') ∧ c ≠ '\\' := by simpa [isPlainRune] using h
  simp [escapedRune, hprint, hquote, hslash]

theorem two_le_length_escape (c : Char) : 2 ≤ (escape c).length := by
  unfold escape
  split_ifs <;> simp

theorem two_le_length_escapedRune (h : isPlainRune beyondASCII c = false) :
    2 ≤ (escapedRune beyondASCII c).length := by
  unfold escapedRune
  split
  · exact Nat.le_refl 2
  · next hspecial =>
      have hprint : ¬ isPrint beyondASCII c = true := by
        intro hprint
        simp [isPlainRune, hprint] at h
        simp at hspecial
        exact hspecial.2 (h hspecial.1)
      rw [if_neg hprint]
      exact two_le_length_escape c

theorem digitChar_ne_quote {n : Nat} (h : n < 16) : '"' ≠ Nat.digitChar n := by
  revert n
  decide

theorem quote_notMem_hexDigits (width n : Nat) : '"' ∉ hexDigits width n := by
  induction width generalizing n with
  | zero => exact List.not_mem_nil
  | succ width ih => simp [hexDigits, ih, digitChar_ne_quote (Nat.mod_lt n (by decide : 0 < 16))]

/-- Only a quote brings one in. -/
theorem quote_notMem_escapedRune (h : c ≠ '"') : '"' ∉ escapedRune beyondASCII c := by
  unfold escapedRune
  split
  · simp [h.symm]
  · split
    · simp [h.symm]
    · unfold escape
      split_ifs <;> simp [quote_notMem_hexDigits]

theorem quotedBody_append (s t : List Char) :
    quotedBody beyondASCII (s ++ t) = quotedBody beyondASCII s ++ quotedBody beyondASCII t :=
  List.flatMap_append

theorem quote_notMem_quotedBody (h : '"' ∉ s) : '"' ∉ quotedBody beyondASCII s := by
  intro hmem
  obtain ⟨c, hc, hquote⟩ := List.mem_flatMap.1 hmem
  exact quote_notMem_escapedRune (fun heq => h (heq ▸ hc)) hquote

theorem length_le_quotedBody (beyondASCII : Char → Bool) (s : List Char) :
    s.length ≤ (quotedBody beyondASCII s).length := by
  induction s with
  | nil => exact Nat.le_refl 0
  | cons c s ih =>
      have hone : 1 ≤ (escapedRune beyondASCII c).length := by
        cases h : isPlainRune beyondASCII c with
        | true => rw [escapedRune_of_plain h]; exact Nat.le_refl 1
        | false => exact Nat.le_of_succ_le (two_le_length_escapedRune h)
      simp only [quotedBody, List.flatMap_cons, List.length_append, List.length_cons] at ih ⊢
      omega

theorem quotedBody_of_plain (h : s.all (isPlainRune beyondASCII) = true) :
    quotedBody beyondASCII s = s := by
  induction s with
  | nil => rfl
  | cons c s ih =>
      obtain ⟨hc, hs⟩ := Bool.and_eq_true_iff.1 (List.all_cons ▸ h)
      have hrest : s.flatMap (escapedRune beyondASCII) = s := ih hs
      rw [quotedBody, List.flatMap_cons, escapedRune_of_plain hc, hrest]
      rfl

/-- A body is as long as the string only where every character is written as it is. -/
theorem plain_of_length (h : (quotedBody beyondASCII s).length = s.length) :
    s.all (isPlainRune beyondASCII) = true := by
  induction s with
  | nil => rfl
  | cons c s ih =>
      have hle := length_le_quotedBody beyondASCII s
      simp only [quotedBody, List.flatMap_cons, List.length_append, List.length_cons] at h hle ih
      cases hc : isPlainRune beyondASCII c with
      | true =>
          rw [escapedRune_of_plain hc, List.length_singleton] at h
          rw [List.all_cons, hc, ih (by omega)]
          rfl
      | false =>
          have htwo := two_le_length_escapedRune hc
          omega

end Go
end Pgaio
