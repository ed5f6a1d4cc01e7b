import Pgaio.Go.Numbers
import Pgaio.Go.Split
import Mathlib.Data.Prod.Lex

/-!
# LSN — positions in the WAL

`parseLSN` of `service/monitor.go`.  A position is written as two hexadecimal numbers of 32 bits with a
slash between them, and counts bytes in 64 bits.  The numbers are in the order of the pairs
(`parseLSN_orderIso`), so a position that has advanced is a greater number, also where the upper half has
changed.
-/

namespace Pgaio
namespace Service

open Go Text

inductive LSNError where
  /-- `invalid LSN: …`. -/
  | invalid (lsn : String)
  | number (err : NumError)
  deriving DecidableEq, Repr

def maxUint32 : Nat := 2 ^ 32 - 1

def parseLSNPart (num : String) : Except LSNError Nat :=
  (parseUint 16 maxUint32 num).mapError .number

def parseLSN (lsn : String) : Except LSNError Nat :=
  match (trimSpace lsn).toList.splitOn '/' with
  | [hi, lo] => do
      let hi ← parseLSNPart (String.ofList hi)
      let lo ← parseLSNPart (String.ofList lo)
      -- In 64 bits, as the source computes it.
      return ((UInt64.ofNat hi <<< 32) + UInt64.ofNat lo).toNat
  | _ => .error (.invalid lsn)

/-- The output of the type `pg_lsn`. -/
def formatLSN (lsn : Nat) : String :=
  upperHex (lsn / 2 ^ 32) ++ "/" ++ upperHex (lsn % 2 ^ 32)

/-- The text denotes the position with these halves. -/
def DenotesLSN (lsn : String) (hi lo : Nat) : Prop :=
  ∃ hiText loText : String, trimSpace lsn = hiText ++ "/" ++ loText ∧
    Numeral 16 hiText.toList hi ∧ Numeral 16 loText.toList lo ∧ hi < 2 ^ 32 ∧ lo < 2 ^ 32

/-- Reading positions: the texts that denote a pair of halves are accepted, a pair has one number of 64 bits
however it is written, and the numbers are in the lexicographic order of the pairs. -/
structure ReadsPositions (read : String → Except LSNError Nat) : Prop where
  accepts : ∀ lsn, (∃ v, read lsn = .ok v) ↔ ∃ hi lo, DenotesLSN lsn hi lo
  value : ∀ lsn hi lo, DenotesLSN lsn hi lo → read lsn = .ok (hi * 2 ^ 32 + lo)
  bounded : ∀ lsn v, read lsn = .ok v → v < 2 ^ 64
  written : ∀ (hiText loText : String) (hi lo : Nat), Numeral 16 hiText.toList hi →
    Numeral 16 loText.toList lo → hi < 2 ^ 32 → lo < 2 ^ 32 →
      read (hiText ++ "/" ++ loText) = .ok (hi * 2 ^ 32 + lo)
  strictMono : ∀ lsn lsn' hi lo hi' lo' v v', DenotesLSN lsn hi lo → DenotesLSN lsn' hi' lo' →
    read lsn = .ok v → read lsn' = .ok v' → (v < v' ↔ toLex (hi, lo) < toLex (hi', lo'))
  spelling : ∀ (hiText loText hiText' loText' : String) (hi lo i j : Nat),
    Numeral 16 hiText.toList hi → Numeral 16 loText.toList lo → hi < 2 ^ 32 → lo < 2 ^ 32 →
      hiText'.toList.map Char.toLower = (List.replicate i '0' ++ hiText.toList).map Char.toLower →
        loText'.toList.map Char.toLower = (List.replicate j '0' ++ loText.toList).map Char.toLower →
          read (hiText' ++ "/" ++ loText') = read (hiText ++ "/" ++ loText)

/-! ## Acceptance -/

theorem parseLSNPart_eq_ok_iff {num : String} {n : Nat} :
    parseLSNPart num = .ok n ↔ Numeral 16 num.toList n ∧ n < 2 ^ 32 := by
  have hmax : n ≤ maxUint32 ↔ n < 2 ^ 32 := Nat.le_sub_one_iff_lt (by decide)
  rw [← hmax, ← parseUint_eq_ok_iff, parseLSNPart]
  cases parseUint 16 maxUint32 num with
  | error err => exact iff_of_false (fun h => by cases h) (fun h => by cases h)
  | ok m =>
      constructor
      · intro h
        cases h
        rfl
      · intro h
        cases h
        rfl

/-- The halves do not overlap, and together they fit into 64 bits. -/
theorem toNat_position {hi lo : Nat} (hhi : hi < 2 ^ 32) (hlo : lo < 2 ^ 32) :
    ((UInt64.ofNat hi <<< 32) + UInt64.ofNat lo).toNat = hi * 2 ^ 32 + lo := by
  have hhi64 : (UInt64.ofNat hi).toNat = hi := UInt64.toNat_ofNat_of_lt (hhi.trans (by decide))
  have hlo64 : (UInt64.ofNat lo).toNat = lo := UInt64.toNat_ofNat_of_lt (hlo.trans (by decide))
  have hshift : (UInt64.ofNat hi <<< 32).toNat = hi * 2 ^ 32 := by
    have hfits : hi * 2 ^ 32 < 2 ^ 64 := by omega
    have hcount : (32 : UInt64).toNat % 64 = 32 := rfl
    rw [UInt64.toNat_shiftLeft, hhi64, hcount, Nat.shiftLeft_eq, Nat.mod_eq_of_lt hfits]
  rw [UInt64.toNat_add, hshift, hlo64, Nat.mod_eq_of_lt (by omega)]

theorem slash_notMem {base n : Nat} {text : List Char} (h : Numeral base text n) : '/' ∉ text := by
  intro hmem
  obtain ⟨d, hd⟩ := h.isDigit_of_mem hmem
  cases hd.1

theorem parseLSN_of_denotes {lsn : String} {hi lo : Nat} (h : DenotesLSN lsn hi lo) :
    parseLSN lsn = .ok (hi * 2 ^ 32 + lo) := by
  obtain ⟨hiText, loText, htext, hhi, hlo, hhiMax, hloMax⟩ := h
  have hsplit : (trimSpace lsn).toList.splitOn '/' = [hiText.toList, loText.toList] := by
    have hlist : (trimSpace lsn).toList = hiText.toList ++ '/' :: loText.toList := by
      rw [htext]
      simp
    rw [hlist, List.splitOn_append_cons_self_of_not_mem (slash_notMem hhi),
      List.splitOn_eq_singleton (slash_notMem hlo)]
  have hhiPart : parseLSNPart hiText = .ok hi := parseLSNPart_eq_ok_iff.2 ⟨hhi, hhiMax⟩
  have hloPart : parseLSNPart loText = .ok lo := parseLSNPart_eq_ok_iff.2 ⟨hlo, hloMax⟩
  unfold parseLSN
  rw [hsplit]
  simp only [String.ofList_toList, hhiPart, hloPart]
  exact congrArg Except.ok (toNat_position hhiMax hloMax)

theorem denotes_of_parseLSN {lsn : String} {v : Nat} (h : parseLSN lsn = .ok v) :
    ∃ hi lo, DenotesLSN lsn hi lo ∧ v = hi * 2 ^ 32 + lo := by
  unfold parseLSN at h
  split at h
  · rename_i hiText loText hsplit
    cases hhi : parseLSNPart (String.ofList hiText) with
    | error err =>
        rw [hhi] at h
        cases h
    | ok hi =>
        cases hlo : parseLSNPart (String.ofList loText) with
        | error err =>
            rw [hhi, hlo] at h
            cases h
        | ok lo =>
            rw [hhi, hlo] at h
            obtain ⟨hhiNum, hhiMax⟩ := parseLSNPart_eq_ok_iff.1 hhi
            obtain ⟨hloNum, hloMax⟩ := parseLSNPart_eq_ok_iff.1 hlo
            refine ⟨hi, lo, ⟨String.ofList hiText, String.ofList loText, ?_, hhiNum, hloNum, hhiMax,
              hloMax⟩, ?_⟩
            · -- The pieces give the text again.
              have hjoin : ['/'].intercalate ((trimSpace lsn).toList.splitOn '/') = (trimSpace lsn).toList :=
                List.intercalate_splitOn '/'
              rw [hsplit] at hjoin
              rw [← String.toList_inj, ← hjoin]
              simp [List.intercalate]
            · rw [← toNat_position hhiMax hloMax]
              exact (Except.ok.inj h).symm
  · cases h

/-- Two numerals with a slash between them denote their pair. -/
theorem denotesLSN_numerals {hiText loText : String} {hi lo : Nat} (hhi : Numeral 16 hiText.toList hi)
    (hlo : Numeral 16 loText.toList lo) (hhiMax : hi < 2 ^ 32) (hloMax : lo < 2 ^ 32) :
    DenotesLSN (hiText ++ "/" ++ loText) hi lo := by
  refine ⟨hiText, loText, trimSpace_eq_self fun c hc => ?_, hhi, hlo, hhiMax, hloMax⟩
  have hmem : c ∈ hiText.toList ∨ c = '/' ∨ c ∈ loText.toList := by
    simpa [or_assoc] using hc
  rcases hmem with hmem | rfl | hmem
  · obtain ⟨d, hd⟩ := hhi.isDigit_of_mem hmem
    exact isSpace_of_isDigit hd
  · rfl
  · obtain ⟨d, hd⟩ := hlo.isDigit_of_mem hmem
    exact isSpace_of_isDigit hd

/-- What the server prints is read back. -/
theorem parseLSN_formatLSN {lsn : Nat} (h : lsn < 2 ^ 64) : parseLSN (formatLSN lsn) = .ok lsn := by
  have hdenotes : DenotesLSN (formatLSN lsn) (lsn / 2 ^ 32) (lsn % 2 ^ 32) :=
    denotesLSN_numerals (numeral_upperHex _) (numeral_upperHex _) (by omega) (by omega)
  rw [parseLSN_of_denotes hdenotes, Nat.div_add_mod' lsn (2 ^ 32)]

/-! ## Order -/

/-- A number in base `base` whose lower digit is below the base is ordered by its digits. -/
theorem mul_add_lt_iff {base hi lo hi' lo' : Nat} (hlo : lo < base) (hlo' : lo' < base) :
    hi * base + lo < hi' * base + lo' ↔ toLex (hi, lo) < toLex (hi', lo') := by
  rw [Prod.Lex.toLex_lt_toLex]
  dsimp only
  rcases Nat.lt_trichotomy hi hi' with hlt | rfl | hgt
  · have hnext : (hi + 1) * base ≤ hi' * base := Nat.mul_le_mul_right base hlt
    rw [Nat.succ_mul] at hnext
    exact iff_of_true (by omega) (.inl hlt)
  · -- Equal upper digits: the lower ones decide.
    constructor
    · intro h
      exact .inr ⟨rfl, by omega⟩
    · rintro (h | ⟨-, h⟩)
      · exact absurd h (Nat.lt_irrefl _)
      · omega
  · have hnext : (hi' + 1) * base ≤ hi * base := Nat.mul_le_mul_right base hgt
    rw [Nat.succ_mul] at hnext
    refine iff_of_false (by omega) ?_
    rintro (h | ⟨h, -⟩)
    · omega
    · omega

theorem denotesLSN_lt {lsn : String} {hi lo : Nat} (h : DenotesLSN lsn hi lo) :
    hi < 2 ^ 32 ∧ lo < 2 ^ 32 := by
  obtain ⟨_, _, _, _, _, hhi, hlo⟩ := h
  exact ⟨hhi, hlo⟩

theorem parseLSN_orderIso : ReadsPositions parseLSN where
  accepts := by
    intro lsn
    constructor
    · rintro ⟨v, hv⟩
      obtain ⟨hi, lo, hdenotes, -⟩ := denotes_of_parseLSN hv
      exact ⟨hi, lo, hdenotes⟩
    · rintro ⟨hi, lo, hdenotes⟩
      exact ⟨_, parseLSN_of_denotes hdenotes⟩
  value := fun _ _ _ => parseLSN_of_denotes
  bounded := by
    intro lsn v hv
    obtain ⟨hi, lo, hdenotes, rfl⟩ := denotes_of_parseLSN hv
    obtain ⟨hhi, hlo⟩ := denotesLSN_lt hdenotes
    omega
  written := fun _ _ _ _ hhi hlo hhiMax hloMax =>
    parseLSN_of_denotes (denotesLSN_numerals hhi hlo hhiMax hloMax)
  strictMono := by
    intro lsn lsn' hi lo hi' lo' v v' hdenotes hdenotes' hv hv'
    rw [parseLSN_of_denotes hdenotes] at hv
    rw [parseLSN_of_denotes hdenotes'] at hv'
    obtain rfl := Except.ok.inj hv
    obtain rfl := Except.ok.inj hv'
    exact mul_add_lt_iff (denotesLSN_lt hdenotes).2 (denotesLSN_lt hdenotes').2
  spelling := by
    intro hiText loText hiText' loText' hi lo i j hhi hlo hhiMax hloMax hhiSame hloSame
    -- Both spellings denote the pair that the plain one denotes.
    have hhi' : Numeral 16 hiText'.toList hi :=
      (hhi.replicate_zero (by decide) i).of_toLower_eq hhiSame
    have hlo' : Numeral 16 loText'.toList lo :=
      (hlo.replicate_zero (by decide) j).of_toLower_eq hloSame
    rw [parseLSN_of_denotes (denotesLSN_numerals hhi hlo hhiMax hloMax),
      parseLSN_of_denotes (denotesLSN_numerals hhi' hlo' hhiMax hloMax)]

example : parseLSN " 0000001a/fF000000\n" = .ok 0x1aff000000 := by decide +kernel

end Service
end Pgaio
