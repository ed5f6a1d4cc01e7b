import Mathlib.Data.List.Basic

/-!
# Slices — bounded histories and sorting

The backend keeps several histories of which only the latest entries count:
`xs = append(xs, x); if len(xs) > n { xs = xs[len(xs)-n:] }`.  The last section is about assigning to
one index.
-/

namespace Pgaio
namespace Go

variable {α : Type}

/-- Append `x` and drop what exceeds the last `n` elements. -/
def appendKeeping (n : Nat) (xs : List α) (x : α) : List α :=
  let xs := xs ++ [x]
  if n < xs.length then xs.drop (xs.length - n) else xs

/-- The new element is the last one. -/
theorem getLast?_appendKeeping {n : Nat} (hn : 0 < n) (xs : List α) (x : α) :
    (appendKeeping n xs x).getLast? = some x := by
  unfold appendKeeping
  dsimp only
  split
  · rw [List.getLast?_drop, if_neg, List.getLast?_concat]
    omega
  · exact List.getLast?_concat

/-- The last `n` elements, or all if there are fewer. -/
def lastN (n : Nat) (xs : List α) : List α :=
  xs.drop (xs.length - n)

theorem length_lastN (n : Nat) (xs : List α) : (lastN n xs).length = min n xs.length := by
  rw [lastN, List.length_drop]
  omega

theorem getElem?_lastN {n i : Nat} (xs : List α) (hi : xs.length - n ≤ i) :
    (lastN n xs)[i - (xs.length - n)]? = xs[i]? := by
  rw [lastN, List.getElem?_drop, Nat.add_sub_cancel' hi]

/-- The last elements are those of an initial part exactly when each of them stands once more, as many
places before it as the initial part is shorter. -/
theorem lastN_take_iff (n : Nat) {k : Nat} {xs : List α} (hk : k ≤ xs.length) :
    lastN n (xs.take k) = lastN n xs ↔
      ∀ i, xs.length - n ≤ i → i < xs.length →
        xs.length - k ≤ i ∧ xs[i]? = xs[i - (xs.length - k)]? := by
  have hlength : (xs.take k).length = k := List.length_take_of_le hk
  constructor
  · intro h i hlow hhigh
    -- The lengths leave room for all `n` elements before place `k`.
    have hlengths := congrArg List.length h
    rw [length_lastN, length_lastN, hlength] at hlengths
    have hshift : k - n ≤ i - (xs.length - k) := by omega
    have hplace : i - (xs.length - n) = i - (xs.length - k) - (k - n) := by omega
    refine ⟨by omega, ?_⟩
    calc
      xs[i]? = (lastN n xs)[i - (xs.length - n)]? := (getElem?_lastN xs hlow).symm
      _ = (lastN n (xs.take k))[i - (xs.length - k) - ((xs.take k).length - n)]? := by
            rw [h, hlength, hplace]
      _ = (xs.take k)[i - (xs.length - k)]? := getElem?_lastN _ (by rwa [hlength])
      _ = xs[i - (xs.length - k)]? := List.getElem?_take_of_lt (by omega)
  · intro h
    by_cases hn : n = 0
    · subst hn
      rw [lastN, lastN, Nat.sub_zero, Nat.sub_zero, List.drop_length, List.drop_length]
    · by_cases hempty : xs.length = 0
      · rw [List.length_eq_zero_iff.1 hempty, List.take_nil]
      · -- The first of the last elements is not the copy of one before the list.
        have hfirst := (h (xs.length - n) (Nat.le_refl _) (by omega)).1
        apply List.ext_getElem?
        intro j
        rw [lastN, lastN, List.getElem?_drop, List.getElem?_drop, hlength]
        by_cases hj : xs.length - n + j < xs.length
        · have hcopy := (h (xs.length - n + j) (by omega) hj).2
          have hplace : xs.length - n + j - (xs.length - k) = k - n + j := by omega
          rw [hcopy, hplace, List.getElem?_take_of_lt (by omega)]
        · have hnone : (xs.take k)[k - n + j]? = none :=
            List.getElem?_eq_none (by rw [hlength]; omega)
          rw [hnone]
          exact (List.getElem?_eq_none (by omega)).symm

/-- Dropping at every append leaves what dropping once in the end leaves. -/
theorem appendKeeping_lastN (n : Nat) (xs : List α) (x : α) :
    appendKeeping n (lastN n xs) x = lastN n (xs ++ [x]) := by
  have hlength : (lastN n xs ++ [x]).length = min n xs.length + 1 := by
    rw [List.length_append, List.length_singleton, length_lastN]
  have hdrop : lastN n xs ++ [x] = (xs ++ [x]).drop (xs.length - n) := by
    rw [lastN, List.drop_append_of_le_length (Nat.sub_le _ _)]
  unfold appendKeeping
  dsimp only
  rw [hlength]
  split
  · rename_i hfull
    rw [hdrop, List.drop_drop, lastN, List.length_append, List.length_singleton]
    congr 1
    omega
  · rename_i hroom
    rw [hdrop, lastN, List.length_append, List.length_singleton]
    congr 1
    omega

/-- `sort.SliceStable`. -/
def sortSliceStable (less : α → α → Bool) (xs : List α) : List α :=
  xs.mergeSort fun a b => !less b a

/-- What is in order stays as it is. -/
theorem sortSliceStable_of_pairwise {less : α → α → Bool} {xs : List α}
    (h : xs.Pairwise fun a b => less b a = false) : sortSliceStable less xs = xs :=
  List.mergeSort_of_pairwise (h.imp fun hab => by simp [hab])

/-! ## Assigning to an index -/

theorem getElem?_of_set {xs : List α} {i j : Nat} {x y : α} (h : (xs.set i x)[j]? = some y) :
    (j = i ∧ y = x) ∨ (j ≠ i ∧ xs[j]? = some y) := by
  by_cases hij : i = j
  · subst hij
    have hi : i < xs.length := by
      simpa using (List.getElem?_eq_some_iff.1 h).1
    rw [List.getElem?_set_self hi, Option.some.injEq] at h
    exact Or.inl ⟨rfl, h.symm⟩
  · rw [List.getElem?_set_ne hij] at h
    exact Or.inr ⟨Ne.symm hij, h⟩

/-- What was at `j` before is there still, or it has been replaced. -/
theorem getElem?_set_cases {xs : List α} {i j : Nat} {x y : α} (hi : xs[i]? = some x)
    (hj : xs[j]? = some y) (x' : α) :
    (i = j ∧ x = y ∧ (xs.set i x')[j]? = some x') ∨ (i ≠ j ∧ (xs.set i x')[j]? = some y) := by
  by_cases hij : i = j
  · subst hij
    refine Or.inl ⟨rfl, Option.some.inj (hi.symm.trans hj), ?_⟩
    exact List.getElem?_set_self (List.getElem?_eq_some_iff.1 hi).1
  · exact Or.inr ⟨hij, (List.getElem?_set_ne hij).trans hj⟩

end Go
end Pgaio
