import Mathlib.Data.List.Basic
import Mathlib.Data.List.Infix

/-!
# Replace — replacing a text wherever it occurs

`replaceText pat new` goes through a text and replaces the occurrences of `pat` that it meets, leftmost
first.  A rule whose replacement is shorter than its pattern shortens a text exactly when the pattern
occurs (`length_replaceText_lt`), so a chain of such rules keeps the length of a text only where none
of them applies (`length_le_replaceEach_iff`).  Rules for single characters act on each character by
itself (`replaceEach_append`).
-/

namespace Pgaio
namespace Text

variable {α : Type} [DecidableEq α]

/-- Go on after the next `skip` characters, which belong to an occurrence. -/
def replaceText (pat new : List α) : Nat → List α → List α
  | _, [] => []
  | skip + 1, _ :: rest => replaceText pat new skip rest
  | 0, c :: rest =>
      -- Nothing is looked for inside of an occurrence or of its replacement.
      if pat.isPrefixOf (c :: rest) then new ++ replaceText pat new (pat.length - 1) rest
      else c :: replaceText pat new 0 rest

/-- One rule after the other. -/
def replaceEach (rules : List (List α × List α)) (s : List α) : List α :=
  rules.foldl (fun s rule => replaceText rule.1 rule.2 0 s) s

@[simp] theorem replaceEach_nil (s : List α) : replaceEach [] s = s := rfl

@[simp] theorem replaceEach_cons (rule : List α × List α) (rules : List (List α × List α))
    (s : List α) :
    replaceEach (rule :: rules) s = replaceEach rules (replaceText rule.1 rule.2 0 s) := rfl

/-! ## Rules that shorten -/

section

variable {pat new : List α}

theorem replaceText_of_absent {s : List α} (h : ¬ pat <:+: s) : replaceText pat new 0 s = s := by
  induction s with
  | nil => rfl
  | cons c s ih =>
      have hhead : ¬ pat <+: c :: s := fun hprefix => h hprefix.isInfix
      have htail : ¬ pat <:+: s := fun hlater => h (hlater.trans (List.suffix_cons c s).isInfix)
      rw [replaceText, if_neg (by simpa using hhead), ih htail]

theorem length_replaceText_le (hnew : new.length ≤ pat.length) (hpat : pat ≠ []) (skip : Nat)
    (s : List α) : (replaceText pat new skip s).length ≤ s.length - skip := by
  induction s generalizing skip with
  | nil => simp [replaceText]
  | cons c s ih =>
      cases skip with
      | succ skip =>
          rw [replaceText]
          have hrest := ih skip
          simp only [List.length_cons]
          omega
      | zero =>
          rw [replaceText]
          split
          · -- The replacement pays for itself with the occurrence, which lies in the text.
            rename_i hprefix
            have hlength := (List.isPrefixOf_iff_prefix.1 hprefix).length_le
            have hpos := List.length_pos_of_ne_nil hpat
            have hrest := ih (pat.length - 1)
            simp only [List.length_append, List.length_cons] at hlength ⊢
            omega
          · have hrest := ih 0
            simp only [List.length_cons]
            omega

theorem length_replaceText_lt (hnew : new.length < pat.length) {s : List α} (h : pat <:+: s) :
    (replaceText pat new 0 s).length < s.length := by
  have hpat : pat ≠ [] := by
    rintro rfl
    cases hnew
  induction s with
  | nil => exact absurd (List.infix_nil.1 h) hpat
  | cons c s ih =>
      rw [replaceText]
      split
      · rename_i hprefix
        have hlength := (List.isPrefixOf_iff_prefix.1 hprefix).length_le
        have hrest := length_replaceText_le hnew.le hpat (pat.length - 1) s
        simp only [List.length_append, List.length_cons] at hlength ⊢
        omega
      · -- The occurrence lies in the rest.
        rename_i hprefix
        rcases List.infix_cons_iff.1 h with hhead | htail
        · exact absurd (List.isPrefixOf_iff_prefix.2 hhead) hprefix
        · have hrest := ih htail
          simp only [List.length_cons]
          omega

end

variable {rules : List (List α × List α)}

/-- The rules whose replacement is shorter than what it replaces. -/
def Shortens (rules : List (List α × List α)) : Prop :=
  ∀ rule ∈ rules, rule.2.length < rule.1.length

theorem length_replaceEach_le (h : Shortens rules) (s : List α) :
    (replaceEach rules s).length ≤ s.length := by
  induction rules generalizing s with
  | nil => exact le_rfl
  | cons rule rules ih =>
      have hrule : rule.2.length < rule.1.length := h rule List.mem_cons_self
      have hne : rule.1 ≠ [] := by
        intro hnil
        rw [hnil] at hrule
        cases hrule
      calc (replaceEach (rule :: rules) s).length
          ≤ (replaceText rule.1 rule.2 0 s).length :=
            ih (fun r hr => h r (List.mem_cons_of_mem _ hr)) _
        _ ≤ s.length := length_replaceText_le hrule.le hne 0 s

/-- Shortening rules keep the length only where none of them applies. -/
theorem length_le_replaceEach_iff (h : Shortens rules) {s : List α} :
    s.length ≤ (replaceEach rules s).length ↔ ∀ rule ∈ rules, ¬ rule.1 <:+: s := by
  induction rules with
  | nil => simp
  | cons rule rules ih =>
      have hrules : Shortens rules := fun r hr => h r (List.mem_cons_of_mem _ hr)
      rw [replaceEach_cons, List.forall_mem_cons]
      by_cases hoccurs : rule.1 <:+: s
      · -- What this rule takes away no later rule gives back.
        have hshort := length_replaceText_lt (h rule List.mem_cons_self) hoccurs
        have hrest := length_replaceEach_le hrules (replaceText rule.1 rule.2 0 s)
        constructor
        · intro hlength
          omega
        · rintro ⟨hnot, -⟩
          exact absurd hoccurs hnot
      · rw [replaceText_of_absent hoccurs, ih hrules]
        exact (and_iff_right hoccurs).symm

theorem replaceEach_of_absent {s : List α} (h : ∀ rule ∈ rules, ¬ rule.1 <:+: s) :
    replaceEach rules s = s := by
  induction rules with
  | nil => rfl
  | cons rule rules ih =>
      rw [replaceEach_cons, replaceText_of_absent (h rule List.mem_cons_self)]
      exact ih fun r hr => h r (List.mem_cons_of_mem _ hr)

/-! ## Rules for single characters -/

theorem replaceText_singleton (c : α) (new s : List α) :
    replaceText [c] new 0 s = s.flatMap fun d => if d = c then new else [d] := by
  induction s with
  | nil => rfl
  | cons d s ih =>
      rw [replaceText, List.flatMap_cons]
      by_cases hd : d = c
      · simp [hd, ih]
      · simp [hd, Ne.symm hd, ih]

theorem replaceEach_append (h : ∀ rule ∈ rules, ∃ c, rule.1 = [c]) (xs ys : List α) :
    replaceEach rules (xs ++ ys) = replaceEach rules xs ++ replaceEach rules ys := by
  induction rules generalizing xs ys with
  | nil => rfl
  | cons rule rules ih =>
      obtain ⟨c, hc⟩ := h rule List.mem_cons_self
      have hsplit : replaceText rule.1 rule.2 0 (xs ++ ys) =
          replaceText rule.1 rule.2 0 xs ++ replaceText rule.1 rule.2 0 ys := by
        rw [hc, replaceText_singleton, replaceText_singleton, replaceText_singleton,
          List.flatMap_append]
      rw [replaceEach_cons, hsplit, ih fun r hr => h r (List.mem_cons_of_mem _ hr)]
      rfl

example : replaceText "ab".toList "c".toList 0 "aabab".toList = "acc".toList := by decide

end Text
end Pgaio
