import Mathlib.Data.Finset.Card
import Mathlib.Logic.Relation

/-!
# Visits — what a descent without repetition reaches

A recursive descent through a graph hands the vertices on its way down to its calls and stops at a
vertex that it has met already.  `Visits children seen a v` says that the descent from `a` meets `v`.
Stopping loses nothing: from an empty way the descent meets exactly what is reachable (`visits_iff`).

`unseen` counts the vertices that are not yet on the way; it bounds the depth of the descent.
-/

namespace Pgaio
namespace Graph

variable {α : Type} {children : α → List α}

/-- The descent from `a` below the vertices `seen` meets `v`. -/
inductive Visits (children : α → List α) : List α → α → α → Prop where
  | here {seen : List α} {a : α} : Visits children seen a a
  | descend {seen : List α} {a c v : α} :
      a ∉ seen → c ∈ children a → Visits children (a :: seen) c v → Visits children seen a v

/-- What is met is reachable. -/
theorem Visits.reachable {seen : List α} {a v : α} (h : Visits children seen a v) :
    Relation.ReflTransGen (fun x y => y ∈ children x) a v := by
  induction h with
  | here => exact Relation.ReflTransGen.refl
  | descend _ hc _ ih => exact Relation.ReflTransGen.head hc ih

/-- A child of a vertex that was met is met, unless the vertex was on the way before the descent. -/
theorem Visits.child {seen : List α} {a u v : α} (h : Visits children seen a u) (hu : u ∉ seen)
    (hv : v ∈ children u) : Visits children seen a v := by
  induction h with
  | here => exact .descend hu hv .here
  | @descend seen a c u ha hc _ ih =>
      by_cases hua : u = a
      · -- `u` repeats the vertex that the descent came from, so its children are met there.
        subst hua
        exact .descend ha hv .here
      · refine .descend ha hc (ih ?_ hv)
        intro hmem
        rcases List.mem_cons.1 hmem with heq | hold
        · exact hua heq
        · exact hu hold

theorem visits_iff {a v : α} :
    Visits children [] a v ↔ Relation.ReflTransGen (fun x y => y ∈ children x) a v := by
  constructor
  · exact Visits.reachable
  · intro h
    induction h with
    | refl => exact .here
    | tail _ hv ih => exact ih.child (List.not_mem_nil) hv

/-- One step of the descent. -/
theorem visits_cases {seen : List α} {a v : α} :
    Visits children seen a v ↔
      v = a ∨ (a ∉ seen ∧ ∃ c ∈ children a, Visits children (a :: seen) c v) := by
  constructor
  · intro h
    cases h with
    | here => exact Or.inl rfl
    | descend ha hc hv => exact Or.inr ⟨ha, _, hc, hv⟩
  · rintro (rfl | ⟨ha, c, hc, hv⟩)
    · exact .here
    · exact .descend ha hc hv

/-! ## The depth of the descent -/

variable [DecidableEq α]

/-- The number of vertices that are not yet on the way. -/
def unseen (vertices seen : List α) : Nat :=
  (vertices.toFinset \ seen.toFinset).card

theorem unseen_cons_lt {vertices seen : List α} {a : α} (ha : a ∈ vertices) (hseen : a ∉ seen) :
    unseen vertices (a :: seen) < unseen vertices seen := by
  unfold unseen
  rw [List.toFinset_cons, Finset.sdiff_insert]
  exact Finset.card_erase_lt_of_mem (by simp [ha, hseen])

theorem unseen_le (vertices seen : List α) : unseen vertices seen ≤ vertices.length :=
  calc unseen vertices seen
      ≤ vertices.toFinset.card := Finset.card_le_card Finset.sdiff_subset
    _ ≤ vertices.length := List.toFinset_card_le vertices

/-- Fuel that is enough for every way. -/
theorem unseen_lt_succ (vertices seen : List α) : unseen vertices seen < vertices.length + 1 :=
  Nat.lt_succ_of_le (unseen_le vertices seen)

end Graph
end Pgaio
