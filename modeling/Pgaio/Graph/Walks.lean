import Mathlib.Algebra.GroupWithZero.Nat
import Mathlib.Algebra.BigOperators.Group.Finset.Basic
import Mathlib.Algebra.Order.BigOperators.Group.Finset
import Mathlib.Data.Nat.Factorial.Basic
import Mathlib.Data.Finset.Option
import Pgaio.Graph.Visits

/-!
# Walks — how often a descent without repetition is called

A recursive descent that copies the way into each of its calls takes every walk that repeats no
vertex before its end (`mem_walks`).  `walks` lists these walks, so its length is the number of
calls.  When every vertex has at most one parent there is at most one walk for each edge
(`length_walks_le_edges`); in general there are at most two to the number of edges
(`length_walks_le_two_pow`), and where all vertices are linked at least the factorial of their
number (`factorial_le_length_walks`).
-/

namespace Pgaio
namespace Graph

variable {α : Type}

/-- A walk that begins as `start`, with its end first; only the end may repeat a vertex. -/
inductive Walk (step : α → α → Prop) (start : List α) : List α → Prop where
  | start : Walk step start start
  | step {seen : List α} {a c : α} :
      Walk step start (a :: seen) → a ∉ seen → step a c → Walk step start (c :: a :: seen)

section Relation

variable {step : α → α → Prop}

theorem Walk.suffix {start walk : List α} (h : Walk step start walk) : start <:+ walk := by
  induction h with
  | start => exact List.suffix_rfl
  | step _ _ _ ih => exact ih.trans (List.suffix_cons _ _)

/-- A walk may be begun one step earlier. -/
theorem Walk.earlier {seen walk : List α} {a c : α} (h : Walk step (c :: a :: seen) walk)
    (ha : a ∉ seen) (hc : step a c) : Walk step (a :: seen) walk := by
  induction h with
  | start => exact .step .start ha hc
  | step _ hseen hstep ih => exact .step ih hseen hstep

/-- The first step of a walk. -/
theorem walk_cases {seen walk : List α} {a : α} :
    Walk step (a :: seen) walk ↔
      walk = a :: seen ∨ (a ∉ seen ∧ ∃ c, step a c ∧ Walk step (c :: a :: seen) walk) := by
  constructor
  · intro h
    induction h with
    | start => exact Or.inl rfl
    | @step seen' b c _ hb hc ih =>
        rcases ih with heq | ⟨ha, d, hd, hwalk⟩
        · -- The step is the first one.
          obtain ⟨rfl, rfl⟩ := List.cons.inj heq
          exact Or.inr ⟨hb, c, hc, .start⟩
        · exact Or.inr ⟨ha, d, hd, .step hwalk hb hc⟩
  · rintro (rfl | ⟨ha, c, hc, hwalk⟩)
    · exact .start
    · exact hwalk.earlier ha hc

/-! ## At most one parent -/

/-- With at most one parent for each vertex, the walk to a new vertex is determined by it. -/
theorem Walk.unique (hparent : ∀ a b c, step a c → step b c → a = b) {root a : α}
    {seen seen' : List α} (h : Walk step [root] (a :: seen)) (h' : Walk step [root] (a :: seen'))
    (ha : a ∉ seen) (ha' : a ∉ seen') : seen = seen' := by
  induction seen generalizing a seen' with
  | nil =>
      -- `a` is the root, which every longer walk has met already.
      have hroot : a = root := by
        cases h
        rfl
      cases h' with
      | start => rfl
      | step hwalk _ _ => exact absurd (hroot ▸ hwalk.suffix.subset List.mem_cons_self) ha'
  | cons b seen ih =>
      cases h with
      | step hwalk hb hstep =>
          -- The last step of both comes from the one parent of `a`.
          cases h' with
          | start => exact absurd (hwalk.suffix.subset List.mem_cons_self) ha
          | @step rest b' _ hwalk' hb' hstep' =>
              obtain rfl := hparent b b' a hstep hstep'
              rw [ih hwalk hwalk' hb hb']

/-- The last edge of a walk; none when it has not made a step. -/
def lastEdge : List α → Option (α × α)
  | c :: a :: _ => some (a, c)
  | _ => none

theorem Walk.eq_of_lastEdge (hparent : ∀ a b c, step a c → step b c → a = b) {root : α}
    {walk walk' : List α} (h : Walk step [root] walk) (h' : Walk step [root] walk')
    (hlast : lastEdge walk = lastEdge walk') : walk = walk' := by
  cases h with
  | start =>
      cases h' with
      | start => rfl
      | step _ _ _ => simp [lastEdge] at hlast
  | step hwalk ha _ =>
      cases h' with
      | start => simp [lastEdge] at hlast
      | step hwalk' ha' _ =>
          simp only [lastEdge, Option.some.injEq, Prod.mk.injEq] at hlast
          obtain ⟨rfl, rfl⟩ := hlast
          rw [hwalk.unique hparent hwalk' ha ha']

end Relation

/-! ## The list of all walks -/

variable [DecidableEq α]

/-- The walks of the descent from `a` after the way `seen`. -/
def walks (children : α → List α) : Nat → List α → α → List (List α)
  | 0, seen, a => [a :: seen]
  | fuel + 1, seen, a =>
      (a :: seen) ::
        if a ∈ seen then [] else (children a).flatMap fun c => walks children fuel (a :: seen) c

section Children

variable {children : α → List α}

theorem walk_of_mem_walks {fuel : Nat} {seen walk : List α} {a : α}
    (h : walk ∈ walks children fuel seen a) :
    Walk (fun x y => y ∈ children x) (a :: seen) walk := by
  induction fuel generalizing seen a with
  | zero =>
      rw [List.mem_singleton.1 h]
      exact .start
  | succ fuel ih =>
      rcases List.mem_cons.1 h with rfl | hmem
      · exact .start
      · split at hmem
        · exact absurd hmem List.not_mem_nil
        · rename_i ha
          obtain ⟨c, hc, hwalk⟩ := List.mem_flatMap.1 hmem
          exact (ih hwalk).earlier ha hc

/-- With fuel for all vertices off the way, the list holds every walk. -/
theorem mem_walks {vertices : List α} (hclosed : ∀ a ∈ vertices, ∀ c ∈ children a, c ∈ vertices)
    {fuel : Nat} {seen walk : List α} {a : α} (hfuel : unseen vertices seen < fuel)
    (ha : a ∈ vertices) :
    walk ∈ walks children fuel seen a ↔ Walk (fun x y => y ∈ children x) (a :: seen) walk := by
  refine ⟨walk_of_mem_walks, fun h => ?_⟩
  induction fuel generalizing seen a with
  | zero => exact absurd hfuel (Nat.not_lt_zero _)
  | succ fuel ih =>
      rcases walk_cases.1 h with rfl | ⟨hseen, c, hc, hwalk⟩
      · exact List.mem_cons_self
      · -- One vertex less is off the way, and one unit of fuel is used.
        have hless := unseen_cons_lt ha hseen
        have hmem := ih (by omega) (hclosed a ha c hc) hwalk
        unfold walks
        rw [if_neg hseen]
        exact List.mem_cons_of_mem _ (List.mem_flatMap.2 ⟨c, hc, hmem⟩)

/-- Descents from different vertices take different walks. -/
theorem disjoint_walks {fuel : Nat} {seen : List α} {c d : α} (hne : c ≠ d) :
    List.Disjoint (walks children fuel seen c) (walks children fuel seen d) := by
  intro walk hc hd
  have hcsuffix := (walk_of_mem_walks hc).suffix
  have hdsuffix := (walk_of_mem_walks hd).suffix
  have hsame : c :: seen = d :: seen :=
    (List.suffix_of_suffix_length_le hcsuffix hdsuffix (by simp)).eq_of_length (by simp)
  exact hne (List.cons.inj hsame).1

/-- No walk is listed twice. -/
theorem nodup_walks (hnodup : ∀ a, (children a).Nodup) (fuel : Nat) (seen : List α) (a : α) :
    (walks children fuel seen a).Nodup := by
  induction fuel generalizing seen a with
  | zero => exact List.nodup_singleton _
  | succ fuel ih =>
      unfold walks
      rw [List.nodup_cons]
      constructor
      · intro hmem
        split at hmem
        · exact List.not_mem_nil hmem
        · -- The walks through a child are longer.
          obtain ⟨c, -, hwalk⟩ := List.mem_flatMap.1 hmem
          have hlength := (walk_of_mem_walks hwalk).suffix.length_le
          simp at hlength
      · split
        · exact List.nodup_nil
        · rw [List.nodup_flatMap]
          exact ⟨fun c _ => ih (a :: seen) c, (hnodup a).imp disjoint_walks⟩

/-! ## Their number -/

theorem length_walks_pos (fuel : Nat) (seen : List α) (a : α) :
    1 ≤ (walks children fuel seen a).length := by
  cases fuel with
  | zero => exact Nat.le_refl _
  | succ fuel => exact Nat.succ_le_of_lt (Nat.succ_pos _)

theorem length_walks_succ {fuel : Nat} {seen : List α} {a : α} (ha : a ∉ seen) :
    (walks children (fuel + 1) seen a).length =
      1 + ((children a).map fun c => (walks children fuel (a :: seen) c).length).sum := by
  rw [walks, if_neg ha, List.length_cons, List.length_flatMap, Nat.add_comm]

theorem length_walks_seen {fuel : Nat} {seen : List α} {a : α} (ha : a ∈ seen) :
    (walks children fuel seen a).length = 1 := by
  cases fuel with
  | zero => rfl
  | succ fuel => rw [walks, if_pos ha, List.length_singleton]

/-- One walk for each edge, and the one that makes no step. -/
theorem length_walks_le_edges (hnodup : ∀ a, (children a).Nodup)
    (hparent : ∀ a b c, c ∈ children a → c ∈ children b → a = b) {edges : Finset (α × α)}
    (hedges : ∀ a, ∀ c ∈ children a, (a, c) ∈ edges) (fuel : Nat) (root : α) :
    (walks children fuel [] root).length ≤ 1 + edges.card := by
  -- A walk is sent to its last edge; by the one parent no two walks share it.
  have hmaps : ∀ walk ∈ (walks children fuel [] root).toFinset,
      lastEdge walk ∈ Finset.insertNone edges := by
    intro walk hwalk
    cases walk_of_mem_walks (List.mem_toFinset.1 hwalk) with
    | start => exact Finset.none_mem_insertNone
    | step _ _ hc => exact Finset.some_mem_insertNone.2 (hedges _ _ hc)
  calc (walks children fuel [] root).length
      = (walks children fuel [] root).toFinset.card :=
        (List.toFinset_card_of_nodup (nodup_walks hnodup fuel [] root)).symm
    _ ≤ (Finset.insertNone edges).card := by
        apply Finset.card_le_card_of_injOn lastEdge hmaps
        intro walk hwalk walk' hwalk' hlast
        have h := walk_of_mem_walks (List.mem_toFinset.1 (Finset.mem_coe.1 hwalk))
        have h' := walk_of_mem_walks (List.mem_toFinset.1 (Finset.mem_coe.1 hwalk'))
        exact h.eq_of_lastEdge hparent h' hlast
    _ = 1 + edges.card := by rw [Finset.card_insertNone, Nat.add_comm]

/-- Each vertex that is new on the way doubles the number of walks at most once for each of its
edges. -/
theorem length_walks_le_two_pow {vertices : List α}
    (hclosed : ∀ a ∈ vertices, ∀ c ∈ children a, c ∈ vertices) {fuel : Nat} {seen : List α}
    {a : α} (ha : a ∈ vertices) :
    (walks children fuel seen a).length ≤
      2 ^ ∑ v ∈ vertices.toFinset \ seen.toFinset, (children v).length := by
  induction fuel generalizing seen a with
  | zero => exact Nat.one_le_two_pow
  | succ fuel ih =>
      by_cases hseen : a ∈ seen
      · rw [length_walks_seen hseen]
        exact Nat.one_le_two_pow
      · -- `rest` counts the edges of the vertices that stay new below `a`.
        let rest := ∑ v ∈ vertices.toFinset \ (a :: seen).toFinset, (children v).length
        have hsplit : ∑ v ∈ vertices.toFinset \ seen.toFinset, (children v).length =
            (children a).length + rest := by
          have hmem : a ∈ vertices.toFinset \ seen.toFinset := by simp [ha, hseen]
          rw [← Finset.add_sum_erase _ _ hmem]
          simp only [rest, List.toFinset_cons, Finset.sdiff_insert]
        -- None of these edges starts at `a`, which stops every walk that comes back to it.
        have hbelow : ∀ n ∈ (children a).map fun c => (walks children fuel (a :: seen) c).length,
            n ≤ 2 ^ rest := by
          intro n hn
          obtain ⟨c, hc, rfl⟩ := List.mem_map.1 hn
          exact ih (hclosed a ha c hc)
        have hsum := List.sum_le_card_nsmul _ _ hbelow
        rw [List.length_map, Nat.nsmul_eq_mul] at hsum
        calc (walks children (fuel + 1) seen a).length
            = 1 + ((children a).map fun c => (walks children fuel (a :: seen) c).length).sum :=
              length_walks_succ hseen
          _ ≤ 2 ^ rest + (children a).length * 2 ^ rest :=
              Nat.add_le_add Nat.one_le_two_pow hsum
          _ = ((children a).length + 1) * 2 ^ rest := by
              rw [Nat.add_mul, Nat.one_mul, Nat.add_comm]
          _ ≤ 2 ^ (children a).length * 2 ^ rest :=
              Nat.mul_le_mul_right _ Nat.lt_two_pow_self
          _ = 2 ^ ∑ v ∈ vertices.toFinset \ seen.toFinset, (children v).length := by
              rw [hsplit, Nat.pow_add]

/-- Where all of `vertices` are children of each other, there is a walk for every order of those
that are new. -/
theorem factorial_le_length_walks (hnodup : ∀ a, (children a).Nodup) {vertices : Finset α}
    (hall : ∀ b ∈ vertices, ∀ c ∈ vertices, c ≠ b → c ∈ children b) {fuel : Nat} {seen : List α}
    {a : α} (hstart : ∀ c ∈ vertices, c ≠ a → c ∈ children a) (hseen : a ∉ seen)
    (hfuel : (vertices \ (a :: seen).toFinset).card < fuel) :
    (vertices \ (a :: seen).toFinset).card.factorial ≤ (walks children fuel seen a).length := by
  induction fuel generalizing seen a with
  | zero => exact absurd hfuel (Nat.not_lt_zero _)
  | succ fuel ih =>
      by_cases hnew : (vertices \ (a :: seen).toFinset).card = 0
      · rw [hnew]
        exact length_walks_pos _ _ _
      · obtain ⟨more, hmore⟩ := Nat.exists_eq_succ_of_ne_zero hnew
        -- Every new vertex is a child of `a`; the other children are left out of the count.
        have hsub : vertices \ (a :: seen).toFinset ⊆ (children a).toFinset := by
          intro c hc
          simp only [Finset.mem_sdiff, List.mem_toFinset, List.mem_cons, not_or] at hc
          exact List.mem_toFinset.2 (hstart c hc.1 hc.2.1)
        have hbelow : ∀ c ∈ vertices \ (a :: seen).toFinset,
            more.factorial ≤ (walks children fuel (a :: seen) c).length := by
          intro c hc
          have hmem := Finset.mem_sdiff.1 hc
          -- Below `c` one vertex less is new.
          have hless : (vertices \ (c :: a :: seen).toFinset).card = more := by
            rw [List.toFinset_cons, Finset.sdiff_insert, Finset.card_erase_of_mem hc, hmore]
            rfl
          rw [← hless]
          apply ih (hall c hmem.1)
          · exact fun hin => hmem.2 (List.mem_toFinset.2 hin)
          · omega
        calc (vertices \ (a :: seen).toFinset).card.factorial
            = (vertices \ (a :: seen).toFinset).card * more.factorial := by
              rw [hmore, Nat.factorial_succ]
          _ ≤ ∑ c ∈ vertices \ (a :: seen).toFinset,
                (walks children fuel (a :: seen) c).length := by
              rw [← Nat.nsmul_eq_mul]
              exact Finset.card_nsmul_le_sum _ _ _ hbelow
          _ ≤ ∑ c ∈ (children a).toFinset, (walks children fuel (a :: seen) c).length :=
              Finset.sum_le_sum_of_subset hsub
          _ = ((children a).map fun c => (walks children fuel (a :: seen) c).length).sum :=
              List.sum_toFinset _ (hnodup a)
          _ ≤ (walks children (fuel + 1) seen a).length := by
              rw [length_walks_succ hseen]
              exact Nat.le_add_left _ _

end Children

end Graph
end Pgaio
