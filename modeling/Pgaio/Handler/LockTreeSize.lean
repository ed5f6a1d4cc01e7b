import Mathlib.Data.Int.ConditionallyCompleteOrder
import Mathlib.Data.Set.Card
import Mathlib.Order.Interval.Finset.Nat
import Mathlib.Data.Int.Interval
import Pgaio.Graph.Walks
import Pgaio.Handler.LockTree

/-!
# LockTreeSize — how many nodes are drawn

`build` copies the seen set into each of its calls, so a session is drawn once for every way to it.
The trees have one node for each walk from a root that repeats no session before its end
(`size_eq_walks`).  That is at most one for each pair of sessions when no session is blocked by two
others, but the rows of one lock with several waiters already draw more (`waiters_drawn_repeatedly`),
and with the number of waiters the count grows like the factorial (`factorial_le_size_waiters`).
-/

namespace Pgaio
namespace Handler

open Pgaio.Graph

/-! ## Counting nodes -/

mutual

/-- The number of nodes of the tree. -/
def LockTreeNode.size : LockTreeNode → Nat
  | .node _ children _ => 1 + LockTreeNode.sizes children

def LockTreeNode.sizes : List LockTreeNode → Nat
  | [] => 0
  | child :: rest => child.size + LockTreeNode.sizes rest

end

def LockTree.size (tree : LockTree) : Nat :=
  LockTreeNode.sizes tree.roots

theorem LockTreeNode.sizes_eq_sum (nodes : List LockTreeNode) :
    LockTreeNode.sizes nodes = (nodes.map LockTreeNode.size).sum := by
  induction nodes with
  | nil => rfl
  | cons node nodes ih => rw [LockTreeNode.sizes, ih, List.map_cons, List.sum_cons]

/-- The distinct pairs of a blocking and a blocked session. -/
def pairs (locks : List LockInfo) : Finset (Int × Int) :=
  (locks.map fun lock => (lock.blockingPID, lock.blockedPID)).toFinset

/-- No session is blocked by two different ones. -/
def OneBlocker (locks : List LockInfo) : Prop :=
  ∀ a b c, Blocks locks a c → Blocks locks b c → a = b

theorem mem_pairs {locks : List LockInfo} {a b : Int} :
    (a, b) ∈ pairs locks ↔ Blocks locks a b := by
  simp [pairs, Blocks]

namespace LockGraph

/-- A tree has a node for each walk of its descent. -/
theorem size_buildNode (g : LockGraph) (fuel : Nat) (pid : Int) (seen : List Int) :
    (g.buildNode fuel pid seen).size = (walks g.childPIDs fuel seen pid).length := by
  induction fuel generalizing pid seen with
  | zero => rfl
  | succ fuel ih =>
      by_cases hseen : pid ∈ seen
      · rw [buildNode_seen hseen, length_walks_seen hseen]
        rfl
      · rw [buildNode_unseen hseen, length_walks_succ hseen, LockTreeNode.size,
          LockTreeNode.sizes_eq_sum, List.map_map]
        congr 2
        -- Child by child, with the session added to the way.
        apply List.map_congr_left
        intro childPID _
        exact ih childPID (pid :: seen)

theorem nodup_childPIDs (g : LockGraph) (pid : Int) : (g.childPIDs pid).Nodup :=
  (g.childPIDs_ascending pid).imp ne_of_lt

/-- The walks of all calls of `build`. -/
def ways (g : LockGraph) : List (List Int) :=
  g.rootPIDs.flatMap (walks g.childPIDs (g.nodes.keys.length + 1) [])

section Described

variable {g : LockGraph} {locks : List LockInfo}

theorem Describes.closed (h : Describes g locks) :
    ∀ a ∈ g.nodes.keys, ∀ b ∈ g.childPIDs a, b ∈ g.nodes.keys :=
  fun _ _ _ hb => h.child_mem_nodes hb

theorem Describes.mem_ways (h : Describes g locks) {way : List Int} :
    way ∈ g.ways ↔ ∃ root ∈ g.rootPIDs, Walk (Blocks locks) [root] way := by
  unfold ways
  rw [List.mem_flatMap]
  apply exists_congr
  intro root
  refine and_congr_right fun hroot => ?_
  rw [← h.blocks_eq]
  exact mem_walks h.closed (unseen_lt_succ _ _) (h.root_mem_nodes hroot)

/-- Every pair of sessions is an edge below one of its sessions. -/
theorem Describes.sum_children (h : Describes g locks) :
    ∑ pid ∈ g.nodes.keys.toFinset, (g.childPIDs pid).length = (pairs locks).card := by
  have hmaps : ∀ pair ∈ pairs locks, pair.1 ∈ g.nodes.keys.toFinset := by
    rintro ⟨a, b⟩ hpair
    obtain ⟨lock, hlock, hblocking, -⟩ := mem_pairs.1 hpair
    exact List.mem_toFinset.2 ((h.mem_nodes a).2 (Or.inl ⟨lock, hlock, hblocking⟩))
  rw [Finset.card_eq_sum_card_fiberwise hmaps]
  apply Finset.sum_congr rfl
  intro a _
  -- The pairs with `a` in front are the children of `a`.
  have hfiber : (pairs locks).filter (fun pair => pair.1 = a) =
      (g.childPIDs a).toFinset.image (Prod.mk a) := by
    ext ⟨x, b⟩
    simp only [Finset.mem_filter, mem_pairs, Finset.mem_image, List.mem_toFinset,
      h.mem_childPIDs, Prod.mk.injEq]
    constructor
    · rintro ⟨hblocks, rfl⟩
      exact ⟨b, hblocks, rfl, rfl⟩
    · rintro ⟨c, hblocks, rfl, rfl⟩
      exact ⟨hblocks, rfl⟩
  rw [hfiber, Finset.card_image_of_injective _ (Prod.mk_right_injective a),
    List.toFinset_card_of_nodup (g.nodup_childPIDs a)]

end Described

theorem nodup_ways (locks : List LockInfo) : (ofLocks locks).ways.Nodup := by
  unfold ways
  rw [List.nodup_flatMap]
  refine ⟨fun root _ => nodup_walks (nodup_childPIDs _) _ [] root, ?_⟩
  exact (rootPIDs_ascending locks).imp fun hless => disjoint_walks (ne_of_lt hless)

end LockGraph

/-! ## The trees of all roots -/

theorem size_eq_length_ways (locks : List LockInfo) :
    (buildLockTree locks).size = (LockGraph.ofLocks locks).ways.length := by
  unfold LockTree.size buildLockTree LockGraph.ways
  rw [LockTreeNode.sizes_eq_sum, List.map_map, List.length_flatMap]
  congr 1
  apply List.map_congr_left
  intro root _
  exact LockGraph.size_buildNode _ _ root []

theorem length_roots (locks : List LockInfo) :
    (buildLockTree locks).roots.length = (LockGraph.ofLocks locks).rootPIDs.length :=
  List.length_map _

/-- The nodes are the walks from the roots that repeat no session before their end. -/
theorem size_eq_walks (locks : List LockInfo) :
    (buildLockTree locks).size =
      {way | ∃ root ∈ (buildLockTree locks).roots.map LockTreeNode.pid,
        Walk (Blocks locks) [root] way}.ncard := by
  have hset : {way | ∃ root ∈ (buildLockTree locks).roots.map LockTreeNode.pid,
      Walk (Blocks locks) [root] way} = ↑(LockGraph.ofLocks locks).ways.toFinset := by
    ext way
    rw [map_pid_roots, Finset.mem_coe, List.mem_toFinset,
      (LockGraph.describes_ofLocks locks).mem_ways, Set.mem_ofPred_eq]
  rw [hset, Set.ncard_coe_finset, List.toFinset_card_of_nodup (LockGraph.nodup_ways locks),
    size_eq_length_ways]

/-- A bound for the walks from each root bounds the size. -/
theorem size_le_of_walks {locks : List LockInfo} {bound : Nat}
    (hbound : ∀ root ∈ (LockGraph.ofLocks locks).rootPIDs,
      (walks (LockGraph.ofLocks locks).childPIDs
        ((LockGraph.ofLocks locks).nodes.keys.length + 1) [] root).length ≤ bound) :
    (buildLockTree locks).size ≤ (buildLockTree locks).roots.length * bound := by
  rw [size_eq_length_ways, length_roots, LockGraph.ways, List.length_flatMap]
  have hsum := List.sum_le_card_nsmul
    ((LockGraph.ofLocks locks).rootPIDs.map fun root =>
      (walks (LockGraph.ofLocks locks).childPIDs
        ((LockGraph.ofLocks locks).nodes.keys.length + 1) [] root).length) bound
  rw [List.length_map, Nat.nsmul_eq_mul] at hsum
  apply hsum
  intro n hn
  obtain ⟨root, hroot, rfl⟩ := List.mem_map.1 hn
  exact hbound root hroot

theorem size_le_two_pow (locks : List LockInfo) :
    (buildLockTree locks).size ≤ (buildLockTree locks).roots.length * 2 ^ (pairs locks).card := by
  have h := LockGraph.describes_ofLocks locks
  apply size_le_of_walks
  intro root hroot
  rw [← h.sum_children]
  exact length_walks_le_two_pow h.closed (h.root_mem_nodes hroot)

theorem size_le_of_oneBlocker {locks : List LockInfo} (hone : OneBlocker locks) :
    (buildLockTree locks).size ≤ (buildLockTree locks).roots.length +
      (buildLockTree locks).roots.length * (pairs locks).card := by
  have h := LockGraph.describes_ofLocks locks
  calc (buildLockTree locks).size
      ≤ (buildLockTree locks).roots.length * (1 + (pairs locks).card) := by
        apply size_le_of_walks
        intro root _
        apply length_walks_le_edges (LockGraph.nodup_childPIDs _)
        · intro a b c hac hbc
          exact hone a b c (h.mem_childPIDs.1 hac) (h.mem_childPIDs.1 hbc)
        · intro a c hc
          exact mem_pairs.2 (h.mem_childPIDs.1 hc)
    _ = _ := by rw [Nat.mul_add, Nat.mul_one]

/-! ## The waiters of one lock -/

/-- The rows for session 0 holding a lock for which the sessions 1 to `n` wait: the query pairs the
waiters with the holder and with each other. -/
def waiters (n : Nat) : List LockInfo :=
  (List.range (n + 1)).flatMap fun a =>
    ((List.range (n + 1)).filter fun b => 0 < b ∧ a ≠ b).map fun b : Nat =>
      { blockingPID := a, blockedPID := b }

theorem blocks_waiters {n : Nat} {x y : Int} :
    Blocks (waiters n) x y ↔ x ∈ Finset.Icc 0 (n : Int) ∧ y ∈ Finset.Icc 1 (n : Int) ∧ x ≠ y := by
  simp only [Blocks, waiters, List.mem_flatMap, List.mem_range, List.mem_map, List.mem_filter,
    decide_eq_true_eq, Finset.mem_Icc]
  constructor
  · rintro ⟨lock, ⟨a, ha, b, ⟨hb, hpos, hne⟩, rfl⟩, rfl, rfl⟩
    simp only
    omega
  -- The row of two sessions is found under their numbers.
  · rintro ⟨hx, hy, hne⟩
    refine ⟨_, ⟨x.toNat, by omega, y.toNat, ⟨by omega, by omega, by omega⟩, rfl⟩, ?_, ?_⟩
    · exact Int.toNat_of_nonneg (by omega)
    · exact Int.toNat_of_nonneg (by omega)

theorem card_pairs_waiters (n : Nat) : (pairs (waiters n)).card ≤ (n + 1) * n := by
  have hsub : pairs (waiters n) ⊆ Finset.Icc 0 (n : Int) ×ˢ Finset.Icc 1 (n : Int) := by
    rintro ⟨x, y⟩ hpair
    have hblocks := blocks_waiters.1 (mem_pairs.1 hpair)
    exact Finset.mem_product.2 ⟨hblocks.1, hblocks.2.1⟩
  calc (pairs (waiters n)).card
      ≤ (Finset.Icc 0 (n : Int) ×ˢ Finset.Icc 1 (n : Int)).card := Finset.card_le_card hsub
    _ = (n + 1) * n := by
        rw [Finset.card_product, Int.card_Icc, Int.card_Icc]
        congr 1
        omega

/-- Only the holder is not blocked. -/
theorem rootPIDs_waiters {n : Nat} (hn : 0 < n) :
    (LockGraph.ofLocks (waiters n)).rootPIDs = [0] := by
  have h := LockGraph.describes_ofLocks (waiters n)
  have hholder : Blocks (waiters n) 0 1 := blocks_waiters.2 (by simp; omega)
  have hblocker : IsBlocker (waiters n) 0 := isBlocker_iff.2 ⟨1, hholder⟩
  have hfree : ¬IsBlocked (waiters n) 0 := by
    rw [isBlocked_iff]
    rintro ⟨x, hx⟩
    -- Blocked sessions have a number from 1 on.
    have hmem := (blocks_waiters.1 hx).2.1
    simp at hmem
  have hsorted := (LockGraph.rootPIDs_ascending (waiters n)).sortedLT
  apply hsorted.eq_of_mem_iff (List.pairwise_singleton _ _).sortedLT
  intro pid
  rw [h.mem_rootPIDs, List.mem_singleton]
  constructor
  · rintro ⟨hpid, hall⟩
    by_contra hne
    obtain ⟨y, hy⟩ := isBlocker_iff.1 hpid
    have hrange := Finset.mem_Icc.1 (blocks_waiters.1 hy).1
    -- Any other session waits for the holder, which would have to be blocked then.
    have hwaits : Blocks (waiters n) 0 pid := blocks_waiters.2 (by simp; omega)
    exact hfree (hall (isBlocked_iff.2 ⟨0, hwaits⟩) 0 hblocker)
  · rintro rfl
    exact ⟨hblocker, fun hzero => absurd hzero hfree⟩

/-- The waiters are drawn in every order. -/
theorem factorial_le_size_waiters {n : Nat} (hn : 0 < n) :
    n.factorial ≤ (buildLockTree (waiters n)).size := by
  have h := LockGraph.describes_ofLocks (waiters n)
  have hnew : (Finset.Icc 1 (n : Int) \ [(0 : Int)].toFinset).card = n := by
    rw [Finset.sdiff_eq_self_of_disjoint (by simp), Int.card_Icc]
    omega
  have hwaits : ∀ x ∈ Finset.Icc 0 (n : Int), ∀ y ∈ Finset.Icc 1 (n : Int), y ≠ x →
      y ∈ (LockGraph.ofLocks (waiters n)).childPIDs x := by
    intro x hx y hy hne
    exact h.mem_childPIDs.2 (blocks_waiters.2 ⟨hx, hy, hne.symm⟩)
  have hzero : (0 : Int) ∈ Finset.Icc 0 (n : Int) := by simp
  have hincl : Finset.Icc 1 (n : Int) ⊆ Finset.Icc 0 (n : Int) :=
    Finset.Icc_subset_Icc_left (by omega)
  -- All waiters are keys of the map, so the fuel is enough for them.
  have hnodes : n ≤ (LockGraph.ofLocks (waiters n)).nodes.keys.length := by
    have hsub : Finset.Icc 1 (n : Int) ⊆ (LockGraph.ofLocks (waiters n)).nodes.keys.toFinset := by
      intro y hy
      have hne : y ≠ 0 := by
        rw [Finset.mem_Icc] at hy
        omega
      exact List.mem_toFinset.2 (h.child_mem_nodes (hwaits 0 hzero y hy hne))
    calc n = (Finset.Icc 1 (n : Int)).card := by
          rw [Int.card_Icc]
          omega
      _ ≤ (LockGraph.ofLocks (waiters n)).nodes.keys.toFinset.card := Finset.card_le_card hsub
      _ ≤ (LockGraph.ofLocks (waiters n)).nodes.keys.length := List.toFinset_card_le _
  rw [size_eq_length_ways, LockGraph.ways, rootPIDs_waiters hn, List.flatMap_singleton]
  calc n.factorial
      = (Finset.Icc 1 (n : Int) \ [(0 : Int)].toFinset).card.factorial := by rw [hnew]
    _ ≤ _ := by
        apply factorial_le_length_walks (LockGraph.nodup_childPIDs _)
        · exact fun x hx => hwaits x (hincl hx)
        · exact hwaits 0 hzero
        · exact List.not_mem_nil
        · rw [hnew]
          omega

/-! ## The size -/

/-- The number of nodes, a bound from the number of pairs, the smaller one when no session has two
blockers, and the trees for which no polynomial bound exists. -/
theorem lock_tree_size :
    (∀ locks : List LockInfo,
      (buildLockTree locks).size =
        {way | ∃ root ∈ (buildLockTree locks).roots.map LockTreeNode.pid,
          Walk (Blocks locks) [root] way}.ncard ∧
      (buildLockTree locks).size ≤ (buildLockTree locks).roots.length * 2 ^ (pairs locks).card ∧
      (OneBlocker locks → (buildLockTree locks).size ≤
        (buildLockTree locks).roots.length +
          (buildLockTree locks).roots.length * (pairs locks).card)) ∧
    ∀ n : Nat, 0 < n →
      (buildLockTree (waiters n)).roots.length = 1 ∧
      (pairs (waiters n)).card ≤ (n + 1) * n ∧
      n.factorial ≤ (buildLockTree (waiters n)).size := by
  constructor
  · intro locks
    exact ⟨size_eq_walks locks, size_le_two_pow locks, size_le_of_oneBlocker⟩
  · intro n hn
    refine ⟨?_, card_pairs_waiters n, factorial_le_size_waiters hn⟩
    rw [length_roots, rootPIDs_waiters hn, List.length_singleton]

/-- Session 1 holds a lock for which 2 and 3 wait: seven nodes for four pairs. -/
theorem waiters_drawn_repeatedly :
    ¬∀ locks : List LockInfo, (buildLockTree locks).size ≤
      (buildLockTree locks).roots.length +
        (buildLockTree locks).roots.length * (pairs locks).card := by
  intro hall
  have hsize := hall
    [ { blockingPID := 1, blockedPID := 2 },
      { blockingPID := 1, blockedPID := 3 },
      { blockingPID := 2, blockedPID := 3 },
      { blockingPID := 3, blockedPID := 2 } ]
  revert hsize
  decide

end Handler
end Pgaio
