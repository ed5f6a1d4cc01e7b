import Pgaio.Handler.Locks

/-!
# LockTree — the shape of the drawn trees

A node of a tree stands below the sessions on the way to it (`Below`, nearest first).  When its own
session is not among them, the node shows exactly what this session blocks, in ascending order and
each with its last row (`Expands`); when it is, the node is a leaf.  So no way meets a session more
than twice (`lock_tree_sound`).

Everything follows from one fact: a node below `way` is the result of the call of `build` for its
session with the seen set `way` (`Describes.below_call`).
-/

namespace Pgaio
namespace Handler

open Pgaio.Graph

namespace LockTreeNode

def data : LockTreeNode → LockNode
  | .node data _ _ => data

def children : LockTreeNode → List LockTreeNode
  | .node _ children _ => children

def edges : LockTreeNode → List LockEdge
  | .node _ _ edges => edges

def pid (node : LockTreeNode) : Int :=
  node.data.pid

/-- `node` stands in the tree of `root` below the sessions `way`, nearest first. -/
inductive Below (root : LockTreeNode) : List Int → LockTreeNode → Prop where
  | root : Below root [] root
  | child {way : List Int} {node child : LockTreeNode} :
      Below root way node → child ∈ node.children → Below root (node.pid :: way) child

end LockTreeNode

/-- What an edge shows of its row. -/
def LockInfo.edge (lock : LockInfo) : LockEdge where
  lockType := lock.lockType
  relationName := lock.relationName
  duration := lock.blockedDuration

/-- The last row that says that `a` blocks `b`. -/
def lastRow (locks : List LockInfo) (a b : Int) : Option LockInfo :=
  (locks.filter fun lock => lock.blockingPID = a ∧ lock.blockedPID = b).getLast?

/-- A session that blocks and is never blocked. -/
def IsFree (locks : List LockInfo) (pid : Int) : Prop :=
  IsBlocker locks pid ∧ ¬IsBlocked locks pid

/-! ## The statement -/

structure RootsSound (locks : List LockInfo) (tree : LockTree) : Prop where
  free : (∃ pid, IsFree locks pid) →
    ∀ pid, pid ∈ tree.roots.map LockTreeNode.pid ↔ IsFree locks pid
  fallback : (¬∃ pid, IsFree locks pid) →
    ∀ pid, pid ∈ tree.roots.map LockTreeNode.pid ↔ IsBlocker locks pid
  ascending : (tree.roots.map LockTreeNode.pid).Pairwise (· < ·)

/-- The node shows what its session blocks. -/
structure Expands (locks : List LockInfo) (node : LockTreeNode) : Prop where
  mem_children : ∀ pid, pid ∈ node.children.map LockTreeNode.pid ↔ Blocks locks node.pid pid
  ascending : (node.children.map LockTreeNode.pid).Pairwise (· < ·)
  edges_length : node.edges.length = node.children.length
  edges_last : ∀ (i : Nat) (child : LockTreeNode), node.children[i]? = some child →
    ∃ lock, lastRow locks node.pid child.pid = some lock ∧ node.edges[i]? = some lock.edge

structure SoundUnfolding (locks : List LockInfo) (tree : LockTree) : Prop where
  roots : RootsSound locks tree
  expands : ∀ root ∈ tree.roots, ∀ way node, root.Below way node →
    node.pid ∉ way → Expands locks node
  repeats : ∀ root ∈ tree.roots, ∀ way node, root.Below way node →
    node.pid ∈ way → node.children = [] ∧ node.edges = []
  twice : ∀ root ∈ tree.roots, ∀ way node, root.Below way node →
    ∀ pid, (node.pid :: way).count pid ≤ 2

/-! ## Sorted keys -/

/-- Sorting a list without repetition makes it strictly ascending. -/
theorem sortInts_ascending {xs : List Int} (hxs : xs.Nodup) :
    (sortInts xs).Pairwise (· < ·) := by
  have hnodup : (sortInts xs).Nodup := (List.perm_insertionSort (· ≤ ·) xs).nodup_iff.2 hxs
  have hsorted : (sortInts xs).SortedLE := List.sortedLE_insertionSort
  exact (hsorted.sortedLT_of_nodup hnodup).pairwise

namespace LockGraph

theorem childPIDs_ascending (g : LockGraph) (pid : Int) :
    (g.childPIDs pid).Pairwise (· < ·) :=
  sortInts_ascending (g.childrenOf pid).keys_nodup

theorem nodup_blockers_foldl {g : LockGraph} (hg : g.blockers.Nodup) (locks : List LockInfo) :
    (locks.foldl addLock g).blockers.Nodup := by
  induction locks generalizing g with
  | nil => exact hg
  | cons lock locks ih => exact ih (List.Nodup.insert hg)

theorem rootPIDs_ascending (locks : List LockInfo) :
    (ofLocks locks).rootPIDs.Pairwise (· < ·) := by
  have hblockers : (ofLocks locks).blockers.Nodup :=
    nodup_blockers_foldl List.nodup_nil locks
  apply sortInts_ascending
  -- The roots are all blockers or a selection of them.
  split
  · exact hblockers
  · exact hblockers.filter _

/-! ## The last row of a pair -/

theorem lastRow_append (locks : List LockInfo) (lock : LockInfo) (a b : Int) :
    lastRow (locks ++ [lock]) a b =
      if lock.blockingPID = a ∧ lock.blockedPID = b then some lock else lastRow locks a b := by
  unfold lastRow
  rw [List.filter_append]
  split
  · rename_i hpair
    simp [hpair]
  · rename_i hpair
    simp [hpair]

/-- The map keeps the last row of every pair. -/
theorem lookup_childrenOf (locks : List LockInfo) (a b : Int) :
    ((ofLocks locks).childrenOf a).lookup b = lastRow locks a b := by
  induction locks using List.reverseRecOn with
  | nil => rfl
  | append_singleton locks lock ih =>
      -- A row replaces what the map holds for its pair and leaves the other pairs alone.
      have hsnoc : ofLocks (locks ++ [lock]) = (ofLocks locks).addLock lock := by
        simp [ofLocks]
      rw [hsnoc, childrenOf_addLock, lastRow_append]
      by_cases ha : a = lock.blockingPID
      · subst ha
        by_cases hb : b = lock.blockedPID
        · subst hb
          simp
        · simp [AList.lookup_insert_ne hb, Ne.symm hb, ih]
      · simp [ha, Ne.symm ha, ih]

/-! ## The nodes of the tree are calls of `build` -/

theorem buildNode_seen {g : LockGraph} {fuel : Nat} {pid : Int} {seen : List Int}
    (hseen : pid ∈ seen) : g.buildNode fuel pid seen = .node (g.data pid) [] [] := by
  cases fuel with
  | zero => rfl
  | succ fuel => exact if_pos hseen

theorem buildNode_unseen {g : LockGraph} {fuel : Nat} {pid : Int} {seen : List Int}
    (hseen : pid ∉ seen) :
    g.buildNode (fuel + 1) pid seen =
      .node (g.data pid)
        ((g.childPIDs pid).map fun childPID => g.buildNode fuel childPID (pid :: seen))
        ((g.childPIDs pid).map fun childPID => g.edge pid childPID) :=
  if_neg hseen

theorem data_buildNode (g : LockGraph) (fuel : Nat) (pid : Int) (seen : List Int) :
    (g.buildNode fuel pid seen).data = g.data pid := by
  cases fuel with
  | zero => rfl
  | succ fuel =>
      unfold buildNode
      split
      · rfl
      · rfl

section Described

variable {g : LockGraph} {locks : List LockInfo}

theorem Describes.pid_buildNode (h : Describes g locks) {fuel : Nat} {pid : Int} {seen : List Int}
    (hpid : pid ∈ g.nodes.keys) : (g.buildNode fuel pid seen).pid = pid := by
  unfold LockTreeNode.pid
  rw [data_buildNode]
  exact h.data_pid hpid

/-- The node is what `build` returns for its session after the sessions `way`, with fuel for all
that are not on the way. -/
structure IsCall (g : LockGraph) (way : List Int) (node : LockTreeNode) : Prop where
  mem_nodes : node.pid ∈ g.nodes.keys
  nodup : way.Nodup
  built : ∃ fuel, unseen g.nodes.keys way < fuel ∧ node = g.buildNode fuel node.pid way

theorem IsCall.leaf {way : List Int} {node : LockTreeNode} (hcall : IsCall g way node)
    (hseen : node.pid ∈ way) : node = .node (g.data node.pid) [] [] := by
  obtain ⟨fuel, -, hnode⟩ := hcall.built
  exact hnode.trans (buildNode_seen hseen)

theorem IsCall.expand {way : List Int} {node : LockTreeNode} (hcall : IsCall g way node)
    (hseen : node.pid ∉ way) :
    ∃ fuel, unseen g.nodes.keys (node.pid :: way) < fuel ∧
      node = .node (g.data node.pid)
        ((g.childPIDs node.pid).map fun childPID => g.buildNode fuel childPID (node.pid :: way))
        ((g.childPIDs node.pid).map fun childPID => g.edge node.pid childPID) := by
  obtain ⟨fuel, hfuel, hnode⟩ := hcall.built
  cases fuel with
  | zero => exact absurd hfuel (Nat.not_lt_zero _)
  | succ fuel =>
      have hless := unseen_cons_lt hcall.mem_nodes hseen
      exact ⟨fuel, by omega, hnode.trans (buildNode_unseen hseen)⟩

theorem Describes.call_child (h : Describes g locks) {way : List Int} {node child : LockTreeNode}
    (hcall : IsCall g way node) (hchild : child ∈ node.children) :
    IsCall g (node.pid :: way) child := by
  have hseen : node.pid ∉ way := by
    intro hseen
    -- A session that repeats is drawn without children.
    rw [hcall.leaf hseen] at hchild
    exact List.not_mem_nil hchild
  obtain ⟨fuel, hfuel, hnode⟩ := hcall.expand hseen
  rw [hnode] at hchild
  obtain ⟨childPID, hmem, rfl⟩ := List.mem_map.1 hchild
  have hkey : childPID ∈ g.nodes.keys := h.child_mem_nodes hmem
  have hpid : (g.buildNode fuel childPID (node.pid :: way)).pid = childPID := h.pid_buildNode hkey
  -- The way stays without repetition, since the node's session is new on it.
  exact ⟨by rwa [hpid], hcall.nodup.cons hseen, fuel, hfuel, by rw [hpid]⟩

theorem Describes.below_call (h : Describes g locks) {root node : LockTreeNode} {way : List Int}
    (hroot : IsCall g [] root) (hbelow : root.Below way node) : IsCall g way node := by
  induction hbelow with
  | root => exact hroot
  | child _ hchild ih => exact h.call_child ih hchild

/-- The children of a node whose session is not on the way. -/
theorem Describes.map_pid_children (h : Describes g locks) {way : List Int} {node : LockTreeNode}
    (hcall : IsCall g way node) (hseen : node.pid ∉ way) :
    node.children.map LockTreeNode.pid = g.childPIDs node.pid := by
  obtain ⟨fuel, -, hnode⟩ := hcall.expand hseen
  have hchildren : node.children = (g.childPIDs node.pid).map
      fun childPID => g.buildNode fuel childPID (node.pid :: way) :=
    congrArg LockTreeNode.children hnode
  have hpids : ∀ childPID ∈ g.childPIDs node.pid,
      (g.buildNode fuel childPID (node.pid :: way)).pid = childPID := by
    intro childPID hmem
    exact h.pid_buildNode (h.child_mem_nodes hmem)
  calc node.children.map LockTreeNode.pid
      = (g.childPIDs node.pid).map
          fun childPID => (g.buildNode fuel childPID (node.pid :: way)).pid := by
        rw [hchildren, List.map_map]
        rfl
    _ = (g.childPIDs node.pid).map id := List.map_congr_left hpids
    _ = g.childPIDs node.pid := List.map_id _

theorem IsCall.edges_eq {way : List Int} {node : LockTreeNode} (hcall : IsCall g way node)
    (hseen : node.pid ∉ way) :
    node.edges = (g.childPIDs node.pid).map fun childPID => g.edge node.pid childPID := by
  obtain ⟨fuel, -, hnode⟩ := hcall.expand hseen
  exact congrArg LockTreeNode.edges hnode

end Described

/-- The edge to a blocked session shows the last row of the pair. -/
theorem edge_of_blocks {locks : List LockInfo} {a b : Int} (hab : Blocks locks a b) :
    ∃ lock, lastRow locks a b = some lock ∧ (ofLocks locks).edge a b = lock.edge := by
  have hkey : b ∈ ((ofLocks locks).childrenOf a).keys :=
    ((describes_ofLocks locks).mem_children a b).2 hab
  obtain ⟨lock, hlock⟩ := Option.isSome_iff_exists.1 (AList.lookup_isSome.2 (AList.mem_keys.2 hkey))
  refine ⟨lock, ?_, ?_⟩
  · rw [← lookup_childrenOf]
    exact hlock
  · unfold edge
    rw [hlock]
    rfl

theorem expands_of_call {locks : List LockInfo} {way : List Int} {node : LockTreeNode}
    (hcall : IsCall (ofLocks locks) way node) (hseen : node.pid ∉ way) : Expands locks node := by
  have h := describes_ofLocks locks
  have hpids := h.map_pid_children hcall hseen
  have hedges := hcall.edges_eq hseen
  refine ⟨?_, ?_, ?_, ?_⟩
  · intro pid
    rw [hpids]
    exact h.mem_childPIDs
  · rw [hpids]
    exact childPIDs_ascending _ _
  · rw [hedges, List.length_map, ← hpids, List.length_map]
  · intro i child hchild
    -- The child at place `i` is the call for the key at place `i`.
    have hkey : ((ofLocks locks).childPIDs node.pid)[i]? = some child.pid := by
      rw [← hpids, List.getElem?_map, hchild]
      rfl
    obtain ⟨lock, hlast, hedge⟩ :=
      edge_of_blocks (h.mem_childPIDs.1 (List.mem_of_getElem? hkey))
    refine ⟨lock, hlast, ?_⟩
    rw [hedges, List.getElem?_map, hkey, Option.map_some, hedge]

/-! ## The roots -/

/-- The calls for the roots, with any fuel above the number of sessions. -/
theorem Describes.root_call {g : LockGraph} {locks : List LockInfo} (h : Describes g locks)
    {fuel : Nat} (hfuel : g.nodes.keys.length < fuel) {pid : Int} (hpid : pid ∈ g.rootPIDs) :
    (g.buildNode fuel pid []).pid = pid ∧ IsCall g [] (g.buildNode fuel pid []) := by
  have hkey : pid ∈ g.nodes.keys := h.root_mem_nodes hpid
  have hlabel : (g.buildNode fuel pid []).pid = pid := h.pid_buildNode hkey
  have henough : unseen g.nodes.keys [] < fuel := Nat.lt_of_le_of_lt (unseen_le _ _) hfuel
  exact ⟨hlabel, by rwa [hlabel], List.nodup_nil, fuel, henough, by rw [hlabel]⟩

end LockGraph

theorem map_pid_roots (locks : List LockInfo) :
    (buildLockTree locks).roots.map LockTreeNode.pid = (LockGraph.ofLocks locks).rootPIDs := by
  have h := LockGraph.describes_ofLocks locks
  unfold buildLockTree
  rw [List.map_map]
  calc (LockGraph.ofLocks locks).rootPIDs.map _
      = (LockGraph.ofLocks locks).rootPIDs.map id := by
        apply List.map_congr_left
        intro pid hpid
        exact (h.root_call (Nat.lt_succ_self _) hpid).1
    _ = (LockGraph.ofLocks locks).rootPIDs := List.map_id _

theorem call_of_mem_roots {locks : List LockInfo} {root : LockTreeNode}
    (hroot : root ∈ (buildLockTree locks).roots) :
    LockGraph.IsCall (LockGraph.ofLocks locks) [] root := by
  obtain ⟨pid, hpid, rfl⟩ := List.mem_map.1 hroot
  exact ((LockGraph.describes_ofLocks locks).root_call (Nat.lt_succ_self _) hpid).2

theorem call_of_below {locks : List LockInfo} {root node : LockTreeNode} {way : List Int}
    (hroot : root ∈ (buildLockTree locks).roots) (hbelow : root.Below way node) :
    LockGraph.IsCall (LockGraph.ofLocks locks) way node :=
  (LockGraph.describes_ofLocks locks).below_call (call_of_mem_roots hroot) hbelow

theorem roots_sound (locks : List LockInfo) : RootsSound locks (buildLockTree locks) := by
  have h := LockGraph.describes_ofLocks locks
  refine ⟨?_, ?_, ?_⟩
  · rintro ⟨free, hfree⟩ pid
    rw [map_pid_roots, h.mem_rootPIDs]
    constructor
    · rintro ⟨hblocker, hall⟩
      exact ⟨hblocker, fun hblocked => hfree.2 (hall hblocked free hfree.1)⟩
    · rintro ⟨hblocker, hnot⟩
      exact ⟨hblocker, fun hblocked => absurd hblocked hnot⟩
  · intro hnone pid
    rw [map_pid_roots, h.mem_rootPIDs]
    constructor
    · exact fun hroot => hroot.1
    · intro hblocker
      refine ⟨hblocker, fun _ other hother => ?_⟩
      -- A blocker that is not blocked would be free.
      by_contra hnot
      exact hnone ⟨other, hother, hnot⟩
  · rw [map_pid_roots]
    exact LockGraph.rootPIDs_ascending locks

/-- `build` returns for every root: any fuel above the number of sessions gives the same trees. -/
theorem roots_any_fuel (locks : List LockInfo) {fuel : Nat}
    (hfuel : (LockGraph.ofLocks locks).nodes.keys.length < fuel) :
    (buildLockTree locks).roots = (LockGraph.ofLocks locks).rootPIDs.map fun pid =>
      (LockGraph.ofLocks locks).buildNode fuel pid [] := by
  have h := LockGraph.describes_ofLocks locks
  apply List.map_congr_left
  intro pid hpid
  symm
  apply h.buildNode_fuel
  · exact unseen_lt_succ _ _
  · exact hfuel
  · exact h.root_mem_nodes hpid

/-- `buildLockTree` returns, and its trees unfold what the rows say. -/
theorem lock_tree_sound (locks : List LockInfo) :
    (∀ fuel, (LockGraph.ofLocks locks).nodes.keys.length < fuel →
      (buildLockTree locks).roots = (LockGraph.ofLocks locks).rootPIDs.map fun pid =>
        (LockGraph.ofLocks locks).buildNode fuel pid []) ∧
    SoundUnfolding locks (buildLockTree locks) := by
  -- Every node is a call of `build`, and what is asked of it can be read off the call.
  refine ⟨fun fuel => roots_any_fuel locks, roots_sound locks, ?_, ?_, ?_⟩
  · intro root hroot way node hbelow hseen
    exact LockGraph.expands_of_call (call_of_below hroot hbelow) hseen
  · intro root hroot way node hbelow hseen
    have hleaf := (call_of_below hroot hbelow).leaf hseen
    rw [hleaf]
    exact ⟨rfl, rfl⟩
  · intro root hroot way node hbelow pid
    have hway : way.count pid ≤ 1 :=
      List.nodup_iff_count_le_one.1 (call_of_below hroot hbelow).nodup pid
    -- The way meets a session once, the node itself may be the second time.
    rw [List.count_cons]
    split
    · exact Nat.succ_le_succ hway
    · exact Nat.le_succ_of_le hway

end Handler
end Pgaio
