import Mathlib.Data.List.AList
import Mathlib.Data.List.Sort
import Pgaio.Graph.Visits

/-!
# Locks — the tree of blocking sessions

`buildLockTree` of `handler/locks.go`.  Each row says that one session blocks another one.  The
function draws a tree for every root and cuts it where a session repeats on the way down.  Roots are
the blockers that are not blocked themselves; only when there is none of these, all blockers are.
So a cycle of sessions that block each other is drawn when it is alone, and left out when some other
session blocks without being blocked (`cycle_left_out`).

`buildNode` gets fuel for its depth; one more than the number of sessions is enough for every row
list (`buildNode_fuel`).
-/

namespace Pgaio
namespace Handler

open Pgaio.Graph

structure LockInfo where
  blockedPID : Int
  blockedUser : String := ""
  blockedDatabase : String := ""
  blockedQuery : String := ""
  blockingPID : Int
  blockingUser : String := ""
  blockingDatabase : String := ""
  blockingQuery : String := ""
  waitEventType : Option String := none
  waitEvent : String := ""
  blockedState : String := ""
  blockedDuration : String := ""
  lockType : String := ""
  relationName : String := ""
  deriving DecidableEq, Repr

/-- `nodeData`. -/
structure LockNode where
  pid : Int := 0
  user : String := ""
  database : String := ""
  state : String := ""
  query : String := ""
  waitEventType : String := ""
  waitEvent : String := ""
  blockedDuration : String := ""
  deriving DecidableEq, Repr

structure LockEdge where
  lockType : String
  relationName : String
  duration : String
  deriving DecidableEq, Repr

inductive LockTreeNode where
  | node (data : LockNode) (children : List LockTreeNode) (edges : List LockEdge)

structure LockTree where
  roots : List LockTreeNode
  flat : List LockInfo

abbrev PIDMap (β : Type) := AList fun _ : Int => β

/-- The maps that `buildLockTree` fills; a map to `true` is the list of its keys. -/
structure LockGraph where
  nodes : PIDMap LockNode := ∅
  children : PIDMap (PIDMap LockInfo) := ∅
  blocked : List Int := []
  blockers : List Int := []

def derefString (v : Option String) : String :=
  v.getD ""

def blockingNode (lock : LockInfo) : LockNode where
  pid := lock.blockingPID
  user := lock.blockingUser
  database := lock.blockingDatabase
  query := lock.blockingQuery

def blockedNode (lock : LockInfo) : LockNode where
  pid := lock.blockedPID
  user := lock.blockedUser
  database := lock.blockedDatabase
  state := lock.blockedState
  query := lock.blockedQuery
  waitEventType := derefString lock.waitEventType
  waitEvent := lock.waitEvent
  blockedDuration := lock.blockedDuration

/-- `sort.Ints`. -/
def sortInts (xs : List Int) : List Int :=
  xs.insertionSort (· ≤ ·)

namespace LockGraph

/-- `children[pid]`. -/
def childrenOf (g : LockGraph) (pid : Int) : PIDMap LockInfo :=
  (g.children.lookup pid).getD ∅

/-- One round of the loop over the rows. -/
def addLock (g : LockGraph) (lock : LockInfo) : LockGraph where
  blockers := g.blockers.insert lock.blockingPID
  blocked := g.blocked.insert lock.blockedPID
  nodes := (g.nodes.insert lock.blockingPID (blockingNode lock)).insert lock.blockedPID
    (blockedNode lock)
  children := g.children.insert lock.blockingPID
    ((g.childrenOf lock.blockingPID).insert lock.blockedPID lock)

def ofLocks (locks : List LockInfo) : LockGraph :=
  locks.foldl addLock {}

def rootPIDs (g : LockGraph) : List Int :=
  let free := g.blockers.filter fun pid => decide (pid ∉ g.blocked)
  sortInts (if free = [] then g.blockers else free)

def data (g : LockGraph) (pid : Int) : LockNode :=
  (g.nodes.lookup pid).getD {}

def childPIDs (g : LockGraph) (pid : Int) : List Int :=
  sortInts (g.childrenOf pid).keys

def edge (g : LockGraph) (pid childPID : Int) : LockEdge :=
  match (g.childrenOf pid).lookup childPID with
  | none => { lockType := "", relationName := "", duration := "" }
  | some lock =>
      { lockType := lock.lockType
        relationName := lock.relationName
        duration := lock.blockedDuration }

/-- The recursive `build`. -/
def buildNode (g : LockGraph) : Nat → Int → List Int → LockTreeNode
  | 0, pid, _ => .node (g.data pid) [] []
  | fuel + 1, pid, seen =>
      if pid ∈ seen then .node (g.data pid) [] []
      else
        .node (g.data pid)
          ((g.childPIDs pid).map fun childPID => g.buildNode fuel childPID (pid :: seen))
          ((g.childPIDs pid).map fun childPID => g.edge pid childPID)

end LockGraph

def buildLockTree (locks : List LockInfo) : LockTree :=
  let g := LockGraph.ofLocks locks
  { roots := g.rootPIDs.map fun pid => g.buildNode (g.nodes.keys.length + 1) pid []
    flat := locks }

/-! ## What the rows say -/

/-- Session `a` blocks session `b`. -/
def Blocks (locks : List LockInfo) (a b : Int) : Prop :=
  ∃ lock ∈ locks, lock.blockingPID = a ∧ lock.blockedPID = b

def IsBlocker (locks : List LockInfo) (pid : Int) : Prop :=
  ∃ lock ∈ locks, lock.blockingPID = pid

def IsBlocked (locks : List LockInfo) (pid : Int) : Prop :=
  ∃ lock ∈ locks, lock.blockedPID = pid

theorem isBlocker_iff {locks : List LockInfo} {a : Int} :
    IsBlocker locks a ↔ ∃ b, Blocks locks a b := by
  simp only [IsBlocker, Blocks]
  grind

theorem isBlocked_iff {locks : List LockInfo} {b : Int} :
    IsBlocked locks b ↔ ∃ a, Blocks locks a b := by
  simp only [IsBlocked, Blocks]
  grind

/-- The session waits, directly or through others, for `root`, or it is `root` itself. -/
def WaitsFor (locks : List LockInfo) (pid root : Int) : Prop :=
  Relation.ReflTransGen (Blocks locks) root pid

/-- The session is a node of the tree. -/
inductive LockTreeNode.Shows (pid : Int) : LockTreeNode → Prop where
  | root {data : LockNode} {children : List LockTreeNode} {edges : List LockEdge} :
      data.pid = pid → Shows pid (.node data children edges)
  | child {data : LockNode} {children : List LockTreeNode} {edges : List LockEdge}
      {child : LockTreeNode} :
      child ∈ children → Shows pid child → Shows pid (.node data children edges)

theorem LockTreeNode.shows_node {pid : Int} {data : LockNode} {children : List LockTreeNode}
    {edges : List LockEdge} :
    Shows pid (.node data children edges) ↔
      data.pid = pid ∨ ∃ child ∈ children, Shows pid child := by
  constructor
  · intro h
    cases h with
    | root hdata => exact Or.inl hdata
    | child hmem hshows => exact Or.inr ⟨_, hmem, hshows⟩
  · rintro (hdata | ⟨child, hmem, hshows⟩)
    · exact .root hdata
    · exact .child hmem hshows

/-- Every session of the rows is a node of some tree. -/
def CoversSessions (locks : List LockInfo) : Prop :=
  ∀ pid, IsBlocker locks pid ∨ IsBlocked locks pid →
    ∃ tree ∈ (buildLockTree locks).roots, tree.Shows pid

namespace LockGraph

/-- The maps after the rows `locks`. -/
structure Describes (g : LockGraph) (locks : List LockInfo) : Prop where
  mem_blockers : ∀ pid, pid ∈ g.blockers ↔ IsBlocker locks pid
  mem_blocked : ∀ pid, pid ∈ g.blocked ↔ IsBlocked locks pid
  mem_nodes : ∀ pid, pid ∈ g.nodes.keys ↔ IsBlocker locks pid ∨ IsBlocked locks pid
  label : ∀ pid d, g.nodes.lookup pid = some d → d.pid = pid
  mem_children : ∀ a b, b ∈ (g.childrenOf a).keys ↔ Blocks locks a b

theorem describes_empty : Describes {} [] where
  mem_blockers := by simp [IsBlocker]
  mem_blocked := by simp [IsBlocked]
  mem_nodes := by simp [IsBlocker, IsBlocked]
  label := by simp
  mem_children := by simp [Blocks, childrenOf]

theorem childrenOf_addLock (g : LockGraph) (lock : LockInfo) (a : Int) :
    (g.addLock lock).childrenOf a =
      if a = lock.blockingPID then
        (g.childrenOf lock.blockingPID).insert lock.blockedPID lock
      else g.childrenOf a := by
  unfold childrenOf addLock
  by_cases h : a = lock.blockingPID
  · subst h
    simp [childrenOf]
  · simp [h, AList.lookup_insert_ne]

theorem Describes.addLock {g : LockGraph} {locks : List LockInfo} (h : Describes g locks)
    (lock : LockInfo) : Describes (g.addLock lock) (locks ++ [lock]) where
  mem_blockers := by
    intro pid
    simp only [LockGraph.addLock, List.mem_insert_iff, h.mem_blockers, IsBlocker, List.mem_append,
      List.mem_singleton]
    grind
  mem_blocked := by
    intro pid
    simp only [LockGraph.addLock, List.mem_insert_iff, h.mem_blocked, IsBlocked, List.mem_append,
      List.mem_singleton]
    grind
  mem_nodes := by
    intro pid
    have hnodes := h.mem_nodes pid
    rw [← AList.mem_keys] at hnodes
    rw [← AList.mem_keys]
    simp only [LockGraph.addLock, AList.mem_insert, hnodes, IsBlocker, IsBlocked,
      List.mem_append, List.mem_singleton]
    grind
  label := by
    intro pid d hd
    simp only [LockGraph.addLock] at hd
    -- The blocked process is labelled after the blocking one, so its label wins.
    by_cases hblocked : pid = lock.blockedPID
    · subst hblocked
      rw [AList.lookup_insert, Option.some.injEq] at hd
      rw [← hd]
      rfl
    · rw [AList.lookup_insert_ne hblocked] at hd
      by_cases hblocking : pid = lock.blockingPID
      · subst hblocking
        rw [AList.lookup_insert, Option.some.injEq] at hd
        rw [← hd]
        rfl
      · rw [AList.lookup_insert_ne hblocking] at hd
        exact h.label pid d hd
  mem_children := by
    intro a b
    have hold := h.mem_children a b
    rw [← AList.mem_keys] at hold
    have hsnoc : Blocks (locks ++ [lock]) a b ↔
        Blocks locks a b ∨ (lock.blockingPID = a ∧ lock.blockedPID = b) := by
      simp only [Blocks, List.mem_append, List.mem_singleton]
      grind
    rw [childrenOf_addLock, hsnoc, ← AList.mem_keys]
    by_cases ha : a = lock.blockingPID
    · subst ha
      rw [if_pos rfl, AList.mem_insert, hold]
      grind
    · rw [if_neg ha, hold]
      grind

theorem describes_foldl {g : LockGraph} {past : List LockInfo} (h : Describes g past)
    (locks : List LockInfo) : Describes (locks.foldl LockGraph.addLock g) (past ++ locks) := by
  induction locks generalizing g past with
  | nil => simpa using h
  | cons lock locks ih => simpa using ih (h.addLock lock)

theorem describes_ofLocks (locks : List LockInfo) : Describes (ofLocks locks) locks :=
  describes_foldl describes_empty locks

/-! ## Reading the maps -/

theorem mem_sortInts {xs : List Int} {x : Int} : x ∈ sortInts xs ↔ x ∈ xs := by
  unfold sortInts
  exact List.mem_insertionSort (· ≤ ·)

section Described

variable {g : LockGraph} {locks : List LockInfo}

theorem Describes.mem_childPIDs (h : Describes g locks) {a b : Int} :
    b ∈ g.childPIDs a ↔ Blocks locks a b := by
  unfold childPIDs
  rw [mem_sortInts]
  exact h.mem_children a b

theorem Describes.child_mem_nodes (h : Describes g locks) {a b : Int} (hb : b ∈ g.childPIDs a) :
    b ∈ g.nodes.keys := by
  obtain ⟨lock, hlock, -, hblocked⟩ := h.mem_childPIDs.1 hb
  exact (h.mem_nodes b).2 (Or.inr ⟨lock, hlock, hblocked⟩)

/-- The tree shows a session under its own number. -/
theorem Describes.data_pid (h : Describes g locks) {a : Int} (ha : a ∈ g.nodes.keys) :
    (g.data a).pid = a := by
  rw [← AList.mem_keys] at ha
  obtain ⟨d, hd⟩ := Option.isSome_iff_exists.1 (AList.lookup_isSome.2 ha)
  have hlabel : d.pid = a := h.label a d hd
  simpa [data, hd] using hlabel

theorem Describes.blocks_eq (h : Describes g locks) :
    (fun a b => b ∈ g.childPIDs a) = Blocks locks := by
  funext a b
  exact propext h.mem_childPIDs

theorem Describes.reachable_iff (h : Describes g locks) {pid root : Int} :
    Relation.ReflTransGen (fun a b => b ∈ g.childPIDs a) root pid ↔ WaitsFor locks pid root := by
  rw [h.blocks_eq, WaitsFor]

/-- The roots: the blockers that nobody blocks, or all blockers when there is none of these. -/
theorem Describes.mem_rootPIDs (h : Describes g locks) {root : Int} :
    root ∈ g.rootPIDs ↔
      IsBlocker locks root ∧
        (IsBlocked locks root → ∀ pid, IsBlocker locks pid → IsBlocked locks pid) := by
  have hfree : ∀ pid, pid ∈ g.blockers.filter (fun pid => decide (pid ∉ g.blocked)) ↔
      IsBlocker locks pid ∧ ¬IsBlocked locks pid := by
    intro pid
    simp only [List.mem_filter, h.mem_blockers, decide_eq_true_eq, h.mem_blocked]
  unfold rootPIDs
  rw [mem_sortInts]
  by_cases hnone : g.blockers.filter (fun pid => decide (pid ∉ g.blocked)) = []
  · -- Every blocker is blocked, so the fallback takes all of them.
    rw [if_pos hnone, h.mem_blockers]
    have hall : ∀ pid, IsBlocker locks pid → IsBlocked locks pid := by
      intro pid hpid
      by_contra hnot
      have hmem := (hfree pid).2 ⟨hpid, hnot⟩
      rw [hnone] at hmem
      exact List.not_mem_nil hmem
    exact ⟨fun hroot => ⟨hroot, fun _ => hall⟩, fun hroot => hroot.1⟩
  · rw [if_neg hnone, hfree]
    obtain ⟨pid, hpid⟩ := List.exists_mem_of_ne_nil _ hnone
    have hpid := (hfree pid).1 hpid
    constructor
    · rintro ⟨hroot, hnot⟩
      exact ⟨hroot, fun hblocked => absurd hblocked hnot⟩
    · rintro ⟨hroot, hall⟩
      exact ⟨hroot, fun hblocked => hpid.2 (hall hblocked pid hpid.1)⟩

theorem Describes.root_mem_nodes (h : Describes g locks) {root : Int} (hroot : root ∈ g.rootPIDs) :
    root ∈ g.nodes.keys :=
  (h.mem_nodes root).2 (Or.inl (h.mem_rootPIDs.1 hroot).1)

/-! ## What `buildNode` draws -/

/-- More fuel than there are sessions off the way changes nothing. -/
theorem Describes.buildNode_fuel (h : Describes g locks) {fuel more : Nat} {a : Int}
    {seen : List Int} (hfuel : unseen g.nodes.keys seen < fuel) (hmore : fuel ≤ more)
    (ha : a ∈ g.nodes.keys) : g.buildNode more a seen = g.buildNode fuel a seen := by
  induction fuel generalizing more a seen with
  | zero => exact absurd hfuel (Nat.not_lt_zero _)
  | succ fuel ih =>
      obtain ⟨more, rfl⟩ : ∃ rest, more = rest + 1 := ⟨more - 1, by omega⟩
      unfold buildNode
      by_cases hseen : a ∈ seen
      · simp [hseen]
      · have hless := unseen_cons_lt ha hseen
        have hchildren : (g.childPIDs a).map (fun c => g.buildNode more c (a :: seen)) =
            (g.childPIDs a).map (fun c => g.buildNode fuel c (a :: seen)) := by
          apply List.map_congr_left
          intro c hc
          exact ih (by omega) (by omega) (h.child_mem_nodes hc)
        rw [hchildren]

/-- The tree of `a` shows what the descent from `a` meets. -/
theorem Describes.shows_buildNode (h : Describes g locks) {fuel : Nat} {a pid : Int}
    {seen : List Int} (hfuel : unseen g.nodes.keys seen < fuel) (ha : a ∈ g.nodes.keys) :
    (g.buildNode fuel a seen).Shows pid ↔ Visits g.childPIDs seen a pid := by
  induction fuel generalizing a seen with
  | zero => exact absurd hfuel (Nat.not_lt_zero _)
  | succ fuel ih =>
      rw [visits_cases]
      unfold buildNode
      by_cases hseen : a ∈ seen
      · -- The way has come back to `a`: a node without children.
        rw [if_pos hseen]
        simp [LockTreeNode.shows_node, h.data_pid ha, hseen, eq_comm]
      · have hless := unseen_cons_lt ha hseen
        rw [if_neg hseen, LockTreeNode.shows_node, h.data_pid ha, eq_comm]
        refine or_congr Iff.rfl ?_
        simp only [List.mem_map, exists_exists_and_eq_and, hseen, not_false_eq_true, true_and]
        apply exists_congr
        intro c
        refine and_congr_right fun hc => ?_
        exact ih (by omega) (h.child_mem_nodes hc)

end Described

end LockGraph

/-! ## Which sessions the trees show -/

theorem shown_iff (locks : List LockInfo) (pid : Int) :
    (∃ tree ∈ (buildLockTree locks).roots, tree.Shows pid) ↔
      ∃ root ∈ (LockGraph.ofLocks locks).rootPIDs, WaitsFor locks pid root := by
  have h := LockGraph.describes_ofLocks locks
  simp only [buildLockTree, List.mem_map, exists_exists_and_eq_and]
  apply exists_congr
  intro root
  refine and_congr_right fun hroot => ?_
  rw [h.shows_buildNode (unseen_lt_succ _ _) (h.root_mem_nodes hroot), visits_iff, h.reachable_iff]

/-- No session is left out exactly if all blockers are blocked themselves, or each session waits for
one that nobody blocks. -/
theorem covers_iff (locks : List LockInfo) :
    CoversSessions locks ↔
      (∀ pid, IsBlocker locks pid → IsBlocked locks pid) ∨
        ∀ pid, IsBlocker locks pid ∨ IsBlocked locks pid →
          ∃ root, IsBlocker locks root ∧ ¬IsBlocked locks root ∧ WaitsFor locks pid root := by
  have h := LockGraph.describes_ofLocks locks
  unfold CoversSessions
  simp only [shown_iff, h.mem_rootPIDs]
  by_cases hall : ∀ pid, IsBlocker locks pid → IsBlocked locks pid
  · -- The fallback: a blocked session is drawn below its blocker.
    refine iff_of_true ?_ (Or.inl hall)
    rintro pid (hpid | ⟨lock, hlock, hpid⟩)
    · exact ⟨pid, ⟨hpid, fun _ => hall⟩, Relation.ReflTransGen.refl⟩
    · refine ⟨lock.blockingPID, ⟨⟨lock, hlock, rfl⟩, fun _ => hall⟩, ?_⟩
      exact Relation.ReflTransGen.single ⟨lock, hlock, rfl, hpid⟩
  · simp only [hall, false_or]
    constructor
    · intro hcovers pid hpid
      obtain ⟨root, ⟨hblocker, hfree⟩, hwaits⟩ := hcovers pid hpid
      exact ⟨root, hblocker, hfree, hwaits⟩
    · intro hfree pid hpid
      obtain ⟨root, hblocker, hnot, hwaits⟩ := hfree pid hpid
      exact ⟨root, ⟨hblocker, fun hblocked => absurd hblocked hnot⟩, hwaits⟩

/-- Session 1 blocks 2, while 3 and 4 block each other: only the tree of 1 is drawn. -/
theorem cycle_left_out :
    ¬∀ locks : List LockInfo, (∀ lock ∈ locks, lock.blockingPID ≠ lock.blockedPID) →
      CoversSessions locks := by
  intro hall
  let locks : List LockInfo :=
    [ { blockingPID := 1, blockedPID := 2 },
      { blockingPID := 3, blockedPID := 4 },
      { blockingPID := 4, blockedPID := 3 } ]
  have hcovers : CoversSessions locks := hall locks (by decide)
  have hblocker : IsBlocker locks 3 := ⟨_, List.mem_cons_of_mem _ List.mem_cons_self, rfl⟩
  obtain ⟨tree, htree, hshows⟩ := hcovers 3 (Or.inl hblocker)
  have hroots : (buildLockTree locks).roots =
      [.node { pid := 1 } [.node { pid := 2 } [] []]
        [{ lockType := "", relationName := "", duration := "" }]] := by rfl
  rw [hroots, List.mem_singleton] at htree
  subst htree
  simp [LockTreeNode.shows_node] at hshows

end Handler
end Pgaio
