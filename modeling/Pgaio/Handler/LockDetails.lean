import Mathlib.Data.List.Perm.Basic
import Pgaio.Handler.LockTree

/-!
# LockDetails — what the nodes of the lock tree show, and the order of the rows

A row says more of the session it calls blocked than of the blocking one: only the former has a
state, a wait and a duration.  `buildLockTree` writes a node for both, so for a session in the
middle of a chain the last row that mentions it decides what the tree shows (`lookup_nodes`), and a
row in which it blocks another one wipes its wait out.

`lock_details_iff` says when this does no harm: the last row of every drawn session calls it
blocked, or there is nothing to wipe out.
-/

namespace Pgaio
namespace Handler

open Pgaio.Graph

/-! ## The statement -/

/-- What a row says of a session in either role. -/
structure SessionIdentity where
  user : String
  database : String
  query : String
  deriving DecidableEq, Repr

/-- What a row says only of the session that it calls blocked. -/
structure WaitDetails where
  state : String := ""
  waitEventType : String := ""
  waitEvent : String := ""
  blockedDuration : String := ""
  deriving DecidableEq, Repr

namespace LockInfo

def blockingIdentity (lock : LockInfo) : SessionIdentity where
  user := lock.blockingUser
  database := lock.blockingDatabase
  query := lock.blockingQuery

def blockedIdentity (lock : LockInfo) : SessionIdentity where
  user := lock.blockedUser
  database := lock.blockedDatabase
  query := lock.blockedQuery

def waitDetails (lock : LockInfo) : WaitDetails where
  state := lock.blockedState
  waitEventType := derefString lock.waitEventType
  waitEvent := lock.waitEvent
  blockedDuration := lock.blockedDuration

end LockInfo

def LockNode.waitDetails (data : LockNode) : WaitDetails where
  state := data.state
  waitEventType := data.waitEventType
  waitEvent := data.waitEvent
  blockedDuration := data.blockedDuration

/-- The rows agree on the attributes of the same session. -/
structure Agree (locks : List LockInfo) : Prop where
  blocking : ∀ l ∈ locks, ∀ m ∈ locks, l.blockingPID = m.blockingPID →
    l.blockingIdentity = m.blockingIdentity
  blocked : ∀ l ∈ locks, ∀ m ∈ locks, l.blockedPID = m.blockedPID →
    l.blockedIdentity = m.blockedIdentity ∧ l.waitDetails = m.waitDetails
  both : ∀ l ∈ locks, ∀ m ∈ locks, l.blockedPID = m.blockingPID →
    l.blockedIdentity = m.blockingIdentity

/-- No pair of sessions has two rows. -/
def DistinctPairs (locks : List LockInfo) : Prop :=
  (locks.map fun lock => (lock.blockingPID, lock.blockedPID)).Nodup

/-- Every node of a blocked session shows the wait of a row in which the session is blocked. -/
def DetailsKept (locks : List LockInfo) : Prop :=
  ∀ root ∈ (buildLockTree locks).roots, ∀ way node, root.Below way node →
    IsBlocked locks node.pid →
      ∃ lock ∈ locks, lock.blockedPID = node.pid ∧ node.data.waitDetails = lock.waitDetails

/-- The trees do not depend on the order of the rows. -/
def OrderFree (locks : List LockInfo) : Prop :=
  ∀ rows : List LockInfo, rows.Perm locks →
    (buildLockTree rows).roots = (buildLockTree locks).roots

/-! ## The condition -/

/-- A root of the drawing: a blocker that is free, or any blocker when none is. -/
def IsRoot (locks : List LockInfo) (root : Int) : Prop :=
  IsBlocker locks root ∧
    (IsBlocked locks root → ∀ pid, IsBlocker locks pid → IsBlocked locks pid)

/-- The session waits for a root, or it is one. -/
def IsDrawn (locks : List LockInfo) (pid : Int) : Prop :=
  ∃ root, IsRoot locks root ∧ WaitsFor locks pid root

/-- The last row that mentions the session. -/
def lastMention (locks : List LockInfo) (pid : Int) : Option LockInfo :=
  (locks.filter fun lock => lock.blockingPID = pid ∨ lock.blockedPID = pid).getLast?

/-- The last row that mentions the session calls it blocked. -/
def EndsBlocked (locks : List LockInfo) (pid : Int) : Prop :=
  ∃ lock, lastMention locks pid = some lock ∧ lock.blockedPID = pid

/-- No row says anything of the session's wait. -/
def NoDetails (locks : List LockInfo) (pid : Int) : Prop :=
  ∀ lock ∈ locks, lock.blockedPID = pid → lock.waitDetails = {}

/-- The session blocks some session other than itself. -/
def BlocksOther (locks : List LockInfo) (pid : Int) : Prop :=
  ∃ lock ∈ locks, lock.blockingPID = pid ∧ lock.blockedPID ≠ pid

/-- The wait of every drawn session is written last, or empty. -/
def WrittenLast (locks : List LockInfo) : Prop :=
  ∀ pid, IsDrawn locks pid → IsBlocked locks pid → EndsBlocked locks pid ∨ NoDetails locks pid

/-- No drawn session in the middle of a chain has a wait to show. -/
def NoneBetween (locks : List LockInfo) : Prop :=
  ∀ pid, IsDrawn locks pid → IsBlocked locks pid → BlocksOther locks pid → NoDetails locks pid

/-! ## Nodes and sessions -/

theorem LockTreeNode.Below.head {root child node : LockTreeNode} {way : List Int}
    (hchild : child ∈ root.children) (hbelow : child.Below way node) :
    root.Below (way ++ [root.pid]) node := by
  induction hbelow with
  | root => exact .child .root hchild
  | child _ hmem ih => exact .child ih hmem

theorem LockTreeNode.Shows.exists_below {tree : LockTreeNode} {pid : Int} (h : tree.Shows pid) :
    ∃ way node, tree.Below way node ∧ node.pid = pid := by
  induction h with
  | root hdata => exact ⟨[], _, .root, hdata⟩
  | child hmem _ ih =>
      obtain ⟨way, node, hbelow, hpid⟩ := ih
      exact ⟨_, node, hbelow.head hmem, hpid⟩

theorem LockTreeNode.Below.shows {tree node : LockTreeNode} {way : List Int}
    (h : tree.Below way node) {pid : Int} (hnode : node.Shows pid) : tree.Shows pid := by
  induction h with
  | root => exact hnode
  | @child way parent child _ hmem ih =>
      cases parent with
      | node data children edges => exact ih (.child hmem hnode)

theorem LockTreeNode.shows_self (node : LockTreeNode) : node.Shows node.pid := by
  cases node with
  | node data children edges => exact .root rfl

namespace LockGraph

theorem IsCall.data_eq {g : LockGraph} {way : List Int} {node : LockTreeNode}
    (hcall : IsCall g way node) : node.data = g.data node.pid := by
  obtain ⟨fuel, -, hnode⟩ := hcall.built
  calc
    node.data = (g.buildNode fuel node.pid way).data := congrArg LockTreeNode.data hnode
    _ = g.data node.pid := data_buildNode g fuel node.pid way

end LockGraph

theorem isRoot_iff {locks : List LockInfo} {root : Int} :
    root ∈ (LockGraph.ofLocks locks).rootPIDs ↔ IsRoot locks root :=
  (LockGraph.describes_ofLocks locks).mem_rootPIDs

theorem isDrawn_iff {locks : List LockInfo} {pid : Int} :
    IsDrawn locks pid ↔ ∃ tree ∈ (buildLockTree locks).roots, tree.Shows pid := by
  rw [shown_iff]
  simp only [isRoot_iff, IsDrawn]

theorem isDrawn_of_below {locks : List LockInfo} {root node : LockTreeNode} {way : List Int}
    (hroot : root ∈ (buildLockTree locks).roots) (hbelow : root.Below way node) :
    IsDrawn locks node.pid :=
  isDrawn_iff.2 ⟨root, hroot, hbelow.shows node.shows_self⟩

theorem exists_below_of_isDrawn {locks : List LockInfo} {pid : Int} (h : IsDrawn locks pid) :
    ∃ root ∈ (buildLockTree locks).roots, ∃ way node, root.Below way node ∧ node.pid = pid := by
  obtain ⟨root, hroot, hshows⟩ := isDrawn_iff.1 h
  exact ⟨root, hroot, hshows.exists_below⟩

/-! ## What is written last -/

/-- The node that a row writes for a session that it mentions. -/
def LockInfo.nodeFor (lock : LockInfo) (pid : Int) : LockNode :=
  -- The blocked session is written after the blocking one.
  if lock.blockedPID = pid then blockedNode lock else blockingNode lock

theorem lastMention_append (locks : List LockInfo) (lock : LockInfo) (pid : Int) :
    lastMention (locks ++ [lock]) pid =
      if lock.blockingPID = pid ∨ lock.blockedPID = pid then some lock
      else lastMention locks pid := by
  unfold lastMention
  rw [List.filter_append]
  split
  · rename_i hmention
    simp [hmention]
  · rename_i hmention
    simp [hmention]

theorem mem_of_lastMention {locks : List LockInfo} {pid : Int} {lock : LockInfo}
    (h : lastMention locks pid = some lock) :
    lock ∈ locks ∧ (lock.blockingPID = pid ∨ lock.blockedPID = pid) := by
  have hmem := List.mem_filter.1 (List.mem_of_getLast? h)
  exact ⟨hmem.1, of_decide_eq_true hmem.2⟩

theorem exists_lastMention {locks : List LockInfo} {pid : Int}
    (h : IsBlocker locks pid ∨ IsBlocked locks pid) : ∃ lock, lastMention locks pid = some lock := by
  obtain ⟨lock, hlock, hmention⟩ :
      ∃ lock ∈ locks, lock.blockingPID = pid ∨ lock.blockedPID = pid := by
    rcases h with ⟨lock, hlock, hpid⟩ | ⟨lock, hlock, hpid⟩
    · exact ⟨lock, hlock, Or.inl hpid⟩
    · exact ⟨lock, hlock, Or.inr hpid⟩
  cases hlast : lastMention locks pid with
  | some last => exact ⟨last, rfl⟩
  | none =>
      have hnone := List.getLast?_eq_none_iff.1 hlast
      exact absurd (decide_eq_true hmention) (List.filter_eq_nil_iff.1 hnone lock hlock)

/-- A node is what the last row that mentions its session writes. -/
theorem LockGraph.lookup_nodes (locks : List LockInfo) (pid : Int) :
    (ofLocks locks).nodes.lookup pid = (lastMention locks pid).map fun lock => lock.nodeFor pid := by
  induction locks using List.reverseRecOn with
  | nil => rfl
  | append_singleton locks lock ih =>
      have hsnoc : ofLocks (locks ++ [lock]) = (ofLocks locks).addLock lock := by
        simp [ofLocks]
      rw [hsnoc, lastMention_append]
      unfold addLock LockInfo.nodeFor
      by_cases hblocked : pid = lock.blockedPID
      · subst hblocked
        simp
      · rw [AList.lookup_insert_ne hblocked]
        by_cases hblocking : pid = lock.blockingPID
        · subst hblocking
          simp [Ne.symm hblocked]
        · -- The row does not mention the session.
          rw [AList.lookup_insert_ne hblocking, ih]
          simp [Ne.symm hblocked, Ne.symm hblocking, LockInfo.nodeFor]

theorem LockInfo.nodeFor_blocked {lock : LockInfo} {pid : Int} (h : lock.blockedPID = pid) :
    lock.nodeFor pid = blockedNode lock :=
  if_pos h

theorem LockInfo.nodeFor_blocking {lock : LockInfo} {pid : Int} (h : lock.blockedPID ≠ pid) :
    lock.nodeFor pid = blockingNode lock :=
  if_neg h

theorem mentioned_of_isDrawn {locks : List LockInfo} {pid : Int} (h : IsDrawn locks pid) :
    IsBlocker locks pid ∨ IsBlocked locks pid := by
  obtain ⟨root, hroot, hwaits⟩ := h
  cases hwaits with
  | refl => exact Or.inl hroot.1
  | tail _ hblocks => exact Or.inr (isBlocked_iff.2 ⟨_, hblocks⟩)

/-- What the tree shows of a drawn session. -/
theorem data_of_isDrawn {locks : List LockInfo} {pid : Int} (h : IsDrawn locks pid) :
    ∃ lock, lastMention locks pid = some lock ∧
      (LockGraph.ofLocks locks).data pid = lock.nodeFor pid := by
  obtain ⟨lock, hlast⟩ := exists_lastMention (mentioned_of_isDrawn h)
  refine ⟨lock, hlast, ?_⟩
  unfold LockGraph.data
  rw [LockGraph.lookup_nodes, hlast]
  rfl

/-! ## When every wait is kept -/

/-- The rows of a session show its wait, so a node without one is right only if there is none. -/
theorem noDetails_of_mem {locks : List LockInfo} (hagree : Agree locks) {lock : LockInfo}
    (hlock : lock ∈ locks) (hempty : lock.waitDetails = {}) : NoDetails locks lock.blockedPID := by
  intro other hother hpid
  calc
    other.waitDetails = lock.waitDetails := (hagree.blocked other hother lock hlock hpid).2
    _ = {} := hempty

theorem detailsKept_iff {locks : List LockInfo} (hagree : Agree locks) :
    DetailsKept locks ↔ WrittenLast locks := by
  constructor
  · intro hkept pid hdrawn hblocked
    obtain ⟨root, hroot, way, node, hbelow, rfl⟩ := exists_below_of_isDrawn hdrawn
    obtain ⟨last, hlast, hdata⟩ := data_of_isDrawn hdrawn
    obtain ⟨lock, hlock, hpid, hdetails⟩ := hkept root hroot way node hbelow hblocked
    by_cases hends : last.blockedPID = node.pid
    · exact Or.inl ⟨last, hlast, hends⟩
    · -- The last row has wiped the wait out, so the row that is shown has none.
      right
      have hempty : lock.waitDetails = {} := by
        rw [← hdetails, (call_of_below hroot hbelow).data_eq, hdata,
          LockInfo.nodeFor_blocking hends]
        rfl
      exact hpid ▸ noDetails_of_mem hagree hlock hempty
  · intro hlast root hroot way node hbelow hblocked
    have hdrawn := isDrawn_of_below hroot hbelow
    obtain ⟨last, hmention, hdata⟩ := data_of_isDrawn hdrawn
    have hnode : node.data = last.nodeFor node.pid :=
      (call_of_below hroot hbelow).data_eq.trans hdata
    by_cases hends : last.blockedPID = node.pid
    · refine ⟨last, (mem_of_lastMention hmention).1, hends, ?_⟩
      rw [hnode, LockInfo.nodeFor_blocked hends]
      rfl
    · obtain ⟨lock, hlock, hpid⟩ := hblocked
      refine ⟨lock, hlock, hpid, ?_⟩
      rcases hlast node.pid hdrawn ⟨lock, hlock, hpid⟩ with ⟨other, hother, hpid'⟩ | hnone
      · rw [hmention, Option.some.injEq] at hother
        exact absurd (hother ▸ hpid') hends
      · rw [hnode, LockInfo.nodeFor_blocking hends, hnone lock hlock hpid]
        rfl

/-! ## Rows in another order -/

section Permuted

variable {rows locks : List LockInfo}

theorem isBlocker_perm (h : rows.Perm locks) : IsBlocker rows = IsBlocker locks := by
  funext pid
  simp only [IsBlocker, h.mem_iff]

theorem isBlocked_perm (h : rows.Perm locks) : IsBlocked rows = IsBlocked locks := by
  funext pid
  simp only [IsBlocked, h.mem_iff]

theorem blocks_perm (h : rows.Perm locks) : Blocks rows = Blocks locks := by
  funext a b
  simp only [Blocks, h.mem_iff]

theorem isRoot_perm (h : rows.Perm locks) : IsRoot rows = IsRoot locks := by
  funext root
  simp only [IsRoot, isBlocker_perm h, isBlocked_perm h]

theorem isDrawn_perm (h : rows.Perm locks) : IsDrawn rows = IsDrawn locks := by
  funext pid
  simp only [IsDrawn, WaitsFor, isRoot_perm h, blocks_perm h]

/-- Strictly ascending lists of keys are known by their members. -/
theorem eq_of_pids {xs ys : List Int} (hxs : xs.Pairwise (· < ·)) (hys : ys.Pairwise (· < ·))
    (hmem : ∀ pid, pid ∈ xs ↔ pid ∈ ys) : xs = ys :=
  hxs.eq_of_mem_iff hys hmem

theorem rootPIDs_perm (h : rows.Perm locks) :
    (LockGraph.ofLocks rows).rootPIDs = (LockGraph.ofLocks locks).rootPIDs := by
  apply eq_of_pids (LockGraph.rootPIDs_ascending rows) (LockGraph.rootPIDs_ascending locks)
  intro pid
  rw [isRoot_iff, isRoot_iff, isRoot_perm h]

theorem childPIDs_perm (h : rows.Perm locks) (pid : Int) :
    (LockGraph.ofLocks rows).childPIDs pid = (LockGraph.ofLocks locks).childPIDs pid := by
  apply eq_of_pids (LockGraph.childPIDs_ascending _ pid) (LockGraph.childPIDs_ascending _ pid)
  intro child
  rw [(LockGraph.describes_ofLocks rows).mem_childPIDs,
    (LockGraph.describes_ofLocks locks).mem_childPIDs, blocks_perm h]

/-- Two lists with the same single member are equal. -/
theorem eq_of_perm_of_length_le_one {α : Type} {xs ys : List α} (h : xs.Perm ys)
    (hle : ys.length ≤ 1) : xs = ys := by
  match ys with
  | [] => exact h.eq_nil
  | [_] => exact List.perm_singleton.1 h

theorem lastRow_perm (h : rows.Perm locks) (hdistinct : DistinctPairs locks) (a b : Int) :
    lastRow rows a b = lastRow locks a b := by
  have hone : (locks.filter fun lock => lock.blockingPID = a ∧ lock.blockedPID = b).length ≤ 1 := by
    have hcount := List.nodup_iff_count_le_one.1 hdistinct (a, b)
    rw [List.count, List.countP_map, List.countP_eq_length_filter] at hcount
    refine le_trans (le_of_eq ?_) hcount
    congr 2
    funext lock
    rw [Bool.eq_iff_iff]
    simp
  exact congrArg List.getLast? (eq_of_perm_of_length_le_one (h.filter _) hone)

theorem edge_perm (h : rows.Perm locks) (hdistinct : DistinctPairs locks) (a b : Int) :
    (LockGraph.ofLocks rows).edge a b = (LockGraph.ofLocks locks).edge a b := by
  unfold LockGraph.edge
  rw [LockGraph.lookup_childrenOf, LockGraph.lookup_childrenOf, lastRow_perm h hdistinct]

/-- A blocked row and a row that blocks another session write the same node when there is no wait. -/
theorem blockedNode_eq_blockingNode (hagree : Agree locks) {l m : LockInfo} (hl : l ∈ locks)
    (hm : m ∈ locks) {pid : Int} (hlpid : l.blockedPID = pid) (hmpid : m.blockingPID = pid)
    (hempty : l.waitDetails = {}) : blockedNode l = blockingNode m := by
  have hidentity := hagree.both l hl m hm (hlpid.trans hmpid.symm)
  simp only [LockInfo.blockedIdentity, LockInfo.blockingIdentity, SessionIdentity.mk.injEq]
    at hidentity
  simp only [LockInfo.waitDetails, WaitDetails.mk.injEq] at hempty
  simp [blockedNode, blockingNode, hlpid, hmpid, hidentity, hempty]

/-- Two rows that mention a session write the same node for it, unless one of them wipes out what
the other says. -/
theorem nodeFor_eq (hagree : Agree locks) {l m : LockInfo} (hl : l ∈ locks) (hm : m ∈ locks)
    {pid : Int} (hlpid : l.blockingPID = pid ∨ l.blockedPID = pid)
    (hmpid : m.blockingPID = pid ∨ m.blockedPID = pid)
    (hnone : IsBlocked locks pid → BlocksOther locks pid → NoDetails locks pid) :
    l.nodeFor pid = m.nodeFor pid := by
  by_cases hlb : l.blockedPID = pid
  · rw [LockInfo.nodeFor_blocked hlb]
    by_cases hmb : m.blockedPID = pid
    · -- Both rows call the session blocked.
      rw [LockInfo.nodeFor_blocked hmb]
      obtain ⟨hidentity, hdetails⟩ := hagree.blocked l hl m hm (hlb.trans hmb.symm)
      simp only [LockInfo.blockedIdentity, SessionIdentity.mk.injEq] at hidentity
      simp only [LockInfo.waitDetails, WaitDetails.mk.injEq] at hdetails
      simp [blockedNode, hlb, hmb, hidentity, hdetails]
    · rw [LockInfo.nodeFor_blocking hmb]
      have hmblocking := hmpid.resolve_right hmb
      exact blockedNode_eq_blockingNode hagree hl hm hlb hmblocking
        (hnone ⟨l, hl, hlb⟩ ⟨m, hm, hmblocking, hmb⟩ l hl hlb)
  · have hlblocking := hlpid.resolve_right hlb
    rw [LockInfo.nodeFor_blocking hlb]
    by_cases hmb : m.blockedPID = pid
    · rw [LockInfo.nodeFor_blocked hmb]
      exact (blockedNode_eq_blockingNode hagree hm hl hmb hlblocking
        (hnone ⟨m, hm, hmb⟩ ⟨l, hl, hlblocking, hlb⟩ m hm hmb)).symm
    · -- Both rows call it blocking.
      have hmblocking := hmpid.resolve_right hmb
      rw [LockInfo.nodeFor_blocking hmb]
      have hidentity := hagree.blocking l hl m hm (hlblocking.trans hmblocking.symm)
      simp only [LockInfo.blockingIdentity, SessionIdentity.mk.injEq] at hidentity
      simp [blockingNode, hlblocking, hmblocking, hidentity]

/-- Without a session in the middle that has a wait, a drawn session shows the same in any order. -/
theorem data_perm (h : rows.Perm locks) (hagree : Agree locks) (hnone : NoneBetween locks)
    {pid : Int} (hdrawn : IsDrawn locks pid) :
    (LockGraph.ofLocks rows).data pid = (LockGraph.ofLocks locks).data pid := by
  obtain ⟨last, hlast, hdata⟩ := data_of_isDrawn hdrawn
  have hdrawn' : IsDrawn rows pid := isDrawn_perm h ▸ hdrawn
  obtain ⟨last', hlast', hdata'⟩ := data_of_isDrawn hdrawn'
  obtain ⟨hmem, hmention⟩ := mem_of_lastMention hlast
  obtain ⟨hmem', hmention'⟩ := mem_of_lastMention hlast'
  calc
    (LockGraph.ofLocks rows).data pid = last'.nodeFor pid := hdata'
    _ = last.nodeFor pid :=
      nodeFor_eq hagree (h.mem_iff.1 hmem') hmem hmention' hmention (hnone pid hdrawn)
    _ = (LockGraph.ofLocks locks).data pid := hdata.symm

theorem buildNode_perm (h : rows.Perm locks) (hdistinct : DistinctPairs locks)
    (hagree : Agree locks) (hnone : NoneBetween locks) {fuel : Nat} {pid : Int} {seen : List Int}
    (hdrawn : IsDrawn locks pid) :
    (LockGraph.ofLocks rows).buildNode fuel pid seen =
      (LockGraph.ofLocks locks).buildNode fuel pid seen := by
  induction fuel generalizing pid seen with
  | zero =>
      unfold LockGraph.buildNode
      rw [data_perm h hagree hnone hdrawn]
  | succ fuel ih =>
      by_cases hseen : pid ∈ seen
      · rw [LockGraph.buildNode_seen hseen, LockGraph.buildNode_seen hseen,
          data_perm h hagree hnone hdrawn]
      · rw [LockGraph.buildNode_unseen hseen, LockGraph.buildNode_unseen hseen,
          data_perm h hagree hnone hdrawn, childPIDs_perm h]
        congr 1
        · apply List.map_congr_left
          intro child hchild
          -- A child of a drawn session is drawn.
          obtain ⟨root, hroot, hwaits⟩ := hdrawn
          have hblocks : Blocks locks pid child :=
            (LockGraph.describes_ofLocks locks).mem_childPIDs.1 hchild
          exact ih ⟨root, hroot, hwaits.tail hblocks⟩
        · apply List.map_congr_left
          intro child _
          exact edge_perm h hdistinct pid child

theorem orderFree_of_noneBetween (hdistinct : DistinctPairs locks) (hagree : Agree locks)
    (hnone : NoneBetween locks) : OrderFree locks := by
  intro rows h
  -- One fuel that is enough for both trees.
  have hrows := roots_any_fuel rows (Nat.lt_succ_of_le (Nat.le_add_right
    (LockGraph.ofLocks rows).nodes.keys.length (LockGraph.ofLocks locks).nodes.keys.length))
  have hlocks := roots_any_fuel locks (Nat.lt_succ_of_le (Nat.le_add_left
    (LockGraph.ofLocks locks).nodes.keys.length (LockGraph.ofLocks rows).nodes.keys.length))
  rw [hrows, hlocks, rootPIDs_perm h]
  apply List.map_congr_left
  intro pid hpid
  exact buildNode_perm h hdistinct hagree hnone ⟨pid, isRoot_iff.1 hpid, Relation.ReflTransGen.refl⟩

/-! ## When the order does not matter -/

/-- The rows with one of them moved to the end. -/
theorem exists_perm_last {lock : LockInfo} (hlock : lock ∈ locks) :
    ∃ rows : List LockInfo, (rows ++ [lock]).Perm locks := by
  obtain ⟨before, after, rfl⟩ := List.append_of_mem hlock
  exact ⟨before ++ after, (List.perm_append_singleton _ _).trans List.perm_middle.symm⟩

/-- With the row at the end, the session shows what the row writes. -/
theorem data_of_last {rows : List LockInfo} {lock : LockInfo} {pid : Int}
    (hmention : lock.blockingPID = pid ∨ lock.blockedPID = pid) :
    (LockGraph.ofLocks (rows ++ [lock])).data pid = lock.nodeFor pid := by
  unfold LockGraph.data
  rw [LockGraph.lookup_nodes, lastMention_append, if_pos hmention]
  rfl

/-- Equal roots show equal data of every drawn session. -/
theorem data_eq_of_roots {rows' : List LockInfo} (h : rows.Perm locks) {pid : Int}
    (hdrawn : IsDrawn locks pid)
    (hroots : (buildLockTree rows).roots = (buildLockTree rows').roots) :
    (LockGraph.ofLocks rows).data pid = (LockGraph.ofLocks rows').data pid := by
  have hdrawn' : IsDrawn rows pid := isDrawn_perm h ▸ hdrawn
  obtain ⟨root, hroot, way, node, hbelow, rfl⟩ := exists_below_of_isDrawn hdrawn'
  have hroot' : root ∈ (buildLockTree rows').roots := hroots ▸ hroot
  calc
    (LockGraph.ofLocks rows).data node.pid = node.data :=
      (call_of_below hroot hbelow).data_eq.symm
    _ = (LockGraph.ofLocks rows').data node.pid := (call_of_below hroot' hbelow).data_eq

theorem noneBetween_of_orderFree (hfree : OrderFree locks) : NoneBetween locks := by
  intro pid hdrawn _ ⟨blocking, hblocking, hpid, hother⟩ blocked hblocked hpid'
  obtain ⟨rows, hrows⟩ := exists_perm_last hblocking
  obtain ⟨rows', hrows'⟩ := exists_perm_last hblocked
  -- Once a blocking row is the last one, once the blocked row is.
  have hroots := (hfree _ hrows).trans (hfree _ hrows').symm
  have hdata := data_eq_of_roots hrows hdrawn hroots
  rw [data_of_last (Or.inl hpid), data_of_last (Or.inr hpid'), LockInfo.nodeFor_blocking hother,
    LockInfo.nodeFor_blocked hpid'] at hdata
  exact (congrArg LockNode.waitDetails hdata).symm

theorem orderFree_iff (hdistinct : DistinctPairs locks) (hagree : Agree locks) :
    OrderFree locks ↔ NoneBetween locks :=
  ⟨noneBetween_of_orderFree, orderFree_of_noneBetween hdistinct hagree⟩

end Permuted

/-- The nodes keep the waits whatever the order of the rows exactly if the last row of every drawn
session calls it blocked or there is no wait, and if, where order counts, no drawn session in the
middle of a chain has one. -/
theorem lock_details_iff (locks : List LockInfo) (hagree : Agree locks) :
    (DetailsKept locks ∧ (DistinctPairs locks → OrderFree locks)) ↔
      (WrittenLast locks ∧ (DistinctPairs locks → NoneBetween locks)) := by
  rw [detailsKept_iff hagree]
  refine and_congr_right fun _ => ?_
  exact imp_congr_right fun hdistinct => orderFree_iff hdistinct hagree

/-- Session 1 blocks 2, which blocks 3. -/
def chainRows : List LockInfo :=
  [ { blockingPID := 1, blockedPID := 2, blockedState := "active", waitEvent := "transactionid" },
    { blockingPID := 2, blockedPID := 3, blockedState := "active", waitEvent := "relation" } ]

theorem agree_chainRows : Agree chainRows := by
  constructor
  · decide
  · decide
  · decide

theorem lock_details_iff_chainRows :
    Agree chainRows ∧
      ((DetailsKept chainRows ∧ (DistinctPairs chainRows → OrderFree chainRows)) ↔
        (WrittenLast chainRows ∧ (DistinctPairs chainRows → NoneBetween chainRows))) :=
  ⟨agree_chainRows, lock_details_iff chainRows agree_chainRows⟩

/-- Session 2 is drawn as a blocker, without the state and the wait of its own row. -/
theorem chain_loses_wait :
    ¬∀ locks : List LockInfo, Agree locks →
      DetailsKept locks ∧ (DistinctPairs locks → OrderFree locks) := by
  intro hall
  have hkept := (hall chainRows agree_chainRows).1
  let middle : LockTreeNode := .node { pid := 2 }
    [.node { pid := 3, state := "active", waitEvent := "relation" } [] []]
    [{ lockType := "", relationName := "", duration := "" }]
  let root : LockTreeNode := .node { pid := 1 } [middle]
    [{ lockType := "", relationName := "", duration := "" }]
  have hroots : (buildLockTree chainRows).roots = [root] := rfl
  have hroot : root ∈ (buildLockTree chainRows).roots := hroots ▸ List.mem_singleton_self root
  have hbelow : root.Below [1] middle := .child .root (List.mem_singleton_self middle)
  obtain ⟨lock, hlock, hpid, hdetails⟩ :=
    hkept root hroot [1] middle hbelow ⟨_, List.mem_cons_self, rfl⟩
  -- The only row in which session 2 is blocked has a state.
  have hstate : ∀ lock ∈ chainRows, lock.blockedPID = 2 → lock.blockedState = "active" := by
    decide
  have hempty : "" = lock.blockedState := congrArg WaitDetails.state hdetails
  rw [hstate lock hlock hpid] at hempty
  exact absurd hempty (by decide)

end Handler
end Pgaio
