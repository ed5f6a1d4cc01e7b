import Pgaio.Service.PoolCache

/-!
# PoolCacheLaws — what the critical sections of the pool manager keep

`CacheInv`: a cached pool is open and cached under one name only, at most `poolManagerMaxPools` pools
are cached, and for a pool that is being opened there is room and no entry yet.  Every critical
section keeps it; what each action can do is said once (`Performs`).  A pool leaves the cache when it
is the least recently used one while room is made (`oldestName_spec`), or when a sweep finds it idle
(`lookup_sweepIdlePools`).
-/

namespace Pgaio
namespace Service

open Go

namespace PoolWorld

variable {w : PoolWorld} {name : String} {managed : ManagedPool} {pool k : Nat}

/-! ## Closing -/

@[simp] theorem closePool_pools : (w.closePool pool).pools = w.pools := rfl

@[simp] theorem closePool_profiles : (w.closePool pool).profiles = w.profiles := rfl

@[simp] theorem closePool_length : (w.closePool pool).opened.length = w.opened.length := by
  simp [closePool]

theorem closePool_opened :
    (w.closePool pool).opened[k]? =
      (w.opened[k]?).map fun o => if pool = k then { o with closed := true } else o := by
  unfold closePool
  rw [List.getElem?_modify]
  by_cases h : pool = k
  · subst h
    simp
  · simp [h]

theorem isClosed_closePool_ne (h : pool ≠ k) : (w.closePool pool).isClosed k = w.isClosed k := by
  unfold isClosed
  rw [closePool_opened]
  cases w.opened[k]? <;> simp [h]

/-- What a pool was opened for does not change when pools are closed. -/
def SameOpened (w w' : PoolWorld) : Prop :=
  ∀ (k : Nat) (o : OpenedPool), w.opened[k]? = some o →
    ∃ o', w'.opened[k]? = some o' ∧ o'.profileName = o.profileName ∧ o'.dbName = o.dbName ∧
      o'.connConfig = o.connConfig

theorem SameOpened.refl (w : PoolWorld) : SameOpened w w :=
  fun _ o ho => ⟨o, ho, rfl, rfl, rfl⟩

theorem SameOpened.trans {w₁ w₂ w₃ : PoolWorld} (h : SameOpened w₁ w₂) (h' : SameOpened w₂ w₃) :
    SameOpened w₁ w₃ := by
  intro k o ho
  rcases h k o ho with ⟨o', ho', hname, hdb, hconn⟩
  rcases h' k o' ho' with ⟨o'', ho'', hname', hdb', hconn'⟩
  exact ⟨o'', ho'', hname'.trans hname, hdb'.trans hdb, hconn'.trans hconn⟩

theorem sameOpened_closePool : SameOpened w (w.closePool pool) := by
  intro k o ho
  refine ⟨if pool = k then { o with closed := true } else o, ?_, ?_⟩
  · rw [closePool_opened, ho]
    rfl
  · split <;> exact ⟨rfl, rfl, rfl⟩

/-! ## The invariant of the cache -/

def HasRoom (w : PoolWorld) : Prop :=
  w.pools.keys.length < poolManagerMaxPools

instance : Decidable w.HasRoom :=
  inferInstanceAs (Decidable (_ < _))

structure CacheInv (w : PoolWorld) : Prop where
  opened : ∀ name managed, w.pools.lookup name = some managed → managed.pool < w.opened.length
  alive : ∀ name managed, w.pools.lookup name = some managed → w.isClosed managed.pool = false
  apart : ∀ name name' managed managed', w.pools.lookup name = some managed →
    w.pools.lookup name' = some managed' → managed.pool = managed'.pool → name = name'
  named : "" ∉ w.pools.keys
  bounded : w.pools.keys.length ≤ poolManagerMaxPools
  creating : ∀ name, w.creating = some name → w.pools.lookup name = none ∧ w.HasRoom

/-- Nothing is cached at first. -/
theorem cacheInv_empty (profiles : List ConnectionProfile) :
    CacheInv { profiles := profiles } where
  opened := by
    intro name managed h
    simp at h
  alive := by
    intro name managed h
    simp at h
  apart := by
    intro name name' managed managed' h
    simp at h
  named := by simp
  bounded := by simp
  creating := by
    intro name h
    cases h

theorem mem_keys_iff : name ∈ w.pools.keys ↔ ∃ managed, w.pools.lookup name = some managed := by
  rw [← AList.mem_keys, ← AList.lookup_isSome, Option.isSome_iff_exists]

/-! ## Dropping a pool -/

theorem lookup_dropPool_ne {other : String} (h : other ≠ name) :
    (w.dropPool name).pools.lookup other = w.pools.lookup other := by
  unfold dropPool
  split
  · rfl
  · exact AList.lookup_erase_ne h

theorem keys_dropPool : (w.dropPool name).pools.keys = w.pools.keys.erase name := by
  unfold dropPool
  split
  · rename_i h
    have hnot : name ∉ w.pools.keys := by
      rw [mem_keys_iff]
      simp [h]
    exact (List.erase_of_not_mem hnot).symm
  · exact AList.keys_erase _ _

theorem lookup_dropPool_self : (w.dropPool name).pools.lookup name = none := by
  unfold dropPool
  split
  · assumption
  · exact AList.lookup_erase _ _

/-- What is cached afterwards was cached before, under another name than the dropped one. -/
theorem lookup_of_dropPool {other : String}
    (h : (w.dropPool name).pools.lookup other = some managed) :
    w.pools.lookup other = some managed ∧ other ≠ name := by
  have hne : other ≠ name := by
    rintro rfl
    rw [lookup_dropPool_self] at h
    cases h
  rw [lookup_dropPool_ne hne] at h
  exact ⟨h, hne⟩

theorem lookup_dropPool_none {other : String} (h : w.pools.lookup other = none) :
    (w.dropPool name).pools.lookup other = none := by
  rw [Option.eq_none_iff_forall_ne_some]
  intro m hm
  rw [(lookup_of_dropPool hm).1] at h
  cases h

@[simp] theorem dropPool_length : (w.dropPool name).opened.length = w.opened.length := by
  unfold dropPool
  split
  · rfl
  · exact closePool_length

@[simp] theorem dropPool_profiles : (w.dropPool name).profiles = w.profiles := by
  unfold dropPool
  split <;> rfl

@[simp] theorem dropPool_creating : (w.dropPool name).creating = w.creating := by
  unfold dropPool
  split <;> rfl

theorem length_dropPool_le : (w.dropPool name).pools.keys.length ≤ w.pools.keys.length := by
  rw [keys_dropPool]
  exact List.erase_sublist.length_le

theorem sameOpened_dropPool : SameOpened w (w.dropPool name) := by
  unfold dropPool
  split
  · exact SameOpened.refl w
  · intro k o ho
    exact sameOpened_closePool k o ho

theorem isClosed_dropPool (hdropped : w.pools.lookup name = some managed) (h : managed.pool ≠ k) :
    (w.dropPool name).isClosed k = w.isClosed k := by
  unfold dropPool
  rw [hdropped]
  exact isClosed_closePool_ne h

theorem CacheInv.dropPool (h : CacheInv w) (name : String) : CacheInv (w.dropPool name) where
  opened := by
    intro other m hm
    rw [dropPool_length]
    exact h.opened other m (lookup_of_dropPool hm).1
  alive := by
    intro other m hm
    rcases lookup_of_dropPool hm with ⟨hbefore, hne⟩
    cases hdropped : w.pools.lookup name with
    | none =>
        have hsame : w.dropPool name = w := by simp [PoolWorld.dropPool, hdropped]
        rw [hsame]
        exact h.alive other m hbefore
    | some dropped =>
        -- Entries have pools of their own, so closing the dropped one closes no other.
        have hpool : dropped.pool ≠ m.pool := fun heq =>
          hne (h.apart other name m dropped hbefore hdropped heq.symm)
        rw [isClosed_dropPool hdropped hpool]
        exact h.alive other m hbefore
  apart := by
    intro a b m m' hm hm'
    exact h.apart a b m m' (lookup_of_dropPool hm).1 (lookup_of_dropPool hm').1
  named := by
    rw [keys_dropPool]
    exact fun hmem => h.named (List.mem_of_mem_erase hmem)
  bounded := le_trans length_dropPool_le h.bounded
  creating := by
    intro other hother
    rw [dropPool_creating] at hother
    rcases h.creating other hother with ⟨hfree, hroom⟩
    exact ⟨lookup_dropPool_none hfree, lt_of_le_of_lt length_dropPool_le hroom⟩

/-! ## Touching a pool -/

theorem keys_touch {now : Time} : (w.touch name now).pools.keys.Perm w.pools.keys := by
  unfold touch
  split
  · exact List.Perm.refl _
  · rename_i h
    rw [AList.keys_insert]
    exact (List.perm_cons_erase (mem_keys_iff.2 ⟨_, h⟩)).symm

@[simp] theorem touch_opened {now : Time} : (w.touch name now).opened = w.opened := by
  unfold touch
  split <;> rfl

@[simp] theorem touch_profiles {now : Time} : (w.touch name now).profiles = w.profiles := by
  unfold touch
  split <;> rfl

@[simp] theorem touch_creating {now : Time} : (w.touch name now).creating = w.creating := by
  unfold touch
  split <;> rfl

/-- Touching changes the time of one entry, and no pool. -/
theorem pool_touch {now : Time} {other : String} :
    ((w.touch name now).pools.lookup other).map ManagedPool.pool =
      (w.pools.lookup other).map ManagedPool.pool := by
  unfold touch
  split
  · rfl
  · rename_i m h
    by_cases hother : other = name
    · subst hother
      simp [h, AList.lookup_insert]
    · rw [AList.lookup_insert_ne hother]

/-- What is cached afterwards was cached before, with the same pool. -/
theorem lookup_of_touch {now : Time} {other : String}
    (h : (w.touch name now).pools.lookup other = some managed) :
    ∃ before, w.pools.lookup other = some before ∧ before.pool = managed.pool := by
  have hpool : (w.pools.lookup other).map ManagedPool.pool = some managed.pool := by
    have hkept : ((w.touch name now).pools.lookup other).map ManagedPool.pool =
        (w.pools.lookup other).map ManagedPool.pool := pool_touch
    rw [← hkept, h]
    rfl
  exact Option.map_eq_some_iff.1 hpool

theorem CacheInv.touch (h : CacheInv w) (name : String) (now : Time) :
    CacheInv (w.touch name now) where
  opened := by
    intro other m hm
    rcases lookup_of_touch hm with ⟨before, hbefore, hpool⟩
    rw [touch_opened, ← hpool]
    exact h.opened other before hbefore
  alive := by
    intro other m hm
    rcases lookup_of_touch hm with ⟨before, hbefore, hpool⟩
    unfold isClosed
    rw [touch_opened, ← hpool]
    exact h.alive other before hbefore
  apart := by
    intro a b m m' hm hm' hpool
    rcases lookup_of_touch hm with ⟨before, hbefore, heq⟩
    rcases lookup_of_touch hm' with ⟨before', hbefore', heq'⟩
    exact h.apart a b before before' hbefore hbefore' (heq.trans (hpool.trans heq'.symm))
  named := by
    rw [keys_touch.mem_iff]
    exact h.named
  bounded := by
    rw [keys_touch.length_eq]
    exact h.bounded
  creating := by
    intro other hother
    rw [touch_creating] at hother
    rcases h.creating other hother with ⟨hfree, hroom⟩
    refine ⟨?_, lt_of_eq_of_lt keys_touch.length_eq hroom⟩
    have hmap : ((w.touch name now).pools.lookup other).map ManagedPool.pool = none := by
      rw [pool_touch, hfree]
      rfl
    exact Option.map_eq_none_iff.1 hmap

/-! ## The least recently used pool -/

/-- `oldest` is a cached entry, and no visited one was used before it. -/
def OldestOf (w : PoolWorld) (visited : List String) (oldest : String × Time) : Prop :=
  oldest.1 ≠ "" ∧ ∃ managed, w.pools.lookup oldest.1 = some managed ∧
    managed.lastUsed = oldest.2 ∧
    ∀ name ∈ visited, ∀ m, w.pools.lookup name = some m → oldest.2 ≤ m.lastUsed

theorem oldestOf_first (time : Time) (hname : name ≠ "")
    (h : w.pools.lookup name = some managed) : OldestOf w [name] (w.olderOf ("", time) name) := by
  have hround : w.olderOf ("", time) name = (name, managed.lastUsed) := by
    simp [olderOf, h]
  rw [hround]
  refine ⟨hname, managed, h, rfl, ?_⟩
  intro other hother m hm
  rw [List.mem_singleton.1 hother, h] at hm
  cases hm
  exact Int.le_refl _

theorem OldestOf.round {visited : List String} {oldest : String × Time}
    (hold : OldestOf w visited oldest) (hname : name ≠ "")
    (h : w.pools.lookup name = some managed) :
    OldestOf w (visited ++ [name]) (w.olderOf oldest name) := by
  rcases hold with ⟨hne, kept, hkept, htime, hmin⟩
  by_cases hlt : managed.lastUsed < oldest.2
  · -- The new entry takes over, and it is older than everything before.
    have hround : w.olderOf oldest name = (name, managed.lastUsed) := by
      simp [olderOf, h, hlt]
    rw [hround]
    refine ⟨hname, managed, h, rfl, ?_⟩
    intro other hother m hm
    rcases List.mem_append.1 hother with hbefore | hlast
    · exact Int.le_trans (Int.le_of_lt hlt) (hmin other hbefore m hm)
    · rw [List.mem_singleton.1 hlast, h] at hm
      cases hm
      exact Int.le_refl _
  · -- The entry was used later, so the oldest one stays.
    have hround : w.olderOf oldest name = oldest := by
      simp [olderOf, h, hlt, hne]
    rw [hround]
    refine ⟨hne, kept, hkept, htime, ?_⟩
    intro other hother m hm
    rcases List.mem_append.1 hother with hbefore | hlast
    · exact hmin other hbefore m hm
    · rw [List.mem_singleton.1 hlast, h] at hm
      cases hm
      exact Int.not_lt.1 hlt

theorem OldestOf.rounds {names visited : List String} {oldest : String × Time}
    (hold : OldestOf w visited oldest) (hnames : ∀ name ∈ names, name ≠ "" ∧ name ∈ w.pools.keys) :
    OldestOf w (visited ++ names) (names.foldl w.olderOf oldest) := by
  -- The visited names grow from round to round; the oldest entry so far is the accumulator.
  induction names generalizing visited oldest with
  | nil => simpa using hold
  | cons name names ih =>
      rcases hnames name List.mem_cons_self with ⟨hne, hmem⟩
      rcases mem_keys_iff.1 hmem with ⟨managed, hlookup⟩
      have hnext := hold.round hne hlookup
      have hrest := ih hnext fun other hother => hnames other (List.mem_cons_of_mem _ hother)
      simpa [List.append_assoc] using hrest

/-- The order in which a loop visits the cache contains exactly its names. -/
theorem mem_order {iteration : List String} :
    name ∈ (if iteration.isPerm w.pools.keys then iteration else w.pools.keys) ↔
      name ∈ w.pools.keys := by
  split
  · rename_i h
    exact (List.isPerm_iff.1 h).mem_iff
  · exact Iff.rfl

/-- The evicted pool is a cached one that was used least recently. -/
theorem oldestName_spec (h : CacheInv w) (hkeys : w.pools.keys ≠ []) (iteration : List String) :
    ∃ managed, w.pools.lookup (w.oldestName iteration) = some managed ∧
      ∀ name m, w.pools.lookup name = some m → managed.lastUsed ≤ m.lastUsed := by
  unfold oldestName
  dsimp only
  generalize horder :
    (if iteration.isPerm w.pools.keys then iteration else w.pools.keys) = order
  have hmem : ∀ name, name ∈ order ↔ name ∈ w.pools.keys := by
    intro name
    rw [← horder]
    exact mem_order
  cases order with
  | nil =>
      -- The loop visits every cached name, and there is one.
      rcases List.exists_mem_of_ne_nil _ hkeys with ⟨name, hname⟩
      exact absurd ((hmem name).2 hname) List.not_mem_nil
  | cons first names =>
      -- The first round takes the first entry whatever its time, the others compare.
      have hnamed : ∀ name ∈ first :: names, name ≠ "" ∧ name ∈ w.pools.keys := by
        intro name hname
        have hkey := (hmem name).1 hname
        exact ⟨fun heq => h.named (heq ▸ hkey), hkey⟩
      rcases hnamed first List.mem_cons_self with ⟨hne, hfirst⟩
      rcases mem_keys_iff.1 hfirst with ⟨managed, hlookup⟩
      have hold := (oldestOf_first 0 hne hlookup).rounds
        fun name hname => hnamed name (List.mem_cons_of_mem _ hname)
      rcases hold with ⟨_, oldest, holdest, htime, hmin⟩
      refine ⟨oldest, holdest, ?_⟩
      intro name m hm
      have hvisited : name ∈ [first] ++ names := (hmem name).2 (mem_keys_iff.2 ⟨m, hm⟩)
      rw [htime]
      exact hmin name hvisited m hm

/-! ## Making room -/

/-- Making room drops a pool or does nothing. -/
theorem makeRoom_keeps {I : PoolWorld → Prop} {iteration : List String}
    (hdrop : ∀ name, I (w.dropPool name)) (h : I w) : I (w.makeRoom iteration) := by
  unfold PoolWorld.makeRoom
  split
  · exact hdrop _
  · exact h

theorem CacheInv.makeRoom (h : CacheInv w) (iteration : List String) :
    CacheInv (w.makeRoom iteration) :=
  makeRoom_keeps h.dropPool h

/-- A full cache is not empty, so there is a pool to evict. -/
theorem keys_ne_nil_of_full (hfull : poolManagerMaxPools ≤ w.pools.keys.length) :
    w.pools.keys ≠ [] := by
  intro hnil
  rw [hnil] at hfull
  exact absurd hfull (by decide)

/-- Afterwards there is room for one more pool. -/
theorem hasRoom_makeRoom (h : CacheInv w) (iteration : List String) :
    (w.makeRoom iteration).HasRoom := by
  unfold PoolWorld.makeRoom
  split
  · rename_i hfull
    rcases oldestName_spec h (keys_ne_nil_of_full hfull) iteration with ⟨managed, hlookup, _⟩
    have hmem := mem_keys_iff.2 ⟨managed, hlookup⟩
    unfold HasRoom evictOldestPoolLocked
    rw [keys_dropPool, List.length_erase_of_mem hmem]
    have hbounded := h.bounded
    have hpos : 0 < poolManagerMaxPools := by decide
    omega
  · rename_i hfree
    exact not_le.1 hfree

@[simp] theorem makeRoom_length {iteration : List String} :
    (w.makeRoom iteration).opened.length = w.opened.length :=
  makeRoom_keeps (I := fun w' => w'.opened.length = w.opened.length) (fun _ => dropPool_length) rfl

@[simp] theorem makeRoom_profiles {iteration : List String} :
    (w.makeRoom iteration).profiles = w.profiles :=
  makeRoom_keeps (I := fun w' => w'.profiles = w.profiles) (fun _ => dropPool_profiles) rfl

theorem sameOpened_makeRoom {iteration : List String} :
    SameOpened w (w.makeRoom iteration) :=
  makeRoom_keeps (fun _ => sameOpened_dropPool) (SameOpened.refl w)

theorem lookup_of_makeRoom {iteration : List String}
    (h : (w.makeRoom iteration).pools.lookup name = some managed) :
    w.pools.lookup name = some managed := by
  revert h
  refine makeRoom_keeps (I := fun w' => w'.pools.lookup name = some managed →
    w.pools.lookup name = some managed) ?_ id
  intro dropped h
  exact (lookup_of_dropPool h).1

theorem lookup_makeRoom_none {iteration : List String} (h : w.pools.lookup name = none) :
    (w.makeRoom iteration).pools.lookup name = none :=
  makeRoom_keeps (I := fun w' => w'.pools.lookup name = none) (fun _ => lookup_dropPool_none h) h

/-! ## Opening a pool -/

@[simp] theorem openPool_pools {profileName dbName : String} {conn : ConnConfig} :
    (w.openPool profileName dbName conn).pools = w.pools := rfl

@[simp] theorem openPool_profiles {profileName dbName : String} {conn : ConnConfig} :
    (w.openPool profileName dbName conn).profiles = w.profiles := rfl

theorem openPool_old {profileName dbName : String} {conn : ConnConfig} (h : k < w.opened.length) :
    (w.openPool profileName dbName conn).opened[k]? = w.opened[k]? :=
  List.getElem?_append_left h

theorem openPool_new (profileName dbName : String) (conn : ConnConfig) :
    (w.openPool profileName dbName conn).opened[w.opened.length]? =
      some { profileName := profileName, dbName := dbName, connConfig := conn } := by
  simp [openPool]

theorem sameOpened_openPool {profileName dbName : String} {conn : ConnConfig} :
    SameOpened w (w.openPool profileName dbName conn) := by
  intro k o ho
  have hk : k < w.opened.length := (List.getElem?_eq_some_iff.1 ho).1
  exact ⟨o, (openPool_old hk).trans ho, rfl, rfl, rfl⟩

/-- A pool that was opened but is not cached does not matter to the cache. -/
theorem CacheInv.openPool (h : CacheInv w) (profileName dbName : String) (conn : ConnConfig) :
    CacheInv (w.openPool profileName dbName conn) where
  opened := by
    intro name m hm
    have hlt := h.opened name m hm
    simp only [PoolWorld.openPool, List.length_append, List.length_singleton]
    omega
  alive := by
    intro name m hm
    unfold isClosed
    rw [openPool_old (h.opened name m hm)]
    exact h.alive name m hm
  apart := h.apart
  named := h.named
  bounded := h.bounded
  creating := h.creating

/-- Closing a pool that is not cached does not matter to the cache. -/
theorem CacheInv.closePool (h : CacheInv w)
    (hpool : ∀ name m, w.pools.lookup name = some m → m.pool ≠ pool) :
    CacheInv (w.closePool pool) where
  opened := by
    intro name m hm
    rw [closePool_length]
    exact h.opened name m hm
  alive := by
    intro name m hm
    rw [isClosed_closePool_ne (hpool name m hm).symm]
    exact h.alive name m hm
  apart := h.apart
  named := h.named
  bounded := h.bounded
  creating := h.creating

/-- What is cached after an insertion is the new entry, or was cached before under another name. -/
theorem lookup_of_insert {pools : AList fun _ : String => ManagedPool} {m m' : ManagedPool}
    {other : String} (h : (pools.insert name m).lookup other = some m') :
    (other = name ∧ m' = m) ∨ (other ≠ name ∧ pools.lookup other = some m') := by
  by_cases hother : other = name
  · subst hother
    rw [AList.lookup_insert] at h
    cases h
    exact Or.inl ⟨rfl, rfl⟩
  · rw [AList.lookup_insert_ne hother] at h
    exact Or.inr ⟨hother, h⟩

/-- Caching an open pool that was not cached, while there is room. -/
theorem CacheInv.insert (h : CacheInv w) {managed : ManagedPool} (hlock : w.creating = none)
    (hname : name ≠ "")
    (hlt : managed.pool < w.opened.length)
    (halive : w.isClosed managed.pool = false)
    (hnew : ∀ other m, w.pools.lookup other = some m → m.pool ≠ managed.pool)
    (hroom : w.HasRoom) :
    CacheInv { w with pools := w.pools.insert name managed } where
  opened := by
    intro other m hm
    rcases lookup_of_insert hm with ⟨_, rfl⟩ | ⟨_, hold⟩
    · exact hlt
    · exact h.opened other m hold
  alive := by
    intro other m hm
    rcases lookup_of_insert hm with ⟨_, rfl⟩ | ⟨_, hold⟩
    · exact halive
    · exact h.alive other m hold
  apart := by
    -- The pool is new, so no other entry has it.
    intro a b m m' hm hm' hpool
    rcases lookup_of_insert hm with ⟨ha, rfl⟩ | ⟨_, hold⟩
    · rcases lookup_of_insert hm' with ⟨hb, _⟩ | ⟨_, hold'⟩
      · exact ha.trans hb.symm
      · exact absurd hpool.symm (hnew b m' hold')
    · rcases lookup_of_insert hm' with ⟨_, rfl⟩ | ⟨_, hold'⟩
      · exact absurd hpool (hnew a m hold)
      · exact h.apart a b m m' hold hold' hpool
  named := by
    rw [AList.keys_insert, List.mem_cons]
    rintro (hempty | hmem)
    · exact hname hempty.symm
    · exact h.named (List.mem_of_mem_erase hmem)
  bounded := by
    rw [AList.keys_insert, List.length_cons]
    have hle := (List.erase_sublist (a := name) (l := w.pools.keys)).length_le
    unfold HasRoom at hroom
    omega
  creating := by
    intro other hother
    rw [hlock] at hother
    cases hother

theorem poolKey_ne_empty (profileName dbName : String) : poolKey profileName dbName ≠ "" := by
  intro h
  have hlist := congrArg String.toList h
  simp [poolKey] at hlist

/-! ## Creating a pool -/

theorem sameOpened_of_eq {w' : PoolWorld} (h : w'.opened = w.opened) : SameOpened w w' := by
  intro k o ho
  exact ⟨o, by rw [h, ho], rfl, rfl, rfl⟩

@[simp] theorem unlock_opened : w.unlock.opened = w.opened := rfl

@[simp] theorem unlock_pools : w.unlock.pools = w.pools := rfl

theorem CacheInv.lock (h : CacheInv w) (hfree : w.pools.lookup name = none) (hroom : w.HasRoom) :
    CacheInv { w with creating := some name } where
  opened := h.opened
  alive := h.alive
  apart := h.apart
  named := h.named
  bounded := h.bounded
  creating := by
    intro other hother
    cases hother
    exact ⟨hfree, hroom⟩

theorem CacheInv.unlock (h : CacheInv w) : CacheInv w.unlock where
  opened := h.opened
  alive := h.alive
  apart := h.apart
  named := h.named
  bounded := h.bounded
  creating := by
    intro other hother
    cases hother

section

variable {D : Driver} {pm : PoolManager D} {profileName dbName : String} {ch : PoolChoice}
variable {config : PoolConfig} {w' : PoolWorld}

/-- Everything that the section under the write lock can do up to the reading of the profile. -/
inductive Creates {D : Driver} (pm : PoolManager D) (w : PoolWorld) (profileName dbName : String)
    (ch : PoolChoice) : Except String Creation → PoolWorld → Prop where
  /-- Another caller has cached the pool meanwhile. -/
  | hit {managed : ManagedPool} :
      w.pools.lookup (poolKey profileName dbName) = some managed →
        Creates pm w profileName dbName ch (.ok (.cached managed.pool))
          (w.touch (poolKey profileName dbName) ch.now)
  | failed {err : String} :
      w.pools.lookup (poolKey profileName dbName) = none →
        Creates pm w profileName dbName ch (.error err) (w.makeRoom ch.iteration)
  | toOpen {config : PoolConfig} :
      w.pools.lookup (poolKey profileName dbName) = none →
        pm.newPoolConfig w.profiles profileName dbName = .ok config →
          Creates pm w profileName dbName ch (.ok (.toOpen config))
            { w.makeRoom ch.iteration with creating := some (poolKey profileName dbName) }

/-- Everything that the rest of the section can do. -/
inductive Opens (w : PoolWorld) (profileName dbName : String) (config : PoolConfig)
    (ch : PoolChoice) : Except String Nat → PoolWorld → Prop where
  | failed {err : String} : Opens w profileName dbName config ch (.error err) w.unlock
  | unreachable {err : String} :
      Opens w profileName dbName config ch (.error err)
        ((w.unlock.openPool profileName dbName config.connConfig).closePool w.opened.length)
  | opened :
      Opens w profileName dbName config ch (.ok w.opened.length)
        { w.unlock.openPool profileName dbName config.connConfig with
          pools := w.pools.insert (poolKey profileName dbName)
            { pool := w.opened.length, lastUsed := ch.now } }

theorem creates_createPool (pm : PoolManager D) (w : PoolWorld) (profileName dbName : String)
    (ch : PoolChoice) :
    Creates pm w profileName dbName ch (w.createPool pm profileName dbName ch).1
      (w.createPool pm profileName dbName ch).2 := by
  unfold createPool
  cases hlookup : w.pools.lookup (poolKey profileName dbName) with
  | some managed => exact .hit hlookup
  | none =>
      dsimp only
      cases hconfig : pm.newPoolConfig (w.makeRoom ch.iteration).profiles profileName dbName with
      | error err => exact .failed hlookup
      | ok config =>
          rw [makeRoom_profiles] at hconfig
          exact .toOpen hlookup hconfig

theorem opens_openNew (w : PoolWorld) (profileName dbName : String) (config : PoolConfig)
    (ch : PoolChoice) :
    Opens w profileName dbName config ch (w.openNew profileName dbName config ch).1
      (w.openNew profileName dbName config ch).2 := by
  simp only [openNew]
  split
  · exact .failed
  · split
    · exact .unreachable
    · exact .opened

theorem CacheInv.of_creates {r : Except String Creation} (h : CacheInv w)
    (hc : Creates pm w profileName dbName ch r w') : CacheInv w' := by
  cases hc with
  | hit _ => exact h.touch _ _
  | failed _ => exact h.makeRoom _
  | toOpen hfree _ => exact (h.makeRoom _).lock (lookup_makeRoom_none hfree) (hasRoom_makeRoom h _)

theorem CacheInv.of_opens {r : Except String Nat} (h : CacheInv w)
    (hlock : w.creating = some (poolKey profileName dbName))
    (ho : Opens w profileName dbName config ch r w') : CacheInv w' := by
  have hopen := h.unlock.openPool profileName dbName config.connConfig
  -- No cached pool has the number of the new one.
  have hnew : ∀ name m, w.pools.lookup name = some m → m.pool ≠ w.opened.length :=
    fun name m hm => Nat.ne_of_lt (h.opened name m hm)
  cases ho with
  | failed => exact h.unlock
  | unreachable => exact hopen.closePool hnew
  | opened =>
      -- There has been room since the lock was taken.
      refine hopen.insert rfl (poolKey_ne_empty _ _) ?_ ?_ hnew (h.creating _ hlock).2
      · simp [PoolWorld.openPool]
      · have hget := openPool_new (w := w.unlock) profileName dbName config.connConfig
        rw [unlock_opened] at hget
        simp [isClosed, hget]

theorem sameOpened_of_creates {r : Except String Creation}
    (hc : Creates pm w profileName dbName ch r w') : SameOpened w w' := by
  cases hc with
  | hit _ => exact sameOpened_of_eq touch_opened
  | failed _ => exact sameOpened_makeRoom
  | toOpen _ _ => exact sameOpened_makeRoom.trans (sameOpened_of_eq rfl)

theorem sameOpened_of_opens {r : Except String Nat}
    (ho : Opens w profileName dbName config ch r w') : SameOpened w w' := by
  have hunlock : SameOpened w w.unlock := sameOpened_of_eq rfl
  cases ho with
  | failed => exact hunlock
  | unreachable => exact (hunlock.trans sameOpened_openPool).trans sameOpened_closePool
  | opened => exact hunlock.trans sameOpened_openPool

theorem profiles_of_creates {r : Except String Creation}
    (hc : Creates pm w profileName dbName ch r w') : w'.profiles = w.profiles := by
  cases hc with
  | hit _ => exact touch_profiles
  | failed _ => exact makeRoom_profiles
  | toOpen _ _ => exact makeRoom_profiles

theorem profiles_of_opens {r : Except String Nat}
    (ho : Opens w profileName dbName config ch r w') : w'.profiles = w.profiles := by
  cases ho <;> rfl

/-! ## Which pools stay cached -/

def Cached (w : PoolWorld) (pool : Nat) : Prop :=
  ∃ name managed, w.pools.lookup name = some managed ∧ managed.pool = pool

/-- The pool that has to go when a new one is opened. -/
def victim? (w : PoolWorld) (iteration : List String) : Option Nat :=
  if poolManagerMaxPools ≤ w.pools.keys.length then
    (w.pools.lookup (w.oldestName iteration)).map ManagedPool.pool
  else none

theorem Cached.touch (h : Cached w pool) (name : String) (now : Time) :
    Cached (w.touch name now) pool := by
  rcases h with ⟨other, m, hm, hpool⟩
  have hmap : ((w.touch name now).pools.lookup other).map ManagedPool.pool = some pool := by
    rw [pool_touch, hm, ← hpool]
    rfl
  rcases Option.map_eq_some_iff.1 hmap with ⟨m', hm', hpool'⟩
  exact ⟨other, m', hm', hpool'⟩

theorem Cached.makeRoom (h : Cached w pool) {iteration : List String}
    (hspared : w.victim? iteration ≠ some pool) : Cached (w.makeRoom iteration) pool := by
  rcases h with ⟨name, m, hm, hpool⟩
  unfold victim? at hspared
  unfold PoolWorld.makeRoom
  split
  · -- The pool is not the victim, so another entry is dropped.
    rename_i hfull
    rw [if_pos hfull] at hspared
    refine ⟨name, m, ?_, hpool⟩
    unfold evictOldestPoolLocked
    rw [lookup_dropPool_ne, hm]
    rintro heq
    rw [← heq, hm] at hspared
    exact hspared (congrArg some hpool)
  · exact ⟨name, m, hm, hpool⟩

theorem Cached.of_creates {r : Except String Creation} (hcached : Cached w pool)
    (hspared : w.pools.lookup (poolKey profileName dbName) = none →
      w.victim? ch.iteration ≠ some pool)
    (hc : Creates pm w profileName dbName ch r w') : Cached w' pool := by
  cases hc with
  | hit _ => exact hcached.touch _ _
  | failed hfree => exact hcached.makeRoom (hspared hfree)
  | toOpen hfree _ => exact hcached.makeRoom (hspared hfree)

theorem Cached.of_opens {r : Except String Nat} (hcached : Cached w pool)
    (hfree : w.pools.lookup (poolKey profileName dbName) = none)
    (ho : Opens w profileName dbName config ch r w') : Cached w' pool := by
  cases ho with
  | failed => exact hcached
  | unreachable => exact hcached
  | opened =>
      rcases hcached with ⟨name, m, hm, hpool⟩
      refine ⟨name, m, ?_, hpool⟩
      -- The name of the new pool was free, so it is another one.
      have hne : name ≠ poolKey profileName dbName := by
        rintro rfl
        rw [hm] at hfree
        cases hfree
      rw [AList.lookup_insert_ne hne]
      exact hm

/-- A pool that has been cached meanwhile is cached under the name it was asked for. -/
theorem lookup_of_hit {n : Nat} (hc : Creates pm w profileName dbName ch (.ok (.cached n)) w') :
    ∃ managed, w'.pools.lookup (poolKey profileName dbName) = some managed ∧
      managed.pool = n := by
  cases hc with
  | @hit managed hlookup =>
      -- Touching the pool leaves it under its name.
      have hmap : ((w.touch (poolKey profileName dbName) ch.now).pools.lookup
          (poolKey profileName dbName)).map ManagedPool.pool = some managed.pool := by
        rw [pool_touch, hlookup]
        rfl
      exact Option.map_eq_some_iff.1 hmap

theorem lookup_of_opened {n : Nat} (ho : Opens w profileName dbName config ch (.ok n) w') :
    ∃ managed, w'.pools.lookup (poolKey profileName dbName) = some managed ∧
      managed.pool = n := by
  cases ho with
  | opened => exact ⟨_, AList.lookup_insert _, rfl⟩

end

/-! ## The idle sweep -/

/-- A round drops the pool of its name or does nothing. -/
theorem sweepPool_keeps {I : PoolWorld → Prop} {now : Time} (hdrop : I (w.dropPool name))
    (h : I w) : I (sweepPool now w name) := by
  unfold sweepPool
  split
  · exact h
  · split
    · exact hdrop
    · exact h

theorem CacheInv.sweepPool (h : CacheInv w) (now : Time) (name : String) :
    CacheInv (PoolWorld.sweepPool now w name) :=
  sweepPool_keeps (h.dropPool name) h

theorem lookup_sweepPool {now : Time} {other : String} (h : w.pools.lookup name = some managed)
    (hidle : isIdle now managed = false) :
    (sweepPool now w other).pools.lookup name = some managed := by
  unfold sweepPool
  split
  · exact h
  · rename_i m hm
    split
    · -- The dropped entry is idle, so it is another one.
      rename_i hm'
      rw [lookup_dropPool_ne, h]
      rintro rfl
      rw [h] at hm
      cases hm
      rw [hidle] at hm'
      cases hm'
    · exact h

theorem lookup_of_sweepPool {now : Time} {other : String}
    (h : (sweepPool now w other).pools.lookup name = some managed) :
    w.pools.lookup name = some managed := by
  revert h
  refine sweepPool_keeps (I := fun w' => w'.pools.lookup name = some managed →
    w.pools.lookup name = some managed) ?_ id
  intro h
  exact (lookup_of_dropPool h).1

theorem sameOpened_sweepPool {now : Time} : SameOpened w (sweepPool now w name) :=
  sweepPool_keeps sameOpened_dropPool (SameOpened.refl w)

theorem sweepPool_profiles {now : Time} : (sweepPool now w name).profiles = w.profiles :=
  sweepPool_keeps (I := fun w' => w'.profiles = w.profiles) dropPool_profiles rfl

theorem sweepPool_creating {now : Time} : (sweepPool now w name).creating = w.creating :=
  sweepPool_keeps (I := fun w' => w'.creating = w.creating) dropPool_creating rfl

/-- What every round of the sweep keeps, the sweep keeps. -/
theorem sweepIdlePools_keeps {I : PoolWorld → Prop} {now : Time}
    (hround : ∀ w name, I w → I (sweepPool now w name)) (h : I w) : I (w.sweepIdlePools now) := by
  unfold sweepIdlePools
  generalize w.pools.keys = names
  induction names generalizing w with
  | nil => exact h
  | cons name names ih => exact ih (hround w name h)

theorem CacheInv.sweepIdlePools (h : CacheInv w) (now : Time) :
    CacheInv (w.sweepIdlePools now) :=
  sweepIdlePools_keeps (fun _ name hw => hw.sweepPool now name) h

theorem sweepIdlePools_creating {now : Time} :
    (w.sweepIdlePools now).creating = w.creating :=
  sweepIdlePools_keeps (I := fun w' => w'.creating = w.creating)
    (fun _ _ hw => sweepPool_creating.trans hw) rfl

/-- A sweep leaves the entries alone that are not idle. -/
theorem lookup_sweepIdlePools {now : Time} (h : w.pools.lookup name = some managed)
    (hidle : isIdle now managed = false) :
    (w.sweepIdlePools now).pools.lookup name = some managed :=
  sweepIdlePools_keeps (I := fun w => w.pools.lookup name = some managed)
    (fun _ _ hw => lookup_sweepPool hw hidle) h

/-- A sweep caches nothing, keeps what pools were opened for, and keeps the settings. -/
theorem sweepIdlePools_frame (w : PoolWorld) (now : Time) :
    (∀ name m, (w.sweepIdlePools now).pools.lookup name = some m →
        w.pools.lookup name = some m) ∧
      SameOpened w (w.sweepIdlePools now) ∧ (w.sweepIdlePools now).profiles = w.profiles := by
  refine sweepIdlePools_keeps (I := fun w' => (∀ name m, w'.pools.lookup name = some m →
    w.pools.lookup name = some m) ∧ SameOpened w w' ∧ w'.profiles = w.profiles) ?_
    ⟨fun _ _ hm => hm, SameOpened.refl w, rfl⟩
  rintro w' name ⟨hlookup, hopened, hprofiles⟩
  refine ⟨fun other m hm => hlookup other m (lookup_of_sweepPool hm),
    hopened.trans sameOpened_sweepPool, ?_⟩
  rw [sweepPool_profiles]
  exact hprofiles

/-! ## One step of the world -/

/-- What an action can do. -/
inductive Performs {D : Driver} (pm : PoolManager D) (w : PoolWorld) (ch : PoolChoice) :
    (a : PoolAct) → a.Resp → PoolWorld → Prop where
  | currentDatabase : Performs pm w ch .currentDatabase ch.text w
  | profileDatabase {profileName : String} :
      Performs pm w ch (.profileDatabase profileName)
        (Service.profileDatabase w.profiles profileName) w
  | readCache {profileName dbName : String} :
      w.creating = none →
        Performs pm w ch (.readCache profileName dbName)
          ((w.pools.lookup (poolKey profileName dbName)).map ManagedPool.pool) w
  | touchPool {profileName dbName : String} :
      w.creating = none →
        Performs pm w ch (.touchPool profileName dbName) ()
          (w.touch (poolKey profileName dbName) ch.now)
  | createPool {profileName dbName : String} {r : Except String Creation} {w' : PoolWorld} :
      w.creating = none → Creates pm w profileName dbName ch r w' →
        Performs pm w ch (.createPool profileName dbName) r w'
  | openPool {profileName dbName : String} {config : PoolConfig} {r : Except String Nat}
      {w' : PoolWorld} :
      w.creating = some (poolKey profileName dbName) →
        Opens w profileName dbName config ch r w' →
          Performs pm w ch (.openPool profileName dbName config) r w'
  | handOver {ref : PoolRef} : Performs pm w ch (.handOver ref) () w
  | statement {ref : PoolRef} {r : Bool} : Performs pm w ch (.statement ref) r w

theorem whenFree_eq_some {α : Type} {x y : α} :
    w.whenFree x = some y ↔ w.creating = none ∧ x = y := by
  unfold whenFree
  split <;> simp_all

section

variable {D : Driver} {pm : PoolManager D} {a : PoolAct} {ch : PoolChoice} {r : a.Resp}
variable {w' : PoolWorld}

theorem performs_of_exec (h : w.exec pm a ch = some (r, w')) : Performs pm w ch a r w' := by
  cases a with
  | currentDatabase =>
      cases h
      exact .currentDatabase
  | profileDatabase profileName =>
      cases h
      exact .profileDatabase
  | readCache profileName dbName =>
      rcases whenFree_eq_some.1 h with ⟨hfree, hpair⟩
      cases hpair
      exact .readCache hfree
  | touchPool profileName dbName =>
      rcases whenFree_eq_some.1 h with ⟨hfree, hpair⟩
      cases hpair
      exact .touchPool hfree
  | createPool profileName dbName =>
      rcases whenFree_eq_some.1 h with ⟨hfree, hpair⟩
      have hcreates := creates_createPool pm w profileName dbName ch
      rw [hpair] at hcreates
      exact .createPool hfree hcreates
  | openPool profileName dbName config =>
      simp only [exec, Option.ite_none_right_eq_some] at h
      rcases h with ⟨hlock, hpair⟩
      have hopens := opens_openNew w profileName dbName config ch
      rw [Option.some.inj hpair] at hopens
      exact .openPool hlock hopens
  | handOver ref =>
      cases h
      exact .handOver
  | statement ref => cases ref <;> cases h <;> exact .statement

/-- What is cached after an action was cached before it, or has just been opened for its name. -/
theorem lookup_of_performs (hp : Performs pm w ch a r w')
    (h : w'.pools.lookup name = some managed) :
    (∃ before, w.pools.lookup name = some before ∧ before.pool = managed.pool) ∨
      ∃ profileName dbName config, a = .openPool profileName dbName config ∧
        name = poolKey profileName dbName ∧
        w'.opened[managed.pool]? =
          some { profileName := profileName, dbName := dbName, connConfig := config.connConfig } := by
  cases hp with
  | touchPool _ => exact Or.inl (lookup_of_touch h)
  | createPool _ hc =>
      cases hc with
      | hit _ => exact Or.inl (lookup_of_touch h)
      | failed _ => exact Or.inl ⟨managed, lookup_of_makeRoom h, rfl⟩
      | toOpen _ _ => exact Or.inl ⟨managed, lookup_of_makeRoom h, rfl⟩
  | @openPool profileName dbName config _ _ _ ho =>
      -- Only the last of the three outcomes puts an entry into the map.
      cases ho with
      | failed => exact Or.inl ⟨managed, h, rfl⟩
      | unreachable => exact Or.inl ⟨managed, h, rfl⟩
      | opened =>
          rcases lookup_of_insert h with ⟨rfl, rfl⟩ | ⟨_, hold⟩
          · exact Or.inr ⟨profileName, dbName, config, rfl, rfl,
              openPool_new profileName dbName config.connConfig⟩
          · exact Or.inl ⟨managed, hold, rfl⟩
  | _ => exact Or.inl ⟨managed, h, rfl⟩

/-- No action forgets what a pool was opened for, and none changes the settings. -/
theorem frame_of_performs (hp : Performs pm w ch a r w') :
    SameOpened w w' ∧ w'.profiles = w.profiles := by
  cases hp with
  | touchPool _ => exact ⟨sameOpened_of_eq touch_opened, touch_profiles⟩
  | createPool _ hc => exact ⟨sameOpened_of_creates hc, profiles_of_creates hc⟩
  | openPool _ ho => exact ⟨sameOpened_of_opens ho, profiles_of_opens ho⟩
  | _ => exact ⟨SameOpened.refl w, rfl⟩

theorem CacheInv.of_performs (h : CacheInv w) (hp : Performs pm w ch a r w') : CacheInv w' := by
  cases hp with
  | touchPool _ => exact h.touch _ _
  | createPool _ hc => exact h.of_creates hc
  | openPool hlock ho => exact h.of_opens hlock ho
  | _ => exact h

theorem CacheInv.envStep {x : PoolEnv} (h : CacheInv w) (hstep : w.envStep pm x = some w') :
    CacheInv w' := by
  cases x with
  | sweepIdlePools now =>
      rcases whenFree_eq_some.1 hstep with ⟨_, rfl⟩
      exact h.sweepIdlePools now
  | updateSettings profiles =>
      cases hstep
      exact ⟨h.opened, h.alive, h.apart, h.named, h.bounded, h.creating⟩

end

end PoolWorld

end Service
end Pgaio
