import Pgaio.Service.PoolCacheLaws

/-!
# PoolUse — is a pool open while its caller works with it?

The pool manager does not know who works with a pool: `lastUsed` says when a pool was last handed
out, and both the sweep and the eviction go by it alone.  So a pool can be closed while a caller
still works with it (`closed_while_used`).  `sparesUsed` says when a step does no harm: a sweep finds
no pool idle whose caller has not finished, and the pool that is evicted to make room is not in use.
Along runs of such steps every pool in use stays cached, and cached pools are open (`pools_usable`).

The number of cached pools is bounded in every run (`cacheInv_of_reach`), and a caller that holds the
write lock to open a pool never has to wait (`openPool_enabled`).
-/

namespace Pgaio
namespace Service

open Go Concurrency Transition

abbrev PoolState {D : Driver} (pm : PoolManager D) := Config (poolSystem pm)

abbrev PoolLabel := Label PoolChoice PoolEnv PoolEntry

abbrev PoolEvent := Event PoolAct PoolAct.Resp

/-- The cached pool that an event gives to its caller. -/
def given? : PoolEvent → Option Nat
  | ⟨.readCache _ _, r⟩ => r
  | ⟨.createPool _ _, .ok (.cached pool)⟩ => some pool
  | ⟨.openPool _ _ _, r⟩ => r.toOption
  | _ => none

section

variable {D : Driver} {pm : PoolManager D}

/-- The caller has been given the pool and has not finished its work. -/
def worksWith (t : Thread (poolSystem pm)) (pool : Nat) : Bool :=
  !t.finished && t.past.any fun e => given? e == some pool

def inUse (c : PoolState pm) (pool : Nat) : Bool :=
  c.threads.any fun t => worksWith t pool

/-- The step closes no pool that is in use. -/
def sparesUsed (c : PoolState pm) : PoolLabel → Bool
  | .env (.sweepIdlePools now) =>
      c.world.pools.entries.all fun e => !(PoolWorld.isIdle now e.2 && inUse c e.2.pool)
  | .step i ch =>
      match (c.threads[i]?).bind Thread.action? with
      | some (.createPool profileName dbName) =>
          (c.world.pools.lookup (poolKey profileName dbName)).isSome ||
            !(c.world.victim? ch.iteration).any (inUse c)
      | _ => true
  | _ => true

structure PoolsUsable (c : PoolState pm) : Prop where
  open_while_used : ∀ t ∈ c.threads, ∀ pool, worksWith t pool = true →
    c.world.isClosed pool = false
  bounded : c.world.pools.keys.length ≤ poolManagerMaxPools

/-! ## The cache in every run -/

theorem cacheInv_step {c c' : PoolState pm} {l : PoolLabel} (h : c.world.CacheInv)
    (hstep : c.step l = some c') : c'.world.CacheInv := by
  cases Config.moves_of_step hstep with
  | arrive _ => exact h
  | env hw => exact h.envStep hw
  | act _ _ hexec => exact h.of_performs (PoolWorld.performs_of_exec hexec)

theorem cacheInv_of_reach {profiles : List ConnectionProfile} {c : PoolState pm}
    (h : Reach Config.step (Config.initial (poolSystem pm) { profiles := profiles }) c) :
    c.world.CacheInv :=
  h.invariant (I := fun c => c.world.CacheInv) (fun _ _ _ hI _ hstep => cacheInv_step hI hstep)
    (PoolWorld.cacheInv_empty profiles)

/-! ## The write lock -/

/-- A pool is opened with what has just been read, and for the names it was read for. -/
def OpensRead (past : List PoolEvent) : PoolAct → Prop
  | .openPool profileName dbName config =>
      past.getLast? = some ⟨.createPool profileName dbName, .ok (.toOpen config)⟩
  | _ => True

theorem opensRead_cachedPool (profileName dbName : String) (past : List PoolEvent) :
    Program.wp OpensRead (fun _ _ => True) past (cachedPool profileName dbName) := by
  refine Program.wp_perform trivial fun found => ?_
  cases found with
  | some pool => exact Program.wp_perform trivial fun _ => trivial
  | none =>
      refine Program.wp_perform trivial fun created => ?_
      cases created with
      | error err => exact trivial
      | ok creation =>
          cases creation with
          | cached pool => exact trivial
          | toOpen config =>
              refine Program.wp_perform List.getLast?_concat fun opened => ?_
              cases opened <;> exact trivial

theorem opensRead_work (ref : PoolRef) (n : Nat) (past : List PoolEvent) :
    Program.wp OpensRead (fun _ _ => True) past (work ref n) := by
  induction n generalizing past with
  | zero => trivial
  | succ n ih => exact Program.wp_perform trivial fun _ => ih _

theorem opensRead_body (e : PoolEntry) :
    Program.wp OpensRead (fun _ _ => True) [] e.body := by
  cases e with
  | caller profileName dbName statements =>
      refine (Program.wp_bind _ _).2 ?_
      have huse : ∀ (past : List PoolEvent) (answer : Except String PoolRef), True →
          Program.wp OpensRead (fun _ _ => True) past (useAnswer statements answer) := by
        intro past answer _
        cases answer with
        | error err => trivial
        | ok ref => exact Program.wp_perform trivial fun _ => opensRead_work ref statements _
      refine Program.wp_mono (fun _ _ h => h) huse ?_
      unfold getPoolForProfile
      split
      · refine Program.wp_perform trivial fun currentDB => ?_
        split
        · exact trivial
        · exact opensRead_cachedPool _ _ _
      · split
        · exact Program.wp_perform trivial fun _ => opensRead_cachedPool _ _ _
        · exact opensRead_cachedPool _ _ _

theorem read_of_opening {t : Thread (poolSystem pm)} {profileName dbName : String}
    {config : PoolConfig} (h : t.action? = some (.openPool profileName dbName config)) :
    t.past.getLast? = some ⟨.createPool profileName dbName, .ok (.toOpen config)⟩ := by
  rcases Thread.action?_eq_some.1 h with ⟨next, hrest⟩
  have hwp := t.wp (opensRead_body t.entry)
  rw [hrest] at hwp
  exact hwp.1

def Opening (t : Thread (poolSystem pm)) (name : String) : Prop :=
  ∃ profileName dbName config, t.action? = some (.openPool profileName dbName config) ∧
    name = poolKey profileName dbName

/-- Only one caller is opening a pool, and it holds the lock. -/
structure LockInv (c : PoolState pm) : Prop where
  holds : ∀ t ∈ c.threads, ∀ name, Opening t name → c.world.creating = some name
  alone : ∀ (i j : Nat) (t u : Thread (poolSystem pm)) (name name' : String),
    c.threads[i]? = some t → c.threads[j]? = some u → Opening t name → Opening u name' → i = j

/-- While the lock is held, the others cannot change its holder. -/
theorem creating_of_performs {w w' : PoolWorld} {a : PoolAct} {ch : PoolChoice} {r : a.Resp}
    {name : String} (hlock : w.creating = some name) (hp : w.Performs pm ch a r w')
    (hother : ∀ profileName dbName config, a ≠ .openPool profileName dbName config) :
    w'.creating = some name := by
  cases hp with
  | touchPool hfree => simp [hlock] at hfree
  | createPool hfree _ => simp [hlock] at hfree
  | openPool _ _ => exact absurd rfl (hother _ _ _)
  | _ => exact hlock

/-- A caller that is opening a pool after its step has just read the settings. -/
theorem created_of_opening {t : Thread (poolSystem pm)} {w w' : PoolWorld} {a : PoolAct}
    {next : a.Resp → PoolProgram Unit} {r : a.Resp} {ch : PoolChoice} {name : String}
    (hrest : t.rest = .act a next) (hp : w.Performs pm ch a r w')
    (h : Opening (t.advance hrest r) name) : w.creating = none ∧ w'.creating = some name := by
  rcases h with ⟨profileName, dbName, config, haction, rfl⟩
  have hlast := read_of_opening haction
  rw [Thread.advance_past, List.getLast?_concat, Option.some.injEq] at hlast
  cases hlast
  -- So the step was the first half of the section, which found the lock free and keeps it.
  cases hp with
  | createPool hfree hc =>
      cases hc with
      | toOpen _ _ => exact ⟨hfree, rfl⟩

/-- A new caller is not opening a pool. -/
theorem not_opening_start (e : PoolEntry) (name : String) :
    ¬ Opening (Thread.start (poolSystem pm) e) name := by
  rintro ⟨_, _, _, haction, _⟩
  have hlast := read_of_opening haction
  cases hlast

theorem lockInv_arrive {c : PoolState pm} (hI : LockInv c) (e : PoolEntry) :
    LockInv (c.spawn e) where
  holds := by
    intro t ht name hopening
    rcases List.mem_append.1 ht with hold | hnew
    · exact hI.holds t hold name hopening
    · rw [List.mem_singleton.1 hnew] at hopening
      exact absurd hopening (not_opening_start e name)
  alone := by
    intro i j t u name name' ht hu hopening hopening'
    rcases Config.getElem?_spawn ht with ht | ⟨_, rfl⟩
    · rcases Config.getElem?_spawn hu with hu | ⟨_, rfl⟩
      · exact hI.alone i j t u name name' ht hu hopening hopening'
      · exact absurd hopening' (not_opening_start e name')
    · exact absurd hopening (not_opening_start e name)

theorem creating_of_envStep {w w' : PoolWorld} {x : PoolEnv} (h : w.envStep pm x = some w') :
    w'.creating = w.creating := by
  cases x with
  | sweepIdlePools now =>
      rcases PoolWorld.whenFree_eq_some.1 h with ⟨_, rfl⟩
      exact PoolWorld.sweepIdlePools_creating
  | updateSettings profiles =>
      cases h
      rfl

/-- Another caller that is opening a pool holds the lock before a step and after it. -/
theorem LockInv.others {c : PoolState pm} (hI : LockInv c) {i j : Nat} {ch : PoolChoice}
    {t u : Thread (poolSystem pm)} {a : PoolAct} {next : a.Resp → PoolProgram Unit} {r : a.Resp}
    {w : PoolWorld} {name : String} (ht : c.threads[i]? = some t) (hrest : t.rest = .act a next)
    (hp : c.world.Performs pm ch a r w) (hji : j ≠ i) (hu : c.threads[j]? = some u)
    (hopening : Opening u name) : c.world.creating = some name ∧ w.creating = some name := by
  have hlock := hI.holds u (List.mem_of_getElem? hu) name hopening
  refine ⟨hlock, creating_of_performs hlock hp ?_⟩
  rintro profileName dbName config rfl
  exact hji (hI.alone j i u t _ _ hu ht hopening ⟨_, _, _, Thread.action?_of_rest hrest, rfl⟩)

theorem lockInv_act {c : PoolState pm} (hI : LockInv c) {i : Nat} {ch : PoolChoice}
    {t : Thread (poolSystem pm)} {a : PoolAct} {next : a.Resp → PoolProgram Unit} {r : a.Resp}
    {w : PoolWorld} (ht : c.threads[i]? = some t) (hrest : t.rest = .act a next)
    (hp : c.world.Performs pm ch a r w) :
    LockInv (c.resume w i (t.advance hrest r) none) where
  holds := by
    intro u hu name hopening
    rcases List.mem_iff_getElem?.1 hu with ⟨j, hj⟩
    rcases Config.getElem?_resume hj with ⟨_, rfl⟩ | ⟨hji, hold⟩ | ⟨_, e, he, _⟩
    · exact (created_of_opening hrest hp hopening).2
    · exact (hI.others ht hrest hp hji hold hopening).2
    · cases he
  alone := by
    -- The caller that moved found the lock free, so nobody else held it.
    have hfree : ∀ (k : Nat) (v : Thread (poolSystem pm)) (name name' : String), k ≠ i →
        c.threads[k]? = some v → Opening v name' → ¬ Opening (t.advance hrest r) name := by
      intro k v name name' hki hv hopening' hopening
      have hnone := (created_of_opening hrest hp hopening).1
      rw [(hI.others ht hrest hp hki hv hopening').1] at hnone
      cases hnone
    intro j k u v name name' hu hv hopening hopening'
    rcases Config.getElem?_resume hu with ⟨rfl, rfl⟩ | ⟨hji, hu'⟩ | ⟨_, e, he, _⟩
    · rcases Config.getElem?_resume hv with ⟨rfl, _⟩ | ⟨hki, hv'⟩ | ⟨_, e, he, _⟩
      · rfl
      · exact absurd hopening (hfree k v name name' hki hv' hopening')
      · cases he
    · rcases Config.getElem?_resume hv with ⟨rfl, rfl⟩ | ⟨_, hv'⟩ | ⟨_, e, he, _⟩
      · exact absurd hopening' (hfree j u name' name hji hu' hopening)
      · exact hI.alone j k u v name name' hu' hv' hopening hopening'
      · cases he
    · cases he

theorem lockInv_step {c c' : PoolState pm} {l : PoolLabel} (hI : LockInv c)
    (hstep : c.step l = some c') : LockInv c' := by
  cases Config.moves_of_step hstep with
  | @arrive e _ => exact lockInv_arrive hI e
  | env hw =>
      refine ⟨?_, hI.alone⟩
      intro t ht name hopening
      exact (creating_of_envStep hw).trans (hI.holds t ht name hopening)
  | act ht hrest hexec => exact lockInv_act hI ht hrest (PoolWorld.performs_of_exec hexec)

/-- In every run: whoever has read its profile under the write lock can go on. -/
theorem openPool_enabled {profiles : List ConnectionProfile} {c : PoolState pm}
    (h : Reach Config.step (Config.initial (poolSystem pm) { profiles := profiles }) c) {i : Nat}
    {profileName dbName : String} {config : PoolConfig}
    (haction : c.action? i = some (.openPool profileName dbName config)) (ch : PoolChoice) :
    ∃ c', c.step (.step i ch) = some c' := by
  have hinit : LockInv (Config.initial (poolSystem pm) { profiles := profiles }) :=
    ⟨by simp, by simp⟩
  have hI : LockInv c := h.invariant (fun _ _ _ hI _ hstep => lockInv_step hI hstep) hinit
  rcases Option.bind_eq_some_iff.1 haction with ⟨t, ht, hnext⟩
  have hlock := hI.holds t (List.mem_of_getElem? ht) _ ⟨_, _, _, hnext, rfl⟩
  rcases Thread.action?_eq_some.1 hnext with ⟨next, hrest⟩
  have hexec : (poolSystem pm).exec c.world i (.openPool profileName dbName config) ch =
      some (c.world.openNew profileName dbName config ch) := if_pos hlock
  exact ⟨_, Config.step_of_act ht hrest hexec⟩

/-! ## Pools in use stay cached -/

/-- Every pool in use is cached. -/
structure UseInv (c : PoolState pm) : Prop where
  cache : c.world.CacheInv
  cached : ∀ t ∈ c.threads, ∀ pool, worksWith t pool = true → c.world.Cached pool

theorem worksWith_start (e : PoolEntry) (pool : Nat) :
    worksWith (Thread.start (poolSystem pm) e) pool = false := by
  simp [worksWith]

theorem inUse_of_mem {c : PoolState pm} {t : Thread (poolSystem pm)} {pool : Nat}
    (ht : t ∈ c.threads) (h : worksWith t pool = true) : inUse c pool = true :=
  List.any_eq_true.2 ⟨t, ht, h⟩

/-- A caller works with the pool of its latest event, or worked with it before. -/
theorem worksWith_advance {t : Thread (poolSystem pm)} {a : PoolAct}
    {next : a.Resp → PoolProgram Unit} {r : a.Resp} {pool : Nat} (hrest : t.rest = .act a next)
    (h : worksWith (t.advance hrest r) pool = true) :
    given? ⟨a, r⟩ = some pool ∨ worksWith t pool = true := by
  have hunfinished : t.finished = false := by
    simp [Thread.finished, Thread.action?, hrest]
  simp only [worksWith, Thread.advance_past, List.any_append, Bool.and_eq_true,
    Bool.or_eq_true] at h
  rcases h.2 with hold | hnew
  · right
    simp [worksWith, hunfinished, hold]
  · left
    simpa using hnew

/-- A pool that an action gives out is cached after it, under the name it was asked for. -/
theorem lookup_of_given {w w' : PoolWorld} {a : PoolAct} {ch : PoolChoice} {r : a.Resp} {pool : Nat}
    (hp : w.Performs pm ch a r w') (h : given? ⟨a, r⟩ = some pool) :
    ∃ profileName dbName managed,
      (a = .readCache profileName dbName ∨ a = .createPool profileName dbName ∨
        ∃ config, a = .openPool profileName dbName config) ∧
      w'.pools.lookup (poolKey profileName dbName) = some managed ∧ managed.pool = pool := by
  cases hp with
  | @readCache profileName dbName _ =>
      rcases Option.map_eq_some_iff.1 h with ⟨managed, hlookup, hpool⟩
      exact ⟨profileName, dbName, managed, Or.inl rfl, hlookup, hpool⟩
  | @createPool profileName dbName r _ _ hc =>
      cases r with
      | error err => cases h
      | ok creation =>
          cases creation with
          | toOpen config => cases h
          | cached n =>
              cases h
              rcases PoolWorld.lookup_of_hit hc with ⟨managed, hlookup, hpool⟩
              exact ⟨profileName, dbName, managed, Or.inr (Or.inl rfl), hlookup, hpool⟩
  | @openPool profileName dbName config r _ _ ho =>
      cases r with
      | error err => cases h
      | ok n =>
          cases h
          rcases PoolWorld.lookup_of_opened ho with ⟨managed, hlookup, hpool⟩
          exact ⟨profileName, dbName, managed, Or.inr (Or.inr ⟨config, rfl⟩), hlookup, hpool⟩
  | _ => cases h

/-- An action keeps a pool in the cache unless it evicts it. -/
theorem cached_of_performs {w w' : PoolWorld} {a : PoolAct} {ch : PoolChoice} {r : a.Resp}
    {pool : Nat} (hcache : w.CacheInv) (hcached : w.Cached pool)
    (hspared : ∀ profileName dbName, a = .createPool profileName dbName →
      w.pools.lookup (poolKey profileName dbName) = none → w.victim? ch.iteration ≠ some pool)
    (hp : w.Performs pm ch a r w') : w'.Cached pool := by
  cases hp with
  | touchPool _ => exact hcached.touch _ _
  | @createPool profileName dbName _ _ _ hc =>
      exact hcached.of_creates (hspared profileName dbName rfl) hc
  | openPool hlock ho => exact hcached.of_opens (hcache.creating _ hlock).1 ho
  | _ => exact hcached

theorem cached_sweep {c : PoolState pm} {now : Time} {pool : Nat}
    (hok : sparesUsed c (.env (.sweepIdlePools now)) = true) (hcached : c.world.Cached pool)
    (huse : inUse c pool = true) : (c.world.sweepIdlePools now).Cached pool := by
  rcases hcached with ⟨name, managed, hlookup, hpool⟩
  -- The sweep was checked against every entry of the cache, this one among them.
  have hentry : (⟨name, managed⟩ : Sigma fun _ : String => ManagedPool) ∈ c.world.pools.entries :=
    AList.mem_lookup_iff.1 hlookup
  have hspared := List.all_eq_true.1 hok _ hentry
  have hidle : PoolWorld.isIdle now managed = false := by
    cases hidle : PoolWorld.isIdle now managed with
    | false => rfl
    | true =>
        have huse' : inUse c managed.pool = true := hpool ▸ huse
        simp [hidle, huse'] at hspared
  exact ⟨name, managed, PoolWorld.lookup_sweepIdlePools hlookup hidle, hpool⟩

theorem useInv_step {c c' : PoolState pm} {l : PoolLabel} (hI : UseInv c)
    (hok : sparesUsed c l = true) (hstep : c.step l = some c') : UseInv c' := by
  refine ⟨cacheInv_step hI.cache hstep, ?_⟩
  intro u hu pool hworks
  rcases List.mem_iff_getElem?.1 hu with ⟨j, hj⟩
  cases Config.moves_of_step hstep with
  | arrive _ =>
      rcases Config.getElem?_spawn hj with hold | ⟨_, rfl⟩
      · exact hI.cached u (List.mem_of_getElem? hold) pool hworks
      · rw [worksWith_start] at hworks
        cases hworks
  | @env x w hw =>
      have hcached := hI.cached u hu pool hworks
      cases x with
      | sweepIdlePools now =>
          rcases PoolWorld.whenFree_eq_some.1 hw with ⟨_, rfl⟩
          exact cached_sweep hok hcached (inUse_of_mem hu hworks)
      | updateSettings profiles =>
          cases hw
          exact hcached
  | @act i ch t a next r w ht hrest hexec =>
      have hp := PoolWorld.performs_of_exec hexec
      -- What was in use before the step stays cached, because the step spares it.
      have hkeep : ∀ v ∈ c.threads, worksWith v pool = true → w.Cached pool := by
        intro v hv hvworks
        refine cached_of_performs hI.cache (hI.cached v hv pool hvworks) ?_ hp
        rintro profileName dbName rfl hfree hvictim
        have haction : (c.threads[i]?).bind Thread.action? =
            some (.createPool profileName dbName) := by
          rw [ht]
          exact Thread.action?_of_rest hrest
        have huse := inUse_of_mem hv hvworks
        simp [sparesUsed, haction, hfree, hvictim, huse] at hok
      rcases Config.getElem?_resume hj with ⟨_, rfl⟩ | ⟨_, hold⟩ | ⟨_, e, he, _⟩
      · rcases worksWith_advance hrest hworks with hgiven | hbefore
        · -- A pool that is given out by the step is cached after it.
          rcases lookup_of_given hp hgiven with ⟨_, _, managed, _, hlookup, hpool⟩
          exact ⟨_, managed, hlookup, hpool⟩
        · exact hkeep t (List.mem_of_getElem? ht) hbefore
      · exact hkeep u (List.mem_of_getElem? hold) hworks
      · cases he

theorem UseInv.poolsUsable {c : PoolState pm} (hI : UseInv c) : PoolsUsable c where
  open_while_used := by
    intro t ht pool hworks
    rcases hI.cached t ht pool hworks with ⟨name, managed, hlookup, hpool⟩
    rw [← hpool]
    exact hI.cache.alive name managed hlookup
  bounded := hI.cache.bounded

/-- In every run whose steps spare the pools in use, a caller's pool is open until it has finished,
and the cache is bounded. -/
theorem pools_usable (pm : PoolManager D) (profiles : List ConnectionProfile) (c : PoolState pm)
    (hrun : Within Config.step (fun c l => sparesUsed c l = true)
      (Config.initial (poolSystem pm) { profiles := profiles }) c) : PoolsUsable c := by
  have hinit : UseInv (Config.initial (poolSystem pm) { profiles := profiles }) :=
    ⟨PoolWorld.cacheInv_empty profiles, by simp⟩
  exact (hrun.invariant (fun _ _ _ hI hok hstep => useInv_step hI hok hstep) hinit).poolsUsable

end

/-! ## Concrete runs -/

def poolStep (i : Nat) (now : Time) : PoolLabel :=
  .step i { now := now, text := "postgres" }

/-- A VACUUM of the database `app`: one statement. -/
def vacuumCaller : PoolEntry :=
  .caller "" "app" 1

/-- The caller gets a new pool and has not sent its statement yet. -/
def vacuumStarted : List PoolLabel :=
  .arrive vacuumCaller :: List.replicate 5 (poolStep 0 0)

/-- A sweep nine minutes after the pool was handed out. -/
def sweptInTime : List PoolLabel :=
  vacuumStarted ++ [.env (.sweepIdlePools (9 * Duration.minute))]

/-- A sweep ten minutes after the pool was handed out. -/
def sweptTooLate : List PoolLabel :=
  vacuumStarted ++ [.env (.sweepIdlePools (10 * Duration.minute))]

theorem pools_usable_sweptInTime :
    ∃ c : PoolState PoolManager.exampleManager, inUse c 0 = true ∧ PoolsUsable c := by
  have hmeets : runMeets Config.step sparesUsed
      (Config.initial (poolSystem PoolManager.exampleManager) { profiles := [] })
      sweptInTime = true := by decide +kernel
  have hend : (Transition.run Config.step
      (Config.initial (poolSystem PoolManager.exampleManager) { profiles := [] })
      sweptInTime).any (fun c => inUse c 0) = true := by decide +kernel
  rcases exists_within_of_run hmeets hend with ⟨c, hrun, huse⟩
  exact ⟨c, huse, pools_usable PoolManager.exampleManager [] c hrun⟩

theorem closed_while_used :
    ¬ ∀ c : PoolState PoolManager.exampleManager,
      Reach Config.step
        (Config.initial (poolSystem PoolManager.exampleManager) { profiles := [] }) c →
        PoolsUsable c := by
  intro hall
  have hend : (Transition.run Config.step
      (Config.initial (poolSystem PoolManager.exampleManager) { profiles := [] })
      sweptTooLate).any (fun c => inUse c 0 && c.world.isClosed 0) = true := by decide +kernel
  rcases exists_reach_of_run hend with ⟨c, hreach, htest⟩
  rw [Bool.and_eq_true] at htest
  -- The caller has not sent its statement yet, and its pool is closed.
  rcases List.any_eq_true.1 htest.1 with ⟨t, ht, hworks⟩
  have hopen := (hall c hreach).open_while_used t ht 0 hworks
  rw [htest.2] at hopen
  cases hopen

end Service
end Pgaio
