import Pgaio.Service.PoolUse

/-!
# PoolFailures — what a request for a pool changes when it fails

`GetPoolForProfile` makes room for the new pool before it knows whether there will be one: the
profile may be unknown or disabled, its text may not parse, the server may not answer.  With a full
cache every one of these failures costs another caller's pool (`failure_evicts`).  With room in the
cache a failure changes nothing, whatever other callers do meanwhile (`failed_call_iff`).
-/

namespace Pgaio
namespace Service

open Go Concurrency Transition

/-! ## A failing call -/

/-- An action that only looks. -/
def PoolAct.Looks : PoolAct → Prop
  | .currentDatabase | .profileDatabase _ | .readCache _ _ => True
  | _ => False

/-- How a call fails under the write lock: there is nothing to open, or it cannot be opened. -/
inductive FailedEnd (err : String) : List PoolEvent → Prop where
  | creating {profileName dbName : String} :
      FailedEnd err [⟨.createPool profileName dbName, .error err⟩]
  | opening {profileName dbName : String} {config : PoolConfig} :
      FailedEnd err [⟨.createPool profileName dbName, .ok (.toOpen config)⟩,
        ⟨.openPool profileName dbName config, .error err⟩]

/-- The events of a call that fails: it looks around and then fails to create a pool. -/
def FailedEvents (events : List PoolEvent) (err : String) : Prop :=
  ∃ before after, events = before ++ after ∧ (∀ e ∈ before, e.act.Looks) ∧ FailedEnd err after

/-- If the call fails, it fails in the section under the write lock. -/
def FailsCreating (past : List PoolEvent) : Except String PoolRef → Prop
  | .error err => FailedEvents past err
  | .ok _ => True

theorem wp_cachedPool (profileName dbName : String) {past : List PoolEvent}
    (hpast : ∀ e ∈ past, e.act.Looks) :
    Program.wp (fun _ _ => True) FailsCreating past (cachedPool profileName dbName) := by
  refine Program.wp_perform trivial fun found => ?_
  cases found with
  | some pool => exact Program.wp_perform trivial fun _ => trivial
  | none =>
      have hlooks : ∀ e ∈ past ++ [⟨.readCache profileName dbName, none⟩],
          e.act.Looks := by
        simpa [PoolAct.Looks, or_imp, forall_and] using hpast
      refine Program.wp_perform trivial fun created => ?_
      cases created with
      | error err => exact ⟨_, _, rfl, hlooks, .creating⟩
      | ok creation =>
          cases creation with
          | cached pool => exact trivial
          | toOpen config =>
              refine Program.wp_perform trivial fun opened => ?_
              cases opened with
              | ok pool => exact trivial
              | error err => exact ⟨_, _, List.append_assoc _ _ _, hlooks, .opening⟩

theorem wp_getPoolForProfile (dbName profileName : String) :
    Program.wp (fun _ _ => True) FailsCreating [] (getPoolForProfile dbName profileName) := by
  unfold getPoolForProfile
  split
  · refine Program.wp_perform trivial fun currentDB => ?_
    split
    · exact trivial
    · exact wp_cachedPool _ _ (by simp [PoolAct.Looks])
  · split
    · exact Program.wp_perform trivial fun dbName => wp_cachedPool _ _ (by simp [PoolAct.Looks])
    · exact wp_cachedPool _ _ (by simp)

/-- A call that fails has looked around and then failed to create a pool. -/
theorem failedEvents_of_path {dbName profileName err : String}
    {events : List PoolEvent}
    (h : Program.Path (getPoolForProfile dbName profileName) events (.done (.error err))) :
    FailedEvents events err := by
  have hend : FailsCreating ([] ++ events) (.error err) :=
    Program.wp_path h (wp_getPoolForProfile dbName profileName)
  exact hend

/-! ## What a failure does to the cache -/

namespace PoolWorld

variable {w w' : PoolWorld}

/-- The same pools are cached under the same names, and none of them was closed. -/
structure SameCache (w w' : PoolWorld) : Prop where
  cached : ∀ name, (w'.pools.lookup name).map ManagedPool.pool =
    (w.pools.lookup name).map ManagedPool.pool
  notClosed : ∀ name managed, w.pools.lookup name = some managed →
    w'.isClosed managed.pool = w.isClosed managed.pool

theorem SameCache.refl (w : PoolWorld) : SameCache w w :=
  ⟨fun _ => rfl, fun _ _ _ => rfl⟩

theorem SameCache.symm (h : SameCache w w') : SameCache w' w where
  cached := fun name => (h.cached name).symm
  notClosed := by
    intro name managed hlookup
    have hcached := h.cached name
    rw [hlookup] at hcached
    rcases Option.map_eq_some_iff.1 hcached.symm with ⟨before, hbefore, hpool⟩
    rw [← hpool]
    exact (h.notClosed name before hbefore).symm

theorem SameCache.trans {w'' : PoolWorld} (h : SameCache w w') (h' : SameCache w' w'') :
    SameCache w w'' where
  cached := fun name => (h'.cached name).trans (h.cached name)
  notClosed := by
    intro name managed hlookup
    have hcached := h.cached name
    rw [hlookup] at hcached
    rcases Option.map_eq_some_iff.1 hcached with ⟨after, hafter, hpool⟩
    rw [← h.notClosed name managed hlookup, ← hpool]
    exact h'.notClosed name after hafter

theorem eq_of_looks {D : Driver} {pm : PoolManager D} {a : PoolAct} {ch : PoolChoice}
    {r : a.Resp} (h : a.Looks) (hp : Performs pm w ch a r w') : w' = w := by
  cases hp with
  | currentDatabase => rfl
  | profileDatabase => rfl
  | readCache _ => rfl
  | _ => cases h

theorem makeRoom_of_hasRoom (h : w.HasRoom) (iteration : List String) :
    w.makeRoom iteration = w :=
  if_neg (not_le.2 h)

/-- A full cache loses an entry when room is made. -/
theorem lost_of_full (hcache : CacheInv w) (hfull : ¬ w.HasRoom) (iteration : List String) :
    ∃ name managed, w.pools.lookup name = some managed ∧
      (w.makeRoom iteration).pools.lookup name = none := by
  have hle : poolManagerMaxPools ≤ w.pools.keys.length := not_lt.1 hfull
  rcases oldestName_spec hcache (keys_ne_nil_of_full hle) iteration with ⟨managed, hlookup, _⟩
  refine ⟨w.oldestName iteration, managed, hlookup, ?_⟩
  unfold makeRoom
  rw [if_pos hle]
  exact lookup_dropPool_self

/-- A pool that is opened and closed again leaves the cached ones alone. -/
theorem sameCache_openAndClose (hcache : CacheInv w) (profileName dbName : String)
    (conn : ConnConfig) :
    SameCache w ((w.openPool profileName dbName conn).closePool w.opened.length) where
  cached := fun _ => rfl
  notClosed := by
    intro name managed hlookup
    have hlt := hcache.opened name managed hlookup
    rw [isClosed_closePool_ne (Nat.ne_of_gt hlt)]
    unfold isClosed
    rw [openPool_old hlt]

/-- Room is made before the profile is read, whether that leads to a pool or not. -/
theorem sameCache_creates_iff {D : Driver} {pm : PoolManager D} (hcache : CacheInv w)
    {profileName dbName : String} {ch : PoolChoice} {r : Except String Creation}
    (hc : Creates pm w profileName dbName ch r w') (hmiss : ∀ pool, r ≠ .ok (.cached pool)) :
    SameCache w w' ↔ w.HasRoom := by
  constructor
  · intro hsame
    by_contra hfull
    rcases lost_of_full hcache hfull ch.iteration with ⟨name, managed, hlookup, hlost⟩
    have hcached := hsame.cached name
    rw [hlookup] at hcached
    cases hc with
    | hit _ => exact hmiss _ rfl
    | failed _ =>
        rw [hlost] at hcached
        cases hcached
    | toOpen _ _ =>
        rw [hlost] at hcached
        cases hcached
  · intro hroom
    cases hc with
    | hit _ => exact absurd rfl (hmiss _)
    | failed _ =>
        rw [makeRoom_of_hasRoom hroom]
        exact SameCache.refl w
    | toOpen _ _ =>
        rw [makeRoom_of_hasRoom hroom]
        exact ⟨fun _ => rfl, fun _ _ _ => rfl⟩

/-- A pool that cannot be opened does no harm any more. -/
theorem sameCache_opens (hcache : CacheInv w) {profileName dbName err : String}
    {config : PoolConfig} {ch : PoolChoice}
    (ho : Opens w profileName dbName config ch (.error err) w') : SameCache w w' := by
  have hunlock : SameCache w w.unlock := ⟨fun _ => rfl, fun _ _ _ => rfl⟩
  cases ho with
  | failed => exact hunlock
  | unreachable => exact hunlock.trans (sameCache_openAndClose hcache.unlock _ _ _)

end PoolWorld

/-! ## Failing calls in runs -/

section

variable {D : Driver} {pm : PoolManager D}

/-- `GetPoolForProfile` has returned this answer to the caller. -/
def Returned (t : Thread (poolSystem pm)) (answer : Except String PoolRef) : Prop :=
  match t.entry with
  | .caller profileName dbName _ =>
      ∃ events, events <+: t.past ∧
        Program.Path (getPoolForProfile dbName profileName) events (.done answer)

/-- The steps that thread `i` takes itself change no cached pool. -/
def ChangesNothing (i : Nat) (steps : List (Taken (PoolState pm) PoolLabel)) : Prop :=
  ∀ taken ∈ steps, Config.OwnLabel i taken.label →
    PoolWorld.SameCache taken.before.world taken.after.world

/-- When thread `i` takes the write lock to create a pool, the cache has room for it. -/
def FindsRoom (i : Nat) (steps : List (Taken (PoolState pm) PoolLabel)) : Prop :=
  ∀ taken ∈ steps, Config.OwnLabel i taken.label →
    ∀ profileName dbName, taken.before.action? i = some (.createPool profileName dbName) →
      taken.before.world.HasRoom

/-- A caller whose call has failed has performed nothing else. -/
theorem failedEvents_of_returned {t : Thread (poolSystem pm)} {err : String}
    (h : Returned t (.error err)) : FailedEvents t.past err := by
  -- The path of the thread through its body begins with the path of the call.
  have hpath := t.path
  unfold Returned at h
  generalize t.entry = e at h hpath
  cases e with
  | caller profileName dbName statements =>
      rcases h with ⟨events, hevents, hcall⟩
      have hbody : Program.Path ((poolSystem pm).body (.caller profileName dbName statements))
          events (.done ()) := hcall.bind (useAnswer statements)
      rw [hbody.done_of_prefix hevents hpath]
      exact failedEvents_of_path hcall

/-- What a step of a failing caller does: it looks, or it comes closer to failing. -/
inductive FailingStep (pm : PoolManager D) (w w' : PoolWorld) : PoolAct → Prop where
  | looks {a : PoolAct} : a.Looks → w' = w → FailingStep pm w w' a
  | creates {profileName dbName : String} {ch : PoolChoice} {r : Except String Creation} :
      w.Creates pm profileName dbName ch r w' → (∀ pool, r ≠ .ok (.cached pool)) →
        FailingStep pm w w' (.createPool profileName dbName)
  | opens {profileName dbName err : String} {config : PoolConfig} {ch : PoolChoice} :
      w.Opens profileName dbName config ch (.error err) w' →
        FailingStep pm w w' (.openPool profileName dbName config)

theorem failingStep_of_performs {w w' : PoolWorld} {ch : PoolChoice} {e : PoolEvent}
    {events : List PoolEvent} {err : String} (hp : w.Performs pm ch e.act e.resp w')
    (hfailed : FailedEvents events err) (he : e ∈ events) : FailingStep pm w w' e.act := by
  rcases hfailed with ⟨before, after, rfl, hlooks, hend⟩
  rcases List.mem_append.1 he with hbefore | hafter
  · have hlook := hlooks e hbefore
    exact .looks hlook (PoolWorld.eq_of_looks hlook hp)
  · cases hend with
    | creating =>
        rw [List.mem_singleton] at hafter
        subst hafter
        cases hp with
        | createPool _ hc => exact .creates hc (by simp)
    | opening =>
        rcases List.mem_cons.1 hafter with rfl | hlast
        · cases hp with
          | createPool _ hc => exact .creates hc (by simp)
        · rw [List.mem_singleton] at hlast
          subst hlast
          cases hp with
          | openPool _ ho => exact .opens ho

theorem FailingStep.sameCache_iff {w w' : PoolWorld} {a : PoolAct} (h : FailingStep pm w w' a)
    (hcache : w.CacheInv) :
    PoolWorld.SameCache w w' ↔
      ∀ profileName dbName, a = .createPool profileName dbName → w.HasRoom := by
  cases h with
  | looks hlooks hworld =>
      -- A look changes nothing, and it takes no write lock.
      subst hworld
      refine ⟨?_, fun _ => PoolWorld.SameCache.refl _⟩
      rintro _ profileName dbName rfl
      cases hlooks
  | creates hc hmiss =>
      refine (PoolWorld.sameCache_creates_iff hcache hc hmiss).trans ⟨fun h _ _ _ => h, fun h => ?_⟩
      exact h _ _ rfl
  | opens ho =>
      refine ⟨?_, fun _ => PoolWorld.sameCache_opens hcache ho⟩
      intro _ profileName dbName hact
      cases hact

theorem own_step_of_failed {c c' : PoolState pm} {steps : List (Taken (PoolState pm) PoolLabel)}
    {i : Nat} {t : Thread (poolSystem pm)} {err : String} (hrun : Trace Config.step c steps c')
    (ht : c'.threads[i]? = some t) (hfailed : FailedEvents t.past err)
    {taken : Taken (PoolState pm) PoolLabel} (hmem : taken ∈ steps)
    (hown : Config.OwnLabel i taken.label) :
    ∃ a, taken.before.action? i = some a ∧
      FailingStep pm taken.before.world taken.after.world a := by
  rcases hrun.through hmem with ⟨_, hstep, hafter⟩
  rcases hown with ⟨ch, hlabel⟩
  rw [hlabel] at hstep
  rcases Config.act_of_own hstep with ⟨_, a, r, u, _, haction, hexec, hu, hpast⟩
  refine ⟨a, haction, ?_⟩
  -- The event of the step is one of the events of the failed call.
  rcases Config.thread_of_reach hafter hu with ⟨t', ht', _, hgrows⟩
  cases ht.symm.trans ht'
  have hevent : (⟨a, r⟩ : PoolEvent) ∈ t.past :=
    hgrows.subset (hpast ▸ List.mem_append_right _ List.mem_cons_self)
  exact failingStep_of_performs (e := ⟨a, r⟩) (PoolWorld.performs_of_exec hexec) hfailed hevent

/-- In every run: a call that fails has changed nothing exactly when it found room in the cache. -/
theorem failed_call_iff (pm : PoolManager D) (profiles : List ConnectionProfile) {c : PoolState pm}
    {steps : List (Taken (PoolState pm) PoolLabel)} {i : Nat} {t : Thread (poolSystem pm)}
    {err : String}
    (hrun : Trace Config.step (Config.initial (poolSystem pm) { profiles := profiles }) steps c)
    (ht : c.threads[i]? = some t) (hfailed : Returned t (.error err)) :
    ChangesNothing i steps ↔ FindsRoom i steps := by
  have hevents := failedEvents_of_returned hfailed
  -- Both sides speak of each step of the caller on its own.
  refine forall₂_congr fun taken hmem => forall_congr' fun hown => ?_
  have hcache : taken.before.world.CacheInv := cacheInv_of_reach (hrun.through hmem).1
  rcases own_step_of_failed hrun ht hevents hmem hown with ⟨a, haction, hstep⟩
  rw [haction]
  simpa only [Option.some.injEq] using hstep.sameCache_iff hcache

/-! ## A call without interference -/

/-- The last step of a caller that took all the steps. -/
theorem last_of_alone {c c' : PoolState pm} {steps : List (Taken (PoolState pm) PoolLabel)}
    {i : Nat} (hrun : Trace Config.step c steps c')
    (halone : ∀ taken ∈ steps, Config.OwnLabel i taken.label) {e : PoolEntry}
    (hcall : c.threads[i]? = some (Thread.start (poolSystem pm) e)) {t : Thread (poolSystem pm)}
    (ht : c'.threads[i]? = some t) {past : List PoolEvent} {last : PoolEvent}
    (hpast : t.past = past ++ [last]) :
    ∃ m steps' u ch, Trace Config.step c steps' m ∧
      (∀ taken ∈ steps', Config.OwnLabel i taken.label) ∧ m.threads[i]? = some u ∧
      u.past = past ∧ m.world.Performs pm ch last.act last.resp c'.world := by
  cases hrun with
  | refl =>
      -- The caller has performed something, so it is not just starting.
      cases ht.symm.trans hcall
      simp at hpast
  | @tail steps l m _ hrun hstep =>
      rcases halone ⟨m, l, c'⟩ (List.mem_append_right _ List.mem_cons_self) with ⟨ch, rfl⟩
      rcases Config.act_of_own hstep with ⟨u, a, r, t', hu, _, hexec, ht', hpast'⟩
      cases ht.symm.trans ht'
      rcases List.append_inj' (hpast'.symm.trans hpast) rfl with ⟨hbefore, hlast⟩
      cases hlast
      exact ⟨m, steps, u, ch, hrun, fun taken hmem => halone taken (List.mem_append_left _ hmem),
        hu, hbefore, PoolWorld.performs_of_exec hexec⟩

/-- As long as a caller only looks, the world is the one it was called in. -/
theorem world_of_looks {c c' : PoolState pm} {steps : List (Taken (PoolState pm) PoolLabel)}
    {i : Nat} (hrun : Trace Config.step c steps c')
    (halone : ∀ taken ∈ steps, Config.OwnLabel i taken.label) {t : Thread (poolSystem pm)}
    (ht : c'.threads[i]? = some t) (hlooks : ∀ e ∈ t.past, e.act.Looks) :
    c'.world = c.world := by
  induction hrun generalizing t with
  | refl => rfl
  | @tail steps l m c' _ hstep ih =>
      rcases halone ⟨m, l, c'⟩ (List.mem_append_right _ List.mem_cons_self) with ⟨ch, rfl⟩
      rcases Config.act_of_own hstep with ⟨u, a, r, t', hu, _, hexec, ht', hpast⟩
      cases ht.symm.trans ht'
      rw [hpast] at hlooks
      have hlast : a.Looks := hlooks _ (List.mem_append_right _ List.mem_cons_self)
      have hbefore := ih (fun taken hmem => halone taken (List.mem_append_left _ hmem)) hu
        fun e he => hlooks e (List.mem_append_left _ he)
      calc
        c'.world = m.world := PoolWorld.eq_of_looks hlast (PoolWorld.performs_of_exec hexec)
        _ = c.world := hbefore

/-- The same for a call during which nobody else takes a step: what was cached before it is cached
after it exactly when there was room. -/
theorem failed_alone_iff {profiles : List ConnectionProfile} {c c' : PoolState pm}
    {steps : List (Taken (PoolState pm) PoolLabel)} {i : Nat} {e : PoolEntry}
    {t : Thread (poolSystem pm)} {err : String}
    (hreach : Reach Config.step (Config.initial (poolSystem pm) { profiles := profiles }) c)
    (hcall : c.threads[i]? = some (Thread.start (poolSystem pm) e))
    (hrun : Trace Config.step c steps c')
    (halone : ∀ taken ∈ steps, Config.OwnLabel i taken.label) (ht : c'.threads[i]? = some t)
    (hfailed : Returned t (.error err)) :
    PoolWorld.SameCache c.world c'.world ↔ c.world.HasRoom := by
  have hcache : c.world.CacheInv := cacheInv_of_reach hreach
  rcases failedEvents_of_returned hfailed with ⟨before, after, hpast, hlooks, hend⟩
  cases hend with
  | creating =>
      rcases last_of_alone hrun halone hcall ht hpast with
        ⟨m, steps', u, ch, hrun', halone', hu, rfl, hp⟩
      rw [world_of_looks hrun' halone' hu hlooks] at hp
      cases hp with
      | createPool _ hc => exact PoolWorld.sameCache_creates_iff hcache hc (by simp)
  | @opening profileName dbName config =>
      have hsplit : t.past = (before ++ [⟨.createPool profileName dbName, .ok (.toOpen config)⟩]) ++
          [⟨.openPool profileName dbName config, .error err⟩] := by
        rw [hpast, List.append_assoc]
        rfl
      rcases last_of_alone hrun halone hcall ht hsplit with
        ⟨m, steps', u, ch, hrun', halone', hu, hupast, hopened⟩
      rcases last_of_alone hrun' halone' hcall hu hupast with
        ⟨m₀, steps₀, u₀, ch₀, hrun₀, halone₀, hu₀, rfl, hcreated⟩
      rw [world_of_looks hrun₀ halone₀ hu₀ hlooks] at hcreated
      have hcache' : m.world.CacheInv := hcache.of_performs hcreated
      cases hopened with
      | openPool _ ho =>
          -- The failure to open changes nothing any more, so it is the first action that counts.
          have hsame := PoolWorld.sameCache_opens hcache' ho
          cases hcreated with
          | createPool _ hc =>
              rw [← PoolWorld.sameCache_creates_iff hcache hc (by simp)]
              exact ⟨fun h => h.trans hsame.symm, fun h => h.trans hsame⟩

end

/-! ## Concrete failures -/

/-- Callers of `n` databases, one after the other. -/
def cachedDatabases (n : Nat) : List PoolLabel :=
  (List.range n).flatMap fun k : Nat =>
    .arrive (.caller "" ("db" ++ itoa k) 0) :: List.replicate 4 (poolStep k k)

def missingCaller : PoolEntry :=
  .caller "missing" "app" 0

/-- A caller asks for a profile that does not exist. -/
def missingProfile (i : Nat) : List PoolLabel :=
  [.arrive missingCaller, poolStep i 16, poolStep i 16]

/-- A call for that profile has looked into the cache and then failed. -/
def failedMissing? : List PoolEvent → Option String
  | [⟨.readCache profileName dbName, none⟩, ⟨.createPool profileName' dbName', .error err⟩] =>
      if profileName = "missing" ∧ dbName = "app" ∧ profileName' = "missing" ∧ dbName' = "app" then
        some err
      else none
  | _ => none

theorem path_of_failedMissing {events : List PoolEvent} {err : String}
    (h : failedMissing? events = some err) :
    Program.Path (getPoolForProfile "app" "missing") events (.done (.error err)) := by
  unfold failedMissing? at h
  split at h
  · split at h
    · rename_i hnames
      rcases hnames with ⟨rfl, rfl, rfl, rfl⟩
      cases h
      have hstart : getPoolForProfile "app" "missing" = cachedPool "missing" "app" := by
        simp [getPoolForProfile, isDefaultProfile]
      rw [hstart]
      exact Program.Path.head (Program.Path.head Program.Path.refl)
    · cases h
  · cases h

/-- Thread `i` has called for that profile, and the call has failed. -/
def missingFailed (i : Nat) (c : PoolState PoolManager.exampleManager) : Bool :=
  c.threads[i]?.any fun t => t.entry = missingCaller && (failedMissing? t.past).isSome

theorem returned_of_missingFailed {i : Nat} {c : PoolState PoolManager.exampleManager}
    (h : missingFailed i c = true) :
    ∃ t err, c.threads[i]? = some t ∧ Returned t (.error err) := by
  unfold missingFailed at h
  rcases Option.any_eq_true _ _ |>.1 h with ⟨t, ht, htest⟩
  rw [Bool.and_eq_true, decide_eq_true_eq, Option.isSome_iff_exists] at htest
  rcases htest with ⟨hentry, err, hpast⟩
  refine ⟨t, err, ht, ?_⟩
  unfold Returned
  rw [hentry]
  exact ⟨t.past, List.prefix_refl _, path_of_failedMissing hpast⟩

abbrev exampleStart : PoolState PoolManager.exampleManager :=
  Config.initial (poolSystem PoolManager.exampleManager) { profiles := [] }

/-- Three pools are cached when the call fails. -/
theorem failed_call_iff_someCached :
    ∃ (c : PoolState PoolManager.exampleManager) (steps : _), Trace Config.step exampleStart steps c ∧
      missingFailed 3 c = true ∧ c.world.pools.keys.length = 3 ∧
      (ChangesNothing 3 steps ↔ FindsRoom 3 steps) := by
  have hend : (run Config.step exampleStart (cachedDatabases 3 ++ missingProfile 3)).any
      (fun c => missingFailed 3 c && decide (c.world.pools.keys.length = 3)) = true := by
    decide +kernel
  rcases Option.any_eq_true _ _ |>.1 hend with ⟨c, hrun, htest⟩
  rw [Bool.and_eq_true, decide_eq_true_eq] at htest
  rcases returned_of_missingFailed htest.1 with ⟨t, err, ht, hfailed⟩
  have htrace := trace_of_run hrun
  exact ⟨c, _, htrace, htest.1, htest.2,
    failed_call_iff PoolManager.exampleManager [] htrace ht hfailed⟩

/-- The step drops the pool that is cached under this name. -/
def losesPool (name : String) (taken : Taken (PoolState PoolManager.exampleManager) PoolLabel) :
    Bool :=
  (taken.before.world.pools.lookup name).isSome && (taken.after.world.pools.lookup name).isNone

def ownLabel (i : Nat) : PoolLabel → Bool
  | .step j _ => i = j
  | _ => false

theorem failure_evicts :
    ¬ ∀ (D : Driver) (pm : PoolManager D) (profiles : List ConnectionProfile) (c : PoolState pm)
        (steps : List (Taken (PoolState pm) PoolLabel)) (i : Nat) (t : Thread (poolSystem pm))
        (err : String),
      Trace Config.step (Config.initial (poolSystem pm) { profiles := profiles }) steps c →
        c.threads[i]? = some t → Returned t (.error err) → ChangesNothing i steps := by
  intro hall
  have hend : (run Config.step exampleStart (cachedDatabases 16 ++ missingProfile 16)).any
      (missingFailed 16) = true := by decide +kernel
  have hloses : (takenSteps Config.step exampleStart (cachedDatabases 16 ++ missingProfile 16)).any
      (fun taken => ownLabel 16 taken.label && losesPool "direct-postgres|db0" taken) = true := by
    decide +kernel
  rcases Option.any_eq_true _ _ |>.1 hend with ⟨c, hrun, htest⟩
  rcases returned_of_missingFailed htest with ⟨t, err, ht, hfailed⟩
  have hsame := hall _ PoolManager.exampleManager [] c _ 16 t err (trace_of_run hrun) ht hfailed
  -- The last step of the call drops the pool of the first database.
  rcases List.any_eq_true.1 hloses with ⟨taken, hmem, hstep⟩
  rw [Bool.and_eq_true] at hstep
  have hown : Config.OwnLabel 16 taken.label := by
    unfold ownLabel at hstep
    split at hstep
    · rename_i hlabel
      exact ⟨_, hlabel.trans (by rw [← of_decide_eq_true hstep.1])⟩
    · cases hstep.1
  have hcached := (hsame taken hmem hown).cached "direct-postgres|db0"
  simp only [losesPool, Bool.and_eq_true, Option.isNone_iff_eq_none,
    Option.isSome_iff_exists] at hstep
  rcases hstep.2 with ⟨⟨managed, hbefore⟩, hafter⟩
  rw [hbefore, hafter] at hcached
  cases hcached

end Service
end Pgaio
