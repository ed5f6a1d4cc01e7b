import Mathlib.Data.List.AList
import Pgaio.Concurrency.Threads
import Pgaio.Service.PoolManager

/-!
# PoolCache — the pools of the pool manager and their callers

`service/pool_manager.go`: `GetPoolForProfile` with its callers as programs over atomic actions.
Atomic are the critical sections of `pm.mu`, a reading of the settings and a statement on a pool;
the idle sweep and an update of the settings are steps of the environment.

An update does not take `pm.mu`, so the long section under the write lock is not atomic for it.  The
section reads the settings once, in `resolveProfileConfig`: it is an action up to this reading
(`createPool`), and another one that opens the pool with what was read (`openPool`).  In between the
caller holds the lock, and whoever needs it has to wait.

A pool is named by the number of pools opened before it.  A caller is whoever asks for a pool and
then works with it, in the handler or in a goroutine that the handler starts (`TriggerVacuum`).
-/

namespace Pgaio
namespace Service

open Go Concurrency

def poolManagerMaxPools : Nat := 16
def poolManagerIdleTTL : Duration := Duration.times 10 Duration.minute

/-- A pool that a caller can be given. -/
inductive PoolRef where
  | default
  | managed (pool : Nat)
  deriving DecidableEq, Repr

/-- A pool that was opened, and what it was opened for. -/
structure OpenedPool where
  profileName : String
  dbName : String
  connConfig : ConnConfig
  closed : Bool := false
  deriving DecidableEq, Repr

structure ManagedPool where
  pool : Nat
  lastUsed : Time
  deriving DecidableEq, Repr

/-- `profiles` are those of the current settings, `opened` all pools that were ever opened.
`creating` is the cache key of a caller that holds the write lock and is about to open its pool. -/
structure PoolWorld where
  profiles : List ConnectionProfile
  pools : AList (fun _ : String => ManagedPool) := ∅
  opened : List OpenedPool := []
  creating : Option String := none

inductive PoolEntry where
  /-- A caller that runs a number of statements on the pool it gets. -/
  | caller (profileName dbName : String) (statements : Nat)
  deriving DecidableEq, Repr

/-- What a caller finds under the write lock. -/
inductive Creation where
  /-- Another caller has cached the pool meanwhile. -/
  | cached (pool : Nat)
  | toOpen (config : PoolConfig)
  deriving DecidableEq, Repr

inductive PoolAct where
  | currentDatabase
  | profileDatabase (profileName : String)
  /-- The section under the read lock. -/
  | readCache (profileName dbName : String)
  | touchPool (profileName dbName : String)
  /-- The section under the write lock, up to the reading of the profile. -/
  | createPool (profileName dbName : String)
  /-- The rest of that section: `NewWithConfig`, `Ping` and the entry in the map. -/
  | openPool (profileName dbName : String) (config : PoolConfig)
  /-- `GetPoolForProfile` returns to its caller. -/
  | handOver (pool : PoolRef)
  | statement (pool : PoolRef)
  deriving DecidableEq, Repr

@[reducible] def PoolAct.Resp : PoolAct → Type
  | .currentDatabase => String
  | .profileDatabase _ => String
  | .readCache _ _ => Option Nat
  | .createPool _ _ => Except String Creation
  | .openPool _ _ _ => Except String Nat
  | .statement _ => Bool
  | _ => Unit

/-- `text` is the database the server reports, or the text of an error; `iteration` is the order in
which a loop visits the map. -/
structure PoolChoice where
  now : Time := 0
  text : String := ""
  connects : Bool := true
  answersPing : Bool := true
  iteration : List String := []

inductive PoolEnv where
  | sweepIdlePools (now : Time)
  | updateSettings (profiles : List ConnectionProfile)

abbrev PoolProgram := Program PoolAct PoolAct.Resp

abbrev PoolAct.perform (a : PoolAct) : PoolProgram a.Resp :=
  Program.perform a

/-! ## The programs -/

/-- `GetPoolForProfile` from the computation of the cache key on. -/
def cachedPool (profileName dbName : String) : PoolProgram (Except String PoolRef) := do
  match ← (PoolAct.readCache profileName dbName).perform with
  | some pool => do
      let _ ← (PoolAct.touchPool profileName dbName).perform
      return .ok (.managed pool)
  | none => do
      match ← (PoolAct.createPool profileName dbName).perform with
      | .error err => return .error err
      | .ok (.cached pool) => return .ok (.managed pool)
      | .ok (.toOpen config) => do
          match ← (PoolAct.openPool profileName dbName config).perform with
          | .ok pool => return .ok (.managed pool)
          | .error err => return .error err

def getPoolForProfile (dbName profileName : String) : PoolProgram (Except String PoolRef) :=
  if isDefaultProfile profileName then do
    let currentDB ← PoolAct.currentDatabase.perform
    if dbName = "" ∨ dbName = currentDB then return .ok .default
    else cachedPool profileName dbName
  else if dbName = "" then do
    let dbName ← (PoolAct.profileDatabase profileName).perform
    cachedPool profileName dbName
  else cachedPool profileName dbName

/-- The statements for which the pool was obtained. -/
def work (pool : PoolRef) : Nat → PoolProgram Unit
  | 0 => return ()
  | n + 1 => do
      let _ ← (PoolAct.statement pool).perform
      work pool n

/-- What a caller does with the answer it gets. -/
def useAnswer (statements : Nat) : Except String PoolRef → PoolProgram Unit
  | .error _ => return ()
  | .ok pool => do
      let _ ← (PoolAct.handOver pool).perform
      work pool statements

def PoolEntry.body : PoolEntry → PoolProgram Unit
  | .caller profileName dbName statements => do
      let answer ← getPoolForProfile dbName profileName
      useAnswer statements answer

/-! ## The effect of the actions -/

namespace PoolWorld

variable (w : PoolWorld)

def isClosed (pool : Nat) : Bool :=
  (w.opened[pool]?).any OpenedPool.closed

/-- `pool.Close()`. -/
def closePool (pool : Nat) : PoolWorld :=
  { w with opened := w.opened.modify pool fun o => { o with closed := true } }

/-- `delete(pm.pools, name)` after the pool has been closed. -/
def dropPool (name : String) : PoolWorld :=
  match w.pools.lookup name with
  | none => w
  | some managed => { w.closePool managed.pool with pools := w.pools.erase name }

def touch (name : String) (now : Time) : PoolWorld :=
  match w.pools.lookup name with
  | none => w
  | some managed => { w with pools := w.pools.insert name { managed with lastUsed := now } }

/-- One round of the loop of `evictOldestPoolLocked`. -/
def olderOf (oldest : String × Time) (name : String) : String × Time :=
  match w.pools.lookup name with
  | none => oldest
  | some managed =>
      if oldest.1 = "" ∨ managed.lastUsed < oldest.2 then (name, managed.lastUsed) else oldest

/-- The loop visits every entry of the map once, in any order. -/
def oldestName (iteration : List String) : String :=
  let order := if iteration.isPerm w.pools.keys then iteration else w.pools.keys
  (order.foldl w.olderOf ("", 0)).1

def evictOldestPoolLocked (iteration : List String) : PoolWorld :=
  w.dropPool (w.oldestName iteration)

def makeRoom (iteration : List String) : PoolWorld :=
  if poolManagerMaxPools ≤ w.pools.keys.length then w.evictOldestPoolLocked iteration else w

/-- A pool idle for too long is closed and deleted. -/
def isIdle (now : Time) (managed : ManagedPool) : Bool :=
  decide (poolManagerIdleTTL ≤ now.sub managed.lastUsed)

/-- One round of the loop of `sweepIdlePools`. -/
def sweepPool (now : Time) (w : PoolWorld) (name : String) : PoolWorld :=
  match w.pools.lookup name with
  | none => w
  | some managed => if isIdle now managed then w.dropPool name else w

def sweepIdlePools (now : Time) : PoolWorld :=
  w.pools.keys.foldl (sweepPool now) w

/-- The world after a new pool was opened. -/
def openPool (profileName dbName : String) (connConfig : ConnConfig) : PoolWorld :=
  { w with
    opened := w.opened ++
      [{ profileName := profileName, dbName := dbName, connConfig := connConfig }] }

variable {D : Driver} (pm : PoolManager D)

/-- The double check of the cache, and what follows it up to `resolveProfileConfig`. -/
def createPool (profileName dbName : String) (ch : PoolChoice) :
    Except String Creation × PoolWorld :=
  match w.pools.lookup (poolKey profileName dbName) with
  | some managed => (.ok (.cached managed.pool), w.touch (poolKey profileName dbName) ch.now)
  | none =>
      let w := w.makeRoom ch.iteration
      match pm.newPoolConfig w.profiles profileName dbName with
      | .error err => (.error err, w)
      | .ok config =>
          (.ok (.toOpen config), { w with creating := some (poolKey profileName dbName) })

/-- `defer pm.mu.Unlock()`. -/
def unlock : PoolWorld :=
  { w with creating := none }

def openNew (profileName dbName : String) (config : PoolConfig) (ch : PoolChoice) :
    Except String Nat × PoolWorld :=
  let w := w.unlock
  if ch.connects = false then
    (.error ("failed to connect to database " ++ dbName ++ ": " ++ ch.text), w)
  else
    let pool := w.opened.length
    let w := w.openPool profileName dbName config.connConfig
    if ch.answersPing = false then
      (.error ("failed to ping database " ++ dbName ++ ": " ++ ch.text), w.closePool pool)
    else
      (.ok pool,
        { w with
          pools := w.pools.insert (poolKey profileName dbName)
            { pool := pool, lastUsed := ch.now } })

/-- A section of `pm.mu` waits until nobody holds the write lock. -/
def whenFree {α : Type} (x : α) : Option α :=
  if w.creating = none then some x else none

def exec : (a : PoolAct) → PoolChoice → Option (a.Resp × PoolWorld)
  | .currentDatabase, ch => some (ch.text, w)
  | .profileDatabase profileName, _ => some (Service.profileDatabase w.profiles profileName, w)
  | .readCache profileName dbName, _ =>
      w.whenFree ((w.pools.lookup (poolKey profileName dbName)).map ManagedPool.pool, w)
  | .touchPool profileName dbName, ch =>
      w.whenFree ((), w.touch (poolKey profileName dbName) ch.now)
  | .createPool profileName dbName, ch => w.whenFree (w.createPool pm profileName dbName ch)
  | .openPool profileName dbName config, ch =>
      -- It is the caller itself that holds the lock (`openPool_enabled`).
      if w.creating = some (poolKey profileName dbName) then
        some (w.openNew profileName dbName config ch)
      else none
  | .handOver _, _ => some ((), w)
  | .statement .default, _ => some (true, w)
  | .statement (.managed pool), _ => some (!w.isClosed pool, w)

def envStep : PoolEnv → Option PoolWorld
  | .sweepIdlePools now => w.whenFree (w.sweepIdlePools now)
  | .updateSettings profiles => some { w with profiles := pm.env.applyConnectionDefaults profiles }

end PoolWorld

/-- Any number of callers with any profiles and databases, sweeps and updates of the settings. -/
def poolSystem {D : Driver} (pm : PoolManager D) :
    System PoolWorld PoolAct PoolAct.Resp PoolChoice PoolEnv PoolEntry Unit where
  body := PoolEntry.body
  external := fun _ => true
  exec := fun w _ a ch => w.exec pm a ch
  forks := fun _ => none
  env := fun w x => w.envStep pm x

end Service
end Pgaio
