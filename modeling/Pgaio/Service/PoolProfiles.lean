import Pgaio.Service.PoolUse

/-!
# PoolProfiles — does a pool follow the profile it was asked for?

A cached pool keeps the host and port with which it was opened, and an update of the settings does
not touch the cache.  So a pool can be handed out for a profile that has moved or is gone
(`stale_pool`).  The cache key joins two names with a bar, which a profile name may contain itself.

An update can also come while a caller opens a pool with what it has read before.

`followsStep` says which steps do no harm: requests name profiles without a bar, and an update keeps
the profiles behind cached pools and behind pools that are being opened or handed out.  Along such
runs a pool that is handed out goes where the profile of the request points now
(`pools_follow_profiles`).
-/

namespace Pgaio
namespace Service

open Go Concurrency Transition

/-! ## Cache keys -/

def normalizedName (profileName : String) : String :=
  if profileName = "" then "direct-postgres" else profileName

def normalizedDatabase (dbName : String) : String :=
  if dbName = "" then "(default)" else dbName

def hasBar (profileName : String) : Bool :=
  profileName.toList.contains '|'

theorem bar_notMem_normalizedName {profileName : String} (h : hasBar profileName = false) :
    '|' ∉ (normalizedName profileName).toList := by
  unfold normalizedName
  split
  · decide
  · simpa [hasBar] using h

/-- Names without a bar are told apart by their keys. -/
theorem poolKey_inj {p p' d d' : String} (hp : hasBar p = false) (hp' : hasBar p' = false)
    (h : poolKey p d = poolKey p' d') :
    normalizedName p = normalizedName p' ∧ normalizedDatabase d = normalizedDatabase d' := by
  have hkey : ∀ p d, (poolKey p d).toList =
      (normalizedName p).toList ++ '|' :: (normalizedDatabase d).toList := by
    intro p d
    simp [poolKey, normalizedName, normalizedDatabase]
  -- The bar of a key is its first one, because the name before it has none.
  have hlist := congrArg String.toList h
  rw [hkey, hkey] at hlist
  have hsplit :=
    append_separator_inj_left (bar_notMem_normalizedName hp) (bar_notMem_normalizedName hp') hlist
  exact ⟨String.toList_injective hsplit.1, String.toList_injective hsplit.2⟩

theorem eq_of_normalizedName {p p' : String} (hp : isDefaultProfile p = false)
    (h : normalizedName p' = normalizedName p) : p' = p := by
  simp only [isDefaultProfile, Bool.or_eq_false_iff, decide_eq_false_iff_not] at hp
  unfold normalizedName at h
  rw [if_neg hp.1] at h
  split at h
  · exact absurd h.symm hp.2
  · exact h

/-! ## What a pool has to match -/

/-- A connection goes where an enabled profile points. -/
structure Connects (conn : ConnConfig) (profile : ConnectionProfile) : Prop where
  enabled : profile.enabled = true
  host : conn.host = profile.host
  port : conn.port = profile.port
  sslMode : conn.sslMode = profile.sslMode

/-- The pool was opened with what its profile says under `profiles`. -/
def Follows (profiles : List ConnectionProfile) (o : OpenedPool) : Prop :=
  isDefaultProfile o.profileName = true ∨
    ∃ profile, lookupProfile profiles o.profileName = some profile ∧
      Connects o.connConfig profile ∧ o.connConfig.database = o.dbName

/-- The two settings lead to the same connections under the profile name. -/
def sameConnection (profile profile' : Option ConnectionProfile) : Bool :=
  decide (profile.map (fun p => (p.host, p.port, p.sslMode, p.enabled)) =
    profile'.map (fun p => (p.host, p.port, p.sslMode, p.enabled)))

theorem follows_of_sameConnection {profiles profiles' : List ConnectionProfile} {o : OpenedPool}
    (h : Follows profiles o)
    (hsame : isDefaultProfile o.profileName = true ∨
      sameConnection (lookupProfile profiles o.profileName)
        (lookupProfile profiles' o.profileName) = true) : Follows profiles' o := by
  rcases h with hdefault | ⟨profile, hlookup, hconnects, hdb⟩
  · exact Or.inl hdefault
  · -- A named pool: its profile is still there, with the same four fields.
    rcases hsame with hdefault | hsame
    · exact Or.inl hdefault
    · right
      have heq := of_decide_eq_true hsame
      rw [hlookup] at heq
      rcases Option.map_eq_some_iff.1 heq.symm with ⟨profile', hlookup', hfields⟩
      simp only [Prod.mk.injEq] at hfields
      rcases hfields with ⟨hhost, hport, hssl, henabled⟩
      refine ⟨profile', hlookup', ⟨?_, ?_, ?_, ?_⟩, hdb⟩
      · rw [henabled]
        exact hconnects.enabled
      · rw [hhost]
        exact hconnects.host
      · rw [hport]
        exact hconnects.port
      · rw [hssl]
        exact hconnects.sslMode

section

variable {D : Driver} (pm : PoolManager D)

/-- The driver reads the profile's fields back from its connection text, as it does when they
contain no blanks, quotes or commas. -/
def readsBack (profile : ConnectionProfile) : Bool :=
  match D.parseConfig (pm.profileText profile) with
  | .error _ => true
  | .ok config =>
      decide (config.connConfig.host = profile.host ∧ config.connConfig.port = profile.port ∧
        config.connConfig.sslMode = profile.sslMode)

/-- Settings whose profiles are complete and are read back. -/
def Sound (profiles : List ConnectionProfile) : Prop :=
  ∀ profile ∈ profiles, profile.database ≠ "" ∧ readsBack pm profile = true

variable {pm}

theorem sound_of_defaults {profiles : List ConnectionProfile}
    (h : (pm.env.applyConnectionDefaults profiles).all (readsBack pm) = true) :
    Sound pm (pm.env.applyConnectionDefaults profiles) :=
  fun profile hmem => ⟨(complete_of_mem hmem).1, List.all_eq_true.1 h profile hmem⟩

theorem mem_of_lookupProfile {profiles : List ConnectionProfile} {profileName : String}
    {profile : ConnectionProfile} (h : lookupProfile profiles profileName = some profile) :
    profile ∈ profiles :=
  List.mem_of_find?_eq_some h

/-- Only a profile that is not there has no database. -/
theorem profileDatabase_ne_empty {profiles : List ConnectionProfile} (hsound : Sound pm profiles)
    {profileName : String} {profile : ConnectionProfile}
    (h : lookupProfile profiles profileName = some profile) :
    profileDatabase profiles profileName = profile.database ∧
      profileDatabase profiles profileName ≠ "" := by
  have heq : profileDatabase profiles profileName = profile.database := by
    simp [profileDatabase, h]
  refine ⟨heq, ?_⟩
  rw [heq]
  exact (hsound profile (mem_of_lookupProfile h)).1

/-- A pool that is opened now follows the settings of now. -/
theorem follows_of_newPoolConfig {profiles : List ConnectionProfile} (hsound : Sound pm profiles)
    {profileName dbName : String} {config : PoolConfig}
    (h : pm.newPoolConfig profiles profileName dbName = .ok config) (hdb : dbName ≠ "") :
    Follows profiles
      { profileName := profileName, dbName := dbName, connConfig := config.connConfig } := by
  rcases PoolManager.resolve_of_newPoolConfig h with ⟨resolved, hres, hconn⟩
  by_cases hname : isDefaultProfile profileName = true
  · exact Or.inl hname
  · -- What the driver parsed is the profile's own text, which it reads back.
    rcases PoolManager.profile_of_resolve (by simpa using hname) hres with
      ⟨profile, hlookup, henabled, hparse⟩
    have hback := (hsound profile (mem_of_lookupProfile hlookup)).2
    simp only [readsBack, hparse, decide_eq_true_eq] at hback
    rcases hback with ⟨hhost, hport, hssl⟩
    right
    refine ⟨profile, hlookup, ⟨henabled, ?_, ?_, ?_⟩, ?_⟩
    · rw [hconn, PoolManager.setDatabase_host, hhost]
    · rw [hconn, PoolManager.setDatabase_port, hport]
    · rw [hconn, PoolManager.setDatabase_sslMode, hssl]
    · rw [hconn, PoolManager.setDatabase_database, if_neg hdb]

/-! ## What the program of a caller guarantees -/

def isHandOver (e : PoolEvent) : Bool :=
  match e.act with
  | .handOver _ => true
  | _ => false

/-- The event gives the pool for the profile and the database. -/
def Gives (e : PoolEvent) (profileName dbName : String) (pool : Nat) : Prop :=
  (e.act = .readCache profileName dbName ∨ e.act = .createPool profileName dbName ∨
      ∃ config, e.act = .openPool profileName dbName config) ∧
    given? e = some pool

/-- The database with which a request for `dbName` has to continue. -/
def Wanted (past : List PoolEvent) (profileName dbName wanted : String) : Prop :=
  if isDefaultProfile profileName = true then wanted = dbName ∧ dbName ≠ ""
  else if dbName = "" then ⟨.profileDatabase profileName, wanted⟩ ∈ past
  else wanted = dbName

/-- What a request may do after the events `past`. -/
def CallAllows (profileName dbName : String) (past : List PoolEvent) : PoolAct → Prop
  | .profileDatabase p => p = profileName
  | .readCache p d =>
      past.any isHandOver = false ∧ p = profileName ∧ Wanted past profileName dbName d
  | .createPool p d =>
      past.any isHandOver = false ∧ p = profileName ∧ Wanted past profileName dbName d
  | .openPool p d _ =>
      past.any isHandOver = false ∧ p = profileName ∧ Wanted past profileName dbName d
  | .handOver ref => past.any isHandOver = false ∧
      (isDefaultProfile profileName = false → ∃ pool d e, ref = .managed pool ∧ e ∈ past ∧
        Gives e profileName d pool ∧ Wanted past profileName dbName d)
  | _ => True

/-- What the answer of `GetPoolForProfile` comes from. -/
def Answered (profileName dbName : String) (past : List PoolEvent) (x : Except String PoolRef) :
    Prop :=
  past.any isHandOver = false ∧ ∀ ref, x = .ok ref → isDefaultProfile profileName = false →
    ∃ pool d e, ref = .managed pool ∧ e ∈ past ∧ Gives e profileName d pool ∧
      Wanted past profileName dbName d

theorem Wanted.snoc {past : List PoolEvent} {p d wanted : String} (h : Wanted past p d wanted)
    (e : PoolEvent) : Wanted (past ++ [e]) p d wanted := by
  unfold Wanted at h ⊢
  split
  · rename_i hp
    rwa [if_pos hp] at h
  · rename_i hp
    rw [if_neg hp] at h
    split
    · rename_i hd
      rw [if_pos hd] at h
      exact List.mem_append_left _ h
    · rename_i hd
      rwa [if_neg hd] at h

theorem any_isHandOver_snoc {past : List PoolEvent} {e : PoolEvent}
    (hpast : past.any isHandOver = false) (he : isHandOver e = false) :
    (past ++ [e]).any isHandOver = false := by
  simp [hpast, he]

/-- The pool of the last event is the answer. -/
theorem answered_snoc {past : List PoolEvent} {e : PoolEvent} {profileName dbName wanted : String}
    {pool : Nat} (hpast : past.any isHandOver = false) (he : isHandOver e = false)
    (hwanted : Wanted past profileName dbName wanted) (hgives : Gives e profileName wanted pool) :
    Answered profileName dbName (past ++ [e]) (.ok (.managed pool)) := by
  refine ⟨any_isHandOver_snoc hpast he, ?_⟩
  intro ref hok _
  cases hok
  exact ⟨pool, wanted, e, rfl, List.mem_append_right _ List.mem_cons_self, hgives, hwanted.snoc e⟩

theorem Answered.snoc {past : List PoolEvent} {e : PoolEvent} {profileName dbName : String}
    {x : Except String PoolRef} (h : Answered profileName dbName past x)
    (he : isHandOver e = false) : Answered profileName dbName (past ++ [e]) x := by
  refine ⟨any_isHandOver_snoc h.1 he, ?_⟩
  intro ref hok hp
  rcases h.2 ref hok hp with ⟨pool, d, e', href, hmem, hgives, hwanted⟩
  exact ⟨pool, d, e', href, List.mem_append_left _ hmem, hgives, hwanted.snoc e⟩

theorem answered_error {past : List PoolEvent} {profileName dbName err : String}
    (hpast : past.any isHandOver = false) :
    Answered profileName dbName past (.error err) :=
  ⟨hpast, fun _ hok => nomatch hok⟩

theorem cachedPool_wp {past : List PoolEvent} {profileName dbName wanted : String}
    (hpast : past.any isHandOver = false) (hwanted : Wanted past profileName dbName wanted) :
    Program.wp (CallAllows profileName dbName) (Answered profileName dbName) past
      (cachedPool profileName wanted) := by
  refine Program.wp_perform ⟨hpast, rfl, hwanted⟩ ?_
  intro found
  have hpast' := any_isHandOver_snoc (e := ⟨.readCache profileName wanted, found⟩) hpast rfl
  cases found with
  | some pool =>
      -- A hit: the pool in the answer is the one the cache was read for.
      refine Program.wp_perform trivial fun _ => ?_
      exact (answered_snoc hpast rfl hwanted ⟨Or.inl rfl, rfl⟩).snoc rfl
  | none =>
      refine Program.wp_perform ⟨hpast', rfl, hwanted.snoc _⟩ ?_
      intro created
      have hpast'' := any_isHandOver_snoc
        (e := ⟨.createPool profileName wanted, created⟩) hpast' rfl
      cases created with
      | error err => exact answered_error hpast''
      | ok creation =>
          cases creation with
          | cached pool =>
              exact answered_snoc hpast' rfl (hwanted.snoc _) ⟨Or.inr (Or.inl rfl), rfl⟩
          | toOpen config =>
              -- A miss: it is the one that is opened.
              have hwanted' := (hwanted.snoc ⟨.readCache profileName wanted, none⟩).snoc
                ⟨.createPool profileName wanted, .ok (.toOpen config)⟩
              refine Program.wp_perform ⟨hpast'', rfl, hwanted'⟩ ?_
              intro opened
              cases opened with
              | error err => exact answered_error (any_isHandOver_snoc hpast'' rfl)
              | ok pool =>
                  exact answered_snoc hpast'' rfl hwanted' ⟨Or.inr (Or.inr ⟨config, rfl⟩), rfl⟩

theorem getPoolForProfile_wp (profileName dbName : String) :
    Program.wp (CallAllows profileName dbName) (Answered profileName dbName) []
      (getPoolForProfile dbName profileName) := by
  unfold getPoolForProfile
  split
  · rename_i hdefault
    refine Program.wp_perform trivial ?_
    intro currentDB
    split
    · -- The default pool is handed out, about which nothing is promised.
      refine ⟨rfl, ?_⟩
      intro ref _ hnot
      rw [hdefault] at hnot
      cases hnot
    · rename_i hother
      refine cachedPool_wp rfl ?_
      unfold Wanted
      rw [if_pos hdefault]
      exact ⟨rfl, fun hempty => hother (Or.inl hempty)⟩
  · rename_i hnamed
    split
    · rename_i hempty
      refine Program.wp_perform rfl ?_
      intro wanted
      refine cachedPool_wp rfl ?_
      unfold Wanted
      rw [if_neg hnamed, if_pos hempty]
      exact List.mem_singleton.2 rfl
    · rename_i hgiven
      refine cachedPool_wp rfl ?_
      unfold Wanted
      rw [if_neg hnamed, if_neg hgiven]

theorem work_wp {profileName dbName : String} (ref : PoolRef) (n : Nat)
    (past : List PoolEvent) :
    Program.wp (CallAllows profileName dbName) (fun _ _ => True) past (work ref n) := by
  induction n generalizing past with
  | zero => trivial
  | succ n ih => exact Program.wp_perform trivial fun _ => ih _

theorem caller_wp (profileName dbName : String) (statements : Nat) :
    Program.wp (CallAllows profileName dbName) (fun _ _ => True) []
      (PoolEntry.body (.caller profileName dbName statements)) := by
  refine (Program.wp_bind _ _).2 ?_
  refine Program.wp_mono (fun _ _ h => h) ?_ (getPoolForProfile_wp profileName dbName)
  rintro past answer ⟨hpast, hanswer⟩
  cases answer with
  | error err => trivial
  | ok ref => exact Program.wp_perform ⟨hpast, hanswer ref rfl⟩ fun _ => work_wp ref _ _

theorem allows_call {t : Thread (poolSystem pm)} {a : PoolAct} {next : a.Resp → PoolProgram Unit}
    {profileName dbName : String} {statements : Nat} (hrest : t.rest = .act a next)
    (hentry : t.entry = .caller profileName dbName statements) :
    CallAllows profileName dbName t.past a := by
  have hbody : Program.wp (CallAllows profileName dbName) (fun _ _ => True) []
      ((poolSystem pm).body t.entry) := by
    rw [hentry]
    exact caller_wp profileName dbName statements
  have hwp := t.wp hbody
  rw [hrest] at hwp
  exact hwp.1

/-! ## The claim about a state -/

/-- A pool handed out for a profile goes where the profile points. -/
structure HandedOut (c : PoolState pm) (ref : PoolRef) (profileName dbName : String) : Prop where
  connected : ∃ pool o profile, ref = .managed pool ∧ c.world.opened[pool]? = some o ∧
    lookupProfile c.world.profiles profileName = some profile ∧ Connects o.connConfig profile ∧
    o.connConfig.database = if dbName = "" then profile.database else dbName

structure FollowsProfiles (c : PoolState pm) : Prop where
  handed_out : ∀ t ∈ c.threads, ∀ profileName dbName statements ref,
    t.entry = .caller profileName dbName statements → isDefaultProfile profileName = false →
      t.action? = some (.handOver ref) → HandedOut c ref profileName dbName
  not_shared : ∀ t ∈ c.threads, ∀ u ∈ c.threads, ∀ e ∈ t.past, ∀ e' ∈ u.past, ∀ p d p' d' pool,
    Gives e p d pool → Gives e' p' d' pool → normalizedName p = normalizedName p' ∧ d = d'

/-! ## Steps that do no harm -/

/-- `GetPoolForProfile` has not returned yet. -/
def isCalling (t : Thread (poolSystem pm)) : Bool :=
  !t.finished && !t.past.any isHandOver

/-- The pool that a caller is about to open with what the event has read. -/
def toOpen? : PoolEvent → Option OpenedPool
  | ⟨.createPool profileName dbName, .ok (.toOpen config)⟩ =>
      some { profileName := profileName, dbName := dbName, connConfig := config.connConfig }
  | _ => none

/-- The new settings leave the profile alone that the pool is for. -/
def profileKept (c : PoolState pm) (profiles : List ConnectionProfile) (o : OpenedPool) : Bool :=
  isDefaultProfile o.profileName ||
    sameConnection (lookupProfile c.world.profiles o.profileName)
      (lookupProfile profiles o.profileName)

def poolKept (c : PoolState pm) (profiles : List ConnectionProfile) (pool : Nat) : Bool :=
  (c.world.opened[pool]?).all (profileKept c profiles)

/-- The new settings leave alone what the event has read of them. -/
def eventKept (c : PoolState pm) (profiles : List ConnectionProfile) (e : PoolEvent) : Bool :=
  (given? e).all (poolKept c profiles) && (toOpen? e).all (profileKept c profiles) &&
    match e.act with
    | .profileDatabase profileName =>
        profileDatabase profiles profileName = profileDatabase c.world.profiles profileName
    | _ => true

/-- The new settings leave the profiles alone that are behind cached pools and running calls. -/
def settingsKept (c : PoolState pm) (profiles : List ConnectionProfile) : Bool :=
  c.world.pools.entries.all (fun entry => poolKept c profiles entry.2.pool) &&
    c.threads.all fun t => !isCalling t || t.past.all (eventKept c profiles)

def followsStep (c : PoolState pm) : PoolLabel → Bool
  | .arrive (.caller profileName _ _) => !hasBar profileName
  | .env (.updateSettings profiles) =>
      let updated := pm.env.applyConnectionDefaults profiles
      updated.all (readsBack pm) && settingsKept c updated
  | _ => true

/-! ## The invariant -/

/-- What an event has read of the settings still holds. -/
structure StillHolds (w : PoolWorld) (e : PoolEvent) : Prop where
  read : ∀ p r, e = ⟨.profileDatabase p, r⟩ → r = profileDatabase w.profiles p
  given : ∀ pool, given? e = some pool → ∃ o, w.opened[pool]? = some o ∧ Follows w.profiles o
  toOpen : ∀ o, toOpen? e = some o →
    hasBar o.profileName = false ∧ o.dbName ≠ "" ∧ Follows w.profiles o

structure FollowInv (c : PoolState pm) : Prop where
  cache : c.world.CacheInv
  sound : Sound pm c.world.profiles
  names : ∀ t ∈ c.threads, ∀ p d n, t.entry = .caller p d n → hasBar p = false
  /-- A cached pool is filed under the names it was opened for, and follows its profile. -/
  cached : ∀ name managed, c.world.pools.lookup name = some managed →
    ∃ o, c.world.opened[managed.pool]? = some o ∧ name = poolKey o.profileName o.dbName ∧
      hasBar o.profileName = false ∧ o.dbName ≠ "" ∧ Follows c.world.profiles o
  calling : ∀ t ∈ c.threads, isCalling t = true → ∀ e ∈ t.past, StillHolds c.world e
  /-- A pool is given only for what it was opened for. -/
  given : ∀ t ∈ c.threads, ∀ e ∈ t.past, ∀ p d pool, Gives e p d pool →
    ∃ o, c.world.opened[pool]? = some o ∧ normalizedName o.profileName = normalizedName p ∧
      o.dbName = d

/-! ## From the invariant to the claim -/

theorem isCalling_of_handOver {t : Thread (poolSystem pm)} {a : PoolAct}
    {next : a.Resp → PoolProgram Unit} (hrest : t.rest = .act a next)
    (hpast : t.past.any isHandOver = false) : isCalling t = true := by
  have hunfinished : t.finished = false := by
    simp [Thread.finished, Thread.action?, hrest]
  simp [isCalling, hunfinished, hpast]

theorem FollowInv.handedOut {c : PoolState pm} (hI : FollowInv c)
    {t : Thread (poolSystem pm)} (ht : t ∈ c.threads) {p d : String} {n : Nat} {ref : PoolRef}
    (hentry : t.entry = .caller p d n) (hp : isDefaultProfile p = false)
    (haction : t.action? = some (.handOver ref)) : HandedOut c ref p d := by
  rcases Thread.action?_eq_some.1 haction with ⟨next, hrest⟩
  rcases allows_call hrest hentry with ⟨hpast, hgives⟩
  rcases hgives hp with ⟨pool, wanted, e, rfl, he, hgives, hwanted⟩
  -- The call is still running, so the pool it was given follows the settings of now.
  have hcalling := isCalling_of_handOver hrest hpast
  rcases (hI.calling t ht hcalling e he).given pool hgives.2 with ⟨o, ho, hfollows⟩
  rcases hI.given t ht e he p wanted pool hgives with ⟨o', ho', hname, hdb⟩
  rw [ho] at ho'
  cases ho'
  have hname' : o.profileName = p := eq_of_normalizedName hp hname
  rcases hfollows with hdefault | ⟨profile, hlookup, hconnects, hdatabase⟩
  · rw [hname', hp] at hdefault
    cases hdefault
  · rw [hname'] at hlookup
    refine ⟨pool, o, profile, rfl, ho, hlookup, hconnects, ?_⟩
    rw [hdatabase, hdb]
    unfold Wanted at hwanted
    rw [if_neg (by simp [hp])] at hwanted
    split
    · -- No database was given: the call has read the profile's own.
      rename_i hempty
      rw [if_pos hempty] at hwanted
      have hread := (hI.calling t ht hcalling _ hwanted).read p wanted rfl
      rw [hread]
      exact (profileDatabase_ne_empty hI.sound hlookup).1
    · rename_i hgiven
      rwa [if_neg hgiven] at hwanted

theorem FollowInv.followsProfiles {c : PoolState pm} (hI : FollowInv c) : FollowsProfiles c where
  handed_out := fun _ ht _ _ _ _ hentry hp haction => hI.handedOut ht hentry hp haction
  not_shared := by
    intro t ht u hu e he e' he' p d p' d' pool hgives hgives'
    -- Both events say what the one pool was opened for.
    rcases hI.given t ht e he p d pool hgives with ⟨o, ho, hname, hdb⟩
    rcases hI.given u hu e' he' p' d' pool hgives' with ⟨o', ho', hname', hdb'⟩
    rw [ho] at ho'
    cases ho'
    exact ⟨hname.symm.trans hname', hdb.symm.trans hdb'⟩

/-! ## Every step keeps the invariant -/

theorem Follows.congr {profiles : List ConnectionProfile} {o o' : OpenedPool}
    (h : Follows profiles o) (hname : o'.profileName = o.profileName) (hdb : o'.dbName = o.dbName)
    (hconn : o'.connConfig = o.connConfig) : Follows profiles o' := by
  unfold Follows at h ⊢
  rwa [hname, hdb, hconn]

/-! ### Facts that outlive a step which keeps the opened pools -/

section Frame

variable {c : PoolState pm} {w : PoolWorld}

theorem cached_of_sameOpened {profiles : List ConnectionProfile} {name : String} {pool : Nat}
    (hopened : c.world.SameOpened w)
    (h : ∃ o, c.world.opened[pool]? = some o ∧ name = poolKey o.profileName o.dbName ∧
      hasBar o.profileName = false ∧ o.dbName ≠ "" ∧ Follows profiles o) :
    ∃ o, w.opened[pool]? = some o ∧ name = poolKey o.profileName o.dbName ∧
      hasBar o.profileName = false ∧ o.dbName ≠ "" ∧ Follows profiles o := by
  rcases h with ⟨o, ho, hname, hbar, hd, hfollows⟩
  rcases hopened pool o ho with ⟨o', ho', hname', hd', hconn'⟩
  refine ⟨o', ho', ?_, ?_, ?_, hfollows.congr hname' hd' hconn'⟩
  · rw [hname', hd', hname]
  · rw [hname', hbar]
  · rwa [hd']

theorem StillHolds.of_sameOpened {e : PoolEvent} (h : StillHolds c.world e)
    (hopened : c.world.SameOpened w) (hprofiles : w.profiles = c.world.profiles) :
    StillHolds w e where
  read := by
    rw [hprofiles]
    exact h.read
  given := by
    intro pool hpool
    rcases h.given pool hpool with ⟨o, ho, hfollows⟩
    rcases hopened pool o ho with ⟨o', ho', hname, hdb, hconn⟩
    rw [hprofiles]
    exact ⟨o', ho', hfollows.congr hname hdb hconn⟩
  toOpen := by
    rw [hprofiles]
    exact h.toOpen

theorem FollowInv.given_of_sameOpened (hI : FollowInv c) (hopened : c.world.SameOpened w)
    {t : Thread (poolSystem pm)} (ht : t ∈ c.threads) {e : PoolEvent} (he : e ∈ t.past)
    {p d : String} {pool : Nat} (hgives : Gives e p d pool) :
    ∃ o, w.opened[pool]? = some o ∧ normalizedName o.profileName = normalizedName p ∧
      o.dbName = d := by
  rcases hI.given t ht e he p d pool hgives with ⟨o, ho, hname, hdb⟩
  rcases hopened pool o ho with ⟨o', ho', hname', hdb', _⟩
  refine ⟨o', ho', ?_, ?_⟩
  · rw [hname', hname]
  · rw [hdb', hdb]

end Frame

/-! ### Each step -/

/-- A running call continues without a database only when its profile is not there. -/
theorem missing_of_wanted_empty {c : PoolState pm} (hI : FollowInv c)
    {t : Thread (poolSystem pm)} (ht : t ∈ c.threads) (hcalling : isCalling t = true)
    {p d : String} (hwanted : Wanted t.past p d "") :
    isDefaultProfile p = false ∧ lookupProfile c.world.profiles p = none := by
  unfold Wanted at hwanted
  split at hwanted
  · exact absurd hwanted.1.symm hwanted.2
  · rename_i hp
    refine ⟨by simpa using hp, ?_⟩
    split at hwanted
    · have hread := (hI.calling t ht hcalling _ hwanted).read p "" rfl
      cases hlookup : lookupProfile c.world.profiles p with
      | none => rfl
      | some profile =>
          exact absurd hread.symm (profileDatabase_ne_empty hI.sound hlookup).2
    · rename_i hd
      exact absurd hwanted.symm hd

/-- What a caller has just read to open a pool with follows the settings of now. -/
theorem toOpen_of_created {c : PoolState pm} (hI : FollowInv c) {t : Thread (poolSystem pm)}
    (ht : t ∈ c.threads) {p d : String} {next : Except String Creation → PoolProgram Unit}
    (hrest : t.rest = .act (.createPool p d) next) {config : PoolConfig}
    (hconfig : pm.newPoolConfig c.world.profiles p d = .ok config) :
    hasBar p = false ∧ d ≠ "" ∧
      Follows c.world.profiles
        { profileName := p, dbName := d, connConfig := config.connConfig } := by
  cases hentry : t.entry with
  | caller p' d' n =>
      rcases allows_call hrest hentry with ⟨hpast, rfl, hwanted⟩
      have hcalling := isCalling_of_handOver hrest hpast
      have hd : d ≠ "" := by
        rintro rfl
        rcases missing_of_wanted_empty hI ht hcalling hwanted with ⟨hp, hnone⟩
        -- Without its profile there would be nothing to open a pool with.
        simp [PoolManager.newPoolConfig, PoolManager.resolveProfileConfig, hp, hnone] at hconfig
      exact ⟨hI.names t ht _ _ _ hentry, hd, follows_of_newPoolConfig hI.sound hconfig hd⟩

/-- A caller that is opening a pool does so with what still holds. -/
theorem toOpen_of_opening {c : PoolState pm} (hI : FollowInv c) {t : Thread (poolSystem pm)}
    (ht : t ∈ c.threads) {p d : String} {config : PoolConfig}
    {next : Except String Nat → PoolProgram Unit}
    (hrest : t.rest = .act (.openPool p d config) next) :
    hasBar p = false ∧ d ≠ "" ∧
      Follows c.world.profiles
        { profileName := p, dbName := d, connConfig := config.connConfig } := by
  have hread : (⟨.createPool p d, .ok (.toOpen config)⟩ : PoolEvent) ∈ t.past :=
    List.mem_of_getLast? (read_of_opening (Thread.action?_of_rest hrest))
  cases hentry : t.entry with
  | caller p' d' n =>
      have hpast := (allows_call hrest hentry).1
      exact (hI.calling t ht (isCalling_of_handOver hrest hpast) _ hread).toOpen _ rfl

section Act

variable {c : PoolState pm} {t : Thread (poolSystem pm)} {a : PoolAct}
variable {next : a.Resp → PoolProgram Unit} {r : a.Resp} {ch : PoolChoice} {w : PoolWorld}

theorem cached_act (hI : FollowInv c) (ht : t ∈ c.threads) (hrest : t.rest = .act a next)
    (hp : c.world.Performs pm ch a r w) {name : String} {managed : ManagedPool}
    (hlookup : w.pools.lookup name = some managed) :
    ∃ o, w.opened[managed.pool]? = some o ∧ name = poolKey o.profileName o.dbName ∧
      hasBar o.profileName = false ∧ o.dbName ≠ "" ∧ Follows c.world.profiles o := by
  have hopened := (PoolWorld.frame_of_performs hp).1
  rcases PoolWorld.lookup_of_performs hp hlookup with
    ⟨before, hbefore, hpool⟩ | ⟨p, d, config, rfl, hname, hget⟩
  · -- The pool was cached before, possibly with another time of use.
    rw [← hpool]
    exact cached_of_sameOpened hopened (hI.cached name before hbefore)
  · -- The step has opened the pool.
    rcases toOpen_of_opening hI ht hrest with ⟨hbar, hd, hfollows⟩
    exact ⟨_, hget, hname, hbar, hd, hfollows⟩

/-- The pool of a new event was opened for the names in the event. -/
theorem given_act (hI : FollowInv c) (ht : t ∈ c.threads) (hrest : t.rest = .act a next)
    (hp : c.world.Performs pm ch a r w) {p d : String} {pool : Nat} (hgives : Gives ⟨a, r⟩ p d pool) :
    ∃ o, w.opened[pool]? = some o ∧ normalizedName o.profileName = normalizedName p ∧
      o.dbName = d ∧ Follows c.world.profiles o := by
  rcases lookup_of_given hp hgives.2 with ⟨p', d', managed, hact, hlookup, rfl⟩
  -- The names in the event are those of the action.
  have hsame : p' = p ∧ d' = d := by
    rcases hact with rfl | rfl | ⟨config, rfl⟩ <;>
      rcases hgives.1 with h | h | ⟨config', h⟩ <;> cases h <;> exact ⟨rfl, rfl⟩
  rcases hsame with ⟨rfl, rfl⟩
  rcases cached_act hI ht hrest hp hlookup with ⟨o, ho, hkey, hbar, hd, hfollows⟩
  refine ⟨o, ho, ?_⟩
  cases hentry : t.entry with
  | caller p₀ d₀ n =>
      have hallows : t.past.any isHandOver = false ∧ p' = p₀ ∧ Wanted t.past p₀ d₀ d' := by
        have hallowed := allows_call hrest hentry
        rcases hact with rfl | rfl | ⟨config, rfl⟩ <;> exact hallowed
      rcases hallows with ⟨hpast, rfl, hwanted⟩
      rcases poolKey_inj (hI.names t ht _ _ _ hentry) hbar hkey with ⟨hname, hdb⟩
      refine ⟨hname.symm, ?_, hfollows⟩
      by_cases hempty : d' = ""
      · -- The call has found no profile, but the cached pool follows one of that name.
        subst hempty
        have hcalling := isCalling_of_handOver hrest hpast
        rcases missing_of_wanted_empty hI ht hcalling hwanted with ⟨hp, hnone⟩
        have hsame : o.profileName = p' := eq_of_normalizedName hp hname.symm
        rcases hfollows with hdefault | ⟨profile, hfound, _⟩
        · rw [hsame, hp] at hdefault
          cases hdefault
        · rw [hsame, hnone] at hfound
          cases hfound
      · -- Both databases are named, so the keys tell them apart.
        unfold normalizedDatabase at hdb
        rw [if_neg hempty, if_neg hd] at hdb
        exact hdb.symm

/-- What the new event has read of the settings, it has read just now. -/
theorem stillHolds_act (hI : FollowInv c) (ht : t ∈ c.threads) (hrest : t.rest = .act a next)
    (hp : c.world.Performs pm ch a r w) : StillHolds w ⟨a, r⟩ := by
  have hprofiles := (PoolWorld.frame_of_performs hp).2
  refine ⟨?_, ?_, ?_⟩
  · intro p read hread
    cases hread
    cases hp
    rfl
  · intro pool hpool
    rcases lookup_of_given hp hpool with ⟨p, d, _, hact, _, _⟩
    rcases given_act hI ht hrest hp ⟨hact, hpool⟩ with ⟨o, ho, _, _, hfollows⟩
    rw [hprofiles]
    exact ⟨o, ho, hfollows⟩
  · intro o ho
    rw [hprofiles]
    cases hp with
    | createPool _ hc =>
        cases hc with
        | toOpen _ hconfig =>
            cases ho
            exact toOpen_of_created hI ht hrest hconfig
        | _ => cases ho
    | _ => cases ho

end Act

theorem isCalling_of_advance {t : Thread (poolSystem pm)} {a : PoolAct}
    {next : a.Resp → PoolProgram Unit} {r : a.Resp} (hrest : t.rest = .act a next)
    (h : isCalling (t.advance hrest r) = true) : isCalling t = true := by
  refine isCalling_of_handOver hrest ?_
  simp only [isCalling, Thread.advance_past, List.any_append, Bool.and_eq_true,
    Bool.not_eq_true', Bool.or_eq_false_iff] at h
  exact h.2.1

theorem followInv_act {c : PoolState pm} (hI : FollowInv c) {i : Nat} {ch : PoolChoice}
    {t : Thread (poolSystem pm)} {a : PoolAct} {next : a.Resp → PoolProgram Unit} {r : a.Resp}
    {w : PoolWorld} (ht : c.threads[i]? = some t) (hrest : t.rest = .act a next)
    (hp : c.world.Performs pm ch a r w) :
    FollowInv (c.resume w i (t.advance hrest r) none) := by
  have hmem := List.mem_of_getElem? ht
  rcases PoolWorld.frame_of_performs hp with ⟨hopened, hprofiles⟩
  -- The threads afterwards are the one that moved and the others.
  have hcases : ∀ u ∈ (c.resume w i (t.advance hrest r) none).threads,
      u = t.advance hrest r ∨ u ∈ c.threads := by
    intro u hu
    rcases List.mem_iff_getElem?.1 hu with ⟨j, hj⟩
    rcases Config.getElem?_resume hj with ⟨_, rfl⟩ | ⟨_, hold⟩ | ⟨_, e, he, _⟩
    · exact Or.inl rfl
    · exact Or.inr (List.mem_of_getElem? hold)
    · cases he
  refine ⟨hI.cache.of_performs hp, ?_, ?_, ?_, ?_, ?_⟩
  · rw [Config.resume_world, hprofiles]
    exact hI.sound
  · intro u hu p d n hentry
    rcases hcases u hu with rfl | hold
    · exact hI.names t hmem p d n hentry
    · exact hI.names u hold p d n hentry
  · intro name managed hlookup
    rw [Config.resume_world, hprofiles]
    exact cached_act hI hmem hrest hp hlookup
  · intro u hu hcall e he
    rcases hcases u hu with rfl | hold
    · rcases List.mem_append.1 he with hbefore | hnew
      · exact (hI.calling t hmem (isCalling_of_advance hrest hcall) e hbefore).of_sameOpened
          hopened hprofiles
      · have heq := List.mem_singleton.1 hnew
        subst heq
        exact stillHolds_act hI hmem hrest hp
    · exact (hI.calling u hold hcall e he).of_sameOpened hopened hprofiles
  · intro u hu e he p d pool hgives
    rcases hcases u hu with rfl | hold
    · rcases List.mem_append.1 he with hbefore | hnew
      · exact hI.given_of_sameOpened hopened hmem hbefore hgives
      · have heq := List.mem_singleton.1 hnew
        subst heq
        rcases given_act hI hmem hrest hp hgives with ⟨o, ho, hname, hdb, _⟩
        exact ⟨o, ho, hname, hdb⟩
    · exact hI.given_of_sameOpened hopened hold he hgives

theorem follows_of_profileKept {c : PoolState pm} {profiles : List ConnectionProfile}
    {o : OpenedPool} (hfollows : Follows c.world.profiles o)
    (hkept : profileKept c profiles o = true) : Follows profiles o := by
  refine follows_of_sameConnection hfollows ?_
  simpa [profileKept] using hkept

theorem follows_of_poolKept {c : PoolState pm} {profiles : List ConnectionProfile} {pool : Nat}
    {o : OpenedPool} (ho : c.world.opened[pool]? = some o) (hfollows : Follows c.world.profiles o)
    (hkept : poolKept c profiles pool = true) : Follows profiles o := by
  unfold poolKept at hkept
  rw [ho] at hkept
  exact follows_of_profileKept hfollows hkept

/-- An update that keeps what cached pools and running calls rest on. -/
theorem followInv_update {c : PoolState pm} (hI : FollowInv c) {given : List ConnectionProfile}
    (hok : followsStep c (.env (.updateSettings given)) = true) :
    FollowInv ({ c with
      world := { c.world with profiles := pm.env.applyConnectionDefaults given } } :
        PoolState pm) := by
  simp only [followsStep, settingsKept, Bool.and_eq_true] at hok
  rcases hok with ⟨hread, hcached, hcalls⟩
  have hstep : c.world.envStep pm (.updateSettings given) =
      some { c.world with profiles := pm.env.applyConnectionDefaults given } := rfl
  refine ⟨hI.cache.envStep hstep, sound_of_defaults hread, hI.names, ?_, ?_, hI.given⟩
  · -- The update has been checked against every cached pool ...
    intro name managed hlookup
    rcases hI.cached name managed hlookup with ⟨o, ho, hname, hbar, hd, hfollows⟩
    have hentry : (⟨name, managed⟩ : Sigma fun _ : String => ManagedPool) ∈
        c.world.pools.entries := AList.mem_lookup_iff.1 hlookup
    have hkept := List.all_eq_true.1 hcached _ hentry
    exact ⟨o, ho, hname, hbar, hd, follows_of_poolKept ho hfollows hkept⟩
  · -- ... and against what every running call has read so far.
    intro t ht hcall e he
    have hevents := List.all_eq_true.1 hcalls t ht
    rw [hcall, Bool.not_true, Bool.false_or] at hevents
    have hevent := List.all_eq_true.1 hevents e he
    simp only [eventKept, Bool.and_eq_true] at hevent
    rcases hevent with ⟨⟨hpools, hopening⟩, hdatabase⟩
    have hholds := hI.calling t ht hcall e he
    refine ⟨?_, ?_, ?_⟩
    · rintro p r rfl
      rw [hholds.read p r rfl]
      exact (of_decide_eq_true hdatabase).symm
    · intro pool hpool
      rcases hholds.given pool hpool with ⟨o, ho, hfollows⟩
      rw [hpool] at hpools
      exact ⟨o, ho, follows_of_poolKept ho hfollows hpools⟩
    · intro o ho
      rcases hholds.toOpen o ho with ⟨hbar, hd, hfollows⟩
      rw [ho] at hopening
      exact ⟨hbar, hd, follows_of_profileKept hfollows hopening⟩

theorem followInv_sweep {c : PoolState pm} (hI : FollowInv c) (now : Time) :
    FollowInv ({ c with world := c.world.sweepIdlePools now } : PoolState pm) := by
  rcases PoolWorld.sweepIdlePools_frame c.world now with ⟨hlookup, hopened, hprofiles⟩
  refine ⟨hI.cache.sweepIdlePools now, ?_, hI.names, ?_, ?_, ?_⟩
  · rw [hprofiles]
    exact hI.sound
  · intro name managed hafter
    rw [hprofiles]
    exact cached_of_sameOpened hopened (hI.cached name managed (hlookup name managed hafter))
  · intro t ht hcall e he
    exact (hI.calling t ht hcall e he).of_sameOpened hopened hprofiles
  · intro t ht e he p d pool hgives
    exact hI.given_of_sameOpened hopened ht he hgives

theorem followInv_arrive {c : PoolState pm} (hI : FollowInv c) {e : PoolEntry}
    (hok : followsStep c (.arrive e) = true) : FollowInv (c.spawn e) := by
  have hcases : ∀ u ∈ (c.spawn e).threads,
      u ∈ c.threads ∨ u = Thread.start (poolSystem pm) e := by
    intro u hu
    rcases List.mem_append.1 hu with hold | hnew
    · exact Or.inl hold
    · exact Or.inr (List.mem_singleton.1 hnew)
  refine ⟨hI.cache, hI.sound, ?_, hI.cached, ?_, ?_⟩
  · intro u hu p d n hentry
    rcases hcases u hu with hold | rfl
    · exact hI.names u hold p d n hentry
    · rw [Thread.start_entry] at hentry
      subst hentry
      simpa [followsStep] using hok
  · intro u hu hcall ev hev
    rcases hcases u hu with hold | rfl
    · exact hI.calling u hold hcall ev hev
    · simp at hev
  · intro u hu ev hev p d pool hgives
    rcases hcases u hu with hold | rfl
    · exact hI.given u hold ev hev p d pool hgives
    · simp at hev

theorem followInv_step {c c' : PoolState pm} {l : PoolLabel} (hI : FollowInv c)
    (hok : followsStep c l = true) (hstep : c.step l = some c') : FollowInv c' := by
  cases Config.moves_of_step hstep with
  | arrive _ => exact followInv_arrive hI hok
  | @env x w hw =>
      cases x with
      | sweepIdlePools now =>
          rcases PoolWorld.whenFree_eq_some.1 hw with ⟨_, rfl⟩
          exact followInv_sweep hI now
      | updateSettings given =>
          cases hw
          exact followInv_update hI hok
  | act ht hrest hexec => exact followInv_act hI ht hrest (PoolWorld.performs_of_exec hexec)

theorem followInv_initial {profiles : List ConnectionProfile} (hsound : Sound pm profiles) :
    FollowInv (Config.initial (poolSystem pm) { profiles := profiles }) := by
  refine ⟨PoolWorld.cacheInv_empty profiles, hsound, ?_, ?_, ?_, ?_⟩
  · intro t ht
    simp at ht
  · intro name managed hlookup
    simp at hlookup
  · intro t ht
    simp at ht
  · intro t ht
    simp at ht

/-- In every run whose updates keep the profiles in use, and whose requests name profiles without a
bar, pools follow the profiles they are handed out for and are not shared between them. -/
theorem pools_follow_profiles (pm : PoolManager D) (given : List ConnectionProfile)
    (hread : (pm.env.applyConnectionDefaults given).all (readsBack pm) = true) (c : PoolState pm)
    (hrun : Within Config.step (fun c l => followsStep c l = true)
      (Config.initial (poolSystem pm) { profiles := pm.env.applyConnectionDefaults given }) c) :
    FollowsProfiles c := by
  have hinit := followInv_initial (sound_of_defaults hread)
  exact (hrun.invariant (fun _ _ _ hI hok hstep => followInv_step hI hok hstep)
    hinit).followsProfiles

end

/-! ## Concrete runs -/

/-- A profile that points at `host`. -/
def replicaAt (host : String) : ConnectionProfile where
  name := "replica"
  host := host
  port := 5432
  database := "app"
  enabled := true

/-- A driver that knows the connection texts of two hosts. -/
def replicaDriver : Driver where
  parseConfig := fun text =>
    .ok
      { connString := text
        connConfig :=
          { host := if text.toList.take 8 = "host=db1".toList then "db1" else "db2"
            port := 5432, user := "postgres", password := "secret"
            database := "app", sslMode := "disable" }
        maxConns := 4, minConns := 0, minIdleConns := 0
        healthCheckPeriod := 60000000000, maxConnIdleTime := 1800000000000 }
  connString_eq := by
    intro text config h
    cases h
    rfl

def replicaText : String :=
  "host=db2 port=5432 user=postgres password=secret dbname=app sslmode=disable"

def replicaManager : PoolManager replicaDriver where
  baseConfig :=
    { connString := replicaText
      connConfig :=
        { host := "db2", port := 5432, user := "postgres", password := "secret"
          database := "app", sslMode := "disable" }
      maxConns := 5, minConns := 1, minIdleConns := 0
      healthCheckPeriod := 60000000000, maxConnIdleTime := 1800000000000 }
  base_parsed := by
    refine ⟨_, rfl, ?_⟩
    decide +kernel
  env := { postgresqlPassword := "secret" }

def replicaState : PoolState replicaManager :=
  Config.initial (poolSystem replicaManager)
    { profiles := replicaManager.env.applyConnectionDefaults [replicaAt "db1"] }

def replicaCaller : PoolEntry :=
  .caller "replica" "" 0

/-- The first request opens a pool, and the second one is about to get it. -/
def servedTwice (opening between : List PoolLabel) : List PoolLabel :=
  .arrive replicaCaller :: List.replicate 3 (poolStep 0 0) ++ opening ++
    List.replicate 2 (poolStep 0 0) ++ between ++
      .arrive replicaCaller :: List.replicate 3 (poolStep 1 1)

def setReplica (host : String) : List PoolLabel :=
  [.env (.updateSettings [replicaAt host])]

/-- Between the two requests the profile is moved to another host. -/
def movedBetween : List PoolLabel :=
  servedTwice [] (setReplica "db2")

/-- Some thread is about to hand out a pool that goes to `host`. -/
def handsOut (c : PoolState replicaManager) (host : String) : Bool :=
  c.threads.any fun t =>
    match t.action? with
    | some (.handOver (.managed pool)) =>
        decide (t.entry = replicaCaller) &&
          (c.world.opened[pool]?).any fun o => decide (o.connConfig.host = host)
    | _ => false

/-- Settings are saved that keep the profile, while its pool is opened and after that. -/
def keptTwice : List PoolLabel :=
  servedTwice (setReplica "db1") (setReplica "db1")

theorem pools_follow_profiles_servedTwice :
    ∃ c : PoolState replicaManager, handsOut c "db1" = true ∧ FollowsProfiles c := by
  have hread : (replicaManager.env.applyConnectionDefaults [replicaAt "db1"]).all
      (readsBack replicaManager) = true := by decide +kernel
  have hmeets : runMeets Config.step followsStep replicaState keptTwice = true := by
    decide +kernel
  have hend : (Transition.run Config.step replicaState keptTwice).any
      (fun c => handsOut c "db1") = true := by decide +kernel
  rcases exists_within_of_run hmeets hend with ⟨c, hrun, hout⟩
  exact ⟨c, hout, pools_follow_profiles replicaManager [replicaAt "db1"] hread c hrun⟩

/-- A profile must not move either while a pool is opened with what has been read of it. -/
example : runMeets Config.step followsStep replicaState (servedTwice (setReplica "db2") []) =
    false := by
  decide +kernel

theorem stale_pool :
    ¬ ∀ c : PoolState replicaManager, Reach Config.step replicaState c → FollowsProfiles c := by
  intro hall
  have hend : (Transition.run Config.step replicaState movedBetween).any
      (fun c => handsOut c "db1" &&
        decide (lookupProfile c.world.profiles "replica" =
          some (replicaManager.env.applyDefaults (replicaAt "db2")))) = true := by
    decide +kernel
  rcases exists_reach_of_run hend with ⟨c, hreach, htest⟩
  rw [Bool.and_eq_true] at htest
  -- The thread is about to hand out a pool on db1, although its profile points at db2.
  rcases List.any_eq_true.1 htest.1 with ⟨t, ht, hout⟩
  split at hout
  · rename_i pool haction
    rw [Bool.and_eq_true] at hout
    have hentry : t.entry = .caller "replica" "" 0 := of_decide_eq_true hout.1
    rcases ((hall c hreach).handed_out t ht "replica" "" 0 _ hentry (by decide) haction).connected
      with ⟨pool', o, profile, href, ho, hlookup, hconnects, _⟩
    cases href
    have hhost : o.connConfig.host = "db1" := by
      rw [ho] at hout
      exact of_decide_eq_true hout.2
    rw [of_decide_eq_true htest.2] at hlookup
    cases hlookup
    have hmoved := hconnects.host
    rw [hhost] at hmoved
    exact absurd hmoved (by decide)
  · cases hout

end Service
end Pgaio
