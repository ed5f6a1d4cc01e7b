import Pgaio.Go.Time
import Pgaio.Service.ConfigStore

/-!
# PoolManager — which connection a profile and a database name stand for

`service/pool_manager.go` without its cache: the configuration of a new pool and the connection
string for command-line tools are both made from `resolveProfileConfig`.  Both set the requested
database on the configuration.  A pool is opened from the fields of the configuration, but the
connection string is the text that the configuration was parsed from, so `connString_agrees_iff`:
the two agree exactly when that text names the requested database already.
-/

namespace Pgaio
namespace Service

open Go

/-- The fields of `pgx.ConnConfig` that say where a connection goes. -/
structure ConnConfig where
  host : String
  port : Int
  user : String
  password : String
  database : String
  sslMode : String
  deriving DecidableEq, Repr

/-- `pgxpool.Config`. -/
structure PoolConfig where
  /-- What `ConnString` returns. -/
  connString : String
  connConfig : ConnConfig
  maxConns : Int
  minConns : Int
  minIdleConns : Int
  healthCheckPeriod : Duration
  maxConnIdleTime : Duration
  deriving DecidableEq, Repr

/-- `pgxpool.ParseConfig`; a parsed configuration remembers its text. -/
structure Driver where
  parseConfig : String → Except String PoolConfig
  connString_eq : ∀ {text config}, parseConfig text = .ok config → config.connString = text

/-- The part of `PoolManager` that never changes.  The default pool was opened with a parsed
configuration of which only pool sizes were changed afterwards. -/
structure PoolManager (D : Driver) where
  baseConfig : PoolConfig
  base_parsed : ∃ read, D.parseConfig baseConfig.connString = .ok read ∧
    read.connConfig = baseConfig.connConfig
  env : ConnEnv := {}

/-- Both names of the default profile. -/
def isDefaultProfile (profileName : String) : Bool :=
  profileName = "" || profileName = "direct-postgres"

def lookupProfile (profiles : List ConnectionProfile) (profileName : String) :
    Option ConnectionProfile :=
  profiles.find? fun profile => profile.name = profileName

def profileDatabase (profiles : List ConnectionProfile) (profileName : String) : String :=
  match lookupProfile profiles profileName with
  | none => ""
  | some profile => profile.database

def poolKey (profileName dbName : String) : String :=
  (if profileName = "" then "direct-postgres" else profileName) ++ "|" ++
    (if dbName = "" then "(default)" else dbName)

namespace PoolManager

variable {D : Driver} (pm : PoolManager D)

/-- The text that `resolveProfileConfig` parses. -/
def profileText (profile : ConnectionProfile) : String :=
  "host=" ++ profile.host ++ " port=" ++ itoa profile.port ++
    " user=" ++ getEnv pm.env.postgresqlUsername "postgres" ++
    " password=" ++ getEnv pm.env.postgresqlPassword "" ++
    " dbname=" ++ profile.database ++ " sslmode=" ++ profile.sslMode

def resolveProfileConfig (profiles : List ConnectionProfile) (profileName : String) :
    Except String PoolConfig :=
  if isDefaultProfile profileName then .ok pm.baseConfig
  else
    match lookupProfile profiles profileName with
    | none => .error ("connection profile not found: " ++ profileName)
    | some profile =>
        if profile.enabled = false then
          .error ("connection profile disabled: " ++ profileName)
        else
          match D.parseConfig (pm.profileText profile) with
          | .error err =>
              .error ("failed to parse connection profile " ++ profileName ++ ": " ++ err)
          | .ok config => .ok config

/-- `if dbName != "" { config.ConnConfig.Database = dbName }`. -/
def setDatabase (config : PoolConfig) (dbName : String) : PoolConfig :=
  if dbName ≠ "" then
    { config with connConfig := { config.connConfig with database := dbName } }
  else config

/-- The configuration with which `GetPoolForProfile` opens a pool. -/
def newPoolConfig (profiles : List ConnectionProfile) (profileName dbName : String) :
    Except String PoolConfig :=
  match pm.resolveProfileConfig profiles profileName with
  | .error err => .error err
  | .ok config =>
      .ok { setDatabase config dbName with
        maxConns := 3
        minConns := 0
        minIdleConns := 0
        healthCheckPeriod := 30 * nanosecondsPerSecond
        maxConnIdleTime := Duration.times 5 Duration.minute }

/-- The first lines of `GetPoolForProfile`: is the default pool the one that is asked for? -/
def wantsDefaultPool (currentDB profileName dbName : String) : Bool :=
  isDefaultProfile profileName && (dbName = "" || dbName = currentDB)

/-- The database that the rest of `GetPoolForProfile` works with. -/
def wantedDatabase (profiles : List ConnectionProfile) (profileName dbName : String) : String :=
  if isDefaultProfile profileName = false ∧ dbName = "" then profileDatabase profiles profileName
  else dbName

/-- The configuration behind the pool that `GetPoolForProfile` returns when nothing is cached. -/
def poolConfigFor (profiles : List ConnectionProfile) (currentDB profileName dbName : String) :
    Except String PoolConfig :=
  if wantsDefaultPool currentDB profileName dbName then .ok pm.baseConfig
  else pm.newPoolConfig profiles profileName (wantedDatabase profiles profileName dbName)

/-! ## Connection strings -/

def defaultConnString : String :=
  pm.baseConfig.connString

def connStringForProfile (profiles : List ConnectionProfile) (profileName dbName : String) :
    String :=
  match pm.resolveProfileConfig profiles profileName with
  | .error _ => ""
  | .ok config => (setDatabase config dbName).connString

def connStringForDB (profiles : List ConnectionProfile) (dbName : String) : String :=
  pm.connStringForProfile profiles "" dbName

end PoolManager

/-- Two connections go to the same database. -/
structure SameTarget (c c' : ConnConfig) : Prop where
  host : c.host = c'.host
  port : c.port = c'.port
  database : c.database = c'.database

/-! ## What is parsed and what is set -/

namespace PoolManager

variable {D : Driver} {pm : PoolManager D} {profiles : List ConnectionProfile}
variable {currentDB profileName dbName : String}

@[simp] theorem setDatabase_connString (config : PoolConfig) :
    (setDatabase config dbName).connString = config.connString := by
  unfold setDatabase
  split <;> rfl

@[simp] theorem setDatabase_host (config : PoolConfig) :
    (setDatabase config dbName).connConfig.host = config.connConfig.host := by
  unfold setDatabase
  split <;> rfl

@[simp] theorem setDatabase_port (config : PoolConfig) :
    (setDatabase config dbName).connConfig.port = config.connConfig.port := by
  unfold setDatabase
  split <;> rfl

@[simp] theorem setDatabase_sslMode (config : PoolConfig) :
    (setDatabase config dbName).connConfig.sslMode = config.connConfig.sslMode := by
  unfold setDatabase
  split <;> rfl

theorem setDatabase_database (config : PoolConfig) (dbName : String) :
    (setDatabase config dbName).connConfig.database =
      if dbName = "" then config.connConfig.database else dbName := by
  unfold setDatabase
  by_cases h : dbName = "" <;> simp [h]

theorem resolve_default (h : isDefaultProfile profileName = true) :
    pm.resolveProfileConfig profiles profileName = .ok pm.baseConfig := by
  simp [resolveProfileConfig, h]

/-- A named profile is resolved from its connection text. -/
theorem profile_of_resolve {config : PoolConfig} (hname : isDefaultProfile profileName = false)
    (h : pm.resolveProfileConfig profiles profileName = .ok config) :
    ∃ profile, lookupProfile profiles profileName = some profile ∧ profile.enabled = true ∧
      D.parseConfig (pm.profileText profile) = .ok config := by
  unfold resolveProfileConfig at h
  rw [if_neg (by simp [hname])] at h
  cases hlookup : lookupProfile profiles profileName with
  | none => simp [hlookup] at h
  | some profile =>
      simp only [hlookup] at h
      split at h
      · cases h
      · rename_i henabled
        cases hparse : D.parseConfig (pm.profileText profile) with
        | error err => simp [hparse] at h
        | ok read =>
            simp only [hparse, Except.ok.injEq] at h
            subst h
            exact ⟨profile, rfl, by simpa using henabled, hparse⟩

/-- Whatever is resolved was read from its own text. -/
theorem parse_of_resolve {config : PoolConfig}
    (h : pm.resolveProfileConfig profiles profileName = .ok config) :
    ∃ read, D.parseConfig config.connString = .ok read ∧ read.connConfig = config.connConfig := by
  by_cases hname : isDefaultProfile profileName = true
  · rw [resolve_default hname] at h
    cases h
    exact pm.base_parsed
  · rcases profile_of_resolve (by simpa using hname) h with ⟨profile, _, _, hparse⟩
    refine ⟨config, ?_, rfl⟩
    rw [D.connString_eq hparse]
    exact hparse

/-- The connection string is the text that the profile's configuration was read from. -/
theorem connStringForProfile_eq {config : PoolConfig}
    (h : pm.resolveProfileConfig profiles profileName = .ok config) :
    pm.connStringForProfile profiles profileName dbName = config.connString := by
  simp [connStringForProfile, h]

/-- Reading the connection string back gives the configuration before the database was set. -/
theorem parse_of_connString {config read : PoolConfig}
    (hres : pm.resolveProfileConfig profiles profileName = .ok config)
    (hread : D.parseConfig (pm.connStringForProfile profiles profileName dbName) = .ok read) :
    read.connConfig = config.connConfig := by
  rcases parse_of_resolve hres with ⟨read', hparse, hconn⟩
  rw [connStringForProfile_eq hres, hparse] at hread
  have hsame : read' = read := Except.ok.inj hread
  rw [← hsame]
  exact hconn

theorem resolve_of_newPoolConfig {pool : PoolConfig}
    (h : pm.newPoolConfig profiles profileName dbName = .ok pool) :
    ∃ config, pm.resolveProfileConfig profiles profileName = .ok config ∧
      pool.connConfig = (setDatabase config dbName).connConfig := by
  unfold newPoolConfig at h
  cases hres : pm.resolveProfileConfig profiles profileName with
  | error err => simp [hres] at h
  | ok config =>
      simp only [hres, Except.ok.injEq] at h
      subst h
      exact ⟨config, rfl, rfl⟩

/-! ## Agreement -/

/-- The connection text of the profile already names the database that is asked for. -/
def textNamesDatabase (pm : PoolManager D) (profiles : List ConnectionProfile)
    (currentDB profileName dbName : String) : Prop :=
  wantsDefaultPool currentDB profileName dbName = true ∨
    wantedDatabase profiles profileName dbName = "" ∨
    ∃ config, pm.resolveProfileConfig profiles profileName = .ok config ∧
      config.connConfig.database = wantedDatabase profiles profileName dbName

/-- A command-line tool that is given `ConnStringForProfile` goes where the pool goes. -/
def Agrees (pm : PoolManager D) (profiles : List ConnectionProfile)
    (currentDB profileName dbName : String) : Prop :=
  ∀ pool read, pm.poolConfigFor profiles currentDB profileName dbName = .ok pool →
    D.parseConfig (pm.connStringForProfile profiles profileName dbName) = .ok read →
      SameTarget read.connConfig pool.connConfig

/-- For every profile and database for which both succeed. -/
theorem connString_agrees_iff (pm : PoolManager D) (profiles : List ConnectionProfile)
    (currentDB profileName dbName : String) {pool read : PoolConfig}
    (hpool : pm.poolConfigFor profiles currentDB profileName dbName = .ok pool)
    (hread : D.parseConfig (pm.connStringForProfile profiles profileName dbName) = .ok read) :
    Agrees pm profiles currentDB profileName dbName ↔
      textNamesDatabase pm profiles currentDB profileName dbName := by
  by_cases hdefault : wantsDefaultPool currentDB profileName dbName = true
  · -- The default pool itself: its own text is printed.
    refine ⟨fun _ => Or.inl hdefault, fun _ pool' read' hpool' hread' => ?_⟩
    have hname : isDefaultProfile profileName = true := by
      simp only [wantsDefaultPool, Bool.and_eq_true] at hdefault
      exact hdefault.1
    have hpool'' : pool' = pm.baseConfig := by
      simpa [poolConfigFor, hdefault] using hpool'.symm
    have hconn : read'.connConfig = pm.baseConfig.connConfig :=
      parse_of_connString (resolve_default hname) hread'
    rw [hpool'', hconn]
    exact ⟨rfl, rfl, rfl⟩
  · have hnew : pm.newPoolConfig profiles profileName
        (wantedDatabase profiles profileName dbName) = .ok pool := by
      simpa [poolConfigFor, hdefault] using hpool
    rcases resolve_of_newPoolConfig hnew with ⟨config, hres, hconn⟩
    have htext : read.connConfig = config.connConfig := parse_of_connString hres hread
    have hset := setDatabase_database config (wantedDatabase profiles profileName dbName)
    constructor
    · intro hagrees
      have hdatabase := (hagrees pool read hpool hread).database
      rw [htext, hconn, hset] at hdatabase
      -- The database is set on the configuration only, so the text must have named it before.
      by_cases hempty : wantedDatabase profiles profileName dbName = ""
      · exact Or.inr (Or.inl hempty)
      · rw [if_neg hempty] at hdatabase
        exact Or.inr (Or.inr ⟨config, hres, hdatabase⟩)
    · intro hnames pool' read' hpool' hread'
      have hpool'' : pool' = pool := Except.ok.inj (hpool'.symm.trans hpool)
      have hread'' : read' = read := Except.ok.inj (hread'.symm.trans hread)
      subst hpool'' hread''
      refine ⟨by rw [htext, hconn, setDatabase_host], by rw [htext, hconn, setDatabase_port], ?_⟩
      rw [htext, hconn, hset]
      rcases hnames with hwants | hempty | ⟨config', hres', hdatabase⟩
      · exact absurd hwants hdefault
      · rw [if_pos hempty]
      · have hsame : config' = config := Except.ok.inj (hres'.symm.trans hres)
        subst hsame
        split
        · rfl
        · exact hdatabase

/-! ## A concrete manager -/

/-- A driver that knows the connection text of one deployment. -/
def exampleDriver : Driver where
  parseConfig := fun text =>
    .ok
      { connString := text
        connConfig :=
          { host := "/tmp", port := 5432, user := "postgres", password := "secret",
            database := "postgres", sslMode := "disable" }
        maxConns := 4, minConns := 0, minIdleConns := 0
        healthCheckPeriod := 60000000000, maxConnIdleTime := 1800000000000 }
  connString_eq := by
    intro text config h
    cases h
    rfl

def exampleText : String :=
  "host=/tmp port=5432 user=postgres password=secret dbname=postgres sslmode=disable"

def exampleBase : PoolConfig where
  connString := exampleText
  connConfig :=
    { host := "/tmp", port := 5432, user := "postgres", password := "secret",
      database := "postgres", sslMode := "disable" }
  maxConns := 5
  minConns := 1
  minIdleConns := 0
  healthCheckPeriod := 60000000000
  maxConnIdleTime := 1800000000000

def exampleManager : PoolManager exampleDriver where
  baseConfig := exampleBase
  base_parsed := ⟨_, rfl, rfl⟩

/-- The text names `postgres`, so it does not agree with a pool to `app`. -/
theorem connString_agrees_iff_otherDatabase : ¬ Agrees exampleManager [] "postgres" "" "app" := by
  rw [connString_agrees_iff exampleManager [] "postgres" "" "app" rfl rfl]
  rintro (hdefault | hempty | ⟨config, hconfig, hnamed⟩)
  · exact absurd hdefault (by decide)
  · exact absurd hempty (by decide)
  · cases hconfig
    exact absurd hnamed (by decide)

/-- The pool goes to the database `app`, and the connection string to `postgres`. -/
theorem connString_disagrees :
    ¬ ∀ (D : Driver) (pm : PoolManager D) (profiles : List ConnectionProfile)
        (currentDB profileName dbName : String),
      Agrees pm profiles currentDB profileName dbName := by
  intro hall
  have hsame := hall exampleDriver exampleManager [] "postgres" "" "app" _ _ rfl rfl
  exact absurd hsame.database (by decide)

end PoolManager

end Service
end Pgaio
