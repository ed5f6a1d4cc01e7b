import Pgaio.Go.Strings

/-!
# ConfigStore — the connection profiles of the current settings

`service/config_store.go`, as far as the pool manager reads it.  Every update of the settings passes
through `applyConnectionDefaults`, so the profiles in use are complete: each of them has a database
and an SSL mode, and every profile with a name is enabled.
-/

namespace Pgaio
namespace Service

open Go

structure ConnectionProfile where
  name : String
  label : String := ""
  type : String := ""
  host : String
  port : Int := 0
  database : String := ""
  sslMode : String := ""
  description : String := ""
  enabled : Bool := false
  deriving DecidableEq, Repr

/-- The environment variables behind connection settings; an unset variable is empty. -/
structure ConnEnv where
  pgHost : String := ""
  pgPort : String := ""
  postgresqlDatabase : String := ""
  postgresqlUsername : String := ""
  postgresqlPassword : String := ""
  pgbouncerAdminAddr : String := ""
  deriving Repr

/-- `getConfigEnv` and `getConnEnv`, given the value of the variable. -/
def getEnv (value default : String) : String :=
  if value ≠ "" then value else default

def getConfigEnvInt (value : String) (default : Int) : Int :=
  let v := trimSpace value
  if v = "" then default else (strconvAtoi v).getD default

def splitHostPort (addr defHost : String) (defPort : Int) : String × Int :=
  let addr := trimSpace addr
  if addr = "" then (defHost, defPort)
  else
    match addr.toList.splitOn ':' with
    | [host, port] => (String.ofList host, (strconvAtoi (String.ofList port)).getD defPort)
    | _ => (addr, defPort)

namespace ConnEnv

variable (env : ConnEnv)

def database : String :=
  getEnv env.postgresqlDatabase "postgres"

/-- The first default profile. -/
def directPostgres : ConnectionProfile where
  name := "direct-postgres"
  label := "direct postgres"
  type := "postgres"
  host := getEnv env.pgHost "/tmp"
  port := getConfigEnvInt env.pgPort 5432
  database := env.database
  sslMode := "disable"
  description := "Direct PostgreSQL connection using the primary server endpoint."
  enabled := true

/-- The second default profile. -/
def pgbouncerTransaction : ConnectionProfile :=
  let address := splitHostPort (getEnv env.pgbouncerAdminAddr "127.0.0.1:6432") "127.0.0.1" 6432
  { name := "pgbouncer-transaction"
    label := "pgbouncer"
    type := "pgbouncer"
    host := address.1
    port := address.2
    database := env.database
    sslMode := "disable"
    description := "Transaction-pooled PgBouncer route for lightweight app traffic."
    enabled := true }

def defaultConnections : List ConnectionProfile :=
  [env.directPostgres, env.pgbouncerTransaction]

/-- One round of the loop over the profiles. -/
def applyDefaults (profile : ConnectionProfile) : ConnectionProfile :=
  { profile with
    label := if profile.label = "" then profile.name else profile.label
    type := if profile.type = "" then "postgres" else profile.type
    port := if profile.port = 0 then env.directPostgres.port else profile.port
    database := if profile.database = "" then env.directPostgres.database else profile.database
    sslMode := if profile.sslMode = "" then "disable" else profile.sslMode
    enabled := if profile.enabled then true else profile.name != "" }

def applyConnectionDefaults (profiles : List ConnectionProfile) : List ConnectionProfile :=
  (if profiles = [] then env.defaultConnections else profiles).map env.applyDefaults

end ConnEnv

/-! ## What the defaults guarantee -/

theorem getEnv_ne_empty {value default : String} (h : default ≠ "") : getEnv value default ≠ "" := by
  unfold getEnv
  split
  · assumption
  · exact h

/-- The profiles in use are complete. -/
theorem complete_of_mem {env : ConnEnv} {profiles : List ConnectionProfile}
    {profile : ConnectionProfile} (h : profile ∈ env.applyConnectionDefaults profiles) :
    profile.database ≠ "" ∧ profile.sslMode ≠ "" ∧ (profile.name ≠ "" → profile.enabled = true) := by
  rcases List.mem_map.1 h with ⟨given, _, rfl⟩
  refine ⟨?_, ?_, ?_⟩
  · have hdefault : env.directPostgres.database ≠ "" := getEnv_ne_empty (by decide)
    simp only [ConnEnv.applyDefaults]
    split
    · exact hdefault
    · assumption
  · simp only [ConnEnv.applyDefaults]
    split
    · decide
    · assumption
  · intro hname
    simpa [ConnEnv.applyDefaults] using Or.inr hname

/-- A complete profile is left as it is: applying the defaults twice changes nothing. -/
theorem applyDefaults_idem (env : ConnEnv) (profile : ConnectionProfile) :
    env.applyDefaults (env.applyDefaults profile) = env.applyDefaults profile := by
  have hdefault : env.directPostgres.database ≠ "" := getEnv_ne_empty (by decide)
  simp only [ConnEnv.applyDefaults, ConnectionProfile.mk.injEq]
  grind

theorem applyConnectionDefaults_idem (env : ConnEnv) (profiles : List ConnectionProfile) :
    env.applyConnectionDefaults (env.applyConnectionDefaults profiles) =
      env.applyConnectionDefaults profiles := by
  have hsome : env.applyConnectionDefaults profiles ≠ [] := by
    unfold ConnEnv.applyConnectionDefaults
    by_cases h : profiles = []
    · simp [h, ConnEnv.defaultConnections]
    · simp [h]
  calc env.applyConnectionDefaults (env.applyConnectionDefaults profiles)
      = (env.applyConnectionDefaults profiles).map env.applyDefaults := by
        rw [ConnEnv.applyConnectionDefaults, if_neg hsome]
    _ = env.applyConnectionDefaults profiles := by
        unfold ConnEnv.applyConnectionDefaults
        rw [List.map_map]
        apply List.map_congr_left
        intro profile _
        exact applyDefaults_idem env profile

end Service
end Pgaio
