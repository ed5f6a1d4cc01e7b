import Pgaio.Go.JSON
import Pgaio.Service.Alerter
import Pgaio.Service.ConfigStore

/-!
# AppConfig — the settings and the file that keeps them

`service/config_store.go`.  The settings live in memory and in one JSON file.  `update` replaces those
in memory, completes them and then writes the file; `newConfigStore` reads the file over the default
settings and completes what it has read.

Both read and write a document (`Go.JSON`).  A file that cannot be read or is no JSON text is
represented by the error that says so.
-/

namespace Pgaio
namespace Service

open Go

structure BackupConfig where
  enabled : Bool := false
  /-- Deprecated: retained for existing config files. -/
  intervalHours : Int := 0
  incrementalIntervalHours : Int := 0
  fullWeekday : Int := 0
  fullHour : Int := 0
  retainCount : Int := 0
  verifyEnabled : Bool := false
  deriving DecidableEq, Repr

/-- A slice or map that is nil is `none`. -/
structure ConnectionSettings where
  profiles : Option (List ConnectionProfile) := none
  featureRoutes : Option (StringMap String) := none
  deriving DecidableEq

structure AppConfig where
  backup : BackupConfig := {}
  alerts : AlertConfig := {}
  connections : ConnectionSettings := {}
  deriving DecidableEq

/-! ## Documents -/

def backupCodec : Codec BackupConfig :=
  .struct "service" "BackupConfig" {}
    [.of "enabled" .bool (·.enabled) fun s v => { s with enabled := v },
     .of "intervalHours" .int (·.intervalHours) fun s v => { s with intervalHours := v },
     .of "incrementalIntervalHours" .int (·.incrementalIntervalHours) fun s v =>
       { s with incrementalIntervalHours := v },
     .of "fullWeekday" .int (·.fullWeekday) fun s v => { s with fullWeekday := v },
     .of "fullHour" .int (·.fullHour) fun s v => { s with fullHour := v },
     .of "retainCount" .int (·.retainCount) fun s v => { s with retainCount := v },
     .of "verifyEnabled" .bool (·.verifyEnabled) fun s v => { s with verifyEnabled := v }]

def telegramCodec : Codec TelegramConfig :=
  .struct "service" "TelegramConfig" {}
    [.of "botToken" .string (·.botToken) fun s v => { s with botToken := v },
     .of "chatId" .string (·.chatID) fun s v => { s with chatID := v }]

def thresholdsCodec : Codec AlertThresholds :=
  .struct "service" "AlertThresholds" {}
    [.of "diskUsagePct" .int (·.diskUsagePct) fun s v => { s with diskUsagePct := v },
     .of "connectionsPct" .int (·.connectionsPct) fun s v => { s with connectionsPct := v },
     .of "replicationLagSec" .int (·.replicationLagSec) fun s v =>
       { s with replicationLagSec := v },
     .of "backupMaxAgeHours" .int (·.backupMaxAgeHours) fun s v =>
       { s with backupMaxAgeHours := v }]

def alertCodec : Codec AlertConfig :=
  .struct "service" "AlertConfig" {}
    [.of "enabled" .bool (·.enabled) fun s v => { s with enabled := v },
     .of "telegram" telegramCodec (·.telegram) fun s v => { s with telegram := v },
     .of "thresholds" thresholdsCodec (·.thresholds) fun s v => { s with thresholds := v },
     .of "cooldownMinutes" .int (·.cooldownMinutes) fun s v => { s with cooldownMinutes := v }]

def profileCodec : Codec ConnectionProfile :=
  .struct "service" "ConnectionProfile" { name := "", host := "" }
    [.of "name" .string (·.name) fun s v => { s with name := v },
     .of "label" .string (·.label) fun s v => { s with label := v },
     .of "type" .string (·.type) fun s v => { s with type := v },
     .of "host" .string (·.host) fun s v => { s with host := v },
     .of "port" .int (·.port) fun s v => { s with port := v },
     .of "database" .string (·.database) fun s v => { s with database := v },
     .of "sslMode" .string (·.sslMode) fun s v => { s with sslMode := v },
     .of "description" .string (·.description) fun s v => { s with description := v },
     .of "enabled" .bool (·.enabled) fun s v => { s with enabled := v }]

def connectionCodec : Codec ConnectionSettings :=
  .struct "service" "ConnectionSettings" {}
    [.of "profiles" (.slice profileCodec) (·.profiles) fun s v => { s with profiles := v },
     .of "featureRoutes" (.mapOf .string) (·.featureRoutes) fun s v => { s with featureRoutes := v }]

def appCodec : Codec AppConfig :=
  .struct "service" "AppConfig" {}
    [.of "backup" backupCodec (·.backup) fun s v => { s with backup := v },
     .of "alerts" alertCodec (·.alerts) fun s v => { s with alerts := v },
     .of "connections" connectionCodec (·.connections) fun s v => { s with connections := v }]

/-! ## Defaults -/

def featureNames : List String :=
  ["sql", "queries", "maintenance", "drift"]

/-- `defaults.FeatureRoutes`. -/
def defaultRoutes : StringMap String :=
  featureNames.foldl (fun routes key => routes.insert key "direct-postgres") ∅

/-- One round of the loop over the default routes. -/
def fillRoute (routes : StringMap String) (key : String) : StringMap String :=
  if trimSpace ((routes.lookup key).getD "") = "" then routes.insert key "direct-postgres"
  else routes

def fillRoutes (routes : StringMap String) : StringMap String :=
  featureNames.foldl fillRoute routes

namespace ConnEnv

variable (env : ConnEnv)

def defaultConfig : AppConfig where
  backup :=
    { enabled := true
      intervalHours := 1
      incrementalIntervalHours := 1
      fullWeekday := 1
      fullHour := 4
      retainCount := 7
      verifyEnabled := true }
  alerts :=
    { enabled := false
      cooldownMinutes := 15
      thresholds :=
        { diskUsagePct := 80
          connectionsPct := 80
          replicationLagSec := 30
          backupMaxAgeHours := 24 } }
  connections :=
    { profiles := some env.defaultConnections
      featureRoutes := some defaultRoutes }

def applyConnectionDefaultsLocked (cfg : AppConfig) : AppConfig :=
  { cfg with
    alerts :=
      { cfg.alerts with
        cooldownMinutes :=
          if cfg.alerts.cooldownMinutes ≤ 0 then 15 else cfg.alerts.cooldownMinutes }
    connections :=
      { profiles := some (env.applyConnectionDefaults (cfg.connections.profiles.getD []))
        featureRoutes := some (fillRoutes (cfg.connections.featureRoutes.getD defaultRoutes)) } }

end ConnEnv

/-! ## The store -/

/-- What reading the file gives. -/
abbrev ConfigFile := Except String JSON

/-- `ConfigStore` together with its file. -/
structure ConfigStore where
  config : AppConfig
  file : ConfigFile

/-- How `os.WriteFile` ends.  It empties the file before it writes. -/
inductive WriteOutcome where
  | written
  /-- The file could not be opened. -/
  | refused (err : String)
  /-- Opened, but not written to the end; `left` is what the file holds now. -/
  | brokenOff (err : String) (left : ConfigFile)

inductive LoadError where
  | read (err : String)
  | decode (err : TypeError)
  deriving DecidableEq, Repr

namespace ConfigStore

variable (env : ConnEnv) (cs : ConfigStore)

def get : AppConfig :=
  cs.config

def getBackup : BackupConfig :=
  cs.config.backup

def getAlerts : AlertConfig :=
  cs.config.alerts

def getConnections : ConnectionSettings :=
  cs.config.connections

/-- An error is returned; marshalling settings never fails. -/
def save (outcome : WriteOutcome) : ConfigStore × Option String :=
  match outcome with
  | .written => ({ cs with file := .ok (appCodec.encode cs.config) }, none)
  | .refused err => (cs, some err)
  | .brokenOff err left => ({ cs with file := left }, some err)

def update (cfg : AppConfig) (outcome : WriteOutcome) : ConfigStore × Option String :=
  ({ cs with config := env.applyConnectionDefaultsLocked cfg }).save outcome

def load : ConfigStore × Option LoadError :=
  match cs.file with
  | .error err => (cs, some (.read err))
  | .ok document =>
      match appCodec.decode cs.config document with
      -- What was decoded before and after the error stays, without the defaults.
      | (cfg, some err) => ({ cs with config := cfg }, some (.decode err))
      | (cfg, none) => ({ cs with config := env.applyConnectionDefaultsLocked cfg }, none)

end ConfigStore

def newConfigStore (env : ConnEnv) (file : ConfigFile) (outcome : WriteOutcome) : ConfigStore :=
  match ({ config := env.defaultConfig, file := file } : ConfigStore).load env with
  | (cs, none) => cs
  | (cs, some _) => (cs.save outcome).1

/-! ## The values that 64-bit integers can hold -/

structure BackupConfig.InRange (b : BackupConfig) : Prop where
  intervalHours : IsInt64 b.intervalHours
  incrementalIntervalHours : IsInt64 b.incrementalIntervalHours
  fullWeekday : IsInt64 b.fullWeekday
  fullHour : IsInt64 b.fullHour
  retainCount : IsInt64 b.retainCount

structure AlertConfig.InRange (a : AlertConfig) : Prop where
  diskUsagePct : IsInt64 a.thresholds.diskUsagePct
  connectionsPct : IsInt64 a.thresholds.connectionsPct
  replicationLagSec : IsInt64 a.thresholds.replicationLagSec
  backupMaxAgeHours : IsInt64 a.thresholds.backupMaxAgeHours
  cooldownMinutes : IsInt64 a.cooldownMinutes

/-- Every `int` of the settings is a 64-bit integer. -/
structure AppConfig.InRange (cfg : AppConfig) : Prop where
  backup : cfg.backup.InRange
  alerts : cfg.alerts.InRange
  ports : ∀ profile ∈ cfg.connections.profiles.getD [], IsInt64 profile.port

end Service
end Pgaio
