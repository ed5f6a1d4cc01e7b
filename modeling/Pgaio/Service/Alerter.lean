import Pgaio.Go.Slices
import Pgaio.Service.Backups
import Pgaio.Service.Monitor

/-!
# Alerter — alerts, their history and the periodic check

`service/alerter.go`.  `fire` opens or refreshes the alert of a key, `resolveMissing` resolves the
open alerts whose keys a check has not seen, and `check` derives the alerts of one collection of
statistics.  Every call returns the events that it appends to the history, which itself keeps only
the last 100; every call reads the clock.

Go iterates over a map in any order, so `resolveMissing` takes the order as an argument.
-/

namespace Pgaio
namespace Service

open Go Model

/-! ## Settings -/

structure TelegramConfig where
  botToken : String := ""
  chatID : String := ""
  deriving DecidableEq, Repr

structure AlertThresholds where
  diskUsagePct : Int := 0
  connectionsPct : Int := 0
  replicationLagSec : Int := 0
  backupMaxAgeHours : Int := 0
  deriving DecidableEq, Repr

structure AlertConfig where
  enabled : Bool := false
  telegram : TelegramConfig := {}
  thresholds : AlertThresholds := {}
  cooldownMinutes : Int := 0
  deriving DecidableEq, Repr

/-! ## State -/

inductive AlertLevel where
  | warning
  | critical
  | resolved
  deriving DecidableEq, Repr

def AlertLevel.text : AlertLevel → String
  | .warning => "warning"
  | .critical => "critical"
  | .resolved => "resolved"

inductive AlertStatus where
  /-- `open`. -/
  | opened
  | resolved
  deriving DecidableEq, Repr

structure AlertEvent where
  time : Time
  level : AlertLevel
  message : String
  metric : String
  value : String
  key : String
  status : AlertStatus
  deriving DecidableEq, Repr

structure AlertState where
  key : String
  metric : String
  level : AlertLevel
  status : AlertStatus := .opened
  message : String := ""
  value : String := ""
  openedAt : Time
  lastSeenAt : Time := 0
  lastFiredAt : Time := 0
  resolvedAt : Option Time := none
  count : Int := 0
  deriving DecidableEq, Repr

abbrev ActiveAlerts := AList fun _ : String => AlertState

structure Alerter where
  /-- Whether there is a `WalG` to ask for backups. -/
  hasWalG : Bool := true
  history : List AlertEvent := []
  active : ActiveAlerts := ∅

def maxHistory : Nat := 100

/-- The history after one more event. -/
def keepLast (history : List AlertEvent) (event : AlertEvent) : List AlertEvent :=
  appendKeeping maxHistory history event

/-! ## Firing -/

/-- What a check reports about one key. -/
structure Firing where
  key : String
  level : AlertLevel
  metric : String
  message : String
  value : String
  deriving DecidableEq, Repr

/-- The alert of the key after a firing, before the cooldown is looked at. -/
def touch (state? : Option AlertState) (now : Time) (f : Firing) : AlertState :=
  let state := state?.getD
    { key := f.key
      metric := f.metric
      level := f.level
      openedAt := now }
  { state with
    metric := f.metric
    level := f.level
    status := .opened
    message := f.message
    value := f.value
    lastSeenAt := now
    count := state.count + 1 }

/-- The cooldown keeps a firing from being announced. -/
def coolingDown (cfg : AlertConfig) (now : Time) (state : AlertState) : Bool :=
  let cooldown := Duration.times cfg.cooldownMinutes Duration.minute
  decide (0 < cooldown) && !state.lastFiredAt.isZero &&
    decide (now.sub state.lastFiredAt < cooldown)

def openEvent (now : Time) (f : Firing) : AlertEvent where
  time := now
  level := f.level
  message := f.message
  metric := f.metric
  value := f.value
  key := f.key
  status := .opened

/-- What a call appends to the history and what it sends to Telegram. -/
structure Announced where
  events : List AlertEvent := []
  telegram : Option (TelegramConfig × String) := none

def telegramText (f : Firing) : String :=
  "🚨 PGAIO [" ++ toUpperAscii f.level.text ++ "]\n" ++ f.message

namespace Alerter

def fire (a : Alerter) (cfg : AlertConfig) (now : Time) (f : Firing) : Alerter × Announced :=
  let state := touch (a.active.lookup f.key) now f
  if coolingDown cfg now state then
    ({ a with active := a.active.insert f.key state }, {})
  else
    let state := { state with lastFiredAt := now, resolvedAt := none }
    let event := openEvent now f
    ( { a with
        active := a.active.insert f.key state
        history := keepLast a.history event },
      { events := [event]
        telegram :=
          if cfg.telegram.botToken ≠ "" ∧ cfg.telegram.chatID ≠ "" then
            some (cfg.telegram, telegramText f)
          else none } )

end Alerter

/-! ## Resolving -/

/-- An order in which Go may iterate over the keys of a map. -/
structure MapOrder where
  order : List String → List String
  perm : ∀ keys, (order keys).Perm keys

def MapOrder.same : MapOrder where
  order := id
  perm := fun _ => List.Perm.refl _

def resolvedEvent (now : Time) (key : String) (state : AlertState) : AlertEvent where
  time := now
  level := .resolved
  message := "Resolved: " ++ state.message
  metric := state.metric
  value := state.value
  key := key
  status := .resolved

/-- An open alert that the check has not seen. -/
def missing (seen : List String) (key : String) (state : AlertState) : Bool :=
  decide (state.status = .opened) && !seen.contains key

namespace Alerter

/-- One round of the loop of `resolveMissing`. -/
def resolveKey (now : Time) (seen : List String) (acc : Alerter × List AlertEvent)
    (key : String) : Alerter × List AlertEvent :=
  let (a, events) := acc
  match a.active.lookup key with
  | none => (a, events)
  | some state =>
      if missing seen key state then
        let event := resolvedEvent now key state
        let state := { state with status := .resolved, resolvedAt := some now }
        ( { a with
            active := a.active.insert key state
            history := keepLast a.history event },
          events ++ [event] )
      else (a, events)

def resolveMissing (a : Alerter) (now : Time) (seen : List String) (order : MapOrder) :
    Alerter × List AlertEvent :=
  (order.order a.active.keys).foldl (resolveKey now seen) (a, [])

end Alerter

/-! ## Runs of calls -/

inductive AlertCall where
  | fire (cfg : AlertConfig) (now : Time) (f : Firing)
  | resolveMissing (now : Time) (seen : List String) (order : MapOrder)

namespace Alerter

/-- The effect of one call and the events that it appends. -/
def exec (a : Alerter) : AlertCall → Alerter × List AlertEvent
  | .fire cfg now f =>
      let (a, announced) := a.fire cfg now f
      (a, announced.events)
  | .resolveMissing now seen order => a.resolveMissing now seen order

/-- The effect of a sequence of calls and all events that they append. -/
def run (a : Alerter) : List AlertCall → Alerter × List AlertEvent
  | [] => (a, [])
  | call :: calls =>
      let (a, events) := a.exec call
      let (a, more) := a.run calls
      (a, events ++ more)

end Alerter

/-! ## The periodic check -/

def diskFirings (cfg : AlertConfig) (stats : PgStat) : List Firing :=
  let limit := cfg.thresholds.diskUsagePct
  if 0 < limit ∧ stats.system.diskUsage > Float.ofInt limit then
    [{ key := "disk_usage"
       level := .critical
       metric := "disk_usage"
       message := "Disk usage " ++ formatFixed 1 stats.system.diskUsage ++ "% exceeds " ++
        itoa limit ++ "%"
       value := formatFixed 1 stats.system.diskUsage ++ "%" }]
  else []

def connectionFirings (cfg : AlertConfig) (stats : PgStat) : List Firing :=
  let limit := cfg.thresholds.connectionsPct
  let used := stats.connections.usedConnections
  let max := stats.connections.maxConnections
  let pct := Float.ofInt used / Float.ofInt max * 100
  if 0 < limit ∧ 0 < max ∧ pct > Float.ofInt limit then
    [{ key := "connections"
       level := .warning
       metric := "connections"
       message := "Connection usage " ++ formatFixed 0 pct ++ "% (" ++ itoa used ++ "/" ++
        itoa max ++ ") exceeds " ++ itoa limit ++ "%"
       value := formatFixed 0 pct ++ "%" }]
  else []

def replicationKey (clientAddr : String) : String :=
  "replication_lag:" ++ clientAddr

def replicationFirings (cfg : AlertConfig) (stats : PgStat) : List Firing :=
  let limit := cfg.thresholds.replicationLagSec
  if 0 < limit then
    stats.replication.filterMap fun repl =>
      if limit < repl.replayLagSeconds then
        some
          { key := replicationKey repl.clientAddr
            level := .warning
            metric := "replication_lag"
            message := "Replication lag " ++ itoa repl.replayLagSeconds ++ "s on " ++
              repl.clientAddr ++ " exceeds " ++ itoa limit ++ "s"
            value := itoa repl.replayLagSeconds ++ "s" }
      else none
  else []

def backupFiring (level : AlertLevel) (message value : String) : Firing where
  key := "backup_age"
  level := level
  metric := "backup_age"
  message := message
  value := value

/-- `listed` is the answer of `ListBackups`, `now` the reading of the clock for the age. -/
def backupFirings (cfg : AlertConfig) (listed : Except String (List Backup)) (now : Time) :
    List Firing :=
  let hours := cfg.thresholds.backupMaxAgeHours
  if 0 < hours then
    match listed with
    | .error err => [backupFiring .warning ("Failed to inspect backups: " ++ err) "unknown"]
    | .ok backups =>
        let latest := latestBackupTime backups
        if latest.isZero then [backupFiring .critical "No backups found" "none"]
        else
          let age := now.sub latest
          let limit := Duration.times hours Duration.hour
          if limit < age then
            let text := (age.round Duration.minute).text
            [backupFiring .critical
              ("Latest backup is " ++ text ++ " old and exceeds " ++ itoa hours ++ "h") text]
          else []
  else []

/-- What one check is given: the settings, the answers of the collectors and of `ListBackups`, the
readings of the clock and the order in which the map is iterated. -/
structure CheckInput where
  cfg : AlertConfig
  collectors : Collectors
  listed : Except String (List Backup) := .ok []
  clock : Nat → Time
  order : MapOrder := .same

/-- Fire one alert after the other, from the `n`-th reading of the clock on. -/
def fireCalls (input : CheckInput) (n : Nat) (fs : List Firing) : List AlertCall :=
  (fs.zipIdx n).map fun (f, i) => .fire input.cfg (input.clock i) f

def statFirings (cfg : AlertConfig) (stats : PgStat) : List Firing :=
  diskFirings cfg stats ++ connectionFirings cfg stats ++ replicationFirings cfg stats

/-- The calls of one check, in their order. -/
def checkCalls (hasWalG : Bool) (input : CheckInput) : List AlertCall :=
  match collectStats input.collectors with
  | .error _ => []
  | .ok stats =>
      let first := statFirings input.cfg stats
      let n := first.length
      let last := if hasWalG then backupFirings input.cfg input.listed (input.clock n) else []
      let seen := (first ++ last).map Firing.key
      fireCalls input 0 first ++ fireCalls input (n + 1) last ++
        [.resolveMissing (input.clock (n + 1 + last.length)) seen input.order]

/-- One check and the events that it appends. -/
def Alerter.check (a : Alerter) (input : CheckInput) : Alerter × List AlertEvent :=
  a.run (checkCalls a.hasWalG input)

end Service
end Pgaio
