import Pgaio.Go.Format
import Mathlib.Data.List.AList

/-!
# Monitor — one collection of statistics

`CollectStats` of `service/monitor.go`.  Each collector either delivers its section or fails; a
section whose collector failed keeps its zero value, and the error is recorded under the collector's
name.  `Collectors` is what the collectors answered, as far as the alerter reads it.
-/

namespace Pgaio
namespace Service

open Go

structure ConnectionStats where
  maxConnections : Int := 0
  usedConnections : Int := 0
  deriving DecidableEq, Repr

structure ReplicationLag where
  clientAddr : String
  replayLagSeconds : Int
  deriving DecidableEq, Repr

structure SystemStats where
  diskUsage : Float

/-- The answers of the collectors; the sections of four of them are not read by the alerter. -/
structure Collectors where
  databases : Except String Unit := .ok ()
  activity : Except String Unit := .ok ()
  connections : Except String ConnectionStats := .ok {}
  replication : Except String (List ReplicationLag) := .ok []
  wal : Except String Unit := .ok ()
  bgwriter : Except String Unit := .ok ()
  system : SystemStats := { diskUsage := 0 }

abbrev CollectionErrors := AList fun _ : String => String

structure PgStat where
  connections : ConnectionStats := {}
  replication : List ReplicationLag := []
  system : SystemStats
  collectionErrors : CollectionErrors := ∅

/-- Record the error of a collector under its name. -/
def CollectionErrors.record {α : Type} (errors : CollectionErrors) (name : String) :
    Except String α → CollectionErrors
  | .ok _ => errors
  | .error err => errors.insert name err

/-- The section of a collector; the zero value when it failed. -/
def sectionOf {α : Type} (zero : α) : Except String α → α
  | .ok x => x
  | .error _ => zero

/-- `CollectStats` never returns an error. -/
def collectStats (collectors : Collectors) : Except String PgStat :=
  let errors : CollectionErrors := ∅
  let errors := errors.record "databases" collectors.databases
  let errors := errors.record "activity" collectors.activity
  let errors := errors.record "connections" collectors.connections
  let errors := errors.record "replication" collectors.replication
  let errors := errors.record "wal" collectors.wal
  let errors := errors.record "bgwriter" collectors.bgwriter
  .ok
    { connections := sectionOf {} collectors.connections
      replication := sectionOf [] collectors.replication
      system := collectors.system
      collectionErrors := errors }

/-! ## Recorded errors -/

theorem CollectionErrors.mem_record {α : Type} {errors : CollectionErrors} {name other : String}
    {answer : Except String α} :
    other ∈ errors.record name answer ↔ (other = name ∧ answer.isOk = false) ∨ other ∈ errors := by
  cases answer with
  | ok x => simp [record, Except.isOk, Except.toBool]
  | error err => simp [record, Except.isOk, Except.toBool]

/-- The error of the connection collector is recorded exactly when it failed. -/
theorem connections_recorded {collectors : Collectors} {stats : PgStat}
    (h : collectStats collectors = .ok stats) :
    "connections" ∈ stats.collectionErrors ↔ collectors.connections.isOk = false := by
  cases h
  simp [CollectionErrors.mem_record]

theorem replication_recorded {collectors : Collectors} {stats : PgStat}
    (h : collectStats collectors = .ok stats) :
    "replication" ∈ stats.collectionErrors ↔ collectors.replication.isOk = false := by
  cases h
  simp [CollectionErrors.mem_record]

/-- The section of a collector that failed is empty. -/
theorem sectionOf_of_failed {α : Type} {zero : α} {answer : Except String α}
    (h : answer.isOk = false) : sectionOf zero answer = zero := by
  cases answer with
  | ok x => cases h
  | error err => rfl

end Service
end Pgaio
