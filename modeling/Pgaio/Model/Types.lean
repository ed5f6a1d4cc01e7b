import Pgaio.Go.Time

/-!
# Types — records shared by handlers and services

`model/types.go`, as far as modelled functions read or build these records.
-/

namespace Pgaio
namespace Model

open Go

/-- The JSON envelope of every answer; `Data` varies from handler to handler. -/
structure APIResponse (Data : Type) where
  success : Bool := false
  data : Option Data := none
  error : String := ""
  deriving DecidableEq, Repr

/-- What `writeJSON` sends. -/
structure Response (Data : Type) where
  status : Nat
  body : APIResponse Data
  deriving DecidableEq, Repr

def statusOK : Nat := 200
def statusAccepted : Nat := 202
def statusBadRequest : Nat := 400
def statusConflict : Nat := 409
def statusInternalServerError : Nat := 500

def Response.failure {Data : Type} (status : Nat) (error : String) : Response Data :=
  { status := status
    body := { error := error } }

def Response.success {Data : Type} (status : Nat) (data : Data) : Response Data :=
  { status := status
    body := { success := true, data := some data } }

/-- One backup as `wal-g backup-list` reports it. -/
structure Backup where
  name : String
  startTime : Time
  finishTime : Time
  deriving DecidableEq, Repr

structure RestoreRequest where
  backupName : String
  /-- The timestamp of a point-in-time recovery; empty for a plain restore. -/
  targetTime : String := ""
  deriving DecidableEq, Repr

structure BackupTriggerResponse (JobID : Type) where
  message : String
  status : String
  jobID : JobID
  deriving DecidableEq, Repr

end Model
end Pgaio
