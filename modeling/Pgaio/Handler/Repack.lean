import Pgaio.Concurrency.Threads
import Pgaio.Model.Types
import Pgaio.Service.JobStore

/-!
# Repack — the handlers around pg_repack

`handler/repack.go`: `RepackHandler.Run`, the goroutine it starts, and
`RepackHandler.CancelRepack`, as programs over atomic actions.  Atomic are the critical sections
of `h.mu`, the calls of the job store, and the start, the kill and the exit of a process; the exit
of a process is a step of the environment.

A command is named by the number of commands created before it.  `clearRunning` carries the
command of the job on whose behalf it is executed; the code assigns `nil` whatever it is.
-/

namespace Pgaio
namespace Handler

open Go Model Service Concurrency

structure RunRequest where
  schema : String
  table : String
  database : String
  jobs : Int
  deriving DecidableEq, Repr

/-- `repackJob`; `cmd` refers to the command that the job runs. -/
structure RepackJob where
  table : String
  database : String
  jobID : JobID
  startedAt : Time
  cmd : Nat
  deriving DecidableEq, Repr

/-- The connection strings that the pool manager hands to command-line tools. -/
structure RepackHandler where
  defaultConnString : String
  connStringForDB : String → String

inductive RepackData where
  | text (s : String)
  | fields (m : List (String × String))
  deriving DecidableEq, Repr

abbrev RepackResponse := Response RepackData

/-! ## Processes -/

inductive ProcState where
  /-- Not started: `cmd.Process` is nil. -/
  | created
  /-- `Start` failed; `cmd.Process` stays nil. -/
  | failed
  | alive
  /-- A kill signal has been delivered, the process has not exited yet. -/
  | killed
  | exited (ok : Bool)
  /-- Exited and waited for. -/
  | reaped (ok : Bool)
  deriving DecidableEq, Repr

namespace ProcState

def isAlive : ProcState → Bool
  | .alive => true
  | .killed => true
  | _ => false

/-- The process has ended, or it never came to life and never will. -/
def isOver : ProcState → Bool
  | .failed => true
  | .exited _ => true
  | .reaped _ => true
  | _ => false

/-- `cmd.Process != nil`. -/
def hasProcess : ProcState → Bool
  | .created => false
  | .failed => false
  | _ => true

end ProcState

structure Cmd where
  args : List String
  state : ProcState
  deriving DecidableEq, Repr

/-! ## World and actions -/

structure RepackWorld where
  running : Option RepackJob := none
  jobs : JobStore := {}
  cmds : List Cmd := []

namespace RepackWorld

def cmdState (w : RepackWorld) (cmd : Nat) : Option ProcState :=
  (w.cmds[cmd]?).map Cmd.state

def setCmdState (w : RepackWorld) (cmd : Nat) (st : ProcState) : RepackWorld :=
  { w with cmds := w.cmds.modify cmd fun c => { c with state := st } }

def alive (w : RepackWorld) (cmd : Nat) : Bool :=
  (w.cmdState cmd).any ProcState.isAlive

def cmdOver (w : RepackWorld) (cmd : Nat) : Bool :=
  (w.cmdState cmd).any ProcState.isOver

end RepackWorld

inductive RepackEntry where
  | run (req : Option RunRequest)
  | cancelRepack
  /-- The goroutine of `Run` with the variables it captures. -/
  | goroutine (jobID : JobID) (cmd : Nat)
  deriving DecidableEq

inductive RepackAct where
  /-- The first critical section of `Run`. -/
  | checkRunning
  | loadRunning
  | setRunning (table database : String) (jobID : JobID) (cmd : Nat)
  | clearRunning (owner : Nat)
  | jobs (call : JobCall)
  | command (args : List String)
  | hasProcess (cmd : Nat)
  | kill (cmd : Nat)
  | cmdStart (cmd : Nat)
  | cmdWait (cmd : Nat)
  | go (e : RepackEntry)

@[reducible] def RepackAct.Resp : RepackAct → Type
  | .checkRunning => Bool
  | .loadRunning => Option RepackJob
  | .jobs call => call.Resp
  | .command _ => Nat
  | .hasProcess _ => Bool
  | .kill _ => Except String Unit
  | .cmdStart _ => Except String Unit
  | .cmdWait _ => String × Bool
  | _ => Unit

structure RepackChoice where
  now : Time := 1
  ok : Bool := true
  output : String := ""

inductive RepackEnv where
  | exit (cmd : Nat) (ok : Bool)

abbrev RepackProgram := Program RepackAct RepackAct.Resp

abbrev perform (a : RepackAct) : RepackProgram a.Resp :=
  Program.perform a

/-! ## The handlers -/

/-- `Format("15:04:05")` in UTC. -/
def clockText (t : Time) : String :=
  let s := (t / nanosecondsPerSecond % 86400).toNat
  padLeft 2 (s / 3600) ++ ":" ++ padLeft 2 (s / 60 % 60) ++ ":" ++ padLeft 2 (s % 60)

/-- The conflict answer reads `h.running` twice after the lock has been released; a nil pointer
there makes the handler panic. -/
def conflictAnswer : RepackProgram (Option RepackResponse) := do
  match ← perform .loadRunning with
  | none => return none
  | some job =>
      match ← perform .loadRunning with
      | none => return none
      | some job' =>
          return some (.failure statusConflict
            ("repack already running on " ++ job.table ++ " (started " ++
              clockText job'.startedAt ++ ")"))

def tableName (req : RunRequest) : String :=
  (if req.schema = "" then "public" else req.schema) ++ "." ++ req.table

def repackArgs (h : RepackHandler) (req : RunRequest) : List String :=
  let connStr := if req.database ≠ "" then h.connStringForDB req.database else h.defaultConnString
  ["--no-superuser-check", "--table", tableName req] ++
    (if 0 < req.jobs then ["--jobs", itoa req.jobs] else []) ++
    (if connStr ≠ "" then ["--dbname", connStr] else [])

/-- `Run` from the creation of the command on. -/
def launch (h : RepackHandler) (req : RunRequest) : RepackProgram (Option RepackResponse) := do
  let cmd ← perform (.command (repackArgs h req))
  let job ← perform (.jobs (.start "repack" (tableName req) req.database
    "pg_repack queued"
    [("schema", if req.schema = "" then "public" else req.schema), ("table", req.table)]))
  let _ ← perform (.setRunning (tableName req) req.database job.id cmd)
  let _ ← perform (.go (.goroutine job.id cmd))
  return some (.success statusAccepted (.fields
    [("jobId", job.id.text), ("message", "pg_repack started on " ++ tableName req),
      ("status", "running")]))

def run (h : RepackHandler) : Option RunRequest → RepackProgram (Option RepackResponse)
  | none => pure (some (.failure statusBadRequest "invalid request"))
  | some req =>
      if req.table = "" then pure (some (.failure statusBadRequest "table is required"))
      else do
        let busy ← perform .checkRunning
        if busy then conflictAnswer else launch h req

/-- The goroutine after the command has ended with `output`, or could not be started. -/
def reportRepack (jobID : JobID) (cmd : Nat) (output : String) (failed : Bool) :
    RepackProgram (Option RepackResponse) :=
  if failed then do
    let current ← perform (.jobs (.get jobID))
    if current.any fun job => job.status = .canceled then do
      let _ ← perform (.clearRunning cmd)
      return none
    else do
      let _ ← perform (.jobs (.fail jobID "pg_repack failed" output))
      let _ ← perform (.clearRunning cmd)
      return none
  else do
    let _ ← perform (.jobs (.complete jobID "pg_repack completed successfully"))
    let _ ← perform (.clearRunning cmd)
    return none

/-- `CombinedOutput` starts the command and waits for its end. -/
def goroutine (jobID : JobID) (cmd : Nat) : RepackProgram (Option RepackResponse) := do
  let _ ← perform (.jobs (.update jobID "pg_repack running" ""))
  match ← perform (.cmdStart cmd) with
  | .error _ => reportRepack jobID cmd "" true
  | .ok _ => do
      let result ← perform (.cmdWait cmd)
      reportRepack jobID cmd result.1 (!result.2)

/-- `CancelRepack` after the process has been killed, or was not there. -/
def recordCancel (job : RepackJob) : RepackProgram (Option RepackResponse) := do
  let _ ← perform (.jobs (.cancel job.jobID "pg_repack cancelled"))
  let _ ← perform (.clearRunning job.cmd)
  return some (.success statusOK (.text "repack cancelled"))

def cancelRepack : RepackProgram (Option RepackResponse) := do
  match ← perform .loadRunning with
  | none => return some (.success statusOK (.text "no repack running"))
  | some job =>
      let started ← perform (.hasProcess job.cmd)
      if started then
        match ← perform (.kill job.cmd) with
        | .error err =>
            return some (.failure statusInternalServerError ("failed to cancel: " ++ err))
        | .ok _ => recordCancel job
      else recordCancel job

/-! ## The system -/

namespace RepackWorld

/-- The effect of one action. -/
def exec (w : RepackWorld) : (a : RepackAct) → RepackChoice → Option (a.Resp × RepackWorld)
  | .checkRunning, _ => some (w.running.isSome, w)
  | .loadRunning, _ => some (w.running, w)
  | .setRunning table database jobID cmd, ch =>
      let job : RepackJob :=
        { table := table, database := database, jobID := jobID, startedAt := ch.now, cmd := cmd }
      some ((), { w with running := some job })
  | .clearRunning _, _ => some ((), { w with running := none })
  | .jobs call, ch =>
      let result := call.exec w.jobs ch.now
      some (result.1, { w with jobs := result.2 })
  | .command args, _ =>
      some (w.cmds.length, { w with cmds := w.cmds ++ [{ args := args, state := .created }] })
  | .hasProcess cmd, _ => some ((w.cmdState cmd).any ProcState.hasProcess, w)
  | .kill cmd, ch =>
      match w.cmdState cmd with
      | some .alive => some (.ok (), w.setCmdState cmd .killed)
      | some .killed => some (.ok (), w)
      -- An unreaped process may or may not accept the signal.
      | some (.exited _) => some (if ch.ok then .ok () else .error ch.output, w)
      | some (.reaped _) => some (.error "os: process already finished", w)
      | _ => none
  | .cmdStart cmd, ch =>
      match w.cmdState cmd with
      | some .created =>
          if ch.ok then some (.ok (), w.setCmdState cmd .alive)
          else some (.error ch.output, w.setCmdState cmd .failed)
      | _ => none
  | .cmdWait cmd, ch =>
      match w.cmdState cmd with
      | some (.exited ok) => some ((ch.output, ok), w.setCmdState cmd (.reaped ok))
      | _ => none
  | .go _, _ => some ((), w)

/-- A process exits; a killed one never exits successfully. -/
def envStep (w : RepackWorld) : RepackEnv → Option RepackWorld
  | .exit cmd ok =>
      match w.cmdState cmd with
      | some .alive => some (w.setCmdState cmd (.exited ok))
      | some .killed => some (w.setCmdState cmd (.exited false))
      | _ => none

end RepackWorld

def RepackEntry.body (h : RepackHandler) : RepackEntry → RepackProgram (Option RepackResponse)
  | .run req => Handler.run h req
  | .cancelRepack => Handler.cancelRepack
  | .goroutine jobID cmd => Handler.goroutine jobID cmd

def RepackEntry.isRequest : RepackEntry → Bool
  | .goroutine _ _ => false
  | _ => true

def RepackAct.forks : RepackAct → Option RepackEntry
  | .go e => some e
  | _ => none

/-- Any number of `Run` and `CancelRepack` requests with the goroutines they start. -/
def repackSystem (h : RepackHandler) :
    System RepackWorld RepackAct RepackAct.Resp RepackChoice RepackEnv RepackEntry
      (Option RepackResponse) where
  body := RepackEntry.body h
  external := RepackEntry.isRequest
  exec := fun w _ a ch => w.exec a ch
  forks := RepackAct.forks
  env := RepackWorld.envStep

end Handler
end Pgaio
