import Pgaio.Concurrency.Threads
import Pgaio.Service.Backups
import Pgaio.Service.JobStore

/-!
# WalG — backups, restores and restarts

`service/walg.go`: `triggerBackup` and `RestoreBackup` with the goroutines they start,
`applyRetention` and `cleanDir`; and `ConfigHandler.RestartPostgreSQL` of `handler/config.go`, which
controls the same server.  Atomic are the calls of the job store, the operations on `opMu`, every
external command and every file operation.

`WalGWorld` records what these actions act on: the lock, the jobs, the storage of WAL-G and the data
directories.  A directory is named by a path; `locate` says which directory a path denotes.  A
`WalGChoice` resolves the outcome of an action; an operation that fails leaves anything behind.
-/

namespace Pgaio
namespace Service

open Go Model Concurrency

structure WalG where
  dataDir : String

def defaultDataDir : String := "/bitnami/postgresql/data"

def newWalG (dataDir : String) : WalG :=
  { dataDir := if dataDir = "" then defaultDataDir else dataDir }

inductive BackupKind where
  | incremental
  | full
  deriving DecidableEq, Repr

def BackupKind.text : BackupKind → String
  | .incremental => "incremental"
  | .full => "full"

/-! ## World -/

/-- `whole` says that the directory holds a complete cluster, neither partly cleaned nor partly
fetched. -/
structure DataDir where
  running : Bool := false
  whole : Bool := false
  files : DataFiles := ∅
  deriving DecidableEq

structure WalGWorld where
  /-- The thread that holds `opMu`. -/
  opMu : Option Nat := none
  jobs : JobStore := {}
  /-- `GetBackup().RetainCount`; `none` when there is no configuration store. -/
  retainCount : Option Int := none
  storage : Storage := []
  dirs : Nat → DataDir := fun _ => {}

namespace WalGWorld

def setDir (w : WalGWorld) (d : Nat) (x : DataDir) : WalGWorld :=
  { w with dirs := Function.update w.dirs d x }

def setFiles (w : WalGWorld) (d : Nat) (files : DataFiles) : WalGWorld :=
  w.setDir d { w.dirs d with files := files }

def setRunning (w : WalGWorld) (d : Nat) (running : Bool) : WalGWorld :=
  w.setDir d { w.dirs d with running := running }

end WalGWorld

/-! ## Actions -/

inductive Command where
  /-- `pg_ctl stop -D dir -m fast`. -/
  | pgCtlStop (dir : String)
  /-- `pg_ctl start -D dir -l /tmp/pg_restore.log`. -/
  | pgCtlStart (dir : String)
  /-- `pg_ctl restart -D dir -m fast -w`. -/
  | pgCtlRestart (dir : String)
  /-- `wal-g backup-push dir --delta-from-name base`, or `--full` without a base. -/
  | backupPush (dir : String) (base : Option String)
  /-- `wal-g delete retain FULL retain --confirm`. -/
  | deleteRetainFull (retain : Int)
  /-- `wal-g backup-fetch dir name`. -/
  | backupFetch (dir name : String)
  deriving DecidableEq, Repr

inductive WalGEntry where
  | triggerBackup (kind : BackupKind)
  | restoreBackup (req : RestoreRequest)
  | restartPostgreSQL
  /-- The goroutine of `triggerBackup`. -/
  | backupJob (kind : BackupKind) (jobID : JobID)
  /-- The goroutine of `RestoreBackup`. -/
  | restoreJob (req : RestoreRequest) (jobID : JobID)
  /-- The goroutine of `RestartPostgreSQL`. -/
  | restartJob
  deriving DecidableEq, Repr

inductive WalGAct where
  | jobs (call : JobCall)
  | lock
  | unlock
  | go (e : WalGEntry)
  /-- `cmd.Run` or `cmd.CombinedOutput`; the response is the output. -/
  | command (cmd : Command)
  | listBackups
  | getRetainCount
  | readDir (dir : String)
  | removeAll (dir name : String)
  | writeFile (dir name content : String)
  | openAppend (dir name : String)
  | writeString (dir name content : String)
  deriving DecidableEq, Repr

@[reducible] def WalGAct.Resp : WalGAct → Type
  | .jobs call => call.Resp
  | .command _ => Except String String
  | .listBackups => Except String (List Backup)
  | .getRetainCount => Option Int
  | .readDir _ => Except String (List String)
  | .removeAll _ _ => Except String Unit
  | .writeFile _ _ _ => Except String Unit
  | .openAppend _ _ => Except String Unit
  | .writeString _ _ _ => Except String Unit
  | _ => Unit

inductive RestoreError where
  /-- `backupName is required`. -/
  | backupNameRequired
  /-- `invalid targetTime …: expected an RFC3339 timestamp`, with the quoted timestamp. -/
  | invalidTargetTime (targetTime : String)
  deriving DecidableEq, Repr

inductive WalGResult where
  | triggered (resp : BackupTriggerResponse JobID)
  | refused (err : RestoreError)
  | restarting (resp : Response String)
  /-- The end of a goroutine. -/
  | returned

abbrev WalGProgram := Program WalGAct WalGAct.Resp

namespace WalG

abbrev perform (a : WalGAct) : WalGProgram a.Resp :=
  Program.perform a

/-! ## Backups -/

def applyRetention : WalGProgram String := do
  match ← perform .getRetainCount with
  | none => return ""
  | some retain =>
      if retain ≤ 0 then return ""
      else
        match ← perform (.command (.deleteRetainFull retain)) with
        | .error _ => return "retention prune failed (see logs)"
        | .ok _ => return "pruned to last " ++ itoa retain ++ " backups"

/-- The goroutine of `triggerBackup` from the point on at which the arguments are known. -/
def pushBackup (w : WalG) (kind : BackupKind) (jobID : JobID) (base : Option String) :
    WalGProgram Unit := do
  let _ ← perform (.jobs (.update jobID ("running WAL-G " ++ kind.text ++ " backup") ""))
  match ← perform (.command (.backupPush w.dataDir base)) with
  | .error stderr => perform (.jobs (.fail jobID "backup failed" stderr))
  | .ok _ => do
      let msg ← applyRetention
      if msg ≠ "" then
        perform (.jobs (.complete jobID (kind.text ++ " backup completed successfully; " ++ msg)))
      else perform (.jobs (.complete jobID (kind.text ++ " backup completed successfully")))

def backupBody (w : WalG) (jobID : JobID) : BackupKind → WalGProgram Unit
  | .full => w.pushBackup .full jobID none
  | .incremental => do
      match ← perform .listBackups with
      | .error err =>
          perform (.jobs (.fail jobID "incremental backup could not inspect base backup" err))
      | .ok backups =>
          if backups.length = 0 then
            perform
              (.jobs (.cancel jobID "incremental backup skipped: no full base backup yet"))
          else w.pushBackup .incremental jobID (some (latestByTime backups))

/-- Run `body` under `opMu`; the unlocking is deferred to its end. -/
def underOpMu (body : WalGProgram Unit) : WalGProgram WalGResult := do
  let _ ← perform .lock
  let _ ← body
  let _ ← perform .unlock
  return .returned

def triggerBackup (kind : BackupKind) : WalGProgram WalGResult := do
  let job ← perform (.jobs (.start "backup" "wal-g backup-push" ""
    (kind.text ++ " backup queued") [("kind", kind.text)]))
  let _ ← perform (.go (.backupJob kind job.id))
  return .triggered
    { message := kind.text ++ " backup triggered in background"
      status := "running"
      jobID := job.id }

/-! ## Restores

The goroutine of `RestoreBackup` is cut at its five steps, the last one first. -/

/-- Step 5. -/
def startServer (w : WalG) (jobID : JobID) : WalGProgram Unit := do
  let _ ← perform (.jobs (.update jobID "starting PostgreSQL" ""))
  match ← perform (.command (.pgCtlStart w.dataDir)) with
  | .error out => perform (.jobs (.fail jobID "restore failed while starting PostgreSQL" out))
  | .ok _ => perform (.jobs (.complete jobID "restore completed and PostgreSQL is starting"))

def isPITR (req : RestoreRequest) : Bool :=
  req.targetTime != ""

def restoreCommandText : String :=
  "\nrestore_command = 'wal-g wal-fetch \"%f\" \"%p\"'\n"

def targetTimeText : String := "recovery_target_time = '"

def targetActionText : String := "'\nrecovery_target_action = 'promote'\n"

def recoveryLines (req : RestoreRequest) : String :=
  restoreCommandText ++
    (if isPITR req then targetTimeText ++ req.targetTime ++ targetActionText else "")

/-- Step 4. -/
def configureRecovery (w : WalG) (req : RestoreRequest) (jobID : JobID) : WalGProgram Unit := do
  let _ ← perform (.jobs (.update jobID "writing recovery configuration" ""))
  match ← perform (.writeFile w.dataDir "recovery.signal" "") with
  | .error err =>
      perform (.jobs (.fail jobID "restore failed while writing recovery.signal" err))
  | .ok _ =>
      match ← perform (.openAppend w.dataDir "postgresql.auto.conf") with
      | .error err =>
          perform (.jobs (.fail jobID "restore failed while opening postgresql.auto.conf" err))
      | .ok _ =>
          match ← perform (.writeString w.dataDir "postgresql.auto.conf" (recoveryLines req)) with
          | .error err =>
              perform (.jobs
                (.fail jobID "restore failed while writing recovery configuration" err))
          | .ok _ => w.startServer jobID

/-- Step 3. -/
def fetchBackup (w : WalG) (req : RestoreRequest) (jobID : JobID) : WalGProgram Unit := do
  let _ ← perform (.jobs (.update jobID "fetching backup from storage" ""))
  match ← perform (.command (.backupFetch w.dataDir req.backupName)) with
  | .error out => perform (.jobs (.fail jobID "restore failed while fetching backup" out))
  | .ok _ => w.configureRecovery req jobID

/-- The loop of `cleanDir`. -/
def removeEntries (dir : String) : List String → WalGProgram (Except String Unit)
  | [] => return .ok ()
  | name :: entries => do
      match ← perform (.removeAll dir name) with
      | .error err => return .error ("remove " ++ joinPath dir name ++ ": " ++ err)
      | .ok _ => removeEntries dir entries

def cleanDir (dir : String) : WalGProgram (Except String Unit) := do
  let dir := trimSpace dir
  if dir = "" then return .error "refusing to clean empty directory path"
  else
    match ← perform (.readDir dir) with
    | .error err => return .error ("read data dir: " ++ err)
    | .ok entries => removeEntries dir entries

/-- Step 2. -/
def cleanDataDir (w : WalG) (req : RestoreRequest) (jobID : JobID) : WalGProgram Unit := do
  let _ ← perform (.jobs (.update jobID "cleaning data directory" ""))
  match ← cleanDir w.dataDir with
  | .error err =>
      perform (.jobs (.fail jobID "restore failed while cleaning data directory" err))
  | .ok _ => w.fetchBackup req jobID

/-- The guard and step 1. -/
def restoreBody (w : WalG) (req : RestoreRequest) (jobID : JobID) : WalGProgram Unit :=
  if trimSpace w.dataDir = "" then
    perform (.jobs (.fail jobID "restore aborted" "data directory is not configured"))
  else do
    let _ ← perform (.jobs (.update jobID "stopping PostgreSQL" ""))
    match ← perform (.command (.pgCtlStop w.dataDir)) with
    | .error out =>
        perform (.jobs (.fail jobID "restore failed while stopping PostgreSQL" out))
    | .ok _ => w.cleanDataDir req jobID

def restoreLabel (req : RestoreRequest) : String :=
  if isPITR req then req.backupName ++ " (PITR → " ++ req.targetTime ++ ")" else req.backupName

def restoreMessage (req : RestoreRequest) : String :=
  if isPITR req then "PITR restore started → " ++ req.targetTime ++ ". PostgreSQL will restart."
  else "Restore started for " ++ req.backupName ++ ". PostgreSQL will restart."

def restoreBackup (req : RestoreRequest) : WalGProgram WalGResult :=
  if req.backupName = "" then return .refused .backupNameRequired
  else if isPITR req && (parseWalgTime req.targetTime).isNone then
    return .refused (.invalidTargetTime req.targetTime)
  else do
    let job ← perform (.jobs (.start "restore" (restoreLabel req) "" "restore queued"
      [("backupName", req.backupName)]))
    let _ ← perform (.go (.restoreJob req job.id))
    return .triggered
      { message := restoreMessage req
        status := "running"
        jobID := job.id }

/-! ## Restarts -/

/-- The outcome of the command is only logged. -/
def restartJob : WalGProgram WalGResult := do
  let _ ← perform (.command (.pgCtlRestart defaultDataDir))
  return .returned

def restartPostgreSQL : WalGProgram WalGResult := do
  let _ ← perform (.go .restartJob)
  return .restarting (.success statusOK "PostgreSQL restart initiated")

end WalG

/-! ## The system -/

/-- The outcome of an action.  The fields `left` and `files` are what a failed operation leaves of a
file or of a directory, `up` whether the server runs after a failed `pg_ctl`, and `gone` the backups
that a failed deletion has removed. -/
structure WalGChoice where
  now : Time := 1
  ok : Bool := true
  output : String := ""
  up : Bool := false
  left : Option String := none
  files : DataFiles := ∅
  gone : List String := []
  /-- The backup that `backup-push` creates. -/
  backup : Backup := { name := "", startTime := 0, finishTime := 0 }

inductive WalGEnv where
  | setRetainCount (retain : Int)
  /-- The server ends without being told to. -/
  | serverExits (dir : Nat)

namespace WalGWorld

variable (locate : String → Nat)

/-- `pg_ctl stop` succeeds only when a server is running, `pg_ctl start` and `pg_ctl restart` leave
one running. -/
def runCommand (w : WalGWorld) (ch : WalGChoice) : Command → Except String String × WalGWorld
  | .pgCtlStop dir =>
      let d := locate dir
      if ch.ok && (w.dirs d).running then (.ok ch.output, w.setRunning d false)
      else (.error ch.output, w.setRunning d ((w.dirs d).running && ch.up))
  | .pgCtlStart dir =>
      let d := locate dir
      if ch.ok then (.ok ch.output, w.setRunning d true)
      else (.error ch.output, w.setRunning d ((w.dirs d).running || ch.up))
  | .pgCtlRestart dir =>
      let d := locate dir
      if ch.ok then (.ok ch.output, w.setRunning d true)
      else (.error ch.output, w.setRunning d ch.up)
  | .backupPush dir base =>
      if ch.ok then
        let stored : StoredBackup :=
          { info := ch.backup, full := base.isNone, files := (w.dirs (locate dir)).files }
        (.ok ch.output, { w with storage := stored :: w.storage })
      else (.error ch.output, w)
  | .deleteRetainFull retain =>
      if ch.ok then
        (.ok ch.output, { w with storage := w.storage.retainFull retain.toNat })
      else
        (.error ch.output, { w with storage := w.storage.retainFullPartly retain.toNat ch.gone })
  | .backupFetch dir name =>
      let d := locate dir
      -- WAL-G refuses a directory that is not empty.
      if (w.dirs d).files.keys = [] then
        match ch.ok, w.storage.source name with
        | true, some stored =>
            (.ok ch.output, w.setDir d { w.dirs d with whole := true, files := stored.files })
        | _, _ =>
            (.error ch.output, w.setDir d { w.dirs d with whole := false, files := ch.files })
      else (.error ch.output, w)

/-- The entry `name` after an operation that left `content` of it. -/
def leave (files : DataFiles) (name : String) : Option String → DataFiles
  | none => files.erase name
  | some content => files.insert name content

/-- The effect of an action of thread `i`. -/
def exec (w : WalGWorld) (i : Nat) : (a : WalGAct) → WalGChoice → Option (a.Resp × WalGWorld)
  | .jobs call, ch =>
      let result := call.exec w.jobs ch.now
      some (result.1, { w with jobs := result.2 })
  | .lock, _ => if w.opMu = none then some ((), { w with opMu := some i }) else none
  | .unlock, _ => some ((), { w with opMu := none })
  | .go _, _ => some ((), w)
  | .command cmd, ch => some (w.runCommand locate ch cmd)
  | .listBackups, ch =>
      -- WAL-G lists the oldest backup first.
      some (if ch.ok then .ok (w.storage.reverse.map StoredBackup.info) else .error ch.output, w)
  | .getRetainCount, _ => some (w.retainCount, w)
  | .readDir dir, ch =>
      some (if ch.ok then .ok (w.dirs (locate dir)).files.keys else .error ch.output, w)
  | .removeAll dir name, ch =>
      let d := locate dir
      let x := w.dirs d
      if ch.ok then
        some (.ok (), w.setDir d { x with whole := false, files := x.files.erase name })
      else
        some (.error ch.output,
          w.setDir d { x with whole := false, files := leave x.files name ch.left })
  | .writeFile dir name content, ch =>
      let d := locate dir
      let files := (w.dirs d).files
      if ch.ok then some (.ok (), w.setFiles d (files.insert name content))
      else some (.error ch.output, w.setFiles d (leave files name ch.left))
  | .openAppend dir name, ch =>
      let d := locate dir
      let files := (w.dirs d).files
      if ch.ok then
        some (.ok (), w.setFiles d (files.insert name ((files.lookup name).getD "")))
      else some (.error ch.output, w)
  | .writeString dir name content, ch =>
      let d := locate dir
      let files := (w.dirs d).files
      if ch.ok then
        some (.ok (), w.setFiles d (files.insert name ((files.lookup name).getD "" ++ content)))
      else some (.error ch.output, w.setFiles d (leave files name ch.left))

def envStep (w : WalGWorld) : WalGEnv → Option WalGWorld
  | .setRetainCount retain => some { w with retainCount := w.retainCount.map fun _ => retain }
  | .serverExits d => some (w.setRunning d false)

end WalGWorld

def WalGEntry.body (w : WalG) : WalGEntry → WalGProgram WalGResult
  | .triggerBackup kind => WalG.triggerBackup kind
  | .restoreBackup req => WalG.restoreBackup req
  | .restartPostgreSQL => WalG.restartPostgreSQL
  | .backupJob kind jobID => WalG.underOpMu (w.backupBody jobID kind)
  | .restoreJob req jobID => WalG.underOpMu (w.restoreBody req jobID)
  | .restartJob => WalG.restartJob

def WalGEntry.isRequest : WalGEntry → Bool
  | .triggerBackup _ => true
  | .restoreBackup _ => true
  | .restartPostgreSQL => true
  | _ => false

def WalGAct.forks : WalGAct → Option WalGEntry
  | .go e => some e
  | _ => none

/-- Any number of requests with the goroutines they start. -/
def walgSystem (w : WalG) (locate : String → Nat) :
    System WalGWorld WalGAct WalGAct.Resp WalGChoice WalGEnv WalGEntry WalGResult where
  body := WalGEntry.body w
  external := WalGEntry.isRequest
  exec := WalGWorld.exec locate
  forks := WalGAct.forks
  env := WalGWorld.envStep

abbrev WalGConfig (w : WalG) (locate : String → Nat) := Config (walgSystem w locate)

end Service
end Pgaio
