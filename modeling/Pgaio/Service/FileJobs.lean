import Pgaio.Concurrency.Threads
import Pgaio.Service.JobArtifacts

/-!
# FileJobs — background jobs that work on temporary files

What `ExportDatabase` and `ImportDatabase` of `handler/database.go` and `VerifyBackup` of `service/walg.go`
act on: the job store and the temporary files and directories, with the goroutines as programs over these.
The programs of the first two are in `Handler.DatabaseIO`.

A `FileChoice` resolves the outcome of an action.  An entry of `disk` is a file with its content or a
directory; what a directory contains is not told apart.  Nobody else touches these files; other handlers use
the same job store for their own jobs (`FileEnv`), none of which has an artifact.
-/

namespace Pgaio
namespace Service

open Go Concurrency

/-! ## Requests -/

/-- The parameters of the query. -/
structure ExportRequest where
  database : String := ""
  format : String := ""
  dataOnly : Bool := false
  deriving DecidableEq, Repr

structure Upload where
  filename : String
  data : String
  deriving DecidableEq, Repr

/-- The values of the form; `file` is `none` when `FormFile` fails. -/
structure ImportRequest where
  file : Option Upload := none
  database : String := ""
  dataOnly : Bool := false
  disableTriggers : Bool := false
  singleTransaction : Bool := false
  clean : Bool := false
  noTablespaces : Bool := false
  deriving DecidableEq, Repr

inductive FileEntry where
  | exportDatabase (q : ExportRequest)
  /-- `form` is the error of `ParseMultipartForm` or what the form holds. -/
  | importDatabase (form : Except String ImportRequest)
  | verifyBackup (backupName : String)
  /-- The goroutine of `ExportDatabase`. -/
  | exportJob (jobID : JobID) (args : List String) (ext filename contentType : String)
  /-- The goroutine of `ImportDatabase`. -/
  | importJob (jobID : JobID) (tmpPath dbName filename : String) (req : ImportRequest)
  /-- The goroutine of `VerifyBackup`. -/
  | verifyJob (jobID : JobID) (name : String)

/-! ## Actions -/

inductive FileAct where
  | jobs (call : JobCall)
  | go (e : FileEntry)
  /-- `time.Now()` in a layout. -/
  | now (layout : String)
  | latestBackupName
  | createTemp (pattern : String)
  | mkdirTemp (pattern : String)
  | mkdirAll (path : String)
  /-- `io.Copy` into an open file. -/
  | copyInto (path data : String)
  /-- `cmd.Run` or `cmd.CombinedOutput`; `stdout` is the file that gets the output. -/
  | command (argv : List String) (stdout : Option String)
  /-- `Stat` of an open file. -/
  | fileStat (path : String)
  | writeString (path content : String)
  | close (path : String)
  | stat (path : String)
  | readFile (path : String)
  | readDir (path : String)
  | remove (path : String)
  | removeAll (path : String)

@[reducible] def FileAct.Resp : FileAct → Type
  | .jobs call => call.Resp
  | .go _ => Unit
  | .now _ => String
  | .latestBackupName => Except String String
  | .createTemp _ => Except String String
  | .mkdirTemp _ => Except String String
  | .mkdirAll _ => Except String Unit
  | .copyInto _ _ => Except String Unit
  | .command _ _ => Except String String
  | .fileStat _ => Except String Int
  | .writeString _ _ => Except String Unit
  | .close _ => Except String Unit
  | .stat _ => Except String Int
  | .readFile _ => Except String String
  | .readDir _ => Except String Nat
  | .remove _ => Except String Unit
  | .removeAll _ => Except String Unit

inductive FileResult where
  | accepted (jobID : JobID)
  | refused (code : Nat) (error : String)
  /-- The end of a goroutine. -/
  | returned
  deriving DecidableEq, Repr

abbrev FileProgram := Program FileAct FileAct.Resp
abbrev FileEvent := Event FileAct FileAct.Resp

/-! ## World -/

structure FileWorld where
  disk : AList (fun _ : String => String) := ∅
  jobs : JobStore := {}

/-- The outcome of an action: `output` is a text it yields, an error message if it fails, `size` a number
it yields, and `content` what it leaves in a file. -/
structure FileChoice where
  now : Time := 1
  ok : Bool := true
  random : String := ""
  output : String := ""
  size : Nat := 0
  content : String := ""

namespace FileWorld

/-- Write to an open file; it is only seen if the file has not been removed. -/
def write (w : FileWorld) (path content : String) : FileWorld :=
  if path ∈ w.disk then { w with disk := w.disk.insert path content } else w

/-- A new file or directory; never one that exists. -/
def create (w : FileWorld) (ch : FileChoice) (pattern : String) :
    Option (Except String String × FileWorld) :=
  let path := tempPath pattern ch.random
  if ch.ok then
    if path ∈ w.disk then none else some (.ok path, { w with disk := w.disk.insert path "" })
  else some (.error ch.output, w)

def erase (w : FileWorld) (ch : FileChoice) (path : String) : Except String Unit × FileWorld :=
  if ch.ok then (.ok (), { w with disk := w.disk.erase path }) else (.error ch.output, w)

/-- The files of the jobs for which the call has run `cleanupFn`. -/
def dropped (s s' : JobStore) : List String :=
  (s'.cleaned.take (s'.cleaned.length - s.cleaned.length)).filterMap Job.file?

/-- `cleanupFn` ignores an error. -/
def cleanUp (w : FileWorld) (ch : FileChoice) (s' : JobStore) : FileWorld :=
  { disk := if ch.ok then (dropped w.jobs s').foldl (fun disk path => disk.erase path) w.disk else w.disk
    jobs := s' }

def sizeOf (w : FileWorld) (ch : FileChoice) (path : String) : Except String Int :=
  if ch.ok then .ok (((w.disk.lookup path).map String.utf8ByteSize).getD ch.size) else .error ch.output

def outcome {α : Type} (ch : FileChoice) (x : α) : Except String α :=
  if ch.ok then .ok x else .error ch.output

/-- The effect of an action. -/
def exec (w : FileWorld) (_ : Nat) : (a : FileAct) → FileChoice → Option (a.Resp × FileWorld)
  | .jobs call, ch =>
      let result := call.exec w.jobs ch.now
      some (result.1, w.cleanUp ch result.2)
  | .go _, _ => some ((), w)
  | .now _, ch => some (ch.output, w)
  | .latestBackupName, ch => some (outcome ch ch.output, w)
  | .createTemp pattern, ch => w.create ch pattern
  | .mkdirTemp pattern, ch => w.create ch pattern
  | .mkdirAll _, ch => some (outcome ch (), w)
  | .copyInto path data, ch => some (outcome ch (), w.write path (if ch.ok then data else ch.content))
  | .command _ stdout, ch =>
      some (outcome ch ch.output, stdout.elim w fun path => w.write path ch.content)
  | .fileStat path, ch => some (w.sizeOf ch path, w)
  | .writeString path content, ch =>
      some (outcome ch (), w.write path (if ch.ok then content else ch.content))
  | .close _, ch => some (outcome ch (), w)
  | .stat path, ch => some (w.sizeOf ch path, w)
  | .readFile _, ch => some (outcome ch ch.output, w)
  | .readDir _, ch => some (outcome ch ch.size, w)
  | .remove path, ch => some (w.erase ch path)
  | .removeAll path, ch => some (w.erase ch path)

end FileWorld

/-- The types of the jobs modelled here. -/
def fileJobTypes : List String :=
  ["export", "import", "backup_verify"]

/-- A call of the store that other handlers make. -/
structure FileEnv where
  ch : FileChoice
  call : JobCall

/-- Other handlers start jobs of other types, change these, and look at any job. -/
def foreign (s : JobStore) : JobCall → Bool
  | .start jobType _ _ _ _ => !fileJobTypes.contains jobType
  | .completeWithArtifact _ _ _ => false
  | .get _ => true
  | .update jobID _ _ | .complete jobID _ | .fail jobID _ _ | .cancel jobID _ =>
      (s.get jobID).all fun job => !fileJobTypes.contains job.jobType

def FileWorld.envStep (w : FileWorld) (y : FileEnv) : Option FileWorld :=
  if foreign w.jobs y.call then some (w.cleanUp y.ch (y.call.exec w.jobs y.ch.now).2) else none

def FileEntry.isRequest : FileEntry → Bool
  | .exportDatabase _ => true
  | .importDatabase _ => true
  | .verifyBackup _ => true
  | _ => false

def FileAct.forks : FileAct → Option FileEntry
  | .go e => some e
  | _ => none

/-! ## Verification of a backup -/

abbrev FileAct.perform (a : FileAct) : FileProgram a.Resp :=
  Program.perform a

def sanitizeArtifactName (name : String) : String :=
  String.ofList (name.toList.map fun c => if ['/', '\\', ' ', ':'].contains c then '_' else c)

def verificationReport (name verifiedAt pgVersion : String) (baseDirectories : Nat) (controlSize : Int) :
    String :=
  "PGAIO backup verification report\n" ++ "================================\n" ++
    "backup: " ++ name ++ "\n" ++ "verified_at: " ++ verifiedAt ++ "\n" ++
    "pg_version: " ++ trimSpace pgVersion ++ "\n" ++
    "base_directories: " ++ itoa baseDirectories ++ "\n" ++
    "pg_control_size_bytes: " ++ itoa controlSize ++ "\n"

def failVerification (jobID : JobID) (details : String) : FileProgram Unit :=
  FileAct.perform (.jobs (.fail jobID "verification failed" details))

/-- The file of the report and its handing over. -/
def reportArtifact (jobID : JobID) (name report : String) : FileProgram Unit := do
  match ← FileAct.perform (.createTemp ("pgaio-verify-" ++ sanitizeArtifactName name ++ "-*.txt")) with
  | .error err => failVerification jobID err
  | .ok reportPath =>
      match ← FileAct.perform (.writeString reportPath report) with
      | .error err => failVerification jobID err
      | .ok _ =>
          match ← FileAct.perform (.close reportPath) with
          | .error err => failVerification jobID err
          | .ok _ =>
              match ← FileAct.perform (.stat reportPath) with
              | .error err => failVerification jobID err
              | .ok size =>
                  FileAct.perform (.jobs (.completeWithArtifact jobID "backup verification completed" (some
                    { path := reportPath
                      name := pathBase reportPath
                      contentType := "text/plain; charset=utf-8"
                      sizeBytes := size })))

/-- What is looked for in the fetched backup. -/
def inspectBackup (jobID : JobID) (restoreDir name : String) : FileProgram Unit := do
  match ← FileAct.perform (.readFile (joinPath restoreDir "PG_VERSION")) with
  | .error _ => failVerification jobID "missing PG_VERSION in fetched backup"
  | .ok pgVersion =>
      match ← FileAct.perform (.stat (joinPath restoreDir "global/pg_control")) with
      | .error _ => failVerification jobID "missing global/pg_control in fetched backup"
      | .ok controlSize =>
          match ← FileAct.perform (.readDir (joinPath restoreDir "base")) with
          | .error _ => failVerification jobID "missing base directory in fetched backup"
          | .ok baseDirectories => do
              let verifiedAt ← FileAct.perform (.now "2006-01-02T15:04:05Z07:00")
              reportArtifact jobID name
                (verificationReport name verifiedAt pgVersion baseDirectories controlSize)

def verifyBody (jobID : JobID) (tmpDir name : String) : FileProgram Unit := do
  match ← FileAct.perform (.mkdirAll (joinPath tmpDir "restore")) with
  | .error err => failVerification jobID err
  | .ok _ => do
      let _ ← FileAct.perform (.jobs (.update jobID "fetching backup into scratch directory" ""))
      match ← FileAct.perform (.command ["wal-g", "backup-fetch", joinPath tmpDir "restore", name] none) with
      | .error out =>
          FileAct.perform (.jobs (.fail jobID "verification failed while fetching backup" out))
      | .ok _ => inspectBackup jobID (joinPath tmpDir "restore") name

/-- The scratch directory is removed in any case, after everything else. -/
def verifyJob (jobID : JobID) (name : String) : FileProgram FileResult := do
  match ← FileAct.perform (.mkdirTemp "pgaio-verify-*") with
  | .error err => do
      let _ ← failVerification jobID err
      return .returned
  | .ok tmpDir => do
      let _ ← verifyBody jobID tmpDir name
      let _ ← FileAct.perform (.removeAll tmpDir)
      return .returned

def startVerification (name : String) : FileProgram FileResult := do
  let job ← FileAct.perform
    (.jobs (.start "backup_verify" name "" "verification queued" [("backupName", name)]))
  let _ ← FileAct.perform (.go (.verifyJob job.id name))
  return .accepted job.id

/-- The name that is asked for, or that of the latest backup. -/
def verifyBackup (backupName : String) : FileProgram FileResult :=
  let name := trimSpace backupName
  if name = "" || equalFold name "latest" then do
    match ← FileAct.perform .latestBackupName with
    | .error err => return .refused 400 err
    | .ok latest => startVerification latest
  else startVerification name

end Service
end Pgaio
