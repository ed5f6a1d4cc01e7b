import Pgaio.Service.FileJobs

/-!
# DatabaseIO — export and import of a database

`ExportDatabase` and `ImportDatabase` of `handler/database.go`, and the system of all jobs that work on
temporary files.
-/

namespace Pgaio
namespace Handler

open Go Service Concurrency

/-- What the handler reads from the environment. -/
structure DbEnv where
  user : String := "postgres"
  database : String := "postgres"
  deriving DecidableEq, Repr

/-- The arguments that name the server and the database. -/
def DbEnv.target (env : DbEnv) (dbName : String) : List String :=
  ["-h", "/tmp", "-U", env.user, "-d", dbName]

def DbEnv.orDefault (env : DbEnv) (database : String) : String :=
  if database = "" then env.database else database

/-! ## Export -/

def exportFormat (q : ExportRequest) : String :=
  if q.format = "" then "custom" else q.format

def exportArgs (env : DbEnv) (q : ExportRequest) : List String :=
  env.target (env.orDefault q.database) ++ (if exportFormat q = "sql" then [] else ["-Fc"]) ++
    (if q.dataOnly then ["--data-only"] else [])

def exportExt (q : ExportRequest) : String :=
  (if q.dataOnly then "-data-only" else "") ++ (if exportFormat q = "sql" then ".sql" else ".dump")

def exportContentType (q : ExportRequest) : String :=
  if exportFormat q = "sql" then "application/sql" else "application/octet-stream"

def exportDatabase (env : DbEnv) (q : ExportRequest) : FileProgram FileResult := do
  let timestamp ← FileAct.perform (.now "20060102-150405")
  let filename := env.orDefault q.database ++ "-" ++ timestamp ++ exportExt q
  let job ← FileAct.perform (.jobs (.start "export" filename (env.orDefault q.database) "export queued"
    [("format", exportFormat q)]))
  let _ ← FileAct.perform
    (.go (.exportJob job.id (exportArgs env q) (exportExt q) filename (exportContentType q)))
  return .accepted job.id

/-- `pg_dump` into the file, which is removed unless it is handed over. -/
def dumpInto (jobID : JobID) (args : List String) (filename contentType path : String) :
    FileProgram Unit := do
  match ← FileAct.perform (.command ("pg_dump" :: args) (some path)) with
  | .error stderr => do
      let _ ← FileAct.perform (.remove path)
      FileAct.perform (.jobs (.fail jobID "pg_dump failed" stderr))
  | .ok _ =>
      match ← FileAct.perform (.fileStat path) with
      | .error err => do
          let _ ← FileAct.perform (.remove path)
          FileAct.perform (.jobs (.fail jobID "export completed but file metadata is unavailable" err))
      | .ok size =>
          FileAct.perform (.jobs (.completeWithArtifact jobID "export ready for download" (some
            { path := path
              name := filename
              contentType := contentType
              sizeBytes := size })))

def exportJob (jobID : JobID) (args : List String) (ext filename contentType : String) :
    FileProgram FileResult := do
  let _ ← FileAct.perform (.jobs (.update jobID "running pg_dump" ""))
  match ← FileAct.perform (.createTemp ("pgaio-export-*" ++ ext)) with
  | .error err => do
      let _ ← FileAct.perform (.jobs (.fail jobID "failed to create export file" err))
      return .returned
  | .ok path => do
      let _ ← dumpInto jobID args filename contentType path
      return .returned

/-! ## Import -/

def importDatabase (env : DbEnv) : Except String ImportRequest → FileProgram FileResult
  | .error err => return .refused 400 ("failed to parse upload: " ++ err)
  | .ok req =>
      match req.file with
      | none => return .refused 400 "file required"
      | some upload => do
          match ← FileAct.perform (.createTemp ("pgaio-import-*" ++ pathExt upload.filename)) with
          | .error _ => return .refused 500 "failed to create temp file"
          | .ok tmpPath =>
              match ← FileAct.perform (.copyInto tmpPath upload.data) with
              | .error _ => do
                  let _ ← FileAct.perform (.remove tmpPath)
                  return .refused 500 "failed to save upload"
              | .ok _ => do
                  let job ← FileAct.perform (.jobs (.start "import" upload.filename (env.orDefault req.database)
                    "import queued" [("file", upload.filename)]))
                  let _ ← FileAct.perform
                    (.go (.importJob job.id tmpPath (env.orDefault req.database) upload.filename req))
                  return .accepted job.id

/-- A dump for `pg_restore`, by the extension of its name. -/
def isCustom (filename : String) : Bool :=
  lowersTo (pathExt filename) ".dump" || lowersTo (pathExt filename) ".backup"

def truncSQL : String :=
  "DO $$ DECLARE r RECORD; BEGIN\n" ++
    "\t\t\t\tFOR r IN (\n" ++
    "\t\t\t\t\tSELECT schemaname, tablename\n" ++
    "\t\t\t\t\tFROM pg_tables\n" ++
    "\t\t\t\t\tWHERE schemaname NOT IN ('pg_catalog', 'information_schema', 'pg_toast')\n" ++
    "\t\t\t\t) LOOP\n" ++
    "\t\t\t\t\tEXECUTE 'TRUNCATE TABLE ' || quote_ident(r.schemaname) || '.' || " ++
    "quote_ident(r.tablename) || ' CASCADE';\n" ++
    "\t\t\t\tEND LOOP; END $$;"

def truncCmd (env : DbEnv) (dbName : String) : List String :=
  "psql" :: env.target dbName ++ ["-c", truncSQL]

def restoreArgs (env : DbEnv) (req : ImportRequest) (dbName tmpPath : String) : List String :=
  env.target dbName ++ ["--no-owner", "--no-privileges"] ++
    (if req.clean && !req.dataOnly then ["--clean", "--if-exists"] else []) ++
    (if req.dataOnly then ["--data-only"] else []) ++
    (if req.disableTriggers && req.dataOnly then ["--disable-triggers"] else []) ++
    (if req.singleTransaction then ["--single-transaction"] else []) ++
    (if req.noTablespaces then ["--no-tablespaces"] else []) ++ [tmpPath]

def psqlArgs (env : DbEnv) (req : ImportRequest) (dbName tmpPath : String) : List String :=
  env.target dbName ++ (if req.singleTransaction then ["--single-transaction"] else []) ++ ["-f", tmpPath]

def importCmd (env : DbEnv) (req : ImportRequest) (dbName filename tmpPath : String) : List String :=
  if isCustom filename then "pg_restore" :: restoreArgs env req dbName tmpPath
  else "psql" :: psqlArgs env req dbName tmpPath

def runImport (env : DbEnv) (jobID : JobID) (req : ImportRequest) (dbName filename tmpPath : String) :
    FileProgram Unit := do
  match ← FileAct.perform (.command (importCmd env req dbName filename tmpPath) none) with
  | .error out => FileAct.perform (.jobs (.fail jobID "import failed" out))
  | .ok _ => FileAct.perform (.jobs (.complete jobID "import completed successfully"))

/-- The manual cleaning is for plain SQL only. -/
def importBody (env : DbEnv) (jobID : JobID) (req : ImportRequest) (dbName filename tmpPath : String) :
    FileProgram Unit := do
  let _ ← FileAct.perform (.jobs (.update jobID "restoring database dump" ""))
  if req.clean && !isCustom filename then do
    let _ ← FileAct.perform (.jobs (.update jobID "cleaning non-system schemas before import" ""))
    match ← FileAct.perform (.command (truncCmd env dbName) none) with
    | .error out => FileAct.perform (.jobs (.fail jobID "clean step failed before import" out))
    | .ok _ => runImport env jobID req dbName filename tmpPath
  else runImport env jobID req dbName filename tmpPath

/-- The upload is removed in any case, after everything else. -/
def importJob (env : DbEnv) (jobID : JobID) (tmpPath dbName filename : String) (req : ImportRequest) :
    FileProgram FileResult := do
  let _ ← importBody env jobID req dbName filename tmpPath
  let _ ← FileAct.perform (.remove tmpPath)
  return .returned

/-! ## The system -/

def fileBody (env : DbEnv) : FileEntry → FileProgram FileResult
  | .exportDatabase q => exportDatabase env q
  | .importDatabase form => importDatabase env form
  | .verifyBackup backupName => verifyBackup backupName
  | .exportJob jobID args ext filename contentType => exportJob jobID args ext filename contentType
  | .importJob jobID tmpPath dbName filename req => importJob env jobID tmpPath dbName filename req
  | .verifyJob jobID name => verifyJob jobID name

/-- Any number of requests with the goroutines they start. -/
def fileSystem (env : DbEnv) : System FileWorld FileAct FileAct.Resp FileChoice FileEnv FileEntry
      FileResult where
  body := fileBody env
  external := FileEntry.isRequest
  exec := FileWorld.exec
  forks := FileAct.forks
  env := FileWorld.envStep

abbrev FileConfig (env : DbEnv) := Config (fileSystem env)

/-- No request has arrived, and there are neither jobs nor files. -/
def fileStart (env : DbEnv) : FileConfig env :=
  Config.initial (fileSystem env) {}

end Handler
end Pgaio
