import Pgaio.Concurrency.Summary
import Pgaio.Handler.DatabaseIO

/-!
# FileBooks — what a job on temporary files is responsible for

`Books` is what the past of a thread amounts to: the files it has to remove or hand over, the jobs it has to
end and how it has ended them.  Whatever their actions yield, the programs keep to `Allows` and close their
books (`fileBody_safe`).
-/

namespace Pgaio
namespace Handler

open Go Service Concurrency

/-! ## Books -/

/-- `files` are the files that the thread is responsible for, `ids` the jobs that it has to end; `lost` says
that a file could not be removed or handed over, `failed` that some action has failed, and `ended` lists how
jobs were ended, each with `failed` at that time. -/
structure Books where
  files : List String := []
  ids : List JobID := []
  lost : Bool := false
  failed : Bool := false
  ended : List (JobID × JobStatus × Bool) := []
  deriving DecidableEq, Repr

def entryFiles : FileEntry → List String
  | .importJob _ tmpPath _ _ _ => [tmpPath]
  | _ => []

def entryIds : FileEntry → List JobID
  | .exportJob jobID _ _ _ _ => [jobID]
  | .importJob jobID _ _ _ _ => [jobID]
  | .verifyJob jobID _ => [jobID]
  | _ => []

/-- The job that a call ends. -/
def endedJob? : JobCall → Option (JobID × JobStatus)
  | .complete jobID _ => some (jobID, .succeeded)
  | .completeWithArtifact jobID _ _ => some (jobID, .succeeded)
  | .fail jobID _ _ => some (jobID, .failed)
  | .cancel jobID _ => some (jobID, .canceled)
  | _ => none

namespace Books

def drop (b : Books) (path : String) : Books :=
  { b with files := b.files.erase path }

def fail (b : Books) : Books :=
  { b with failed := true }

/-- An operation on the file has failed. -/
def spoil (b : Books) (path : String) : Books :=
  { b with lost := b.lost || b.files.contains path, failed := true }

/-- After a call of the job store; the response matters for `Start` only. -/
def afterCall (b : Books) : (call : JobCall) → call.Resp → Books
  | .start _ _ _ _ _, job => { b with ids := job.id :: b.ids }
  | .complete jobID _, _ =>
      { b with ids := b.ids.erase jobID, ended := b.ended ++ [(jobID, .succeeded, b.failed)] }
  | .completeWithArtifact jobID _ artifact, _ =>
      { b with
        files := artifact.elim b.files fun artifact => b.files.erase artifact.path
        ids := b.ids.erase jobID
        ended := b.ended ++ [(jobID, .succeeded, b.failed)] }
  | .fail jobID _ _, _ =>
      { b with ids := b.ids.erase jobID, ended := b.ended ++ [(jobID, .failed, b.failed)] }
  | .cancel jobID _, _ =>
      { b with ids := b.ids.erase jobID, ended := b.ended ++ [(jobID, .canceled, b.failed)] }
  | _, _ => b

/-- After an action and its response. -/
def after (b : Books) : (a : FileAct) → a.Resp → Books
  | .jobs call, r => b.afterCall call r
  | .go e, _ =>
      { b with
        files := b.files.diff (entryFiles e)
        ids := b.ids.diff (entryIds e) }
  | .createTemp _, .ok path => { b with files := path :: b.files }
  | .mkdirTemp _, .ok path => { b with files := path :: b.files }
  | .remove path, .ok _ => b.drop path
  | .removeAll path, .ok _ => b.drop path
  | .remove path, .error _ => b.spoil path
  | .removeAll path, .error _ => b.spoil path
  | .writeString path _, .error _ => b.spoil path
  | .close path, .error _ => b.spoil path
  | .stat path, .error _ => b.spoil path
  | .latestBackupName, .error _ => b.fail
  | .createTemp _, .error _ => b.fail
  | .mkdirTemp _, .error _ => b.fail
  | .mkdirAll _, .error _ => b.fail
  | .copyInto _ _, .error _ => b.fail
  | .command _ _, .error _ => b.fail
  | .fileStat _, .error _ => b.fail
  | .readFile _, .error _ => b.fail
  | .readDir _, .error _ => b.fail
  | _, _ => b

end Books

def startBooks (e : FileEntry) : Books :=
  { files := entryFiles e, ids := entryIds e }

def books (e : FileEntry) (past : List FileEvent) : Books :=
  summary Books.after (startBooks e) past

/-! ## What the programs do -/

namespace Books

/-- The call is about a job that the thread has to end, ends it according to what has happened, and hands
over nothing but its own file. -/
def AllowsCall (b : Books) : JobCall → Prop
  | .start jobType _ _ _ _ => jobType ∈ fileJobTypes
  | .update jobID _ _ => jobID ∈ b.ids
  | .complete jobID _ => jobID ∈ b.ids ∧ b.failed = false
  | .completeWithArtifact jobID _ artifact =>
      jobID ∈ b.ids ∧ b.failed = false ∧ ∀ path, artifact.map JobArtifact.path = some path → path ∈ b.files
  | .fail jobID _ _ => jobID ∈ b.ids ∧ b.failed = true
  | .cancel _ _ => False
  | .get _ => False

/-- Only own files are removed, and what another thread is started with is passed on to it. -/
def Allows (b : Books) : FileAct → Prop
  | .jobs call => b.AllowsCall call
  | .go e => entryFiles e ⊆ b.files ∧ entryIds e ⊆ b.ids
  | .remove path => path ∈ b.files
  | .removeAll path => path ∈ b.files
  | _ => True

/-- At the end no job is left to be ended, and a file only if it was lost. -/
structure Closed (b : Books) : Prop where
  ids : b.ids = []
  files : b.files ≠ [] → b.lost = true

/-- How a goroutine has ended its job. -/
def Ended (b : Books) (jobID : JobID) : Prop :=
  ∃ failed, b.ended = [(jobID, if failed then .failed else .succeeded, failed)]

end Books

/-- What the books of an entry point say at its end. -/
def AtEnd (e : FileEntry) (b : Books) : Prop :=
  b.Closed ∧ ∀ jobID ∈ entryIds e, b.Ended jobID

abbrev FileSafe {α : Type} (post : Books → α → Prop) (b : Books) (p : FileProgram α) : Prop :=
  Program.safe Books.after Books.Allows post b p

/-- The job has been ended; of the files there is one left to be removed, and others only if they were
lost. -/
structure Books.Done (b : Books) (jobID : JobID) (path : String) : Prop where
  ids : b.ids = []
  ended : b.Ended jobID
  mem : path ∈ b.files
  rest : b.files ≠ [path] → b.lost = true

variable {jobID : JobID} {path : String} {b : Books}

attribute [local simp] Books.after Books.afterCall Books.drop Books.spoil Books.fail

/-- Reporting a failure ends the job. -/
theorem Books.Done.fail (hids : b.ids = [jobID]) (hended : b.ended = []) (hmem : path ∈ b.files)
    (hrest : b.files ≠ [path] → b.lost = true) (hfailed : b.failed = true) (message details : String) :
    FileSafe (fun b _ => b.Done jobID path) b (FileAct.perform (.jobs (.fail jobID message details))) := by
  refine Program.safe_last ?_ fun _ => ?_
  · simp [Books.Allows, Books.AllowsCall, hids, hfailed]
  · refine ⟨?_, ⟨b.failed, ?_⟩, hmem, hrest⟩
    · simp [hids]
    · simp [hended, hfailed]

theorem runImport_safe {env : DbEnv} {req : ImportRequest} {dbName filename tmpPath : String} :
    FileSafe (fun b _ => b.Done jobID path) { files := [path], ids := [jobID] }
      (runImport env jobID req dbName filename tmpPath) := by
  refine Program.safe_perform trivial fun out => ?_
  cases out with
  | error out => exact Books.Done.fail rfl rfl (List.mem_singleton_self _) (fun h => absurd rfl h) rfl _ _
  | ok out =>
      refine Program.safe_last ⟨List.mem_singleton_self _, rfl⟩ fun _ => ?_
      refine ⟨?_, ⟨false, rfl⟩, List.mem_singleton_self _, fun h => absurd rfl h⟩
      simp

theorem importBody_safe {env : DbEnv} {req : ImportRequest} {dbName filename tmpPath : String} :
    FileSafe (fun b _ => b.Done jobID path) { files := [path], ids := [jobID] }
      (importBody env jobID req dbName filename tmpPath) := by
  refine Program.safe_perform (List.mem_singleton_self _) fun _ => ?_
  split
  · refine Program.safe_perform (List.mem_singleton_self _) fun _ => ?_
    refine Program.safe_perform trivial fun out => ?_
    cases out with
    | error out => exact Books.Done.fail rfl rfl (List.mem_singleton_self _) (fun h => absurd rfl h) rfl _ _
    | ok out => exact runImport_safe
  · exact runImport_safe

/-- The deferred removal at the end of a goroutine. -/
theorem Books.Done.removed {e : FileEntry} (h : b.Done jobID path) (hids : entryIds e = [jobID])
    {a : FileAct} (ha : a = .remove path ∨ a = .removeAll path) :
    FileSafe (fun b (_ : FileResult) => AtEnd e b) b (FileAct.perform a >>= fun _ => return .returned) := by
  have hmem := h.mem
  have hfiles : b.files.erase path ≠ [] → b.lost = true := by
    intro hne
    refine h.rest fun hone => hne ?_
    simp [hone]
  have hended (b' : Books) (hb : b'.ended = b.ended) : ∀ id ∈ entryIds e, b'.Ended id := by
    intro id hid
    rw [hids, List.mem_singleton] at hid
    obtain ⟨failed, hfailed⟩ := h.ended
    exact ⟨failed, by rw [hb, hid, hfailed]⟩
  rcases ha with rfl | rfl
  · refine Program.safe_perform hmem fun removed => ?_
    cases removed with
    | error err => exact ⟨⟨h.ids, fun _ => by simp [hmem]⟩, hended _ rfl⟩
    | ok _ => exact ⟨⟨h.ids, hfiles⟩, hended _ rfl⟩
  · refine Program.safe_perform hmem fun removed => ?_
    cases removed with
    | error err => exact ⟨⟨h.ids, fun _ => by simp [hmem]⟩, hended _ rfl⟩
    | ok _ => exact ⟨⟨h.ids, hfiles⟩, hended _ rfl⟩

theorem importJob_safe (env : DbEnv) (tmpPath dbName filename : String) (req : ImportRequest) :
    FileSafe (fun b _ => AtEnd (.importJob jobID tmpPath dbName filename req) b)
      (startBooks (.importJob jobID tmpPath dbName filename req))
      (importJob env jobID tmpPath dbName filename req) := by
  refine (Program.safe_bind _ _).2 ?_
  exact Program.safe_mono (fun b _ hdone => hdone.removed rfl (.inl rfl)) importBody_safe

/-! ### Export -/

theorem dumpInto_safe {args : List String} {filename contentType : String} :
    FileSafe (fun b _ => b.Closed ∧ b.Ended jobID) { files := [path], ids := [jobID] }
      (dumpInto jobID args filename contentType path) := by
  -- A file that cannot be offered is removed before the failure is reported.
  have hremove (b : Books) (hfiles : b.files = [path]) (hids : b.ids = [jobID]) (hended : b.ended = [])
      (hfailed : b.failed = true) (message details : String) :
      FileSafe (fun b _ => b.Closed ∧ b.Ended jobID) b
        (FileAct.perform (.remove path) >>= fun _ =>
          FileAct.perform (.jobs (.fail jobID message details))) := by
    refine Program.safe_perform (by simp [Books.Allows, hfiles]) fun removed => ?_
    cases removed with
    | error err =>
        refine Program.safe_last ?_ fun _ => ⟨⟨?_, fun _ => ?_⟩, true, ?_⟩
        · simp [Books.Allows, Books.AllowsCall, hids]
        · simp [hids]
        · simp [hfiles]
        · simp [hended]
    | ok _ =>
        refine Program.safe_last ?_ fun _ => ⟨⟨?_, fun hne => absurd ?_ hne⟩, true, ?_⟩
        · simp [Books.Allows, Books.AllowsCall, hids, hfailed]
        · simp [hids]
        · simp [hfiles]
        · simp [hended, hfailed]
  refine Program.safe_perform trivial fun out => ?_
  cases out with
  | error stderr => exact hremove _ rfl rfl rfl rfl _ _
  | ok _ =>
      refine Program.safe_perform trivial fun info => ?_
      cases info with
      | error err => exact hremove _ rfl rfl rfl rfl _ _
      | ok size =>
          refine Program.safe_last ⟨List.mem_singleton_self _, rfl, ?_⟩ fun _ =>
            ⟨⟨?_, fun hne => absurd ?_ hne⟩, false, rfl⟩
          · intro other hother
            exact List.mem_singleton.2 (Option.some.inj hother).symm
          · simp
          · simp

theorem exportJob_safe (args : List String) (ext filename contentType : String) :
    FileSafe (fun b _ => AtEnd (.exportJob jobID args ext filename contentType) b)
      (startBooks (.exportJob jobID args ext filename contentType))
      (exportJob jobID args ext filename contentType) := by
  have hend (b : Books) (hb : b.Closed ∧ b.Ended jobID) :
      AtEnd (.exportJob jobID args ext filename contentType) b := by
    refine ⟨hb.1, fun id hid => ?_⟩
    rw [List.mem_singleton.1 hid]
    exact hb.2
  refine Program.safe_perform (List.mem_singleton_self _) fun _ => ?_
  refine Program.safe_perform trivial fun created => ?_
  cases created with
  | error err =>
      refine Program.safe_perform ⟨List.mem_singleton_self _, rfl⟩ fun _ => ?_
      refine hend _ ⟨⟨?_, fun hne => absurd rfl hne⟩, true, rfl⟩
      simp [startBooks, entryIds]
  | ok path =>
      refine (Program.safe_bind _ _).2 ?_
      exact Program.safe_mono (fun b _ hb => hend b hb) dumpInto_safe

/-! ### Verification -/

theorem failVerification_safe (hids : b.ids = [jobID]) (hended : b.ended = []) (hmem : path ∈ b.files)
    (hrest : b.files ≠ [path] → b.lost = true) (hfailed : b.failed = true) (details : String) :
    FileSafe (fun b _ => b.Done jobID path) b (failVerification jobID details) :=
  Books.Done.fail hids hended hmem hrest hfailed _ _

/-- A report that cannot be handed over is lost. -/
theorem reportArtifact_safe {name report : String} :
    FileSafe (fun b _ => b.Done jobID path) { files := [path], ids := [jobID] }
      (reportArtifact jobID name report) := by
  refine Program.safe_perform trivial fun created => ?_
  cases created with
  | error err => exact failVerification_safe rfl rfl (List.mem_singleton_self _) (fun h => absurd rfl h) rfl _
  | ok reportPath =>
      -- Both are held from here on.
      have hmem : path ∈ [reportPath, path] := List.mem_cons_of_mem _ (List.mem_singleton_self _)
      have hlost (b : Books) (hids : b.ids = [jobID]) (hended : b.ended = [])
          (hfiles : b.files = [reportPath, path]) (hspoilt : b.lost = true) (hfailed : b.failed = true)
          (details : String) :
          FileSafe (fun b _ => b.Done jobID path) b (failVerification jobID details) :=
        failVerification_safe hids hended (hfiles ▸ hmem) (fun _ => hspoilt) hfailed details
      refine Program.safe_perform trivial fun written => ?_
      cases written with
      | error err => exact hlost _ rfl rfl rfl (by simp) rfl _
      | ok _ =>
          refine Program.safe_perform trivial fun closed => ?_
          cases closed with
          | error err => exact hlost _ rfl rfl rfl (by simp) rfl _
          | ok _ =>
              refine Program.safe_perform trivial fun info => ?_
              cases info with
              | error err => exact hlost _ rfl rfl rfl (by simp) rfl _
              | ok size =>
                  refine Program.safe_last ⟨List.mem_singleton_self _, rfl, ?_⟩ fun _ =>
                    ⟨?_, ⟨false, rfl⟩, ?_, fun hne => absurd ?_ hne⟩
                  · intro other hother
                    obtain rfl := Option.some.inj hother
                    exact List.mem_cons_self
                  · simp
                  · simp
                  · simp

theorem inspectBackup_safe {restoreDir name : String} :
    FileSafe (fun b _ => b.Done jobID path) { files := [path], ids := [jobID] }
      (inspectBackup jobID restoreDir name) := by
  refine Program.safe_perform trivial fun version => ?_
  cases version with
  | error err => exact failVerification_safe rfl rfl (List.mem_singleton_self _) (fun h => absurd rfl h) rfl _
  | ok pgVersion =>
      refine Program.safe_perform trivial fun control => ?_
      cases control with
      | error err =>
          exact failVerification_safe rfl rfl (List.mem_singleton_self _) (fun h => absurd rfl h) rfl _
      | ok controlSize =>
          refine Program.safe_perform trivial fun base => ?_
          cases base with
          | error err =>
              exact failVerification_safe rfl rfl (List.mem_singleton_self _) (fun h => absurd rfl h) rfl _
          | ok baseDirectories => exact Program.safe_perform trivial fun _ => reportArtifact_safe

theorem verifyBody_safe {name : String} :
    FileSafe (fun b _ => b.Done jobID path) { files := [path], ids := [jobID] }
      (verifyBody jobID path name) := by
  refine Program.safe_perform trivial fun made => ?_
  cases made with
  | error err => exact failVerification_safe rfl rfl (List.mem_singleton_self _) (fun h => absurd rfl h) rfl _
  | ok _ =>
      refine Program.safe_perform (List.mem_singleton_self _) fun _ => ?_
      refine Program.safe_perform trivial fun fetched => ?_
      cases fetched with
      | error out => exact Books.Done.fail rfl rfl (List.mem_singleton_self _) (fun h => absurd rfl h) rfl _ _
      | ok _ => exact inspectBackup_safe

theorem verifyJob_safe (name : String) :
    FileSafe (fun b _ => AtEnd (.verifyJob jobID name) b) (startBooks (.verifyJob jobID name))
      (verifyJob jobID name) := by
  refine Program.safe_perform trivial fun made => ?_
  cases made with
  | error err =>
      refine Program.safe_perform ⟨List.mem_singleton_self _, rfl⟩ fun _ => ?_
      refine ⟨⟨?_, fun hne => absurd rfl hne⟩, fun id hid => ⟨true, ?_⟩⟩
      · simp [startBooks, entryIds]
      · rw [List.mem_singleton.1 hid]
        rfl
  | ok tmpDir =>
      refine (Program.safe_bind _ _).2 ?_
      exact Program.safe_mono (fun b _ hdone => hdone.removed rfl (.inr rfl)) verifyBody_safe

/-! ### Requests -/

theorem diff_self (files : List String) : files.diff files = [] := by
  induction files with
  | nil => rfl
  | cons file files ih => simp [ih]

/-- A job is started and passed on to its goroutine, with what else the goroutine is started with. -/
theorem startJob_safe {e : FileEntry} {jobType target database message : String}
    {metadata : List (String × String)} {files : List String} (goroutine : JobID → FileEntry)
    (htype : jobType ∈ fileJobTypes) (he : entryIds e = [])
    (hfiles : ∀ jobID, entryFiles (goroutine jobID) = files)
    (hids : ∀ jobID, entryIds (goroutine jobID) = [jobID]) :
    FileSafe (fun b (_ : FileResult) => AtEnd e b) { files := files }
      (FileAct.perform (.jobs (.start jobType target database message metadata)) >>= fun job =>
        FileAct.perform (.go (goroutine job.id)) >>= fun _ => return .accepted job.id) := by
  refine Program.safe_perform htype fun job => ?_
  refine Program.safe_perform ⟨?_, ?_⟩ fun _ => ⟨⟨?_, fun hne => absurd ?_ hne⟩, fun id hid => ?_⟩
  · rw [hfiles]
    exact List.Subset.refl _
  · rw [hids]
    exact List.Subset.refl _
  · simp [hids]
  · simp [hfiles, diff_self]
  · rw [he] at hid
    cases hid

/-- A request that is refused has done nothing that lasts. -/
theorem atEnd_of_idle {e : FileEntry} (he : entryIds e = []) (hids : b.ids = [])
    (hfiles : b.files ≠ [] → b.lost = true) : AtEnd e b := by
  refine ⟨⟨hids, hfiles⟩, fun id hid => ?_⟩
  rw [he] at hid
  cases hid

theorem exportDatabase_safe (env : DbEnv) (q : ExportRequest) :
    FileSafe (fun b _ => AtEnd (.exportDatabase q) b) (startBooks (.exportDatabase q))
      (exportDatabase env q) := by
  refine Program.safe_perform trivial fun timestamp => ?_
  exact startJob_safe (fun jobID => .exportJob jobID _ _ _ _) (by decide) rfl (fun _ => rfl)
    (fun _ => rfl)

theorem importDatabase_safe (env : DbEnv) (form : Except String ImportRequest) :
    FileSafe (fun b _ => AtEnd (.importDatabase form) b) (startBooks (.importDatabase form))
      (importDatabase env form) := by
  cases form with
  | error err => exact atEnd_of_idle rfl rfl fun hne => absurd rfl hne
  | ok req =>
      simp only [importDatabase]
      cases req.file with
      | none => exact atEnd_of_idle rfl rfl fun hne => absurd rfl hne
      | some upload =>
          refine Program.safe_perform trivial fun created => ?_
          cases created with
          | error err => exact atEnd_of_idle rfl rfl fun hne => absurd rfl hne
          | ok tmpPath =>
              refine Program.safe_perform trivial fun copied => ?_
              cases copied with
              | error err =>
                  refine Program.safe_perform (List.mem_singleton_self _) fun removed => ?_
                  cases removed with
                  | error err =>
                      exact atEnd_of_idle rfl rfl fun _ => by
                        simp [startBooks]
                  | ok _ =>
                      refine atEnd_of_idle rfl rfl fun hne => absurd ?_ hne
                      simp [startBooks, entryFiles]
              | ok _ =>
                  exact startJob_safe (fun jobID => .importJob jobID tmpPath _ _ req) (by decide) rfl
                    (fun _ => rfl) (fun _ => rfl)

theorem startVerification_safe {e : FileEntry} (he : entryIds e = []) (name : String) :
    FileSafe (fun b _ => AtEnd e b) {} (startVerification name) :=
  startJob_safe (fun jobID => .verifyJob jobID name) (by decide) he (fun _ => rfl)
    (fun _ => rfl)

theorem verifyBackup_safe (backupName : String) :
    FileSafe (fun b _ => AtEnd (.verifyBackup backupName) b) (startBooks (.verifyBackup backupName))
      (verifyBackup backupName) := by
  unfold verifyBackup
  simp only
  split
  · refine Program.safe_perform trivial fun latest => ?_
    cases latest with
    | error err => exact atEnd_of_idle rfl rfl fun hne => absurd rfl hne
    | ok name => exact startVerification_safe rfl name
  · exact startVerification_safe rfl _

theorem fileBody_safe (env : DbEnv) (e : FileEntry) :
    FileSafe (fun b _ => AtEnd e b) (startBooks e) (fileBody env e) := by
  cases e with
  | exportDatabase q => exact exportDatabase_safe env q
  | importDatabase form => exact importDatabase_safe env form
  | verifyBackup backupName => exact verifyBackup_safe backupName
  | exportJob jobID args ext filename contentType => exact exportJob_safe args ext filename contentType
  | importJob jobID tmpPath dbName filename req => exact importJob_safe env tmpPath dbName filename req
  | verifyJob jobID name => exact verifyJob_safe name

end Handler
end Pgaio
