import Pgaio.Concurrency.Ledger
import Pgaio.Handler.FileBooks
import Pgaio.Service.JobOffers
import Mathlib.Data.List.Count

/-!
# TempFiles — who owns a temporary file, and who ends a job

Every temporary file has one owner: the request or goroutine that has created it and will remove it, or the
stored job that offers it for download.  The same accounting with job IDs shows that a job is ended by its
goroutine alone.  Both are ledgers over all interleavings of requests, goroutines and the calls of other
handlers.
-/

namespace Pgaio
namespace Handler

open Go Service Concurrency Transition

variable (env : DbEnv)

/-- A job that belongs to one of the goroutines here. -/
def isFileJob (job : Job) : Bool :=
  fileJobTypes.contains job.jobType

/-- A job that is no longer as `Start` has made it. -/
def isSettled (job : Job) : Bool :=
  isFileJob job && (job.status ≠ .running || job.artifact.isSome)

def onDisk (w : FileWorld) (path : String) : Nat :=
  if path ∈ w.disk then 1 else 0

/-- The job has been ended or has a file. -/
def settledAt (w : FileWorld) (jobID : JobID) : Nat :=
  ((w.jobs.get jobID).any isSettled).toNat

/-- The ID has been given out, to a job of this kind or to one that has been dropped since. -/
def issued (w : FileWorld) (jobID : JobID) : Nat :=
  (decide (jobID.seq ≤ w.jobs.seq) && (w.jobs.get jobID).all isFileJob).toNat

/-- The job is shown as running. -/
def runningAt (w : FileWorld) (jobID : JobID) : Nat :=
  ((w.jobs.get jobID).any fun job => isFileJob job && job.status = .running).toNat

/-- Files are owned by threads and offered by jobs. -/
def filesLedger : Ledger (fileSystem env) String where
  own e past path := (books e past).files.count path
  shared w path := (offered w.jobs).count path
  supply := onDisk

/-- An ID is owned by the thread that has to end the job, until the job has been ended. -/
def jobsLedger : Ledger (fileSystem env) JobID where
  own e past jobID := (books e past).ids.count jobID
  shared := settledAt
  supply := issued

/-- A job that is shown as running needs a thread that has to end it. -/
def runningLedger : Ledger (fileSystem env) JobID where
  own e past jobID := (books e past).ids.count jobID
  shared _ _ := 0
  supply := runningAt

/-! ## The disk -/

section Disk

variable {w w' : FileWorld} {ch : FileChoice} {path : String}

theorem mem_foldl_erase {paths : List String} {disk : AList fun _ : String => String} :
    path ∈ paths.foldl (fun disk path => disk.erase path) disk ↔ path ∈ disk ∧ path ∉ paths := by
  induction paths generalizing disk with
  | nil => simp
  | cons first paths ih =>
      rw [List.foldl_cons, ih, AList.mem_erase, List.mem_cons]
      tauto

theorem mem_cleanUp {s' : JobStore} :
    path ∈ (w.cleanUp ch s').disk ↔
      path ∈ w.disk ∧ (ch.ok = true → path ∉ FileWorld.dropped w.jobs s') := by
  unfold FileWorld.cleanUp
  split
  · rename_i hok
    rw [mem_foldl_erase]
    simp [hok]
  · rename_i hfails
    simp [hfails]

theorem mem_write {target content : String} : path ∈ (w.write target content).disk ↔ path ∈ w.disk := by
  unfold FileWorld.write
  split
  · rename_i hmem
    rw [AList.mem_insert]
    constructor
    · rintro (rfl | hold)
      · exact hmem
      · exact hold
    · exact Or.inr
  · rfl

theorem jobs_write {target content : String} : (w.write target content).jobs = w.jobs := by
  unfold FileWorld.write
  split <;> rfl

theorem tempPath_ne_empty (pattern random : String) : tempPath pattern random ≠ "" := by
  unfold tempPath
  have hne (s : String) : "/tmp/" ++ s ≠ "" := by
    intro h
    have hlist := congrArg String.toList h
    rw [String.toList_append] at hlist
    cases hlist
  simp only
  split
  · rw [String.append_assoc, String.append_assoc]
    exact hne _
  · rw [String.append_assoc]
    exact hne _

/-! ## One action -/

/-- The actions that change who owns what. -/
def FileAct.moves : FileAct → Bool
  | .jobs _ => true
  | .go _ => true
  | .createTemp _ => true
  | .mkdirTemp _ => true
  | .remove _ => true
  | .removeAll _ => true
  | _ => false

variable {a : FileAct} {r : a.Resp} {i : Nat} {b : Books}

theorem exec_quiet (ha : FileAct.moves a = false) (hexec : w.exec i a ch = some (r, w')) :
    w'.jobs = w.jobs ∧ ∀ path, path ∈ w'.disk ↔ path ∈ w.disk := by
  cases a <;> cases ha <;> cases hexec <;>
    first
    | exact ⟨rfl, fun _ => Iff.rfl⟩
    | exact ⟨jobs_write, fun _ => mem_write⟩
    | skip
  -- The output of a command goes to a file or nowhere.
  rename_i argv stdout
  cases stdout with
  | none => exact ⟨rfl, fun _ => Iff.rfl⟩
  | some target => exact ⟨jobs_write, fun _ => mem_write⟩

theorem after_quiet (ha : FileAct.moves a = false) :
    (b.after a r).files = b.files ∧ (b.after a r).ids = b.ids := by
  cases a <;> cases ha <;> first | exact ⟨rfl, rfl⟩ | (cases r <;> exact ⟨rfl, rfl⟩)

theorem jobs_create {pattern : String} {result : Except String String}
    (hcreated : w.create ch pattern = some (result, w')) : w'.jobs = w.jobs := by
  simp only [FileWorld.create] at hcreated
  split at hcreated
  · split at hcreated
    · cases hcreated
    · obtain ⟨-, rfl⟩ := Prod.mk.inj (Option.some.inj hcreated)
      rfl
  · obtain ⟨-, rfl⟩ := Prod.mk.inj (Option.some.inj hcreated)
    rfl

theorem jobs_erase {target : String} {result : Except String Unit}
    (herased : w.erase ch target = (result, w')) :
    w'.jobs = w.jobs := by
  unfold FileWorld.erase at herased
  split at herased <;>
  · obtain ⟨-, rfl⟩ := Prod.mk.inj herased
    rfl

/-- Only calls of the store change it. -/
theorem jobs_exec (hcall : ∀ call, a ≠ .jobs call) (hexec : w.exec i a ch = some (r, w')) :
    w'.jobs = w.jobs := by
  by_cases hmoves : FileAct.moves a = false
  · exact (exec_quiet hmoves hexec).1
  · cases a with
    | jobs call => exact absurd rfl (hcall call)
    | go e =>
        obtain ⟨-, rfl⟩ := Prod.mk.inj (Option.some.inj hexec)
        rfl
    | createTemp pattern => exact jobs_create hexec
    | mkdirTemp pattern => exact jobs_create hexec
    | remove target => exact jobs_erase (Option.some.inj hexec)
    | removeAll target => exact jobs_erase (Option.some.inj hexec)
    | _ => exact absurd rfl hmoves

theorem onDisk_le_one : onDisk w path ≤ 1 := by
  unfold onDisk
  split <;> omega

theorem onDisk_congr (h : path ∈ w'.disk ↔ path ∈ w.disk) : onDisk w' path = onDisk w path := by
  simp [onDisk, h]

/-! ## Calls and files -/

variable {log : List Job} {call : JobCall} {now : Time}

/-- A call without a file: what is no longer offered is removed, unless that fails. -/
theorem files_other (ch : FileChoice) (now : Time) (path : String) (h : JobStore.Sound w.jobs log)
    (hother : ∀ jobID message artifact, call ≠ .completeWithArtifact jobID message (some artifact)) :
    (offered (call.exec w.jobs now).2).count path + onDisk w path ≤
        (offered w.jobs).count path + onDisk (w.cleanUp ch (call.exec w.jobs now).2) path ∧
      (FileWorld.dropped w.jobs (call.exec w.jobs now).2 = [] ∨ ch.ok = true →
        (offered w.jobs).count path + onDisk (w.cleanUp ch (call.exec w.jobs now).2) path ≤
            (offered (call.exec w.jobs now).2).count path + onDisk w path ∨
          onDisk (w.cleanUp ch (call.exec w.jobs now).2) path = 0) := by
  have hoffered := congrArg (List.count path) (offered_other now h hother)
  rw [List.count_append] at hoffered
  have hle : onDisk w path ≤ 1 := onDisk_le_one
  by_cases hdropped : path ∈ FileWorld.dropped w.jobs (call.exec w.jobs now).2
  · have hpos := List.count_pos_iff.2 hdropped
    refine ⟨by omega, fun hkeeps => .inr ?_⟩
    have hok : ch.ok = true := by
      rcases hkeeps with hnone | hok
      · rw [hnone] at hdropped
        cases hdropped
      · exact hok
    have hgone : path ∉ (w.cleanUp ch (call.exec w.jobs now).2).disk := by
      rw [mem_cleanUp]
      exact fun hmem => hmem.2 hok hdropped
    exact if_neg hgone
  · have hzero := List.count_eq_zero.2 hdropped
    have hsame : onDisk (w.cleanUp ch (call.exec w.jobs now).2) path = onDisk w path := by
      refine onDisk_congr ?_
      rw [mem_cleanUp]
      exact ⟨fun hmem => hmem.1, fun hmem => ⟨hmem, fun _ => hdropped⟩⟩
    omega

/-- The books after a call. -/
theorem files_afterCall {c : call.Resp}
    (hother : ∀ jobID message artifact, call ≠ .completeWithArtifact jobID message (some artifact)) :
    (b.afterCall call c).files = b.files := by
  cases call with
  | completeWithArtifact jobID message artifact =>
      cases artifact with
      | none => rfl
      | some artifact => exact absurd rfl (hother jobID message artifact)
  | _ => rfl

/-- Handing over gives away what the thread had. -/
theorem count_handed {artifact : JobArtifact} (path : String) (hheld : artifact.path ∈ b.files) :
    (b.files.erase artifact.path).count path + (artifact.file?.toList).count path ≤
      b.files.count path := by
  have hpos := List.count_pos_iff.2 hheld
  by_cases heq : artifact.path = path
  · subst heq
    rw [List.count_erase_self]
    have hone : (artifact.file?.toList).count artifact.path ≤ 1 := by
      refine le_trans List.count_le_length ?_
      cases artifact.file? <;> simp
    omega
  · have hzero : (artifact.file?.toList).count path = 0 := by
      unfold JobArtifact.file?
      refine List.count_eq_zero.2 fun hmem => ?_
      split at hmem
      · cases hmem
      · exact heq (List.mem_singleton.1 hmem).symm
    rw [List.count_erase_of_ne (Ne.symm heq), hzero]
    omega

/-- A file that is handed over leaves the books, and at most the store has it more often. -/
theorem files_handed (now : Time) (jobID : JobID) (message path : String) {artifact : JobArtifact}
    (h : JobStore.Sound w.jobs log) (hheld : artifact.path ∈ b.files) :
    (b.files.erase artifact.path).count path +
        (offered (w.jobs.finish now jobID .succeeded message "" (some artifact))).count path ≤
      b.files.count path + (offered w.jobs).count path := by
  have herase := count_handed path hheld
  cases hget : w.jobs.get jobID with
  | none =>
      have hsame : offered (w.jobs.finish now jobID .succeeded message "" (some artifact)) =
          offered w.jobs := offered_of_none hget
      rw [hsame]
      omega
  | some job =>
      have hcount := count_offered_modify path
        (f := JobStore.finished now .succeeded message "" (some artifact)) h (fun _ => rfl) hget
      have hfile : (JobStore.finished now .succeeded message "" (some artifact) job).file? =
          artifact.file? := rfl
      rw [hfile] at hcount
      unfold JobStore.finish
      omega

/-- If the job is stored and has no file yet, the file is not lost. -/
theorem files_taken (now : Time) (message path : String) {jobID : JobID} {artifact : JobArtifact} {job : Job}
    (b : Books) (h : JobStore.Sound w.jobs log) (hget : w.jobs.get jobID = some job) (hnone : job.file? = none)
    (hpath : artifact.path ≠ "") :
    b.files.count path + (offered w.jobs).count path ≤
      (b.files.erase artifact.path).count path +
        (offered (w.jobs.finish now jobID .succeeded message "" (some artifact))).count path := by
  have hcount := count_offered_modify path
    (f := JobStore.finished now .succeeded message "" (some artifact)) h (fun _ => rfl) hget
  have hfile : (JobStore.finished now .succeeded message "" (some artifact) job).file? =
      some artifact.path := if_neg hpath
  rw [hfile, hnone] at hcount
  rw [List.count_erase]
  unfold JobStore.finish
  by_cases heq : artifact.path = path
  · subst heq
    simp only [Option.toList_none, Option.toList_some, List.count_nil, List.count_singleton_self] at hcount
    simp only [BEq.rfl, if_true]
    omega
  · simp [heq] at hcount ⊢
    omega

/-! ## One action and the files -/

/-- What the thread that an action starts is given. -/
def forkFiles (a : FileAct) : List String :=
  a.forks.elim [] entryFiles

/-- No owner comes from nowhere; and under a condition none gets lost. -/
def FilesLaw (w w' : FileWorld) (b b' : Books) (given : List String) (path : String) (keeps : Prop) : Prop :=
  b'.files.count path + given.count path + (offered w'.jobs).count path + onDisk w path ≤
      b.files.count path + (offered w.jobs).count path + onDisk w' path ∧
    (keeps →
      b.files.count path + (offered w.jobs).count path + onDisk w' path ≤
          b'.files.count path + given.count path + (offered w'.jobs).count path + onDisk w path ∨
        onDisk w' path = 0)

theorem filesLaw_quiet {b' : Books} (hjobs : w'.jobs = w.jobs) (hfiles : b'.files = b.files)
    (hdisk : path ∈ w'.disk ↔ path ∈ w.disk) (keeps : Prop) : FilesLaw w w' b b' [] path keeps := by
  unfold FilesLaw
  rw [hjobs, hfiles, onDisk_congr hdisk, List.count_nil]
  exact ⟨le_rfl, fun _ => .inl le_rfl⟩

theorem filesLaw_create {pattern : String} {result : Except String String} {b' : Books}
    (hcreated : w.create ch pattern = some (result, w'))
    (hok : ∀ target, result = .ok target → b'.files = target :: b.files)
    (herror : ∀ err, result = .error err → b'.files = b.files) (keeps : Prop) :
    FilesLaw w w' b b' [] path keeps := by
  unfold FileWorld.create at hcreated
  simp only at hcreated
  split at hcreated
  · split at hcreated
    · cases hcreated
    · -- The new file is owned by the thread that has created it.
      rename_i hfresh
      obtain ⟨rfl, rfl⟩ := Prod.mk.inj (Option.some.inj hcreated)
      unfold FilesLaw
      rw [hok _ rfl, List.count_nil]
      by_cases heq : tempPath pattern ch.random = path
      · subst heq
        simp only [onDisk, hfresh, AList.mem_insert, List.count_cons_self, true_or, if_true, if_false]
        omega
      · have hne : path ≠ tempPath pattern ch.random := Ne.symm heq
        rw [List.count_cons_of_ne heq]
        simp only [onDisk, AList.mem_insert, hne, false_or]
        omega
  · obtain ⟨rfl, rfl⟩ := Prod.mk.inj (Option.some.inj hcreated)
    exact filesLaw_quiet rfl (herror _ rfl) Iff.rfl keeps

theorem filesLaw_erase {target : String} {result : Except String Unit} {b' : Books}
    (herased : w.erase ch target = (result, w')) (hheld : target ∈ b.files)
    (hok : result = .ok () → b'.files = b.files.erase target)
    (herror : ∀ err, result = .error err → b'.files = b.files) (keeps : Prop) :
    FilesLaw w w' b b' [] path keeps := by
  unfold FileWorld.erase at herased
  split at herased
  · obtain ⟨rfl, rfl⟩ := Prod.mk.inj herased
    have hle : onDisk w path ≤ 1 := onDisk_le_one
    unfold FilesLaw
    rw [hok rfl, List.count_nil]
    by_cases heq : target = path
    · subst heq
      have hpos := List.count_pos_iff.2 hheld
      rw [List.count_erase_self]
      simp only [onDisk, AList.mem_erase, ne_eq, not_true_eq_false, false_and, if_false] at hle ⊢
      exact ⟨by omega, fun _ => .inr trivial⟩
    · rw [List.count_erase_of_ne (Ne.symm heq)]
      simp only [onDisk, AList.mem_erase, ne_eq, Ne.symm heq, not_false_eq_true, true_and]
      omega
  · obtain ⟨rfl, rfl⟩ := Prod.mk.inj herased
    exact filesLaw_quiet rfl (herror _ rfl) Iff.rfl keeps

/-- One thing at most is passed on, and it was there. -/
theorem count_diff_add {R : Type} [DecidableEq R] {held given : List R} {x : R} (honce : given.length ≤ 1)
    (hsub : given ⊆ held) : (held.diff given).count x + given.count x = held.count x := by
  have hle : given.count x ≤ held.count x := by
    by_cases hmem : x ∈ given
    · have hone : given.count x ≤ 1 := le_trans List.count_le_length honce
      have hpos := List.count_pos_iff.2 (hsub hmem)
      omega
    · rw [List.count_eq_zero.2 hmem]
      exact Nat.zero_le _
  rw [List.count_diff]
  omega

/-- What is passed on is no longer owned by the thread that passes it on. -/
theorem filesLaw_go {e : FileEntry} (hallows : entryFiles e ⊆ b.files) (keeps : Prop) :
    FilesLaw w w b (b.after (.go e) ()) (entryFiles e) path keeps := by
  have honce : (entryFiles e).length ≤ 1 := by
    cases e <;> simp [entryFiles]
  have hcount := count_diff_add (x := path) honce hallows
  unfold FilesLaw
  simp only [Books.after]
  omega

/-- A job that takes over a file is stored and has none, and the files of jobs that are dropped can be
removed. -/
def KeepsOnCall (w : FileWorld) (ch : FileChoice) (call : JobCall) : Prop :=
  (FileWorld.dropped w.jobs (call.exec w.jobs ch.now).2 = [] ∨ ch.ok = true) ∧
    ∀ jobID message artifact, call = .completeWithArtifact jobID message (some artifact) →
      artifact.path ≠ "" ∧ ∃ job, w.jobs.get jobID = some job ∧ job.file? = none

theorem filesLaw_call (h : JobStore.Sound w.jobs log) (hallows : b.AllowsCall call) (c : call.Resp) :
    FilesLaw w (w.cleanUp ch (call.exec w.jobs ch.now).2) b (b.afterCall call c) [] path
      (KeepsOnCall w ch call) := by
  unfold FilesLaw
  rw [List.count_nil]
  have hjobs : (w.cleanUp ch (call.exec w.jobs ch.now).2).jobs = (call.exec w.jobs ch.now).2 := rfl
  rw [hjobs]
  rcases handing_cases call with ⟨jobID, message, artifact, rfl⟩ | hother
  · -- No job is dropped here.
    have hdropped : FileWorld.dropped w.jobs
        (w.jobs.finish ch.now jobID .succeeded message "" (some artifact)) = [] := dropped_modify
    have hsame : onDisk (w.cleanUp ch (w.jobs.finish ch.now jobID .succeeded message "" (some artifact))) path =
        onDisk w path := by
      refine onDisk_congr ?_
      rw [mem_cleanUp, hdropped]
      simp
    have hheld : artifact.path ∈ b.files := hallows.2.2 _ rfl
    have hhanded := files_handed ch.now jobID message path h hheld
    simp only [JobCall.exec, Books.afterCall, Option.elim_some]
    rw [hsame]
    refine ⟨by omega, fun hkeeps => .inl ?_⟩
    obtain ⟨hpath, job, hget, hnone⟩ := hkeeps.2 _ _ _ rfl
    have htaken := files_taken ch.now message path b h hget hnone hpath
    omega
  · obtain ⟨hle, hge⟩ := files_other ch ch.now path h hother
    rw [files_afterCall hother]
    refine ⟨by omega, fun hkeeps => ?_⟩
    rcases hge hkeeps.1 with hsum | hgone
    · exact .inl (by omega)
    · exact .inr hgone

/-- What has to go well so that no file is lost. -/
def KeepsOn (w : FileWorld) (ch : FileChoice) : FileAct → Prop
  | .jobs call => KeepsOnCall w ch call
  | _ => True

theorem filesLaw (h : JobStore.Sound w.jobs log) (hallows : b.Allows a)
    (hexec : w.exec i a ch = some (r, w')) :
    FilesLaw w w' b (b.after a r) (forkFiles a) path (KeepsOn w ch a) := by
  by_cases hmoves : FileAct.moves a = false
  · obtain ⟨hjobs, hdisk⟩ := exec_quiet hmoves hexec
    have hgiven : forkFiles a = [] := by
      cases a <;> cases hmoves <;> rfl
    rw [hgiven]
    exact filesLaw_quiet hjobs (after_quiet hmoves).1 (hdisk path) _
  · cases a with
    | jobs call =>
        obtain ⟨rfl, rfl⟩ := Prod.mk.inj (Option.some.inj hexec)
        exact filesLaw_call h hallows _
    | go e =>
        obtain ⟨rfl, rfl⟩ := Prod.mk.inj (Option.some.inj hexec)
        exact filesLaw_go hallows.1 _
    | createTemp pattern =>
        refine filesLaw_create hexec (fun target ht => ?_) (fun err he => ?_) _
        · subst ht
          rfl
        · subst he
          rfl
    | mkdirTemp pattern =>
        refine filesLaw_create hexec (fun target ht => ?_) (fun err he => ?_) _
        · subst ht
          rfl
        · subst he
          rfl
    | remove target =>
        refine filesLaw_erase (Option.some.inj hexec) hallows (fun hr => ?_) (fun err he => ?_) _
        · subst hr
          rfl
        · subst he
          rfl
    | removeAll target =>
        refine filesLaw_erase (Option.some.inj hexec) hallows (fun hr => ?_) (fun err he => ?_) _
        · subst hr
          rfl
        · subst he
          rfl
    | _ => exact absurd rfl hmoves

/-! ## One action and the jobs -/

variable {jobID : JobID}

/-- Who has to end a job is as before, or the job is new, or it has been ended. -/
structure JobsLaw (w w' : FileWorld) (b b' : Books) (given : List JobID) (jobID : JobID) : Prop where
  bounded : b'.ids.count jobID + given.count jobID + settledAt w' jobID + issued w jobID ≤
    b.ids.count jobID + settledAt w jobID + issued w' jobID
  kept : b.ids.count jobID + runningAt w' jobID ≤
      b'.ids.count jobID + given.count jobID + runningAt w jobID ∨
    runningAt w' jobID = 0

theorem jobsLaw_same {b' : Books} (hjobs : w'.jobs = w.jobs) (hids : b'.ids = b.ids) :
    JobsLaw w w' b b' [] jobID := by
  constructor <;> simp [settledAt, issued, runningAt, hjobs, hids]

/-- A job of one of these types is started, or one of another type. -/
theorem jobsLaw_start (h : JobStore.Sound w.jobs log) (now : Time)
    (jobType target database message : String) (metadata : List (String × String)) {b' : Books}
    (hids : b'.ids = if fileJobTypes.contains jobType then
      (w.jobs.newJob now jobType target database message metadata).id :: b.ids else b.ids)
    (hjobs : w'.jobs = (w.jobs.start now jobType target database message metadata).2) :
    JobsLaw w w' b b' [] jobID := by
  have hseq : w'.jobs.seq = w.jobs.seq + 1 := by
    rw [hjobs]
    exact h.seq_start now jobType target database message metadata
  have hnew : (w.jobs.newJob now jobType target database message metadata).id.seq = w.jobs.seq + 1 := rfl
  have hcases := get_start_cases h now jobType target database message metadata jobID
  rw [← hjobs] at hcases
  have hkind : isFileJob (w.jobs.newJob now jobType target database message metadata) =
      fileJobTypes.contains jobType := rfl
  have hfresh : isSettled (w.jobs.newJob now jobType target database message metadata) = false := by
    simp [isSettled, JobStore.newJob]
  generalize w.jobs.newJob now jobType target database message metadata = job at *
  have hcount : b'.ids.count jobID = b.ids.count jobID +
      if fileJobTypes.contains jobType ∧
        job.id = jobID then 1 else 0 := by
    rw [hids]
    by_cases htype : fileJobTypes.contains jobType = true
    · by_cases heq : job.id = jobID
      · rw [if_pos htype, if_pos ⟨htype, heq⟩, heq, List.count_cons_self]
      · rw [if_pos htype, if_neg fun hboth => heq hboth.2, List.count_cons_of_ne heq]
        rfl
    · rw [if_neg htype, if_neg fun hboth => htype hboth.1]
      rfl
  rcases hcases with hnone | ⟨hle, hold⟩ | ⟨rfl, hget⟩
  · -- The job is not stored, and its ID may be the new one.
    constructor
    · rw [hcount, List.count_nil]
      have hissued : issued w' jobID = if jobID.seq ≤ w.jobs.seq + 1 then 1 else 0 := by
        simp only [issued, hnone, hseq, Option.all_none, Bool.and_true]
        split
        · rename_i hle
          rw [decide_eq_true hle, Bool.toNat_true]
        · rename_i hlater
          rw [decide_eq_false hlater, Bool.toNat_false]
      have hbefore : issued w jobID ≤ if jobID.seq ≤ w.jobs.seq then 1 else 0 := by
        unfold issued
        split
        · exact Bool.toNat_le _
        · rename_i hlater
          simp [hlater]
      have hgone : settledAt w' jobID = 0 := by simp [settledAt, hnone]
      split
      · rename_i hboth
        have hid := congrArg JobID.seq hboth.2
        rw [hnew] at hid
        rw [if_neg (by omega)] at hbefore
        rw [if_pos (by omega)] at hissued
        omega
      · split at hbefore
        · rw [if_pos (by omega)] at hissued
          omega
        · omega
    · exact .inr (by simp [runningAt, hnone])
  · have hother : job.id ≠ jobID := by
      intro heq
      rw [← heq, hnew] at hle
      omega
    rw [if_neg fun hboth => hother hboth.2] at hcount
    have hsettled : settledAt w' jobID = settledAt w jobID := by simp only [settledAt, hold]
    have hrunning : runningAt w' jobID = runningAt w jobID := by simp only [runningAt, hold]
    have hissued : issued w' jobID = issued w jobID := by
      simp only [issued, hold, hseq, hle, Nat.le_succ_of_le hle]
    constructor
    · rw [hcount, hsettled, hissued, List.count_nil]
      omega
    · rw [hcount, hrunning]
      exact .inl (by omega)
  · -- The new job runs, and its ID has not been given out before.
    have hbefore : issued w job.id = 0 := by
      have hlater : ¬job.id.seq ≤ w.jobs.seq := by omega
      simp [issued, hlater]
    have hsettled : settledAt w' job.id = 0 := by simp [settledAt, hget, hfresh]
    constructor
    · have hissued : issued w' job.id =
          (fileJobTypes.contains jobType).toNat := by
        simp only [issued, hget, hseq, hnew, Option.all_some, hkind, le_refl, decide_true, Bool.true_and]
      rw [hcount, hbefore, hsettled, hissued, List.count_nil]
      cases fileJobTypes.contains jobType <;> simp
    · have hrunning : runningAt w' job.id ≤
          (fileJobTypes.contains jobType).toNat := by
        simp only [runningAt, hget, Option.any_some, hkind]
        cases fileJobTypes.contains jobType <;> simp [Bool.toNat_le]
      rw [hcount, List.count_nil]
      refine .inl ?_
      cases hcontains : fileJobTypes.contains jobType with
      | false =>
          rw [hcontains, Bool.toNat_false] at hrunning
          simp [Nat.le_zero.1 hrunning]
      | true =>
          rw [hcontains, Bool.toNat_true] at hrunning
          simp
          omega

theorem seq_modify {s : JobStore} {id : JobID} {f : Job → Job} : (s.modify id f).seq = s.seq := by
  unfold JobStore.modify
  split <;> rfl

/-- A change never makes a job one of another kind. -/
theorem issued_modify {id : JobID} {f : Job → Job} (htype : ∀ job, (f job).jobType = job.jobType)
    (hjobs : w'.jobs = w.jobs.modify id f) : issued w' jobID = issued w jobID := by
  unfold issued
  rw [hjobs, seq_modify]
  by_cases heq : jobID = id
  · subst heq
    rw [JobStore.lookup_modify_self]
    cases w.jobs.get jobID with
    | none => rfl
    | some job => simp [isFileJob, htype]
  · rw [JobStore.lookup_modify_ne heq]

/-- A change of a job that belongs to others, or of nothing that matters here. -/
theorem jobsLaw_modify {id : JobID} (f : Job → Job) {b' : Books}
    (htype : ∀ job, (f job).jobType = job.jobType)
    (hkeep : ∀ job, w.jobs.get id = some job → isFileJob job = true →
      (f job).status = job.status ∧ (f job).artifact = job.artifact)
    (hids : b'.ids = b.ids) (hjobs : w'.jobs = w.jobs.modify id f) : JobsLaw w w' b b' [] jobID := by
  have hissued : issued w' jobID = issued w jobID := issued_modify htype hjobs
  have hsame : settledAt w' jobID = settledAt w jobID ∧ runningAt w' jobID = runningAt w jobID := by
    unfold settledAt runningAt
    rw [hjobs]
    by_cases heq : jobID = id
    · subst heq
      rw [JobStore.lookup_modify_self]
      cases hget : w.jobs.get jobID with
      | none => exact ⟨rfl, rfl⟩
      | some job =>
          have hkind : isFileJob (f job) = isFileJob job := by simp [isFileJob, htype]
          cases hfile : isFileJob job with
          | false => simp [isSettled, hkind, hfile]
          | true =>
              obtain ⟨hstatus, hartifact⟩ := hkeep job hget hfile
              simp [isSettled, hkind, hstatus, hartifact]
    · rw [JobStore.lookup_modify_ne heq]
      exact ⟨rfl, rfl⟩
  constructor
  · rw [hids, hissued, hsame.1, List.count_nil]
    omega
  · rw [hids, hsame.2]
    exact .inl (by omega)

/-- The job of the thread is ended. -/
theorem jobsLaw_end {id : JobID} (f : Job → Job) {b' : Books} (htype : ∀ job, (f job).jobType = job.jobType)
    (hends : ∀ job, (f job).status ≠ .running) (hmem : id ∈ b.ids) (hids : b'.ids = b.ids.erase id)
    (hjobs : w'.jobs = w.jobs.modify id f) : JobsLaw w w' b b' [] jobID := by
  have hissued : issued w' jobID = issued w jobID := issued_modify htype hjobs
  by_cases heq : id = jobID
  · subst heq
    have hpos := List.count_pos_iff.2 hmem
    have hle : settledAt w' id ≤ 1 := Bool.toNat_le _
    have hstopped : runningAt w' id = 0 := by
      unfold runningAt
      rw [hjobs, JobStore.lookup_modify_self]
      cases w.jobs.get id with
      | none => rfl
      | some job => simp [hends]
    refine ⟨?_, .inr hstopped⟩
    rw [hids, hissued, List.count_erase_self, List.count_nil]
    omega
  · have hget : w'.jobs.get jobID = w.jobs.get jobID := by
      rw [hjobs, JobStore.lookup_modify_ne (Ne.symm heq)]
    constructor
    · rw [hids, hissued, List.count_erase_of_ne (Ne.symm heq), List.count_nil]
      simp only [settledAt, hget]
      omega
    · rw [hids, List.count_erase_of_ne (Ne.symm heq)]
      simp only [runningAt, hget]
      exact .inl (by omega)

/-- A call that the books allow. -/
theorem jobsLaw_call (h : JobStore.Sound w.jobs log) (hallows : b.AllowsCall call) :
    JobsLaw w (w.cleanUp ch (call.exec w.jobs now).2) b (b.afterCall call (call.exec w.jobs now).1) []
      jobID := by
  cases call with
  | start jobType target database message metadata =>
      have htype : fileJobTypes.contains jobType = true := List.contains_iff_mem.2 hallows
      exact jobsLaw_start h now jobType target database message metadata (if_pos htype).symm rfl
  | update id message details =>
      exact jobsLaw_modify (updated now message details) (fun _ => rfl) (fun _ _ _ => ⟨rfl, rfl⟩) rfl rfl
  | complete id message =>
      exact jobsLaw_end (JobStore.finished now .succeeded message "" none) (fun _ => rfl)
        (fun _ => by simp [JobStore.finished]) hallows.1 rfl rfl
  | completeWithArtifact id message artifact =>
      exact jobsLaw_end (JobStore.finished now .succeeded message "" artifact) (fun _ => rfl)
        (fun _ => by simp [JobStore.finished]) hallows.1 rfl rfl
  | fail id message details =>
      exact jobsLaw_end (JobStore.finished now .failed message details none) (fun _ => rfl)
        (fun _ => by simp [JobStore.finished]) hallows.1 rfl rfl
  | cancel id message => exact hallows.elim
  | get id => exact hallows.elim

/-- Other handlers leave the jobs here alone. -/
theorem jobsLaw_foreign (h : JobStore.Sound w.jobs log) (hforeign : foreign w.jobs call = true) :
    JobsLaw w (w.cleanUp ch (call.exec w.jobs now).2) b b [] jobID := by
  have hother {id : JobID} (hid : (w.jobs.get id).all (fun job => !fileJobTypes.contains job.jobType) = true)
      (f : Job → Job) (job : Job) (hget : w.jobs.get id = some job) (hfile : isFileJob job = true) :
      (f job).status = job.status ∧ (f job).artifact = job.artifact := by
    rw [hget] at hid
    simp [isFileJob] at hid hfile
    exact absurd hfile hid
  cases call with
  | start jobType target database message metadata =>
      have htype : ¬fileJobTypes.contains jobType = true := by simpa [foreign] using hforeign
      exact jobsLaw_start h now jobType target database message metadata (if_neg htype).symm rfl
  | update id message details =>
      exact jobsLaw_modify (updated now message details) (fun _ => rfl) (fun _ _ _ => ⟨rfl, rfl⟩) rfl rfl
  | complete id message =>
      exact jobsLaw_modify (JobStore.finished now .succeeded message "" none) (fun _ => rfl)
        (hother hforeign _) rfl
        rfl
  | completeWithArtifact id message artifact => cases hforeign
  | fail id message details =>
      exact jobsLaw_modify (JobStore.finished now .failed message details none) (fun _ => rfl)
        (hother hforeign _) rfl
        rfl
  | cancel id message =>
      exact jobsLaw_modify (JobStore.finished now .canceled message "" none) (fun _ => rfl)
        (hother hforeign _) rfl
        rfl
  | get id => exact jobsLaw_same rfl rfl

/-- The IDs that the thread that an action starts is given. -/
def forkIds (a : FileAct) : List JobID :=
  a.forks.elim [] entryIds

theorem jobsLaw_go {e : FileEntry} (hallows : entryIds e ⊆ b.ids) :
    JobsLaw w w b (b.after (.go e) ()) (entryIds e) jobID := by
  have honce : (entryIds e).length ≤ 1 := by
    cases e <;> simp [entryIds]
  have hcount := count_diff_add (x := jobID) honce hallows
  constructor
  · simp only [Books.after]
    omega
  · simp only [Books.after]
    exact .inl (by omega)

theorem jobsLaw (h : JobStore.Sound w.jobs log) (hallows : b.Allows a)
    (hexec : w.exec i a ch = some (r, w')) : JobsLaw w w' b (b.after a r) (forkIds a) jobID := by
  by_cases hmoves : FileAct.moves a = false
  · have hgiven : forkIds a = [] := by
      cases a <;> cases hmoves <;> rfl
    rw [hgiven]
    exact jobsLaw_same (exec_quiet hmoves hexec).1 (after_quiet hmoves).2
  · cases a with
    | jobs call =>
        obtain ⟨rfl, rfl⟩ := Prod.mk.inj (Option.some.inj hexec)
        exact jobsLaw_call h hallows
    | go e =>
        obtain ⟨rfl, rfl⟩ := Prod.mk.inj (Option.some.inj hexec)
        exact jobsLaw_go hallows.2
    | createTemp pattern => exact jobsLaw_same (jobs_create hexec) (by cases r <;> rfl)
    | mkdirTemp pattern => exact jobsLaw_same (jobs_create hexec) (by cases r <;> rfl)
    | remove target => exact jobsLaw_same (jobs_erase (Option.some.inj hexec)) (by cases r <;> rfl)
    | removeAll target => exact jobsLaw_same (jobs_erase (Option.some.inj hexec)) (by cases r <;> rfl)
    | _ => exact absurd rfl hmoves

end Disk

end Handler
end Pgaio
