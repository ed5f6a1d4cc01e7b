import Pgaio.Handler.FileJobTruth

/-!
# FileKeeping — when no temporary file is forgotten

A file is forgotten when it cannot be removed, when a report cannot be written, or when its job has been
dropped from the store before it ends.  `keepsFiles` excludes these; then every file on disk has somebody who
will remove it (`temp_files_accounted`).
-/

namespace Pgaio
namespace Handler

open Go Service Concurrency Transition

variable {env : DbEnv} {c c' : FileConfig env} {l : Label FileChoice FileEnv FileEntry}

/-! ## The condition -/

/-- A job that takes over a file is still stored. -/
def takesFile (s : JobStore) : JobCall → Bool
  | .completeWithArtifact jobID _ _ => (s.get jobID).isSome
  | _ => true

/-- The files of jobs that a call drops can be removed. -/
def dropsFiles (w : FileWorld) (ch : FileChoice) (call : JobCall) : Bool :=
  (FileWorld.dropped w.jobs (call.exec w.jobs ch.now).2).isEmpty || ch.ok

def keepsFilesOn (w : FileWorld) (ch : FileChoice) : FileAct → Bool
  | .jobs call => dropsFiles w ch call && takesFile w.jobs call
  | .remove _ => ch.ok
  | .removeAll _ => ch.ok
  | .writeString _ _ => ch.ok
  | .close _ => ch.ok
  | .stat path => ch.ok || decide (path ∉ w.disk)
  | _ => true

def keepsFiles (c : FileConfig env) : Label FileChoice FileEnv FileEntry → Bool
  | .arrive _ => true
  | .env y => dropsFiles c.world y.ch y.call
  | .step i ch => (c.action? i).all (keepsFilesOn c.world ch)

/-! ## One action -/

variable {w w' : FileWorld} {ch : FileChoice} {a : FileAct} {r : a.Resp} {i : Nat} {b : Books} {path : String}

theorem dropsFiles_iff {call : JobCall} :
    dropsFiles w ch call = true ↔
      FileWorld.dropped w.jobs (call.exec w.jobs ch.now).2 = [] ∨ ch.ok = true := by
  simp [dropsFiles]

/-- Every temporary file has a name. -/
theorem disk_of_exec (hexec : w.exec i a ch = some (r, w')) (hpath : path ∈ w'.disk) :
    path ∈ w.disk ∨ path ≠ "" := by
  have hcreate {pattern : String} {result : Except String String}
      (hcreated : w.create ch pattern = some (result, w')) : path ∈ w.disk ∨ path ≠ "" := by
    simp only [FileWorld.create] at hcreated
    split at hcreated
    · split at hcreated
      · cases hcreated
      · obtain ⟨-, rfl⟩ := Prod.mk.inj (Option.some.inj hcreated)
        rcases (AList.mem_insert _).1 hpath with rfl | hold
        · exact .inr (tempPath_ne_empty _ _)
        · exact .inl hold
    · obtain ⟨-, rfl⟩ := Prod.mk.inj (Option.some.inj hcreated)
      exact .inl hpath
  have herase {target : String} {result : Except String Unit} (herased : w.erase ch target = (result, w')) :
      path ∈ w.disk := by
    unfold FileWorld.erase at herased
    split at herased
    · obtain ⟨-, rfl⟩ := Prod.mk.inj herased
      exact (AList.mem_erase.1 hpath).2
    · obtain ⟨-, rfl⟩ := Prod.mk.inj herased
      exact hpath
  by_cases hmoves : FileAct.moves a = false
  · exact .inl (((exec_quiet hmoves hexec).2 path).1 hpath)
  · cases a with
    | jobs call =>
        obtain ⟨-, rfl⟩ := Prod.mk.inj (Option.some.inj hexec)
        exact .inl (mem_cleanUp.1 hpath).1
    | go e =>
        obtain ⟨-, rfl⟩ := Prod.mk.inj (Option.some.inj hexec)
        exact .inl hpath
    | createTemp pattern => exact hcreate hexec
    | mkdirTemp pattern => exact hcreate hexec
    | remove target => exact .inl (herase (Option.some.inj hexec))
    | removeAll target => exact .inl (herase (Option.some.inj hexec))
    | _ => exact absurd rfl hmoves

theorem lost_afterCall (call : JobCall) (r : call.Resp) : (b.afterCall call r).lost = b.lost := by
  cases call <;> rfl

theorem outcome_ok {α : Type} {x : α} (hok : ch.ok = true) : FileWorld.outcome ch x = .ok x :=
  if_pos hok

/-- Under the condition no file is lost. -/
theorem lost_after (hkeeps : keepsFilesOn w ch a = true) (hheld : ∀ path ∈ b.files, path ∈ w.disk)
    (hexec : w.exec i a ch = some (r, w')) : (b.after a r).lost = b.lost := by
  cases a with
  | jobs call => exact lost_afterCall call r
  | remove target =>
      have hresult : w.erase ch target = (r, w') := Option.some.inj hexec
      rw [FileWorld.erase, if_pos (show ch.ok = true from hkeeps)] at hresult
      obtain ⟨rfl, -⟩ := Prod.mk.inj hresult
      rfl
  | removeAll target =>
      have hresult : w.erase ch target = (r, w') := Option.some.inj hexec
      rw [FileWorld.erase, if_pos (show ch.ok = true from hkeeps)] at hresult
      obtain ⟨rfl, -⟩ := Prod.mk.inj hresult
      rfl
  | writeString target content =>
      obtain ⟨hresult, -⟩ := Prod.mk.inj (Option.some.inj hexec)
      rw [outcome_ok hkeeps] at hresult
      subst hresult
      rfl
  | close target =>
      obtain ⟨hresult, -⟩ := Prod.mk.inj (Option.some.inj hexec)
      rw [outcome_ok hkeeps] at hresult
      subst hresult
      rfl
  | stat target =>
      obtain ⟨hresult, -⟩ := Prod.mk.inj (Option.some.inj hexec)
      cases r with
      | ok size => rfl
      | error err =>
          -- It has failed, so it was about no file of the thread.
          have hfails : ch.ok = false := by
            cases hok : ch.ok with
            | false => rfl
            | true => simp [FileWorld.sizeOf, hok] at hresult
          have hnone : target ∉ b.files := by
            intro hmem
            simp [keepsFilesOn, hfails, hheld target hmem] at hkeeps
          simp [Books.after, Books.spoil, hnone]
  | _ => first | rfl | (cases r <;> rfl)

/-! ## Runs -/

/-- The invariant: every file has its owner, and nothing was lost. -/
structure Keeping (c : FileConfig env) : Prop where
  accounted : Accounted c
  files : (filesLedger env).Kept c
  named : "" ∉ c.world.disk
  lost : ∀ t ∈ c.threads, (books t.entry t.past).lost = false

/-- An action of a thread loses no owner. -/
theorem Keeping.keepsOn (h : Keeping c) {t : Thread (fileSystem env)} (ht : t ∈ c.threads)
    {next : a.Resp → FileProgram FileResult} (hrest : t.rest = .act a next)
    (hkeeps : keepsFilesOn c.world ch a = true) : KeepsOn c.world ch a := by
  cases a with
  | jobs call =>
      obtain ⟨hdrops, htakes⟩ := Bool.and_eq_true_iff.1 hkeeps
      refine ⟨dropsFiles_iff.1 hdrops, ?_⟩
      rintro jobID message artifact rfl
      have hallows : (books t.entry t.past).AllowsCall (.completeWithArtifact jobID message (some artifact)) :=
        allows_of_rest hrest
      refine ⟨fun hempty => h.named ?_, ?_⟩
      · have hheld : artifact.path ∈ (books t.entry t.past).files := hallows.2.2 _ rfl
        exact hempty ▸ h.accounted.mem_disk ht hheld
      · obtain ⟨job, hget⟩ := Option.isSome_iff_exists.1 htakes
        have hnone := ((h.accounted.unended ht hallows.1).2 job hget).2.2
        exact ⟨job, hget, by rw [Job.file?, hnone]; rfl⟩
  | _ => trivial

theorem next_of_rest {t : Thread (fileSystem env)} {next : a.Resp → FileProgram FileResult}
    (ht : c.threads[i]? = some t) (hrest : t.rest = .act a next) : c.action? i = some a := by
  unfold Config.action?
  rw [ht]
  exact Thread.action?_of_rest hrest

theorem Keeping.step (h : Keeping c) (hkeeps : keepsFiles c l = true) (hstep : c.step l = some c') :
    Keeping c' := by
  obtain ⟨log, hsound⟩ := h.accounted.sound
  refine ⟨h.accounted.step hstep, h.files.step fresh_files hstep ?_ ?_, ?_, ?_⟩
  · rintro y w rfl hw path
    obtain ⟨hforeign, rfl⟩ := envStep_cases hw
    exact (files_other y.ch y.ch.now path hsound (foreign_no_artifact hforeign)).2 (dropsFiles_iff.1 hkeeps)
  · rintro i ch t a next r w rfl ht hrest hexec path
    rw [keepsFiles, next_of_rest ht hrest] at hkeeps
    have hlaw : FilesLaw _ _ _ _ _ path _ := filesLaw (i := i) hsound (allows_of_rest hrest) hexec
    rw [← books_snoc] at hlaw
    unfold Ledger.Keeps
    rw [start_files]
    exact hlaw.2 (h.keepsOn (List.mem_of_getElem? ht) hrest hkeeps)
  · cases Config.moves_of_step hstep with
    | arrive he => exact h.named
    | env hw =>
        obtain ⟨-, rfl⟩ := envStep_cases hw
        exact fun hmem => h.named (mem_cleanUp.1 hmem).1
    | @act i ch t a next r w ht hrest hexec =>
        intro hmem
        rcases disk_of_exec (i := i) hexec hmem with hold | hne
        · exact h.named hold
        · exact hne rfl
  · cases Config.moves_of_step hstep with
    | arrive he =>
        intro t ht
        rcases List.mem_append.1 ht with hold | hnew
        · exact h.lost t hold
        · rw [List.mem_singleton.1 hnew]
          rfl
    | env hw => exact h.lost
    | @act i ch t a next r w ht hrest hexec =>
        intro u hu
        obtain ⟨j, hj⟩ := List.mem_iff_getElem?.1 hu
        have hmem := List.mem_of_getElem? ht
        rw [keepsFiles, next_of_rest ht hrest] at hkeeps
        rcases Config.getElem?_resume hj with ⟨_, rfl⟩ | ⟨_, hold⟩ | ⟨_, e', _, rfl⟩
        · rw [Thread.advance_entry, Thread.advance_past, books_snoc,
            lost_after (i := i) hkeeps (fun path => h.accounted.mem_disk hmem) hexec]
          exact h.lost t hmem
        · exact h.lost u (List.mem_of_getElem? hold)
        · rfl

theorem keeping_start : Keeping (fileStart env) where
  accounted := accounted_start
  files _ := Nat.le_refl 0
  named h := by cases h
  lost t ht := by cases ht

/-- Under the condition, in every run: every temporary file is in the books of a request or goroutine that
has not returned yet, or a stored job offers it, with which it will be removed. -/
theorem temp_files_accounted (h : Within Config.step (fun c l => keepsFiles c l = true) (fileStart env) c)
    {path : String} (hpath : path ∈ c.world.disk) :
    (∃ t ∈ c.threads, t.finished = false ∧ path ∈ (books t.entry t.past).files) ∨
      ∃ id job, c.world.jobs.get id = some job ∧ job.file? = some path := by
  have hkeeping : Keeping c :=
    h.invariant (fun _ _ _ hI hok hstep => hI.step hok hstep) keeping_start
  obtain ⟨log, hsound⟩ := hkeeping.accounted.sound
  have hsupply : 0 < (filesLedger env).supply c.world path := by
    show 0 < onDisk c.world path
    simp [onDisk, hpath]
  rcases hkeeping.files.owner hsupply with ⟨t, ht, howned⟩ | hoffered
  · have hmem : path ∈ (books t.entry t.past).files := List.count_pos_iff.1 howned
    refine .inl ⟨t, ht, ?_, hmem⟩
    by_contra hfinished
    -- A thread that has returned keeps a file only if it was lost.
    obtain ⟨x, hrest⟩ := Thread.finished_iff.1 (eq_true_of_ne_false hfinished)
    have hend := Thread.post_of_finished (fileBody_safe env t.entry) hrest
    have hlost : (books t.entry t.past).lost = true := hend.1.files (List.ne_nil_of_mem hmem)
    rw [hkeeping.lost t ht] at hlost
    cases hlost
  · exact .inr ((mem_offered hsound).1 (List.count_pos_iff.1 hoffered))

/-- The same run: the file of the export is kept for download. -/
theorem temp_files_accounted_export :
    ∃ c : FileConfig {}, exportPath ∈ c.world.disk ∧
      ((∃ t ∈ c.threads, t.finished = false ∧ exportPath ∈ (books t.entry t.past).files) ∨
        ∃ id job, c.world.jobs.get id = some job ∧ job.file? = some exportPath) := by
  have hmeets : runMeets Config.step keepsFiles (fileStart {}) exportRun = true := by decide
  have hend : (Transition.run Config.step (fileStart {}) exportRun).any
      (fun c => decide (exportPath ∈ c.world.disk)) = true := by
    decide
  obtain ⟨c, hwithin, htest⟩ := exists_within_of_run hmeets hend
  have hpath := of_decide_eq_true htest
  exact ⟨c, hpath, temp_files_accounted hwithin hpath⟩

/-- A report that cannot be written is forgotten. -/
example : (Transition.run Config.step (fileStart {})
    ([.arrive (.verifyBackup "base_1"), .step 0 {}, .step 0 {}] ++
      List.replicate 8 (.step 1 { random := "7" }) ++
      [.step 1 { random := "8" }, .step 1 { ok := false }, .step 1 {}, .step 1 {}])).any
    (fun c => c.threads.all Thread.finished &&
      c.world.disk.keys == ["/tmp/pgaio-verify-base_1-8.txt"]) = true := by
  decide

end Handler
end Pgaio
