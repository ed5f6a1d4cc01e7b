import Pgaio.Service.RecencyStores
import Mathlib.Data.List.Induction

/-!
# JobArtifacts — who is responsible for the files of finished jobs

A file that is handed to `CompleteWithArtifact` belongs to the job from then on; when the job is
dropped, `cleanupFn` removes the file.  Jobs are dropped by age while they still run, so a call may
come too late: it returns at once and nobody knows the file (`orphaned`).  `artifacts_kept_iff` says
for which calls no file gets lost.
-/

namespace Pgaio
namespace Service

open Go Store

/-- The file that `cleanupFn` removes. -/
def JobArtifact.file? (artifact : JobArtifact) : Option String :=
  if artifact.path = "" then none else some artifact.path

def Job.file? (job : Job) : Option String :=
  job.artifact.bind JobArtifact.file?

/-- The file that a caller hands over to the store. -/
def JobCall.file? : JobCall → Option String
  | .completeWithArtifact _ _ (some artifact) => artifact.file?
  | _ => none

/-- All files that were handed over. -/
def handed (calls : List (Time × JobCall)) : List String :=
  calls.filterMap fun call => call.2.file?

namespace JobStore

/-- A stored job refers to the file, or `cleanupFn` was called for a job that did. -/
def Holds (s : JobStore) (path : String) : Prop :=
  (∃ id job, s.get id = some job ∧ job.file? = some path) ∨
    ∃ job ∈ s.cleaned, job.file? = some path

/-- The same without one job. -/
def HoldsBut (s : JobStore) (jobID : JobID) (path : String) : Prop :=
  (∃ id job, id ≠ jobID ∧ s.get id = some job ∧ job.file? = some path) ∨
    ∃ job ∈ s.cleaned, job.file? = some path

/-- The call takes over its file and lets go of no other one: the job is still stored, or the file
belongs to a job anyway, and a file that is replaced belongs to another job as well. -/
def KeepsFiles (s : JobStore) : JobCall → Prop
  | .completeWithArtifact jobID _ (some artifact) =>
      match s.get jobID with
      | none => ∀ path, artifact.file? = some path → s.Holds path
      | some job =>
          ∀ path, job.file? = some path → artifact.file? ≠ some path → s.HoldsBut jobID path
  | _ => True

end JobStore

/-- No file that was handed over in these calls is orphaned after them. -/
def NoOrphan (calls : List (Time × JobCall)) : Prop :=
  ∀ path ∈ handed calls, (JobStore.run calls).Holds path

/-! ## Files in the log -/

namespace JobStore

variable {s : JobStore} {log : List Job} {path : String}

/-- Stored and dropped jobs together are those of the log. -/
theorem Sound.holds_iff (h : Sound s log) :
    s.Holds path ↔ ∃ job ∈ log, job.file? = some path := by
  constructor
  · rintro (⟨id, job, hget, hfile⟩ | ⟨job, hcleaned, hfile⟩)
    · exact ⟨job, List.mem_of_mem_take (h.mem_of_get hget).1, hfile⟩
    · rw [h.cleaned] at hcleaned
      exact ⟨job, List.mem_of_mem_drop hcleaned, hfile⟩
  · rintro ⟨job, hjob, hfile⟩
    rcases stored_or_dropped jobCap hjob with hstored | hdropped
    · exact Or.inl ⟨job.id, job, h.keeps.lookup_of_mem hstored, hfile⟩
    · exact Or.inr ⟨job, h.cleaned ▸ hdropped, hfile⟩

theorem Sound.holdsBut_iff (h : Sound s log) {jobID : JobID} {job : Job}
    (hget : s.get jobID = some job) :
    s.HoldsBut jobID path ↔ ∃ job' ∈ log, job'.file? = some path ∧ job'.id ≠ jobID := by
  constructor
  · rintro (⟨id, job', hne, hget', hfile⟩ | ⟨job', hcleaned, hfile⟩)
    · rcases h.mem_of_get hget' with ⟨hmem, rfl⟩
      exact ⟨job', List.mem_of_mem_take hmem, hfile, hne⟩
    · -- A job that was dropped is not the one that is stored.
      rw [h.cleaned] at hcleaned
      refine ⟨job', List.mem_of_mem_drop hcleaned, hfile, fun heq => ?_⟩
      rcases h.mem_of_get hget with ⟨hmem, hid⟩
      exact h.keeps.key_ne_of_dropped hmem hcleaned (hid.trans heq.symm)
  · rintro ⟨job', hjob', hfile, hne⟩
    rcases stored_or_dropped jobCap hjob' with hstored | hdropped
    · exact Or.inl ⟨job'.id, job', hne, h.keeps.lookup_of_mem hstored, hfile⟩
    · exact Or.inr ⟨job', h.cleaned ▸ hdropped, hfile⟩

end JobStore

/-! ## One call -/

section Call

variable {s : JobStore} {log : List Job} {path : String} {now : Time} {call : JobCall}

/-- A call that hands over no artifact leaves all files where they are. -/
theorem files_step (h : ∀ jobID message artifact,
      call ≠ .completeWithArtifact jobID message (some artifact)) :
    (∃ job ∈ JobLog.step log now call, job.file? = some path) ↔
      ∃ job ∈ log, job.file? = some path := by
  have hmap : ∀ jobID f, (∀ job, Job.file? (f job) = job.file?) →
      ((∃ job ∈ modifyNewest Job.id jobCap jobID f log, job.file? = some path) ↔
        ∃ job ∈ log, job.file? = some path) := by
    intro jobID f hf
    have hfiles : (modifyNewest Job.id jobCap jobID f log).map Job.file? = log.map Job.file? :=
      map_modifyNewest hf
    rw [← List.mem_map, ← List.mem_map, hfiles]
  cases call with
  | start jobType target database message metadata => simp [JobLog.step, Job.file?]
  | update jobID message details => exact hmap jobID _ fun _ => rfl
  | complete jobID message => exact hmap jobID _ fun _ => rfl
  | completeWithArtifact jobID message artifact =>
      cases artifact with
      | none => exact hmap jobID _ fun _ => rfl
      | some artifact => exact absurd rfl (h jobID message artifact)
  | fail jobID message details => exact hmap jobID _ fun _ => rfl
  | cancel jobID message => exact hmap jobID _ fun _ => rfl
  | get jobID => exact Iff.rfl

/-- The files after an artifact was handed over for a stored job. -/
theorem files_stored (h : JobStore.Sound s log) {jobID : JobID} {message : String}
    {artifact : JobArtifact} {job : Job} (hget : s.get jobID = some job) :
    (∃ job' ∈ JobLog.step log now (.completeWithArtifact jobID message (some artifact)),
        job'.file? = some path) ↔
      artifact.file? = some path ∨ s.HoldsBut jobID path := by
  let f := JobStore.finished now .succeeded message "" (some artifact)
  have hmem : ∀ job', job' ∈ modifyNewest Job.id jobCap jobID f log ↔
      job' = f job ∨ job' ∈ log ∧ job'.id ≠ jobID := fun job' => h.keeps.mem_modifyNewest hget
  rw [h.holdsBut_iff hget]
  constructor
  · rintro ⟨job', hjob', hfile⟩
    rcases (hmem job').1 hjob' with rfl | ⟨hold, hne⟩
    · exact Or.inl hfile
    · exact Or.inr ⟨job', hold, hfile, hne⟩
  · rintro (hfile | ⟨job', hold, hfile, hne⟩)
    · exact ⟨f job, (hmem _).2 (Or.inl rfl), hfile⟩
    · exact ⟨job', (hmem _).2 (Or.inr ⟨hold, hne⟩), hfile⟩

/-- For a job that is no longer stored nothing happens. -/
theorem files_missing (h : JobStore.Sound s log) {jobID : JobID} {message : String}
    {artifact : JobArtifact} (hget : s.get jobID = none) :
    JobLog.step log now (.completeWithArtifact jobID message (some artifact)) = log :=
  h.keeps.modifyNewest_of_none hget

/-- Either a call hands over an artifact or it does not. -/
theorem handing_cases (call : JobCall) :
    (∃ jobID message artifact, call = .completeWithArtifact jobID message (some artifact)) ∨
      ∀ jobID message artifact, call ≠ .completeWithArtifact jobID message (some artifact) := by
  by_cases h : ∃ jobID message artifact, call = .completeWithArtifact jobID message (some artifact)
  · exact Or.inl h
  · exact Or.inr fun jobID message artifact heq => h ⟨jobID, message, artifact, heq⟩

theorem file?_of_not_handing (h : ∀ jobID message artifact,
    call ≠ .completeWithArtifact jobID message (some artifact)) : call.file? = none := by
  unfold JobCall.file?
  split
  · exact absurd rfl (h _ _ _)
  · rfl

theorem keepsFiles_of_not_handing (h : ∀ jobID message artifact,
    call ≠ .completeWithArtifact jobID message (some artifact)) : s.KeepsFiles call := by
  unfold JobStore.KeepsFiles
  split
  · exact absurd rfl (h _ _ _)
  · trivial

end Call

/-! ## Sequences of calls -/

section Run

variable {calls : List (Time × JobCall)} {now : Time} {call : JobCall}

theorem JobStore.run_concat :
    JobStore.run (calls ++ [(now, call)]) = (call.exec (JobStore.run calls) now).2 := by
  simp [JobStore.run]

theorem JobLog.run_concat :
    JobLog.run (calls ++ [(now, call)]) = JobLog.step (JobLog.run calls) now call := by
  simp [JobLog.run]

theorem handed_concat : handed (calls ++ [(now, call)]) = handed calls ++ call.file?.toList := by
  unfold handed
  rw [List.filterMap_append]
  cases hfile : call.file? with
  | none => simp [hfile]
  | some path => simp [hfile]

theorem holds_run {path : String} :
    (JobStore.run calls).Holds path ↔ ∃ job ∈ JobLog.run calls, job.file? = some path :=
  (JobStore.Sound.run calls).holds_iff

/-- Every file in the log was handed over. -/
theorem handed_of_file {job : Job} {path : String} (hjob : job ∈ JobLog.run calls)
    (hfile : job.file? = some path) : path ∈ handed calls := by
  -- The induction is on the last call, which adds at most the file it hands over.
  induction calls using List.reverseRecOn generalizing job with
  | nil => cases hjob
  | append_singleton calls last ih =>
      rcases last with ⟨now, call⟩
      have hsome : ∃ job ∈ JobLog.step (JobLog.run calls) now call, job.file? = some path :=
        ⟨job, JobLog.run_concat ▸ hjob, hfile⟩
      have hsound := JobStore.Sound.run calls
      rw [handed_concat]
      rcases handing_cases call with ⟨jobID, message, artifact, rfl⟩ | hother
      · cases hget : (JobStore.run calls).get jobID with
        | none =>
            rw [files_missing hsound hget] at hsome
            rcases hsome with ⟨before, hbefore, hfile'⟩
            exact List.mem_append_left _ (ih hbefore hfile')
        | some before =>
            rcases (files_stored hsound hget).1 hsome with hnew | hbut
            · exact List.mem_append_right _ (by simp [JobCall.file?, hnew])
            · rcases (hsound.holdsBut_iff hget).1 hbut with ⟨other, hold, hfile', _⟩
              exact List.mem_append_left _ (ih hold hfile')
      · rcases (files_step hother).1 hsome with ⟨before, hbefore, hfile'⟩
        exact List.mem_append_left _ (ih hbefore hfile')

/-- Whether the next call orphans a file. -/
theorem noOrphan_concat (h : NoOrphan calls) :
    NoOrphan (calls ++ [(now, call)]) ↔ (JobStore.run calls).KeepsFiles call := by
  have hsound := JobStore.Sound.run calls
  have hbefore : ∀ path ∈ handed calls, ∃ job ∈ JobLog.run calls, job.file? = some path :=
    fun path hpath => holds_run.1 (h path hpath)
  have hafter : NoOrphan (calls ++ [(now, call)]) ↔
      ∀ path ∈ handed calls ++ call.file?.toList,
        ∃ job ∈ JobLog.step (JobLog.run calls) now call, job.file? = some path := by
    unfold NoOrphan
    rw [handed_concat]
    refine forall₂_congr fun path _ => ?_
    rw [holds_run, JobLog.run_concat]
  rw [hafter]
  rcases handing_cases call with ⟨jobID, message, artifact, rfl⟩ | hother
  · cases hget : (JobStore.run calls).get jobID with
    | none =>
        -- The job is gone, and the call returns without taking the file.
        simp only [JobStore.KeepsFiles, hget, files_missing hsound hget]
        constructor
        · intro hall path hfile
          exact holds_run.2 (hall path (List.mem_append_right _ (by simp [JobCall.file?, hfile])))
        · intro hkeeps path hpath
          rcases List.mem_append.1 hpath with hold | hnew
          · exact hbefore path hold
          · exact holds_run.1 (hkeeps path (by simpa [JobCall.file?] using hnew))
    | some job =>
        -- The job takes the file and lets go of the one it had.
        simp only [JobStore.KeepsFiles, hget, files_stored hsound hget]
        constructor
        · intro hall path hfile hne
          have hjob : job ∈ JobLog.run calls := List.mem_of_mem_take (hsound.mem_of_get hget).1
          have hhanded := handed_of_file hjob hfile
          exact (hall path (List.mem_append_left _ hhanded)).resolve_left hne
        · intro hkeeps path hpath
          by_cases hnew : artifact.file? = some path
          · exact Or.inl hnew
          · have hold : path ∈ handed calls := by
              rcases List.mem_append.1 hpath with hold | hlast
              · exact hold
              · exact absurd (by simpa [JobCall.file?] using hlast) hnew
            refine Or.inr ?_
            rcases hbefore path hold with ⟨holder, hholder, hfile⟩
            by_cases hid : holder.id = jobID
            · -- The holder is the job itself, which now gets another file.
              rcases hsound.mem_of_get hget with ⟨hjob, hjobID⟩
              have hsame : holder = job := List.inj_on_of_nodup_map hsound.keeps.nodup hholder
                (List.mem_of_mem_take hjob) (hid.trans hjobID.symm)
              exact hkeeps path (hsame ▸ hfile) hnew
            · exact (hsound.holdsBut_iff hget).2 ⟨holder, hholder, hfile, hid⟩
  · rw [iff_true_right (keepsFiles_of_not_handing hother), file?_of_not_handing hother]
    intro path hpath
    exact (files_step hother).2 (hbefore path (by simpa using hpath))

/-- In a sequence of calls no file ever is orphaned, at any moment, exactly when each call keeps the
files of the store it meets. -/
theorem artifacts_kept_iff (calls : List (Time × JobCall)) :
    (∀ earlier, earlier <+: calls → NoOrphan earlier) ↔
      ∀ before now call after, calls = before ++ (now, call) :: after →
        (JobStore.run before).KeepsFiles call := by
  induction calls using List.reverseRecOn with
  | nil =>
      constructor
      · intro _ before now call after hsplit
        simp at hsplit
      · intro _ earlier hearlier path hpath
        rw [List.prefix_nil.1 hearlier] at hpath
        cases hpath
  | append_singleton calls last ih =>
      rcases last with ⟨now, call⟩
      constructor
      · intro hall before now' call' after hsplit
        have hcalls : ∀ earlier, earlier <+: calls → NoOrphan earlier :=
          fun earlier hearlier => hall earlier (hearlier.trans (List.prefix_append _ _))
        -- The call in question is the last one or an earlier one.
        rcases List.eq_nil_or_concat after with rfl | ⟨after', last', rfl⟩
        · rcases List.append_inj' hsplit rfl with ⟨rfl, hlast⟩
          cases hlast
          exact (noOrphan_concat (hcalls calls List.prefix_rfl)).1 (hall _ List.prefix_rfl)
        · rw [List.concat_eq_append, ← List.cons_append, ← List.append_assoc] at hsplit
          exact ih.1 hcalls before now' call' after' (List.append_inj' hsplit rfl).1
      · intro hkeeps earlier hearlier
        have hcalls : ∀ earlier, earlier <+: calls → NoOrphan earlier := by
          refine ih.2 fun before now' call' after hsplit => ?_
          refine hkeeps before now' call' (after ++ [(now, call)]) ?_
          rw [hsplit, List.append_assoc, List.cons_append]
        rcases List.prefix_concat_iff.1 hearlier with rfl | hbefore
        · have hlast := hkeeps calls now call [] rfl
          exact (noOrphan_concat (hcalls calls List.prefix_rfl)).2 hlast
        · exact hcalls earlier hbefore

end Run

/-- An export starts, `jobCap` other jobs start while it runs, and then it is ready. -/
def lateExport : List (Time × JobCall) :=
  (0, .start "export" "app.dump" "app" "export queued" []) ::
    List.replicate jobCap (1, .start "vacuum" "t" "app" "vacuum queued" []) ++
      [(2, .completeWithArtifact { unix := Time.unix 0, seq := 1 } "export ready for download"
        (some {
          path := "/tmp/pgaio-export-1.dump"
          name := "app.dump"
          contentType := "application/octet-stream"
          sizeBytes := 42 }))]

/-- The file of an export that takes too long is neither stored nor cleaned up. -/
theorem orphaned :
    (JobStore.start {} 0 "export" "app.dump" "app" "export queued" []).1.id =
        { unix := Time.unix 0, seq := 1 } ∧
      "/tmp/pgaio-export-1.dump" ∈ handed lateExport ∧
        ¬(JobStore.run lateExport).Holds "/tmp/pgaio-export-1.dump" := by
  refine ⟨rfl, by decide +kernel, fun hholds => ?_⟩
  have hnone : (JobLog.run lateExport).all
      (fun job => job.file? != some "/tmp/pgaio-export-1.dump") = true := by
    decide +kernel
  rcases holds_run.1 hholds with ⟨job, hjob, hfile⟩
  have hne := List.all_eq_true.1 hnone job hjob
  rw [hfile] at hne
  simp at hne

end Service
end Pgaio
