import Pgaio.Service.FileJobs

/-!
# JobOffers — the files that stored jobs offer for download

`offered` lists the files of the stored jobs.  A call of the store lets go of the files of the jobs that it
drops, which `cleanupFn` removes (`offered_start`), and a finished job is the only one that gets a file
(`count_offered_complete`); every other call leaves the offer as it is (`offered_other`).
-/

namespace Pgaio
namespace Service

open Go Store

/-- The files of the stored jobs. -/
def offered (s : JobStore) : List String :=
  (s.order.filterMap s.get).filterMap Job.file?

section

variable {s : JobStore} {log : List Job} {now : Time} {path : String}

theorem offered_eq (h : JobStore.Sound s log) : offered s = (log.take jobCap).filterMap Job.file? := by
  unfold offered
  rw [show s.get = fun id => s.jobs.lookup id from rfl, h.keeps.filterMap_order]

/-- A file is offered as the file of a stored job. -/
theorem mem_offered (h : JobStore.Sound s log) :
    path ∈ offered s ↔ ∃ id job, s.get id = some job ∧ job.file? = some path := by
  rw [offered_eq h, List.mem_filterMap]
  constructor
  · rintro ⟨job, hjob, hfile⟩
    exact ⟨job.id, job, h.keeps.lookup_of_mem hjob, hfile⟩
  · rintro ⟨id, job, hget, hfile⟩
    exact ⟨job, (h.mem_of_get hget).1, hfile⟩

/-- Two jobs that offer the same file are counted both. -/
theorem two_offered (h : JobStore.Sound s log) {id id' : JobID} {job job' : Job} (hne : id ≠ id')
    (hget : s.get id = some job) (hget' : s.get id' = some job') (hfile : job.file? = some path)
    (hfile' : job'.file? = some path) : 2 ≤ (offered s).count path := by
  obtain ⟨hmem, hid⟩ := h.mem_of_get hget
  obtain ⟨hmem', hid'⟩ := h.mem_of_get hget'
  obtain ⟨newer, older, hsplit⟩ := List.append_of_mem hmem
  have hother : job' ∈ newer ++ older := by
    rw [hsplit, List.mem_append, List.mem_cons] at hmem'
    rw [List.mem_append]
    rcases hmem' with hnew | rfl | hold
    · exact .inl hnew
    · exact absurd (hid.symm.trans hid') hne
    · exact .inr hold
  have hpos : 0 < ((newer ++ older).filterMap Job.file?).count path :=
    List.count_pos_iff.2 (List.mem_filterMap.2 ⟨job', hother, hfile'⟩)
  rw [offered_eq h, hsplit, List.filterMap_append, List.filterMap_cons, hfile, List.count_append,
    List.count_cons_self]
  rw [List.filterMap_append, List.count_append] at hpos
  omega

/-- A start drops the oldest job at most, and the other jobs keep their files. -/
theorem offered_start (h : JobStore.Sound s log) (jobType target database message : String)
    (metadata : List (String × String)) :
    offered s =
      offered (s.start now jobType target database message metadata).2 ++
        FileWorld.dropped s (s.start now jobType target database message metadata).2 := by
  obtain ⟨cap, hcap⟩ : ∃ cap, jobCap = cap + 1 := ⟨199, rfl⟩
  have hstart := h.start now jobType target database message metadata
  rw [h.step_start now jobType target database message metadata] at hstart
  -- The log of the next store has one more entry, which has no file.
  have hcleaned : (s.start now jobType target database message metadata).2.cleaned = log.drop cap := by
    rw [hstart.cleaned, hcap, List.drop_succ_cons]
  have hdropped : FileWorld.dropped s (s.start now jobType target database message metadata).2 =
      ((log.drop cap).take 1).filterMap Job.file? := by
    unfold FileWorld.dropped
    rw [hcleaned, h.cleaned, hcap, List.length_drop, List.length_drop]
    congr 1
    rcases Nat.lt_or_ge cap log.length with hfull | hroom
    · rw [show log.length - cap - (log.length - (cap + 1)) = 1 by omega]
    · rw [List.drop_eq_nil_of_le hroom, List.take_nil, List.take_nil]
  have hoffered : offered (s.start now jobType target database message metadata).2 =
      (log.take cap).filterMap Job.file? := by
    rw [offered_eq hstart, hcap, List.take_succ_cons, List.filterMap_cons]
    rfl
  rw [offered_eq h, hoffered, hdropped, ← List.filterMap_append, ← List.take_add, hcap]

/-- The files depend on the artifacts only. -/
theorem filterMap_file? (jobs : List Job) :
    jobs.filterMap Job.file? = (jobs.map Job.file?).filterMap id := by
  rw [List.filterMap_map]
  rfl

/-- A call that changes no artifact changes no offer. -/
theorem offered_modify (h : JobStore.Sound s log) {jobID : JobID} {f : Job → Job}
    (hid : ∀ job, (f job).id = job.id) (hfile : ∀ job, (f job).file? = job.file?) :
    offered (s.modify jobID f) = offered s := by
  have hmap : (modifyNewest Job.id jobCap jobID f log).map Job.file? = log.map Job.file? :=
    map_modifyNewest hfile
  rw [offered_eq (h.modify hid), offered_eq h, filterMap_file?, filterMap_file?, List.map_take, hmap,
    List.map_take]

/-- The file of the job that is changed is exchanged. -/
theorem count_offered_modify (path : String) (h : JobStore.Sound s log) {jobID : JobID}
    {f : Job → Job} {job : Job}
    (hid : ∀ job, (f job).id = job.id) (hget : s.get jobID = some job) :
    (offered (s.modify jobID f)).count path + (job.file?.toList).count path =
      (offered s).count path + ((f job).file?.toList).count path := by
  obtain ⟨hmem, rfl⟩ := h.mem_of_get hget
  have hnodup : ((log.take jobCap).map Job.id).Nodup := by
    rw [List.map_take]
    exact h.keeps.nodup.sublist (List.take_sublist _ _)
  rw [offered_eq (h.modify hid), offered_eq h, take_modifyNewest]
  obtain ⟨newer, older, hsplit⟩ := List.append_of_mem hmem
  rw [hsplit, List.map_append, List.map_cons] at hnodup
  -- The other jobs have other IDs, so they stay as they are.
  have hnewer : newer.map (fun other => if other.id = job.id then f other else other) = newer := by
    refine (List.map_congr_left fun other hother => if_neg fun heq => ?_).trans (List.map_id _)
    exact (List.nodup_append.1 hnodup).2.2 _ (List.mem_map_of_mem hother) _ List.mem_cons_self heq
  have holder : older.map (fun other => if other.id = job.id then f other else other) = older := by
    refine (List.map_congr_left fun other hother => if_neg fun heq => ?_).trans (List.map_id _)
    exact (List.nodup_cons.1 (List.nodup_append.1 hnodup).2.1).1 (heq ▸ List.mem_map_of_mem hother)
  have hcons (job : Job) (jobs : List Job) :
      (job :: jobs).filterMap Job.file? = job.file?.toList ++ jobs.filterMap Job.file? := by
    cases hfile : job.file? <;> simp [hfile]
  rw [hsplit, List.map_append, List.map_cons, hnewer, holder, if_pos rfl, List.filterMap_append,
    List.filterMap_append, hcons, hcons]
  simp only [List.count_append]
  omega

theorem offered_of_none {jobID : JobID} {f : Job → Job} (hget : s.get jobID = none) :
    offered (s.modify jobID f) = offered s := by
  have hsame : s.modify jobID f = s := by
    have hlookup : s.jobs.lookup jobID = none := hget
    simp [JobStore.modify, hlookup]
  rw [hsame]

/-- Only a start drops a job. -/
theorem dropped_modify {jobID : JobID} {f : Job → Job} : FileWorld.dropped s (s.modify jobID f) = [] := by
  unfold FileWorld.dropped JobStore.modify
  cases s.jobs.lookup jobID <;> simp

/-- Every call but the one that hands over a file: what is no longer offered has been dropped. -/
theorem offered_other (now : Time) (h : JobStore.Sound s log) {call : JobCall}
    (hother : ∀ jobID message artifact, call ≠ .completeWithArtifact jobID message (some artifact)) :
    offered s = offered (call.exec s now).2 ++ FileWorld.dropped s (call.exec s now).2 := by
  have hmodify (jobID : JobID) (f : Job → Job) (hid : ∀ job, (f job).id = job.id)
      (hfile : ∀ job, (f job).file? = job.file?) :
      offered s = offered (s.modify jobID f) ++ FileWorld.dropped s (s.modify jobID f) := by
    rw [offered_modify h hid hfile, dropped_modify, List.append_nil]
  cases call with
  | start jobType target database message metadata => exact offered_start h _ _ _ _ _
  | update jobID message details => exact hmodify jobID _ (fun _ => rfl) fun _ => rfl
  | complete jobID message => exact hmodify jobID _ (fun _ => rfl) fun _ => rfl
  | completeWithArtifact jobID message artifact =>
      cases artifact with
      | none => exact hmodify jobID _ (fun _ => rfl) fun _ => rfl
      | some artifact => exact absurd rfl (hother jobID message artifact)
  | fail jobID message details => exact hmodify jobID _ (fun _ => rfl) fun _ => rfl
  | cancel jobID message => exact hmodify jobID _ (fun _ => rfl) fun _ => rfl
  | get jobID => simp [JobCall.exec, FileWorld.dropped]

/-- After a start a job is missing, as it was before, or the new one. -/
theorem get_start_cases (h : JobStore.Sound s log) (now : Time) (jobType target database message : String)
    (metadata : List (String × String)) (id : JobID) :
    (s.start now jobType target database message metadata).2.get id = none ∨
      (id.seq ≤ s.seq ∧ (s.start now jobType target database message metadata).2.get id = s.get id) ∨
        (id = (s.newJob now jobType target database message metadata).id ∧
          (s.start now jobType target database message metadata).2.get id =
            some (s.newJob now jobType target database message metadata)) := by
  cases hget : (s.start now jobType target database message metadata).2.get id with
  | none => exact .inl rfl
  | some job =>
      have hexec : ((JobCall.start jobType target database message metadata).exec s now).2.get id =
          some job := hget
      rcases h.get_exec hexec with ⟨-, hold⟩ | ⟨_, _, hchange, _, _⟩ | ⟨_, _, _, _, _, hcall, rfl, hid⟩
      · exact .inr (.inl ⟨h.seq_le_of_get hold, hold.symm⟩)
      · cases hchange
      · cases hcall
        exact .inr (.inr ⟨hid.symm, rfl⟩)

end

end Service
end Pgaio
