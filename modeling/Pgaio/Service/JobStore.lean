import Pgaio.Go.Slices
import Pgaio.Go.Time
import Pgaio.Store.Recency
import Mathlib.Data.List.AList

/-!
# JobStore — the in-memory store of background jobs

`service/job_store.go`.  Every exported method runs under the store's own mutex, so a call is one
atomic step; `JobCall` names the calls and `JobCall.exec` gives their effect.  The clock reading of
a call is its argument `now`.
-/

namespace Pgaio
namespace Service

open Go

inductive JobStatus
  | running
  | succeeded
  | failed
  | canceled
  deriving DecidableEq, Repr

/-- The two numbers of a job ID. -/
structure JobID where
  unix : Int
  seq : Nat
  deriving DecidableEq, Repr

/-- `fmt.Sprintf("job-%d-%06d", …)`. -/
def JobID.text (id : JobID) : String :=
  "job-" ++ itoa id.unix ++ "-" ++ padLeft 6 id.seq

structure JobArtifact where
  path : String
  name : String
  contentType : String
  sizeBytes : Int
  deriving DecidableEq, Repr

structure Job where
  id : JobID
  jobType : String
  target : String
  database : String
  status : JobStatus
  message : String
  error : String := ""
  details : String := ""
  metadata : List (String × String)
  createdAt : Time
  startedAt : Time
  updatedAt : Time
  finishedAt : Option Time := none
  artifact : Option JobArtifact := none
  deriving DecidableEq, Repr

/-- `cleaned` records the jobs that were handed to `cleanupFn`, newest first. -/
structure JobStore where
  jobs : AList (fun _ : JobID => Job) := ∅
  order : List JobID := []
  maxJobs : Nat := 200
  seq : Nat := 0
  cleaned : List Job := []

namespace JobStore

/-- Drop the oldest job of the order, as one round of `trimLocked` does. -/
def dropLast (s : JobStore) (last : JobID) : JobStore :=
  match s.jobs.lookup last with
  | none => { s with order := s.order.dropLast }
  | some job =>
      { s with
        order := s.order.dropLast
        jobs := s.jobs.erase last
        cleaned := job :: s.cleaned }

/-- The loop of `trimLocked`; each round shortens the order by one. -/
def trimRounds : Nat → JobStore → JobStore
  | 0, s => s
  | n + 1, s =>
      match s.order.getLast? with
      | none => s
      | some last => trimRounds n (s.dropLast last)

def trimLocked (s : JobStore) : JobStore :=
  trimRounds (s.order.length - s.maxJobs) s

/-- The job that `Start` creates at `now`. -/
def newJob (s : JobStore) (now : Time) (jobType target database message : String)
    (metadata : List (String × String)) : Job :=
  { id := { unix := now.unix, seq := s.seq + 1 }
    jobType := jobType
    target := target
    database := database
    status := .running
    message := message
    metadata := metadata
    createdAt := now
    startedAt := now
    updatedAt := now }

def start (s : JobStore) (now : Time) (jobType target database message : String)
    (metadata : List (String × String)) : Job × JobStore :=
  let job := s.newJob now jobType target database message metadata
  (job,
    trimLocked
      { s with
        jobs := s.jobs.insert job.id job
        order := job.id :: s.order
        seq := s.seq + 1 })

/-- Change one job in place; a job that is not stored is left alone. -/
def modify (s : JobStore) (jobID : JobID) (f : Job → Job) : JobStore :=
  match s.jobs.lookup jobID with
  | none => s
  | some job => { s with jobs := s.jobs.insert jobID (f job) }

def update (s : JobStore) (now : Time) (jobID : JobID) (message details : String) : JobStore :=
  s.modify jobID fun job =>
    { job with
      message := if message ≠ "" then message else job.message
      details := if details ≠ "" then details else job.details
      updatedAt := now }

/-- The job after `finish`. -/
def finished (now : Time) (status : JobStatus) (message details : String)
    (artifact : Option JobArtifact) (job : Job) : Job :=
  { job with
    status := status
    message := message
    error := if status = .failed then message else job.error
    details := if details ≠ "" then details else job.details
    artifact := if artifact.isSome then artifact else job.artifact
    updatedAt := now
    finishedAt := some now }

def finish (s : JobStore) (now : Time) (jobID : JobID) (status : JobStatus)
    (message details : String) (artifact : Option JobArtifact) : JobStore :=
  s.modify jobID (finished now status message details artifact)

def get (s : JobStore) (jobID : JobID) : Option Job :=
  s.jobs.lookup jobID

def list (s : JobStore) (jobType : String) (limit : Int) : List Job :=
  let limit := if limit ≤ 0 ∨ limit > s.maxJobs then 50 else limit.toNat
  sortSliceStable (fun a b => a.createdAt.after b.createdAt)
    (Store.collect s.get (fun job => jobType = "" || job.jobType = jobType) limit [] s.order)

/-- The status under which a job is listed, if it is still stored. -/
def status? (s : JobStore) (jobID : JobID) : Option JobStatus :=
  (s.get jobID).map Job.status

end JobStore

/-! ## Calls -/

inductive JobCall where
  | start (jobType target database message : String) (metadata : List (String × String))
  | update (jobID : JobID) (message details : String)
  | complete (jobID : JobID) (message : String)
  | completeWithArtifact (jobID : JobID) (message : String) (artifact : Option JobArtifact)
  | fail (jobID : JobID) (message details : String)
  | cancel (jobID : JobID) (message : String)
  | get (jobID : JobID)
  deriving DecidableEq, Repr

@[reducible] def JobCall.Resp : JobCall → Type
  | .start _ _ _ _ _ => Job
  | .get _ => Option Job
  | _ => Unit

/-- The effect of one call on the store. -/
def JobCall.exec (s : JobStore) (now : Time) : (c : JobCall) → c.Resp × JobStore
  | .start jobType target database message metadata =>
      s.start now jobType target database message metadata
  | .update jobID message details => ((), s.update now jobID message details)
  | .complete jobID message => ((), s.finish now jobID .succeeded message "" none)
  | .completeWithArtifact jobID message artifact =>
      ((), s.finish now jobID .succeeded message "" artifact)
  | .fail jobID message details => ((), s.finish now jobID .failed message details none)
  | .cancel jobID message => ((), s.finish now jobID .canceled message "" none)
  | .get jobID => (s.get jobID, s)

/-- The status that a call gives to its job when it ends the job. -/
def JobCall.ends? : JobCall → Option JobStatus
  | .complete _ _ => some .succeeded
  | .completeWithArtifact _ _ _ => some .succeeded
  | .fail _ _ _ => some .failed
  | .cancel _ _ => some .canceled
  | _ => none

/-! ## What a call does to one job -/

namespace JobStore

theorem lookup_modify_self {s : JobStore} {jobID : JobID} {f : Job → Job} :
    (s.modify jobID f).get jobID = (s.get jobID).map f := by
  unfold modify get
  cases h : s.jobs.lookup jobID with
  | none => simp [h]
  | some job => simp [AList.lookup_insert]

theorem lookup_modify_ne {s : JobStore} {jobID other : JobID} {f : Job → Job}
    (hne : other ≠ jobID) : (s.modify jobID f).get other = s.get other := by
  unfold modify get
  cases h : s.jobs.lookup jobID with
  | none => rfl
  | some job => simp [AList.lookup_insert_ne hne]

theorem status?_finish {s : JobStore} {now : Time} {jobID : JobID} {status : JobStatus}
    {message details : String} {artifact : Option JobArtifact} :
    (s.finish now jobID status message details artifact).status? jobID =
      (s.get jobID).map fun _ => status := by
  unfold finish status?
  rw [lookup_modify_self, Option.map_map]
  rfl

/-! ## A job that has just been started is stored -/

/-- What holds of a store at any time: sequence numbers are given out in ascending order, and there
is room for at least one job. -/
structure WellFormed (s : JobStore) : Prop where
  seq_le : ∀ id ∈ s.order, id.seq ≤ s.seq
  maxJobs_pos : 0 < s.maxJobs

/-- A new store is well formed. -/
theorem wellFormed_new : WellFormed {} where
  seq_le := by simp
  maxJobs_pos := by decide

theorem dropLast_frame (s : JobStore) (last : JobID) :
    (s.dropLast last).order = s.order.dropLast ∧ (s.dropLast last).seq = s.seq ∧
      (s.dropLast last).maxJobs = s.maxJobs := by
  unfold dropLast
  cases s.jobs.lookup last with
  | none => exact ⟨rfl, rfl, rfl⟩
  | some job => exact ⟨rfl, rfl, rfl⟩

theorem get_dropLast {s : JobStore} {last id : JobID} (hne : id ≠ last) :
    (s.dropLast last).get id = s.get id := by
  unfold dropLast get
  cases s.jobs.lookup last with
  | none => rfl
  | some job => exact AList.lookup_erase_ne hne

theorem WellFormed.trimRounds {s : JobStore} (h : s.WellFormed) (n : Nat) :
    (trimRounds n s).WellFormed := by
  induction n generalizing s with
  | zero => exact h
  | succ n ih =>
      simp only [JobStore.trimRounds]
      split
      · exact h
      · rename_i last _
        rcases dropLast_frame s last with ⟨horder, hseq, hmax⟩
        refine ih ⟨?_, ?_⟩
        · intro id hid
          rw [horder] at hid
          rw [hseq]
          exact h.seq_le id (List.dropLast_subset _ hid)
        · rw [hmax]
          exact h.maxJobs_pos

/-- Trimming does not reach the newest job as long as older ones are left. -/
theorem get_trimRounds {n : Nat} {s : JobStore} {id : JobID} (older : List JobID)
    (horder : s.order = id :: older) (hnot : id ∉ older) (hn : n ≤ older.length) :
    (trimRounds n s).get id = s.get id := by
  induction n generalizing s older with
  | zero => rfl
  | succ n ih =>
      have hne : older ≠ [] := by
        intro hnil
        simp [hnil] at hn
      have hlast : s.order.getLast? = some (older.getLast hne) := by
        rw [horder, List.getLast?_cons]
        simp [List.getLast?_eq_getLast_of_ne_nil hne]
      have hdiff : id ≠ older.getLast hne := by
        intro heq
        exact hnot (heq ▸ List.getLast_mem hne)
      simp only [trimRounds, hlast]
      rw [ih older.dropLast ?_ (fun h => hnot (List.dropLast_subset _ h)) ?_,
        get_dropLast hdiff]
      · rw [(dropLast_frame s _).1, horder, List.dropLast_cons_of_ne_nil hne]
      · rw [List.length_dropLast]
        omega

theorem get_start {s : JobStore} (h : s.WellFormed) (now : Time)
    (jobType target database message : String) (metadata : List (String × String)) :
    (s.start now jobType target database message metadata).2.get
        (s.start now jobType target database message metadata).1.id =
      some (s.start now jobType target database message metadata).1 := by
  have hnot : ({ unix := now.unix, seq := s.seq + 1 } : JobID) ∉ s.order := by
    intro hmem
    have hle := h.seq_le _ hmem
    exact absurd hle (Nat.not_succ_le_self _)
  have hpos := h.maxJobs_pos
  refine (get_trimRounds s.order rfl hnot ?_).trans ?_
  · simp only [List.length_cons]
    omega
  · simp [get, newJob, start]

theorem wellFormed_modify {s : JobStore} (h : s.WellFormed) (jobID : JobID) (f : Job → Job) :
    (s.modify jobID f).WellFormed := by
  unfold modify
  cases s.jobs.lookup jobID with
  | none => exact h
  | some job => exact ⟨h.seq_le, h.maxJobs_pos⟩

/-- Every call keeps the store well formed. -/
theorem wellFormed_exec {s : JobStore} (h : s.WellFormed) (now : Time) (call : JobCall) :
    (call.exec s now).2.WellFormed := by
  cases call with
  | start jobType target database message metadata =>
      let job := s.newJob now jobType target database message metadata
      have hadded : WellFormed { s with
          jobs := s.jobs.insert job.id job
          order := job.id :: s.order
          seq := s.seq + 1 } := by
        refine ⟨?_, h.maxJobs_pos⟩
        intro id hid
        rcases List.mem_cons.1 hid with rfl | hold
        · exact Nat.le_refl _
        · exact Nat.le_succ_of_le (h.seq_le id hold)
      exact hadded.trimRounds _
  | update jobID message details => exact wellFormed_modify h _ _
  | complete jobID message => exact wellFormed_modify h _ _
  | completeWithArtifact jobID message artifact => exact wellFormed_modify h _ _
  | fail jobID message details => exact wellFormed_modify h _ _
  | cancel jobID message => exact wellFormed_modify h _ _
  | get jobID => exact h

/-- A stored job stays stored when it is updated. -/
theorem isSome_get_update {s : JobStore} {jobID : JobID} (h : (s.get jobID).isSome = true)
    (now : Time) (message details : String) :
    ((s.update now jobID message details).get jobID).isSome = true := by
  unfold update
  rw [lookup_modify_self]
  simpa using h

theorem status?_finish_of_isSome {s : JobStore} {jobID : JobID}
    (h : (s.get jobID).isSome = true) (now : Time) (status : JobStatus)
    (message details : String) (artifact : Option JobArtifact) :
    (s.finish now jobID status message details artifact).status? jobID = some status := by
  rcases Option.isSome_iff_exists.1 h with ⟨job, hjob⟩
  rw [status?_finish, hjob]
  rfl

end JobStore

end Service
end Pgaio
