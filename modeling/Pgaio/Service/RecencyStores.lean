import Pgaio.Service.JobStore
import Pgaio.Service.PlanStore

/-!
# RecencyStores — the stores of jobs and of plans hold the latest insertions

Each store is compared with the log of everything that was ever inserted, newest first, in which an
update changes one of the entries that are still stored.  `bounded_recency` says that the stores
refine their logs, over all sequences of calls.
-/

namespace Pgaio
namespace Service

open Go Store

theorem JobID.text_injective : Function.Injective JobID.text := by
  rintro ⟨unix, seq⟩ ⟨unix', seq'⟩ h
  rcases stamp_inj h with ⟨rfl, rfl⟩
  rfl

theorem PlanID.text_injective : Function.Injective PlanID.text := by
  rintro ⟨unix, seq⟩ ⟨unix', seq'⟩ h
  rcases stamp_inj h with ⟨rfl, rfl⟩
  rfl

/-- What was logged newest first stays in this order when it is listed. -/
theorem listed_newestFirst {V : Type} {createdAt : V → Time} {log : List V} {cap limit : Nat}
    {want : V → Bool}
    (hsorted : log.Pairwise fun newer older => createdAt older ≤ createdAt newer) :
    sortSliceStable (fun a b => (createdAt a).after (createdAt b))
        (((log.take cap).filter want).take limit) =
      ((log.take cap).filter want).take limit := by
  have hstored : ((log.take cap).filter want).Sublist log :=
    List.filter_sublist.trans (List.take_sublist cap log)
  have hlisted := (List.take_sublist limit _).trans hstored
  refine sortSliceStable_of_pairwise ((hsorted.sublist hlisted).imp fun hle => ?_)
  simpa [Time.after] using hle

/-! ## The log of the jobs -/

/-- The job after `Update`. -/
def updated (now : Time) (message details : String) (job : Job) : Job :=
  { job with
    message := if message ≠ "" then message else job.message
    details := if details ≠ "" then details else job.details
    updatedAt := now }

/-- The job after `Complete` or `CompleteWithArtifact`; an artifact is kept when there is no other. -/
def completed (now : Time) (message : String) (artifact : Option JobArtifact) (job : Job) : Job :=
  { job with
    status := .succeeded
    message := message
    artifact := artifact.or job.artifact
    updatedAt := now
    finishedAt := some now }

/-- The job after `Fail`. -/
def failed (now : Time) (message details : String) (job : Job) : Job :=
  { job with
    status := .failed
    message := message
    error := message
    details := if details ≠ "" then details else job.details
    updatedAt := now
    finishedAt := some now }

/-- The job after `Cancel`. -/
def canceled (now : Time) (message : String) (job : Job) : Job :=
  { job with
    status := .canceled
    message := message
    updatedAt := now
    finishedAt := some now }

/-- The job that a call changes, and how. -/
def JobCall.change? (now : Time) : JobCall → Option (JobID × (Job → Job))
  | .update jobID message details => some (jobID, updated now message details)
  | .complete jobID message => some (jobID, completed now message none)
  | .completeWithArtifact jobID message artifact => some (jobID, completed now message artifact)
  | .fail jobID message details => some (jobID, failed now message details)
  | .cancel jobID message => some (jobID, canceled now message)
  | .start _ _ _ _ _ => none
  | .get _ => none

/-- The bound of a new store. -/
def jobCap : Nat := 200

namespace JobLog

/-- One call: a start adds a job with the next sequence number, an update changes a job among the
`jobCap` newest ones. -/
def step (log : List Job) (now : Time) : JobCall → List Job
  | .start jobType target database message metadata =>
      { id := { unix := now.unix, seq := log.length + 1 }
        jobType := jobType
        target := target
        database := database
        status := .running
        message := message
        metadata := metadata
        createdAt := now
        startedAt := now
        updatedAt := now } :: log
  | call =>
      match call.change? now with
      | none => log
      | some (jobID, f) => modifyNewest Job.id jobCap jobID f log

def run (calls : List (Time × JobCall)) : List Job :=
  calls.foldl (fun log call => step log call.1 call.2) []

end JobLog

namespace JobStore

/-- The store after a sequence of calls, each with its reading of the clock. -/
def run (calls : List (Time × JobCall)) : JobStore :=
  calls.foldl (fun s call => (call.2.exec s call.1).2) {}

/-- What the users of the store can rely on, in terms of the log. -/
structure Refines (s : JobStore) (log : List Job) : Prop where
  distinct : (log.map fun job => job.id.text).Nodup
  keys : ∀ id, id ∈ s.jobs.keys ↔ id ∈ s.order
  order : s.order = (log.take jobCap).map Job.id
  get : ∀ id, s.get id = (log.take jobCap).find? fun job => decide (job.id = id)
  /-- `cleanupFn` was called for the jobs that are no longer stored, once for each. -/
  cleaned : s.cleaned = log.drop jobCap
  list : (log.Pairwise fun newer older => older.createdAt ≤ newer.createdAt) →
    ∀ (jobType : String) (limit : Int), 1 ≤ limit → limit ≤ jobCap →
      s.list jobType limit =
        ((log.take jobCap).filter fun job => jobType = "" || job.jobType = jobType).take limit.toNat

/-- The invariant behind `Refines`. -/
structure Sound (s : JobStore) (log : List Job) : Prop where
  keeps : Keeps Job.id jobCap s.jobs s.order log
  bound : s.maxJobs = jobCap
  seq : s.seq = log.length
  seq_le : ∀ job ∈ log, job.id.seq ≤ log.length
  cleaned : s.cleaned = log.drop jobCap

/-! ## What a call does to store and log -/

/-- What `finish` does for a job that has succeeded. -/
theorem finished_succeeded (now : Time) (message : String) (artifact : Option JobArtifact) :
    finished now .succeeded message "" artifact = completed now message artifact := by
  funext job
  cases artifact <;> rfl

/-- Every call but `Start` changes one job or nothing. -/
theorem exec_modify {s : JobStore} {now : Time} {call : JobCall} {jobID : JobID} {f : Job → Job}
    (h : call.change? now = some (jobID, f)) : (call.exec s now).2 = s.modify jobID f := by
  cases call with
  | complete id message =>
      cases h
      exact congrArg (s.modify _) (finished_succeeded now message none)
  | completeWithArtifact id message artifact =>
      cases h
      exact congrArg (s.modify _) (finished_succeeded now message artifact)
  | _ => cases h <;> rfl

theorem change_keeps_id {now : Time} {call : JobCall} {jobID : JobID} {f : Job → Job}
    (h : call.change? now = some (jobID, f)) (job : Job) : (f job).id = job.id := by
  cases call <;> cases h <;> rfl

namespace Sound

variable {s : JobStore} {log : List Job}

theorem new : Sound {} [] where
  keeps := Keeps.empty
  bound := rfl
  seq := rfl
  seq_le := by simp
  cleaned := rfl

theorem modify (h : Sound s log) {jobID : JobID} {f : Job → Job}
    (hf : ∀ job, (f job).id = job.id) :
    Sound (s.modify jobID f) (modifyNewest Job.id jobCap jobID f log) := by
  have hseq : ∀ job ∈ modifyNewest Job.id jobCap jobID f log, job.id.seq ≤ log.length := by
    have hids : (modifyNewest Job.id jobCap jobID f log).map Job.id = log.map Job.id :=
      map_modifyNewest hf
    intro job hjob
    have hid : job.id ∈ log.map Job.id := hids ▸ List.mem_map_of_mem hjob
    rcases List.mem_map.1 hid with ⟨before, hbefore, heq⟩
    exact heq ▸ h.seq_le before hbefore
  cases hlookup : s.jobs.lookup jobID with
  | none =>
      simpa [JobStore.modify, hlookup, h.keeps.modifyNewest_of_none hlookup] using h
  | some job =>
      have hkeeps := h.keeps.modify hf hlookup
      simp only [JobStore.modify, hlookup]
      refine ⟨hkeeps, h.bound, ?_, ?_, ?_⟩
      · rw [length_modifyNewest]
        exact h.seq
      · rw [length_modifyNewest]
        exact hseq
      · rw [drop_modifyNewest]
        exact h.cleaned

/-- Trimming after an insertion drops at most the oldest job. -/
theorem trimLocked {job : Job} (hkeeps : Keeps Job.id (jobCap + 1) s.jobs s.order (job :: log))
    (hbound : s.maxJobs = jobCap) (hseq : s.seq = log.length + 1)
    (hseqs : ∀ job' ∈ job :: log, job'.id.seq ≤ log.length + 1)
    (hcleaned : s.cleaned = log.drop jobCap) : Sound s.trimLocked (job :: log) := by
  have hlength := hkeeps.length_order
  rw [List.length_cons] at hlength
  rcases Nat.lt_or_ge log.length jobCap with hroom | hfull
  · -- There is still room, and nothing is dropped.
    have hrounds : s.order.length - s.maxJobs = 0 := by omega
    have hnone : log.drop jobCap = (job :: log).drop jobCap := by
      rw [List.drop_of_length_le (Nat.le_of_lt hroom), List.drop_of_length_le hroom]
    simp only [JobStore.trimLocked, hrounds, trimRounds]
    exact ⟨hkeeps.shrink hroom, hbound, hseq, hseqs, hcleaned.trans hnone⟩
  · -- The store was full: one round drops the oldest job and cleans up after it.
    have hrounds : s.order.length - s.maxJobs = 1 := by omega
    rcases hkeeps.dropOldest (Nat.lt_succ_of_le hfull) with
      ⟨oldest, hdrop, hlast, hlookup, hkeeps'⟩
    simp only [JobStore.trimLocked, hrounds, trimRounds, hlast, dropLast, hlookup]
    refine ⟨hkeeps', hbound, hseq, hseqs, ?_⟩
    rw [hdrop, List.drop_succ_cons, hcleaned]

/-- The log numbers jobs as the store does. -/
theorem step_start (h : Sound s log) (now : Time) (jobType target database message : String)
    (metadata : List (String × String)) :
    JobLog.step log now (.start jobType target database message metadata) =
      s.newJob now jobType target database message metadata :: log := by
  simp [JobLog.step, newJob, h.seq]

theorem start (h : Sound s log) (now : Time) (jobType target database message : String)
    (metadata : List (String × String)) :
    Sound (s.start now jobType target database message metadata).2
      (JobLog.step log now (.start jobType target database message metadata)) := by
  -- The ID is new because its sequence number is.
  have hnew : (s.newJob now jobType target database message metadata).id ∉ log.map Job.id := by
    intro hmem
    rcases List.mem_map.1 hmem with ⟨job, hjob', heq⟩
    have hle := h.seq_le job hjob'
    have hseq : job.id.seq = s.seq + 1 := congrArg JobID.seq heq
    have hlen := h.seq
    omega
  rw [h.step_start]
  refine trimLocked (h.keeps.insert hnew) h.bound (congrArg (· + 1) h.seq) ?_ h.cleaned
  intro job hjob'
  rcases List.mem_cons.1 hjob' with rfl | hold
  · exact Nat.le_of_eq (congrArg (· + 1) h.seq)
  · exact Nat.le_succ_of_le (h.seq_le job hold)

theorem exec (h : Sound s log) (now : Time) (call : JobCall) :
    Sound (call.exec s now).2 (JobLog.step log now call) := by
  cases hchange : call.change? now with
  | some change =>
      rcases change with ⟨jobID, f⟩
      have hlog : JobLog.step log now call = modifyNewest Job.id jobCap jobID f log := by
        cases call <;> cases hchange <;> rfl
      rw [exec_modify hchange, hlog]
      exact h.modify (change_keeps_id hchange)
  | none =>
      cases call with
      | start jobType target database message metadata => exact h.start _ _ _ _ _ _
      | get jobID => exact h
      | _ => cases hchange

theorem mem_of_get (h : Sound s log) {id : JobID} {job : Job} (hget : s.get id = some job) :
    job ∈ log.take jobCap ∧ job.id = id :=
  h.keeps.mem_of_lookup hget

theorem seq_le_of_get (h : Sound s log) {id : JobID} {job : Job} (hget : s.get id = some job) :
    id.seq ≤ s.seq := by
  rcases h.mem_of_get hget with ⟨hmem, rfl⟩
  rw [h.seq]
  exact h.seq_le job (List.mem_of_mem_take hmem)

theorem seq_start (h : Sound s log) (now : Time) (jobType target database message : String)
    (metadata : List (String × String)) :
    (s.start now jobType target database message metadata).2.seq = s.seq + 1 := by
  rw [(h.start now jobType target database message metadata).seq, h.seq]
  rfl

/-- Every call but `Start` keeps the sequence number. -/
theorem seq_exec (h : Sound s log) (now : Time) (call : JobCall) :
    s.seq ≤ (call.exec s now).2.seq := by
  cases hchange : call.change? now with
  | some change =>
      rcases change with ⟨jobID, f⟩
      rw [exec_modify hchange, (h.modify (change_keeps_id hchange)).seq, length_modifyNewest, h.seq]
  | none =>
      cases call with
      | start jobType target database message metadata =>
          exact Nat.le_of_lt (Nat.lt_of_succ_le (Nat.le_of_eq (h.seq_start _ _ _ _ _ _).symm))
      | get jobID => exact Nat.le_refl _
      | _ => cases hchange

/-- Where a stored job comes from: it was stored before and the call does not concern it, the call
changed it, or the call started it. -/
theorem get_exec (h : Sound s log) {now : Time} {call : JobCall} {id : JobID} {job : Job}
    (hget : (call.exec s now).2.get id = some job) :
    ((∀ f, call.change? now ≠ some (id, f)) ∧ s.get id = some job) ∨
    (∃ f before, call.change? now = some (id, f) ∧ s.get id = some before ∧ job = f before) ∨
    ∃ jobType target database message metadata,
      call = .start jobType target database message metadata ∧
        job = s.newJob now jobType target database message metadata ∧ job.id = id := by
  -- A call changes one job, or it starts one, or it changes nothing.
  cases hchange : call.change? now with
  | some change =>
      rcases change with ⟨jobID, f⟩
      rw [exec_modify hchange] at hget
      by_cases hid : id = jobID
      · subst hid
        rw [lookup_modify_self] at hget
        rcases Option.map_eq_some_iff.1 hget with ⟨before, hbefore, rfl⟩
        exact Or.inr (Or.inl ⟨f, before, rfl, hbefore, rfl⟩)
      · rw [lookup_modify_ne hid] at hget
        refine Or.inl ⟨fun f' heq => hid ?_, hget⟩
        exact (Prod.mk.inj (Option.some.inj heq)).1.symm
  | none =>
      cases call with
      | get jobID => exact Or.inl ⟨by simp, hget⟩
      | start jobType target database message metadata =>
          have hstart := h.start now jobType target database message metadata
          rcases hstart.mem_of_get hget with ⟨hmem, hid⟩
          rw [h.step_start, jobCap, List.take_succ_cons] at hmem
          rcases List.mem_cons.1 hmem with hjob | hold
          · exact Or.inr (Or.inr ⟨_, _, _, _, _, rfl, hjob, hid⟩)
          · refine Or.inl ⟨by simp, ?_⟩
            have hstored : job ∈ log.take jobCap :=
              (List.take_sublist_take_left (by decide)).subset hold
            exact hid ▸ h.keeps.lookup_of_mem hstored
      | _ => cases hchange

theorem run (calls : List (Time × JobCall)) : Sound (JobStore.run calls) (JobLog.run calls) :=
  List.foldl_rel new fun call _ _ _ h => h.exec call.1 call.2

theorem refines (h : Sound s log) : Refines s log where
  distinct := by
    have htexts := h.keeps.nodup.map JobID.text_injective
    rwa [List.map_map] at htexts
  keys := fun id => h.keeps.mem_keys
  order := h.keeps.order_eq
  get := h.keeps.lookup_eq
  cleaned := h.cleaned
  list := by
    intro hsorted jobType limit hpos hmax
    -- A limit within the bound is used as it is.
    have hlimit : ¬(limit ≤ 0 ∨ limit > s.maxJobs) := by
      rw [h.bound]
      omega
    have hcollect := h.keeps.collect (fun job => jobType = "" || job.jobType = jobType)
      (show 0 < limit.toNat by omega)
    simp only [JobStore.list, if_neg hlimit]
    rw [show s.get = fun id => s.jobs.lookup id from rfl, hcollect]
    exact listed_newestFirst hsorted

end Sound

end JobStore

/-! ## The log of the plans -/

/-- The bound of a new store. -/
def planCap : Nat := 100

namespace PlanLog

def step (log : List SavedPlan) (now : Time) : PlanCall → List SavedPlan
  | .save name query database profile mode plan =>
      { id := { unix := now.unix, seq := log.length + 1 }
        name := name
        query := query
        database := database
        profile := profile
        mode := mode
        createdAt := now
        plan := plan } :: log
  | .get _ => log
  | .list _ => log

def run (calls : List (Time × PlanCall)) : List SavedPlan :=
  calls.foldl (fun log call => step log call.1 call.2) []

end PlanLog

namespace PlanStore

/-- The store after a sequence of calls, each with its reading of the clock. -/
def run (calls : List (Time × PlanCall)) : PlanStore :=
  calls.foldl (fun s call => (call.2.exec s call.1).2) {}

structure Refines (s : PlanStore) (log : List SavedPlan) : Prop where
  distinct : (log.map fun plan => plan.id.text).Nodup
  keys : ∀ id, id ∈ s.plans.keys ↔ id ∈ s.order
  order : s.order = (log.take planCap).map SavedPlan.id
  get : ∀ id, s.get id = (log.take planCap).find? fun plan => decide (plan.id = id)
  list : (log.Pairwise fun newer older => older.createdAt ≤ newer.createdAt) →
    ∀ limit : Int, 1 ≤ limit → limit ≤ planCap →
      s.list limit = (log.take planCap).take limit.toNat

/-- The invariant behind `Refines`. -/
structure Sound (s : PlanStore) (log : List SavedPlan) : Prop where
  keeps : Keeps SavedPlan.id planCap s.plans s.order log
  bound : s.limit = planCap
  seq : s.seq = log.length
  seq_le : ∀ plan ∈ log, plan.id.seq ≤ log.length

namespace Sound

variable {s : PlanStore} {log : List SavedPlan}

theorem new : Sound {} [] where
  keeps := Keeps.empty
  bound := rfl
  seq := rfl
  seq_le := by simp

/-- Trimming after an insertion drops at most the oldest plan. -/
theorem trimRounds {plan : SavedPlan}
    (hkeeps : Keeps SavedPlan.id (planCap + 1) s.plans s.order (plan :: log))
    (hbound : s.limit = planCap) (hseq : s.seq = log.length + 1)
    (hseqs : ∀ plan' ∈ plan :: log, plan'.id.seq ≤ log.length + 1) :
    Sound (trimRounds (s.order.length - s.limit) s) (plan :: log) := by
  have hlength := hkeeps.length_order
  rw [List.length_cons] at hlength
  rcases Nat.lt_or_ge log.length planCap with hroom | hfull
  · have hrounds : s.order.length - s.limit = 0 := by omega
    rw [hrounds]
    exact ⟨hkeeps.shrink hroom, hbound, hseq, hseqs⟩
  · have hrounds : s.order.length - s.limit = 1 := by omega
    rcases hkeeps.dropOldest (Nat.lt_succ_of_le hfull) with ⟨oldest, _, hlast, _, hkeeps'⟩
    simp only [hrounds, PlanStore.trimRounds, hlast]
    exact ⟨hkeeps', hbound, hseq, hseqs⟩

theorem save (h : Sound s log) (now : Time) (name query database profile mode : String)
    (plan : List UInt8) :
    Sound (s.save now name query database profile mode plan).2
      (PlanLog.step log now (.save name query database profile mode plan)) := by
  let entry := s.newPlan now name query database profile mode plan
  have hlog : PlanLog.step log now (.save name query database profile mode plan) =
      entry :: log := by
    simp [PlanLog.step, entry, newPlan, h.seq]
  have hnew : entry.id ∉ log.map SavedPlan.id := by
    intro hmem
    rcases List.mem_map.1 hmem with ⟨before, hbefore, heq⟩
    have hle := h.seq_le before hbefore
    have hseq : before.id.seq = s.seq + 1 := congrArg PlanID.seq heq
    have hlen := h.seq
    omega
  rw [hlog]
  refine trimRounds (s := s.add entry) (h.keeps.insert hnew) h.bound
    (congrArg (· + 1) h.seq) ?_
  intro plan' hplan'
  rcases List.mem_cons.1 hplan' with rfl | hold
  · exact Nat.le_of_eq (congrArg (· + 1) h.seq)
  · exact Nat.le_succ_of_le (h.seq_le plan' hold)

theorem exec (h : Sound s log) (now : Time) (call : PlanCall) :
    Sound (call.exec s now).2 (PlanLog.step log now call) := by
  cases call with
  | save name query database profile mode plan => exact h.save _ _ _ _ _ _ _
  | get id => exact h
  | list limit => exact h

theorem run (calls : List (Time × PlanCall)) : Sound (PlanStore.run calls) (PlanLog.run calls) :=
  List.foldl_rel new fun call _ _ _ h => h.exec call.1 call.2

theorem refines (h : Sound s log) : Refines s log where
  distinct := by
    have htexts := h.keeps.nodup.map PlanID.text_injective
    rwa [List.map_map] at htexts
  keys := fun id => h.keeps.mem_keys
  order := h.keeps.order_eq
  get := h.keeps.lookup_eq
  list := by
    intro hsorted limit hpos hmax
    have hlimit : ¬(limit ≤ 0 ∨ limit > s.limit) := by
      rw [h.bound]
      omega
    have hcollect := h.keeps.collect (fun _ => true) (show 0 < limit.toNat by omega)
    simp only [PlanStore.list, if_neg hlimit]
    rw [show s.get = fun id => s.plans.lookup id from rfl, hcollect]
    exact (listed_newestFirst hsorted).trans (by simp)

end Sound

end PlanStore

/-- Both stores hold the latest insertions, with all changes made to them, after any sequence of
calls. -/
theorem bounded_recency :
    (∀ calls : List (Time × JobCall), (JobStore.run calls).Refines (JobLog.run calls)) ∧
      ∀ calls : List (Time × PlanCall), (PlanStore.run calls).Refines (PlanLog.run calls) :=
  ⟨fun calls => (JobStore.Sound.run calls).refines,
    fun calls => (PlanStore.Sound.run calls).refines⟩

end Service
end Pgaio
