import Pgaio.Handler.Repack
import Pgaio.Service.RecencyStores

/-!
# RepackOrder — in which order the handlers act on a job

What the programs of `Handler.Repack` have done before each of their actions (`Follows`), and before
they answer: a goroutine is started for a job that has just been started, it fails a job only after it
did not find it cancelled, and `CancelRepack` looks for the process and kills it before it records
the cancel.
-/

namespace Pgaio
namespace Handler

open Model Service Concurrency Transition

abbrev RepackEvent := Event RepackAct RepackAct.Resp

/-! ## Events -/

/-- A call of `Start` that returned this job. -/
def startsJob (jobID : JobID) : RepackEvent → Bool
  | ⟨.jobs (.start _ _ _ _ _), job⟩ => job.id == jobID
  | _ => false

/-- A look at `h.running` that found this job. -/
def loadsJob (jobID : JobID) : RepackEvent → Bool
  | ⟨.loadRunning, some job⟩ => job.jobID == jobID
  | _ => false

namespace RepackAct

def ends (jobID : JobID) : RepackAct → Bool
  | .jobs (.complete id _) => id == jobID
  | .jobs (.completeWithArtifact id _ _) => id == jobID
  | .jobs (.fail id _ _) => id == jobID
  | .jobs (.cancel id _) => id == jobID
  | _ => false

def cancels (jobID : JobID) : RepackAct → Bool
  | .jobs (.cancel id _) => id == jobID
  | _ => false

def looksAt (jobID : JobID) : RepackAct → Bool
  | .jobs (.get id) => id == jobID
  | _ => false

/-- Starts the goroutine of this job. -/
def launches (jobID : JobID) : RepackAct → Bool
  | .go (.goroutine id _) => id == jobID
  | _ => false

theorem eq_of_cancels {a : RepackAct} {jobID : JobID} (h : a.cancels jobID = true) :
    ∃ message, a = .jobs (.cancel jobID message) := by
  unfold cancels at h
  split at h
  · rw [beq_iff_eq.1 h]
    exact ⟨_, rfl⟩
  · cases h

theorem ends_of_cancels {a : RepackAct} {jobID : JobID} (h : a.cancels jobID = true) :
    a.ends jobID = true := by
  rcases eq_of_cancels h with ⟨_, rfl⟩
  exact h

theorem eq_of_ends {a : RepackAct} {jobID : JobID} (h : a.ends jobID = true) :
    (∃ message, a = .jobs (.complete jobID message)) ∨
      (∃ message artifact, a = .jobs (.completeWithArtifact jobID message artifact)) ∨
        (∃ message details, a = .jobs (.fail jobID message details)) ∨
          a.cancels jobID = true := by
  unfold ends at h
  split at h
  · rw [beq_iff_eq.1 h]
    exact Or.inl ⟨_, rfl⟩
  · rw [beq_iff_eq.1 h]
    exact Or.inr (Or.inl ⟨_, _, rfl⟩)
  · rw [beq_iff_eq.1 h]
    exact Or.inr (Or.inr (Or.inl ⟨_, _, rfl⟩))
  · exact Or.inr (Or.inr (Or.inr h))
  · cases h

end RepackAct

/-- A look at a job that did not find it cancelled. -/
def findsUncanceled (jobID : JobID) : RepackEvent → Bool
  | ⟨.jobs (.get id), current⟩ => id == jobID && !current.any fun job => job.status = .canceled
  | _ => false

theorem looksAt_of_findsUncanceled {ev : RepackEvent} {jobID : JobID}
    (h : findsUncanceled jobID ev = true) : ev.act.looksAt jobID = true := by
  unfold findsUncanceled at h
  split at h
  · exact (Bool.and_eq_true_iff.1 h).1
  · cases h

def cancelledAnswer : Option RepackResponse :=
  some (.success statusOK (.text "repack cancelled"))

/-! ## What the programs do before an action -/

def RepackEntry.Follows (e : RepackEntry) (past : List RepackEvent) : RepackAct → Prop
  | .setRunning _ _ jobID _ => past.any (startsJob jobID) = true
  | .go (.goroutine jobID _) =>
      past.any (startsJob jobID) = true ∧ ∀ id, past.any (fun ev => ev.act.launches id) = false
  | .go _ => False
  | .jobs (.get jobID) => ∃ cmd, e = .goroutine jobID cmd
  | .jobs (.cancel jobID _) => e = .cancelRepack ∧ past.any (loadsJob jobID) = true
  | .jobs (.complete jobID _) =>
      (∃ cmd, e = .goroutine jobID cmd) ∧ past.any (fun ev => ev.act.ends jobID) = false
  | .jobs (.fail jobID _ _) =>
      (∃ cmd, e = .goroutine jobID cmd) ∧ past.any (fun ev => ev.act.ends jobID) = false ∧
        past.any (findsUncanceled jobID) = true
  | .jobs (.completeWithArtifact _ _ _) => False
  | .clearRunning cmd =>
      e = .cancelRepack → (⟨.hasProcess cmd, false⟩ : RepackEvent) ∈ past ∨
        (⟨.kill cmd, .ok ()⟩ : RepackEvent) ∈ past
  | _ => True

/-- `CancelRepack` reports a cancellation after it has cleared the slot of the job it found. -/
def ClearsBefore (past : List RepackEvent) (answer : Option RepackResponse) : Prop :=
  answer = cancelledAnswer → ∀ job, (⟨.loadRunning, some job⟩ : RepackEvent) ∈ past →
    (⟨.clearRunning job.cmd, ()⟩ : RepackEvent) ∈ past

theorem reportRepack_follows {past : List RepackEvent} {jobID : JobID} {cmd : Nat}
    {output : String} {failed : Bool}
    (hnone : past.any (fun ev => ev.act.ends jobID) = false) :
    Program.wp (RepackEntry.goroutine jobID cmd).Follows ClearsBefore past
      (reportRepack jobID cmd output failed) := by
  unfold reportRepack
  cases failed with
  | true =>
      refine ⟨⟨cmd, rfl⟩, ?_⟩
      intro current
      simp only [Program.done_bind]
      split
      · -- The job was cancelled, so the goroutine leaves it alone.
        refine ⟨by simp [RepackEntry.Follows], fun _ => ?_⟩
        intro hanswer
        cases hanswer
      · rename_i hcurrent
        refine ⟨⟨⟨cmd, rfl⟩, ?_, ?_⟩, fun _ => ⟨by simp [RepackEntry.Follows], fun _ => ?_⟩⟩
        · simpa [RepackAct.ends] using hnone
        · simp_all [findsUncanceled]
        · intro hanswer
          cases hanswer
  | false =>
      refine ⟨⟨⟨cmd, rfl⟩, hnone⟩, fun _ => ⟨by simp [RepackEntry.Follows], fun _ => ?_⟩⟩
      intro hanswer
      cases hanswer

theorem goroutine_follows (jobID : JobID) (cmd : Nat) :
    Program.wp (RepackEntry.goroutine jobID cmd).Follows ClearsBefore [] (goroutine jobID cmd) := by
  refine ⟨trivial, fun _ => ⟨trivial, fun started => ?_⟩⟩
  cases started with
  | error err => exact reportRepack_follows rfl
  | ok _ => exact ⟨trivial, fun _ => reportRepack_follows rfl⟩

theorem cancelRepack_follows :
    Program.wp RepackEntry.cancelRepack.Follows ClearsBefore [] cancelRepack := by
  refine ⟨trivial, fun found => ?_⟩
  cases found with
  | none =>
      intro hanswer
      simp [cancelledAnswer, Response.success] at hanswer
  | some job =>
      refine ⟨trivial, fun started => ?_⟩
      cases started with
      | false =>
          -- There is no process to kill, and the handler goes on as if there had been one.
          refine ⟨⟨rfl, by simp [loadsJob]⟩, fun _ => ⟨fun _ => Or.inl (by simp), fun _ => ?_⟩⟩
          intro _ job' hjob'
          have hsame : job' = job := by simpa using hjob'
          simp [hsame]
      | true =>
          refine ⟨trivial, fun result => ?_⟩
          cases result with
          | error err => exact fun hanswer => by cases hanswer
          | ok _ =>
              -- The process has been killed, but it may still be alive.
              refine ⟨⟨rfl, by simp [loadsJob]⟩, fun _ => ⟨fun _ => Or.inr (by simp), fun _ => ?_⟩⟩
              intro _ job' hjob'
              have hsame : job' = job := by simpa using hjob'
              simp [hsame]

theorem launch_follows (h : RepackHandler) (req : RunRequest) {e : RepackEntry}
    {past : List RepackEvent} (hnone : ∀ id, past.any (fun ev => ev.act.launches id) = false) :
    Program.wp e.Follows ClearsBefore past (launch h req) := by
  refine ⟨trivial, fun cmd => ⟨trivial, fun job => ⟨?_, fun _ => ⟨⟨?_, ?_⟩, fun _ => ?_⟩⟩⟩⟩
  · simp [RepackEntry.Follows, startsJob]
  · simp [startsJob]
  · simpa [RepackAct.launches] using hnone
  · intro hanswer
    cases hanswer

theorem run_follows (h : RepackHandler) (req : Option RunRequest) :
    Program.wp (RepackEntry.run req).Follows ClearsBefore [] (run h req) := by
  cases req with
  | none => exact fun hanswer => by cases hanswer
  | some req =>
      simp only [run]
      split
      · exact fun hanswer => by cases hanswer
      · refine ⟨trivial, fun busy => ?_⟩
        cases busy with
        | false => exact launch_follows h req (by simp [RepackAct.launches])
        | true =>
            -- The slot is looked at twice more for the text of the refusal.
            refine ⟨trivial, fun found => ?_⟩
            cases found with
            | none => exact fun hanswer => by cases hanswer
            | some job =>
                refine ⟨trivial, fun found' => ?_⟩
                cases found' <;> exact fun hanswer => by cases hanswer

theorem body_follows (h : RepackHandler) (e : RepackEntry) :
    Program.wp e.Follows ClearsBefore [] (e.body h) := by
  cases e with
  | run req => exact run_follows h req
  | cancelRepack => exact cancelRepack_follows
  | goroutine jobID cmd => exact goroutine_follows jobID cmd

end Handler
end Pgaio
