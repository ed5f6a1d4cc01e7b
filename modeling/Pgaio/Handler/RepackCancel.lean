import Pgaio.Handler.RepackExclusion
import Pgaio.Handler.RepackOrder

/-!
# RepackCancel — what has become of the process once a cancel is answered

`CancelRepack` kills the process through `cmd.Process`, which is nil until the goroutine has started
the command, and it does not wait for the exit.  A cancel that comes before the start therefore kills
nothing, and the process comes to life afterwards (`started_after_cancel`).

A command is doomed when its process has been killed or is over.  Along runs in which the command
has been started when `CancelRepack` looks for the process, every cancelled command is doomed
(`cancel_dooms`); it is not alive when, in addition, it has exited before the answer
(`cancel_effective`).
-/

namespace Pgaio
namespace Handler

open Model Service Concurrency Transition

namespace RepackWorld

/-- The process has been killed or is over. -/
def doomed (w : RepackWorld) (cmd : Nat) : Bool :=
  (w.cmdState cmd).any fun st => st.isOver || st == .killed

variable {w w' : RepackWorld} {cmd k : Nat}

theorem doomed_of_exec {a : RepackAct} {ch : RepackChoice} {r : a.Resp}
    (hexec : w.exec a ch = some (r, w')) (h : w.doomed k = true) : w'.doomed k = true := by
  have hstep := procStep_of_exec (k := k) hexec
  unfold doomed at h ⊢
  generalize w.cmdState k = before, w'.cmdState k = after at h hstep ⊢
  cases hstep with
  | keep => exact h
  | wait => rfl
  | _ => cases h

theorem doomed_of_env {x : RepackEnv} (hstep : w.envStep x = some w') (h : w.doomed k = true) :
    w'.doomed k = true := by
  rcases env_cases hstep with ⟨cmd, old, ok, hst, _, rfl⟩
  unfold doomed at h ⊢
  rw [cmdState_setCmdState]
  by_cases hk : cmd = k
  · subst hk
    simp [hst, ProcState.isOver]
  · simpa [hk] using h

theorem over_of_env {x : RepackEnv} (hstep : w.envStep x = some w') (h : w.cmdOver k = true) :
    w'.cmdOver k = true := by
  rcases env_cases hstep with ⟨cmd, old, ok, hst, hold, rfl⟩
  exact over_setCmdState hst (by simp [hold]) h

/-- A doomed process that is not alive is over. -/
theorem over_of_doomed (h : w.doomed k = true) (halive : w.alive k = false) :
    w.cmdOver k = true := by
  unfold doomed at h
  unfold alive at halive
  unfold cmdOver
  cases hst : w.cmdState k with
  | none => simp [hst] at h
  | some st => cases st <;> simp_all [ProcState.isOver, ProcState.isAlive]

theorem not_alive_of_over (h : w.cmdOver k = true) : w.alive k = false := by
  unfold cmdOver at h
  unfold alive
  cases hst : w.cmdState k with
  | none => rfl
  | some st => cases st <;> simp_all [ProcState.isOver, ProcState.isAlive]

/-- A command without a process whose start has been tried has failed to start. -/
theorem doomed_of_missing (hstarted : (w.cmdState cmd).any (fun st => st != .created) = true)
    (hmissing : (w.cmdState cmd).any ProcState.hasProcess = false) : w.doomed cmd = true := by
  unfold doomed
  cases hst : w.cmdState cmd with
  | none => simp [hst] at hstarted
  | some st => cases st <;> simp_all [ProcState.hasProcess, ProcState.isOver]

/-- A successful kill dooms the process. -/
theorem doomed_of_kill {ch : RepackChoice} {r : Except String Unit}
    (hexec : w.exec (.kill cmd) ch = some (r, w')) (hok : r = .ok ()) : w'.doomed cmd = true := by
  simp only [exec] at hexec
  -- By the state of the command: alive, killed, exited, or without a process.
  split at hexec
  · rename_i hst
    cases hexec
    simp [doomed, cmdState_setCmdState, hst]
  · rename_i hst
    cases hexec
    simp [doomed, hst]
  · rename_i hst
    cases hexec
    simp [doomed, hst, ProcState.isOver]
  · cases hexec
    cases hok
  · cases hexec

end RepackWorld

/-! ## The conditions -/

section

variable {h : RepackHandler}

/-- When `CancelRepack` looks for the process, the start of the command has been tried. -/
def looksAfterStart (c : RepackConfig h) : Label RepackChoice RepackEnv RepackEntry → Bool
  | .step i _ =>
      match (c.threads[i]?).bind Thread.action? with
      | some (.hasProcess cmd) => (c.world.cmdState cmd).any fun st => st != .created
      | _ => true
  | _ => true

/-- When `CancelRepack` is about to answer, the process is not alive any more. -/
def answersAfterExit (c : RepackConfig h) : Label RepackChoice RepackEnv RepackEntry → Bool
  | .step i _ =>
      match c.threads[i]? with
      | none => true
      | some t =>
          match t.entry, t.action? with
          | .cancelRepack, some (.clearRunning cmd) => !c.world.alive cmd
          | _, _ => true
  | _ => true

/-- `CancelRepack` has answered that it cancelled the repack of `job`. -/
def Cancelled (c : RepackConfig h) (job : RepackJob) : Prop :=
  ∃ t ∈ c.threads, t.entry = .cancelRepack ∧ t.rest = .done cancelledAnswer ∧
    (⟨.loadRunning, some job⟩ : RepackEvent) ∈ t.past

/-! ## What is known after an event -/

/-- After `CancelRepack` found no process, or killed it, the process is doomed. -/
def DoomedAfter (_ : RepackEntry) (ev : RepackEvent) (w : RepackWorld) : Prop :=
  ∀ cmd, ev = ⟨.hasProcess cmd, false⟩ ∨ ev = ⟨.kill cmd, .ok ()⟩ → w.doomed cmd = true

/-- After `CancelRepack` cleared the slot of a job, the process of the job is over. -/
def OverAfter (e : RepackEntry) (ev : RepackEvent) (w : RepackWorld) : Prop :=
  e = .cancelRepack → ∀ cmd, ev = ⟨.clearRunning cmd, ()⟩ → w.cmdOver cmd = true

theorem doomedAfter_step {c c' : RepackConfig h} {l : Label RepackChoice RepackEnv RepackEntry}
    (hI : Config.AfterEvents DoomedAfter c) (hok : looksAfterStart c l = true)
    (hstep : c.step l = some c') : Config.AfterEvents DoomedAfter c' := by
  refine Config.afterEvents_step hI hstep ?_ ?_
  · -- No step brings a doomed command back.
    intro e ev hbefore cmd hev
    have hdoomed := hbefore cmd hev
    cases Config.moves_of_step hstep with
    | arrive _ => exact hdoomed
    | env hw => exact RepackWorld.doomed_of_env hw hdoomed
    | act _ _ hexec => exact RepackWorld.doomed_of_exec hexec hdoomed
  · intro i ch t a next r hl ht hrest hexec cmd hev
    rcases hev with hev | hev
    · -- No process was found although the start had been tried: it had failed.
      cases hev
      subst hl
      simp only [looksAfterStart, ht, Option.bind_some, Thread.action?_of_rest hrest]
        at hok
      rcases Prod.mk.inj (Option.some.inj hexec) with ⟨hmissing, hworld⟩
      rw [← hworld]
      exact RepackWorld.doomed_of_missing hok hmissing
    · -- The kill has succeeded.
      cases hev
      exact RepackWorld.doomed_of_kill hexec rfl

theorem overAfter_step {c c' : RepackConfig h} {l : Label RepackChoice RepackEnv RepackEntry}
    (hI : Config.AfterEvents DoomedAfter c) (hI' : Config.AfterEvents OverAfter c)
    (hok : answersAfterExit c l = true) (hstep : c.step l = some c') :
    Config.AfterEvents OverAfter c' := by
  refine Config.afterEvents_step hI' hstep ?_ ?_
  · intro e ev hbefore he cmd hev
    have hover := hbefore he cmd hev
    cases Config.moves_of_step hstep with
    | arrive _ => exact hover
    | env hw => exact RepackWorld.over_of_env hw hover
    | act _ _ hexec => exact RepackWorld.over_of_exec hexec hover
  · intro i ch t a next r hl ht hrest hexec he cmd hev
    cases hev
    subst hl
    simp only [answersAfterExit, ht, he, Thread.action?_of_rest hrest] at hok
    have hfollows := t.wp (body_follows h t.entry)
    rw [hrest] at hfollows
    -- The slot is cleared after a kill or after no process was found.
    have hdoomed : c.world.doomed cmd = true := by
      rcases hfollows.1 he with hmissing | hkilled
      · exact hI t (List.mem_of_getElem? ht) _ hmissing cmd (Or.inl rfl)
      · exact hI t (List.mem_of_getElem? ht) _ hkilled cmd (Or.inr rfl)
    have halive : c.world.alive cmd = false := by simpa using hok
    have hexec' : c.world.exec (.clearRunning cmd) ch = some ((), c'.world) := hexec
    exact RepackWorld.over_of_exec hexec' (RepackWorld.over_of_doomed hdoomed halive)

/-- The answer comes after the slot has been cleared. -/
theorem cleared_of_cancelled {t : Thread (repackSystem h)} {job : RepackJob}
    (hrest : t.rest = .done cancelledAnswer)
    (hloaded : (⟨.loadRunning, some job⟩ : RepackEvent) ∈ t.past) :
    (⟨.clearRunning job.cmd, ()⟩ : RepackEvent) ∈ t.past := by
  have hpost := t.wp (body_follows h t.entry)
  rw [hrest] at hpost
  exact hpost rfl job hloaded

/-! ## Cancels that find the command started -/

section Runs

variable {w : RepackWorld} {c : RepackConfig h} {job : RepackJob}

/-- A cancelled process has at least been killed, in every state of a run in which each cancel finds
the command started. -/
theorem cancel_dooms
    (hrun : Within Config.step (fun c l => looksAfterStart c l = true)
      (Config.initial (repackSystem h) w) c) (hcancelled : Cancelled c job) :
    c.world.doomed job.cmd = true := by
  have hdoomed : Config.AfterEvents DoomedAfter c :=
    hrun.invariant (fun _ _ _ hI hok hstep => doomedAfter_step hI hok hstep)
      Config.afterEvents_initial
  rcases hcancelled with ⟨t, ht, hentry, hrest, hloaded⟩
  have hcleared := cleared_of_cancelled hrest hloaded
  rcases t.inv_of_mem (body_follows h t.entry) hcleared with ⟨before, hbefore, hfollows⟩
  rcases hfollows hentry with hmissing | hkilled
  · exact hdoomed t ht _ (hbefore.subset hmissing) job.cmd (Or.inl rfl)
  · exact hdoomed t ht _ (hbefore.subset hkilled) job.cmd (Or.inr rfl)

/-- A cancelled process is not alive, in every state of a run in which each cancel finds the command
started and answers after the exit of the process. -/
theorem cancel_effective
    (hrun : Within Config.step
      (fun c l => (looksAfterStart c l && answersAfterExit c l) = true)
      (Config.initial (repackSystem h) w) c) (hcancelled : Cancelled c job) :
    c.world.alive job.cmd = false := by
  -- The second invariant needs the first one at each step, so they are carried together.
  have hover : Config.AfterEvents DoomedAfter c ∧ Config.AfterEvents OverAfter c := by
    refine hrun.invariant
      (I := fun c => Config.AfterEvents DoomedAfter c ∧ Config.AfterEvents OverAfter c)
      (fun _ _ _ hI hok hstep => ?_) ⟨Config.afterEvents_initial, Config.afterEvents_initial⟩
    rw [Bool.and_eq_true] at hok
    exact ⟨doomedAfter_step hI.1 hok.1 hstep, overAfter_step hI.1 hI.2 hok.2 hstep⟩
  rcases hcancelled with ⟨t, ht, hentry, hrest, hloaded⟩
  have hcleared := cleared_of_cancelled hrest hloaded
  exact RepackWorld.not_alive_of_over (hover.2 t ht _ hcleared hentry job.cmd rfl)

end Runs

end

/-! ## Concrete runs -/

def isCancelledAnswer : RepackProgram (Option RepackResponse) → Bool
  | .done answer => answer == cancelledAnswer
  | .act _ _ => false

def loads (job : RepackJob) : RepackEvent → Bool
  | ⟨.loadRunning, some job'⟩ => job' == job
  | _ => false

/-- Thread `i` has answered that it cancelled the repack of `job`. -/
def cancelledBy (c : RepackConfig exampleHandler) (i : Nat) (job : RepackJob) : Bool :=
  (c.threads[i]?).any fun t =>
    t.entry == .cancelRepack && isCancelledAnswer t.rest && t.past.any (loads job)

theorem cancelled_of_cancelledBy {c : RepackConfig exampleHandler} {i : Nat} {job : RepackJob}
    (hby : cancelledBy c i job = true) : Cancelled c job := by
  rcases (Option.any_eq_true _ _).1 hby with ⟨t, ht, hall⟩
  simp only [Bool.and_eq_true, beq_iff_eq, List.any_eq_true] at hall
  rcases hall with ⟨⟨hentry, hrest⟩, ev, hev, hloads⟩
  refine ⟨t, List.mem_of_getElem? ht, hentry, ?_, ?_⟩
  · unfold isCancelledAnswer at hrest
    split at hrest
    · rename_i answer hdone
      rw [hdone, beq_iff_eq.1 hrest]
    · cases hrest
  · unfold loads at hloads
    split at hloads
    · rw [beq_iff_eq.1 hloads] at hev
      exact hev
    · cases hloads

/-- The job of the first request in the runs below. -/
def exampleJob : RepackJob where
  table := "public.t"
  database := ""
  jobID := { unix := Go.Time.unix 1, seq := 1 }
  startedAt := 1
  cmd := 0

/-- A repack runs, it is killed, and it exits before the cancel is answered. -/
def cancelWhileRunning : List (Label RepackChoice RepackEnv RepackEntry) :=
  .arrive exampleRequest :: List.replicate 5 (stepOf 0) ++ List.replicate 2 (stepOf 1) ++
    .arrive .cancelRepack :: List.replicate 3 (stepOf 2) ++
    [.env (.exit 0 false)] ++ List.replicate 2 (stepOf 2)

theorem cancel_effective_whileRunning :
    ∃ c : RepackConfig exampleHandler,
      Cancelled c exampleJob ∧ c.world.alive exampleJob.cmd = false := by
  have hmeets : runMeets Config.step (fun c l => looksAfterStart c l && answersAfterExit c l)
      (Config.initial (repackSystem exampleHandler) {}) cancelWhileRunning = true := by decide
  have hend : (Transition.run Config.step (Config.initial (repackSystem exampleHandler) {})
      cancelWhileRunning).any (fun c => cancelledBy c 2 exampleJob) = true := by decide
  rcases exists_within_of_run hmeets hend with ⟨c, hrun, hby⟩
  have hcancelled := cancelled_of_cancelledBy hby
  exact ⟨c, hcancelled, cancel_effective hrun hcancelled⟩

/-- The cancel comes before the goroutine has started the command. -/
def cancelBeforeStart : List (Label RepackChoice RepackEnv RepackEntry) :=
  .arrive exampleRequest :: List.replicate 5 (stepOf 0) ++
    .arrive .cancelRepack :: List.replicate 4 (stepOf 2) ++ List.replicate 2 (stepOf 1)

/-- The process is started although its cancellation has been answered. -/
theorem started_after_cancel :
    ¬ ∀ (c : RepackConfig exampleHandler) (job : RepackJob),
      Reach Config.step (Config.initial (repackSystem exampleHandler) {}) c →
        Cancelled c job → c.world.alive job.cmd = false := by
  intro hall
  have hend : (Transition.run Config.step (Config.initial (repackSystem exampleHandler) {})
      cancelBeforeStart).any
        (fun c => cancelledBy c 2 exampleJob && c.world.alive exampleJob.cmd) = true := by decide
  rcases exists_reach_of_run hend with ⟨c, hreach, htest⟩
  rw [Bool.and_eq_true] at htest
  have hdead := hall c exampleJob hreach (cancelled_of_cancelledBy htest.1)
  exact absurd (hdead.symm.trans htest.2) (by decide)

end Handler
end Pgaio
