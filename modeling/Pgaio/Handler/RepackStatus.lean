import Pgaio.Handler.RepackExclusion
import Pgaio.Handler.RepackOrder

/-!
# RepackStatus — when the status of a repack job is final

The goroutine of a job and `CancelRepack` both finish the job, and `finish` does not look at its
status.  `finishesInTime` says when the two do not get in each other's way: a job is cancelled only
before anyone has cancelled it or the goroutine has looked at it or finished it, and it is completed
only if it was not cancelled.  Along such runs a call that finishes a job finds it running
(`running_of_ends`), so the status changes once (`status_final`).
-/

namespace Pgaio
namespace Handler

open Service Concurrency Transition

/-! ## What an action does to the jobs -/

namespace RepackWorld

variable {w w' : RepackWorld} {a : RepackAct} {ch : RepackChoice} {r : a.Resp}

theorem jobs_of_exec (hexec : w.exec a ch = some (r, w')) :
    (∃ call, a = .jobs call ∧ w'.jobs = (call.exec w.jobs ch.now).2) ∨
      (∀ call, a ≠ .jobs call) ∧ w'.jobs = w.jobs := by
  cases a with
  | jobs call =>
      cases hexec
      exact Or.inl ⟨call, rfl, rfl⟩
  | kill cmd =>
      refine Or.inr ⟨by simp, ?_⟩
      simp only [exec] at hexec
      split at hexec <;> cases hexec <;> rfl
  | cmdStart cmd =>
      refine Or.inr ⟨by simp, ?_⟩
      simp only [exec] at hexec
      split at hexec
      · split at hexec <;> cases hexec <;> rfl
      · cases hexec
  | cmdWait cmd =>
      refine Or.inr ⟨by simp, ?_⟩
      simp only [exec] at hexec
      split at hexec <;> cases hexec
      rfl
  | _ =>
      cases hexec
      exact Or.inr ⟨by simp, rfl⟩

theorem env_frame {x : RepackEnv} (hstep : w.envStep x = some w') :
    w'.jobs = w.jobs ∧ w'.running = w.running := by
  rcases env_cases hstep with ⟨cmd, old, ok, _, _, rfl⟩
  exact ⟨rfl, rfl⟩

/-- Some log describes the jobs. -/
def Logged (w : RepackWorld) : Prop :=
  ∃ log, JobStore.Sound w.jobs log

theorem logged_exec (h : w.Logged) (hexec : w.exec a ch = some (r, w')) : w'.Logged := by
  rcases h with ⟨log, hsound⟩
  rcases jobs_of_exec hexec with ⟨call, _, hjobs⟩ | ⟨_, hjobs⟩
  · exact ⟨_, hjobs ▸ hsound.exec ch.now call⟩
  · exact ⟨log, hjobs ▸ hsound⟩

theorem seq_exec (h : w.Logged) (hexec : w.exec a ch = some (r, w')) :
    w.jobs.seq ≤ w'.jobs.seq := by
  rcases h with ⟨log, hsound⟩
  rcases jobs_of_exec hexec with ⟨call, _, hjobs⟩ | ⟨_, hjobs⟩
  · exact hjobs ▸ hsound.seq_exec ch.now call
  · exact Nat.le_of_eq (hjobs ▸ rfl)

/-- A job that is started gets the next sequence number. -/
theorem seq_of_starts {jobID : JobID} (h : w.Logged) (hexec : w.exec a ch = some (r, w'))
    (hstarts : startsJob jobID ⟨a, r⟩ = true) :
    jobID.seq = w.jobs.seq + 1 ∧ w'.jobs.seq = w.jobs.seq + 1 := by
  rcases h with ⟨log, hsound⟩
  unfold startsJob at hstarts
  split at hstarts
  · rename_i jobType target database message metadata job heq
    cases heq
    cases hexec
    constructor
    · rw [← beq_iff_eq.1 hstarts]
      rfl
    · exact hsound.seq_start _ _ _ _ _ _
  · cases hstarts

theorem ends_of_other {jobID : JobID} (h : ∀ call, a ≠ .jobs call) : a.ends jobID = false := by
  cases a with
  | jobs call => exact absurd rfl (h call)
  | _ => rfl

/-- A call that ends a job changes it. -/
theorem change_of_ends {call : JobCall} {jobID : JobID} (now : Go.Time)
    (h : (RepackAct.jobs call).ends jobID = true) : ∃ f, call.change? now = some (jobID, f) := by
  cases call with
  | complete id message => exact ⟨_, by rw [← beq_iff_eq.1 h]; rfl⟩
  | completeWithArtifact id message artifact => exact ⟨_, by rw [← beq_iff_eq.1 h]; rfl⟩
  | fail id message details => exact ⟨_, by rw [← beq_iff_eq.1 h]; rfl⟩
  | cancel id message => exact ⟨_, by rw [← beq_iff_eq.1 h]; rfl⟩
  | _ => cases h

/-- What a change does to the fields that the end of a job sets. -/
theorem change_cases {call : JobCall} {jobID : JobID} {now : Go.Time} {f : Job → Job}
    (h : call.change? now = some (jobID, f)) (job : Job) :
    ((RepackAct.jobs call).ends jobID = false ∧ (f job).status = job.status ∧
      (f job).error = job.error ∧ (f job).finishedAt = job.finishedAt) ∨
    ((RepackAct.jobs call).ends jobID = true ∧
      ((RepackAct.jobs call).cancels jobID = true → (f job).status = .canceled) ∧
        ((f job).error = job.error ∨ (f job).status = .failed)) := by
  cases call with
  | update id message details =>
      cases h
      exact Or.inl ⟨rfl, rfl, rfl, rfl⟩
  | complete id message =>
      cases h
      exact Or.inr ⟨by simp [RepackAct.ends], by simp [RepackAct.cancels], Or.inl rfl⟩
  | completeWithArtifact id message artifact =>
      cases h
      exact Or.inr ⟨by simp [RepackAct.ends], by simp [RepackAct.cancels], Or.inl rfl⟩
  | fail id message details =>
      cases h
      exact Or.inr ⟨by simp [RepackAct.ends], by simp [RepackAct.cancels], Or.inr rfl⟩
  | cancel id message =>
      cases h
      exact Or.inr ⟨by simp [RepackAct.ends], fun _ => rfl, Or.inl rfl⟩
  | _ => cases h

/-- A look that did not find the job cancelled changes nothing. -/
theorem look_of_exec {jobID : JobID} {job : Job} (hexec : w.exec a ch = some (r, w'))
    (hfinds : findsUncanceled jobID ⟨a, r⟩ = true) (hget : w'.jobs.get jobID = some job) :
    w.jobs.get jobID = some job ∧ job.status ≠ .canceled := by
  unfold findsUncanceled at hfinds
  split at hfinds
  · rename_i id current heq
    cases heq
    rcases Bool.and_eq_true_iff.1 hfinds with ⟨hid, hstatus⟩
    have hsame : id = jobID := beq_iff_eq.1 hid
    subst hsame
    rcases Prod.mk.inj (Option.some.inj hexec) with ⟨hcurrent, hworld⟩
    have hbefore : w.jobs.get id = some job := by
      rw [← hworld] at hget
      exact hget
    have hfound : current = some job := hcurrent.symm.trans hbefore
    exact ⟨hbefore, by simpa [hfound] using hstatus⟩
  · cases hfinds

/-- What an action does to a job that is stored afterwards. -/
theorem job_of_exec {jobID : JobID} {job : Job} (h : w.Logged)
    (hexec : w.exec a ch = some (r, w')) (hget : w'.jobs.get jobID = some job) :
    (a.ends jobID = false ∧ ∃ before, w.jobs.get jobID = some before ∧
      job.status = before.status ∧ job.error = before.error ∧ job.finishedAt = before.finishedAt) ∨
    (a.ends jobID = true ∧ ∃ before, w.jobs.get jobID = some before ∧
      (a.cancels jobID = true → job.status = .canceled) ∧
        (job.error = before.error ∨ job.status = .failed)) ∨
    (startsJob jobID ⟨a, r⟩ = true ∧ job.status = .running ∧ job.error = "") := by
  rcases h with ⟨log, hsound⟩
  rcases jobs_of_exec hexec with ⟨call, rfl, hjobs⟩ | ⟨hother, hjobs⟩
  · rw [hjobs] at hget
    rcases hsound.get_exec hget with ⟨hkept, hbefore⟩ | ⟨f, before, hchange, hbefore, rfl⟩ |
      ⟨jobType, target, database, message, metadata, rfl, rfl, hid⟩
    · -- A call that ends the job would have changed it.
      refine Or.inl ⟨?_, job, hbefore, rfl, rfl, rfl⟩
      cases hends : (RepackAct.jobs call).ends jobID with
      | false => rfl
      | true =>
          rcases change_of_ends ch.now hends with ⟨f, hf⟩
          exact absurd hf (hkept f)
    · rcases change_cases hchange before with ⟨hends, hsame⟩ | ⟨hends, hset⟩
      · exact Or.inl ⟨hends, before, hbefore, hsame⟩
      · exact Or.inr (Or.inl ⟨hends, before, hbefore, hset⟩)
    · refine Or.inr (Or.inr ⟨?_, rfl, rfl⟩)
      cases hexec
      exact beq_iff_eq.2 hid
  · rw [hjobs] at hget
    exact Or.inl ⟨ends_of_other hother, job, hget, rfl, rfl, rfl⟩

end RepackWorld

/-! ## Who starts, cancels and finishes a job -/

section

variable {h : RepackHandler}

/-- Every job is started by one request, for which one goroutine is started, and `h.running` holds
jobs that were started. -/
structure JobsInv (c : RepackConfig h) : Prop where
  logged : c.world.Logged
  known : ∀ jobID, c.happened (startsJob jobID) = true → jobID.seq ≤ c.world.jobs.seq
  once : ∀ (i j : Nat) (t u : Thread (repackSystem h)) (jobID : JobID),
    c.threads[i]? = some t → c.threads[j]? = some u →
      t.past.any (startsJob jobID) = true → u.past.any (startsJob jobID) = true → i = j
  running : ∀ job, c.world.running = some job → c.happened (startsJob job.jobID) = true
  loaded : ∀ jobID, c.happened (loadsJob jobID) = true → c.happened (startsJob jobID) = true
  launched : ∀ t ∈ c.threads, ∀ jobID cmd, t.entry = .goroutine jobID cmd →
    c.happened (fun ev => ev.act.launches jobID) = true
  alone : ∀ (i j : Nat) (t u : Thread (repackSystem h)) (jobID : JobID) (cmd cmd' : Nat),
    c.threads[i]? = some t → c.threads[j]? = some u →
      t.entry = .goroutine jobID cmd → u.entry = .goroutine jobID cmd' → i = j

theorem jobsInv_initial : JobsInv (Config.initial (repackSystem h) {}) where
  logged := ⟨[], JobStore.Sound.new⟩
  known := by simp [Config.happened]
  once := by simp
  running := by simp
  loaded := by simp [Config.happened]
  launched := by simp
  alone := by simp

theorem follows_next {t : Thread (repackSystem h)} {a : RepackAct}
    {next : a.Resp → RepackProgram (Option RepackResponse)} (hrest : t.rest = .act a next) :
    t.entry.Follows t.past a := by
  have hwp := t.wp (body_follows h t.entry)
  rw [hrest] at hwp
  exact hwp.1

/-- What a thread did before one of its events. -/
theorem follows_of_mem {t : Thread (repackSystem h)} {ev : RepackEvent} (hev : ev ∈ t.past) :
    ∃ before, before <+: t.past ∧ t.entry.Follows before ev.act :=
  t.inv_of_mem (body_follows h t.entry) hev

theorem any_of_earlier {before past : List RepackEvent} {p : RepackEvent → Bool}
    (hpre : before <+: past) (hany : before.any p = true) : past.any p = true := by
  rcases List.any_eq_true.1 hany with ⟨ev, hev, hp⟩
  exact List.any_eq_true.2 ⟨ev, hpre.subset hev, hp⟩

/-- A launched goroutine belongs to a job that its request has started. -/
theorem starts_of_launches {t : Thread (repackSystem h)} {jobID : JobID}
    (hany : t.past.any (fun ev => ev.act.launches jobID) = true) :
    t.past.any (startsJob jobID) = true := by
  rcases List.any_eq_true.1 hany with ⟨⟨a, r⟩, hev, hlaunches⟩
  rcases follows_of_mem hev with ⟨before, hbefore, hfollows⟩
  cases a with
  | go e =>
      cases e with
      | goroutine id cmd =>
          have hid : id = jobID := by simpa [RepackAct.launches] using hlaunches
          subst hid
          exact any_of_earlier hbefore hfollows.1
      | _ => cases hlaunches
  | _ => cases hlaunches

section Act

variable {c : RepackConfig h} {i : Nat} {ch : RepackChoice} {t : Thread (repackSystem h)}
variable {a : RepackAct} {next : a.Resp → RepackProgram (Option RepackResponse)} {r : a.Resp}
variable {w : RepackWorld}

/-- A goroutine was there before the step, or the step started it. -/
theorem goroutine_resume {j : Nat} {u : Thread (repackSystem h)} {jobID : JobID} {cmd : Nat}
    (ht : c.threads[i]? = some t) (hrest : t.rest = .act a next)
    (hu : (c.resume w i (t.advance hrest r) a.forks).threads[j]? = some u)
    (hentry : u.entry = .goroutine jobID cmd) :
    (∃ u', c.threads[j]? = some u' ∧ u'.entry = .goroutine jobID cmd) ∨
      j = c.threads.length ∧ a = .go (.goroutine jobID cmd) := by
  rcases Config.getElem?_resume hu with ⟨rfl, rfl⟩ | ⟨_, hold⟩ | ⟨hj, e', he', rfl⟩
  · exact Or.inl ⟨t, ht, hentry⟩
  · exact Or.inl ⟨u, hold, hentry⟩
  · rw [Thread.start_entry] at hentry
    subst hentry
    cases a with
    | go e =>
        cases he'
        exact Or.inr ⟨hj, rfl⟩
    | _ => cases he'

theorem jobsInv_act (hI : JobsInv c) (ht : c.threads[i]? = some t) (hrest : t.rest = .act a next)
    (hexec : c.world.exec a ch = some (r, w)) :
    JobsInv (c.resume w i (t.advance hrest r) a.forks) := by
  have hmem := List.mem_of_getElem? ht
  have hfollows := follows_next hrest
  have hseq := RepackWorld.seq_exec hI.logged hexec
  have hold : ∀ {p : RepackEvent → Bool}, c.happened p = true →
      (c.resume w i (t.advance hrest r) a.forks).happened p = true :=
    fun hp => (Config.happened_resume ht hrest).2 (Or.inl hp)
  -- A job that this step starts was not known before.
  have hfresh : ∀ (j : Nat) (u : Thread (repackSystem h)) (jobID : JobID),
      c.threads[j]? = some u → u.past.any (startsJob jobID) = true →
        startsJob jobID ⟨a, r⟩ = false := by
    intro j u jobID hu hany
    by_contra hstarts
    rw [Bool.not_eq_false] at hstarts
    have hnew := (RepackWorld.seq_of_starts hI.logged hexec hstarts).1
    have hknown := hI.known jobID (Config.happened_of_any (List.mem_of_getElem? hu) hany)
    omega
  constructor
  · exact RepackWorld.logged_exec hI.logged hexec
  · -- `known`
    intro jobID hstarted
    rcases (Config.happened_resume ht hrest).1 hstarted with hbefore | hstarts
    · exact Nat.le_trans (hI.known jobID hbefore) hseq
    · rcases RepackWorld.seq_of_starts hI.logged hexec hstarts with ⟨hid, hnext⟩
      exact Nat.le_of_eq (hid.trans hnext.symm)
  · -- `once`: two threads that started the job did so before, or a known job is started again.
    intro j k u v jobID hu hv hany hany'
    rcases Config.any_resume ht hrest hu hany with ⟨u', hu', hbefore⟩ | ⟨rfl, hstarts⟩
    · rcases Config.any_resume ht hrest hv hany' with ⟨v', hv', hbefore'⟩ | ⟨rfl, hstarts'⟩
      · exact hI.once j k u' v' jobID hu' hv' hbefore hbefore'
      · rw [hfresh j u' jobID hu' hbefore] at hstarts'
        cases hstarts'
    · rcases Config.any_resume ht hrest hv hany' with ⟨v', hv', hbefore'⟩ | ⟨rfl, _⟩
      · rw [hfresh k v' jobID hv' hbefore'] at hstarts
        cases hstarts
      · rfl
  · -- `running`: a request puts only the job into the slot that it has started.
    intro job hjob
    rcases RepackWorld.running_of_exec hexec with hsame | ⟨owner, _, hnone⟩ |
      ⟨table, database, jobID, cmd, job', rfl, hset, hid, _⟩
    · exact hold (hI.running job (hsame ▸ hjob))
    · cases hnone.symm.trans hjob
    · cases hset.symm.trans hjob
      exact hold (Config.happened_of_any hmem (hid ▸ hfollows))
  · -- `loaded`
    intro jobID hloaded
    rcases (Config.happened_resume ht hrest).1 hloaded with hbefore | hloads
    · exact hold (hI.loaded jobID hbefore)
    · unfold loadsJob at hloads
      split at hloads
      · rename_i job heq
        cases heq
        rcases Prod.mk.inj (Option.some.inj hexec) with ⟨hjob, _⟩
        rw [← beq_iff_eq.1 hloads]
        exact hold (hI.running job hjob)
      · cases hloads
  · -- `launched`
    intro u hu jobID cmd hentry
    rcases List.mem_iff_getElem?.1 hu with ⟨j, hj⟩
    rcases goroutine_resume ht hrest hj hentry with ⟨u', hu', hentry'⟩ | ⟨_, rfl⟩
    · exact hold (hI.launched u' (List.mem_of_getElem? hu') jobID cmd hentry')
    · exact (Config.happened_resume ht hrest).2 (Or.inr (by simp [RepackAct.launches]))
  · -- A second goroutine for one job would be started by the request that started the first.
    have honly : ∀ (j : Nat) (u : Thread (repackSystem h)) (jobID : JobID) (cmd cmd' : Nat),
        c.threads[j]? = some u → u.entry = .goroutine jobID cmd →
          a ≠ .go (.goroutine jobID cmd') := by
      rintro j u jobID cmd cmd' hu hentry rfl
      have hlaunched := hI.launched u (List.mem_of_getElem? hu) jobID cmd hentry
      rcases Config.happened_iff.1 hlaunched with ⟨v, hv, ev, hev, hlaunches⟩
      have hany : v.past.any (fun ev => ev.act.launches jobID) = true :=
        List.any_eq_true.2 ⟨ev, hev, hlaunches⟩
      rcases List.mem_iff_getElem?.1 hv with ⟨k, hk⟩
      have hsame := hI.once k i v t jobID hk ht (starts_of_launches hany) hfollows.1
      subst hsame
      cases hk.symm.trans ht
      rw [hfollows.2 jobID] at hany
      cases hany
    intro j k u v jobID cmd cmd' hu hv hentry hentry'
    rcases goroutine_resume ht hrest hu hentry with ⟨u', hu', hbefore⟩ | ⟨hj, ha⟩
    · rcases goroutine_resume ht hrest hv hentry' with ⟨v', hv', hbefore'⟩ | ⟨_, ha'⟩
      · exact hI.alone j k u' v' jobID cmd cmd' hu' hv' hbefore hbefore'
      · exact absurd ha' (honly j u' jobID cmd cmd' hu' hbefore)
    · rcases goroutine_resume ht hrest hv hentry' with ⟨v', hv', hbefore'⟩ | ⟨hk, _⟩
      · exact absurd ha (honly k v' jobID cmd' cmd hv' hbefore')
      · exact hj.trans hk.symm

end Act

theorem jobsInv_step {c c' : RepackConfig h} {l : Label RepackChoice RepackEnv RepackEntry}
    (hI : JobsInv c) (hstep : c.step l = some c') : JobsInv c' := by
  cases Config.moves_of_step hstep with
  | @arrive e he =>
      have hstarted : ∀ {j : Nat} {u : Thread (repackSystem h)} {jobID : JobID},
          (c.spawn e).threads[j]? = some u → u.past.any (startsJob jobID) = true →
            c.threads[j]? = some u := by
        intro j u jobID hu hany
        rcases Config.getElem?_spawn hu with hold | ⟨_, rfl⟩
        · exact hold
        · cases hany
      have hgoroutine : ∀ {j : Nat} {u : Thread (repackSystem h)} {jobID : JobID} {cmd : Nat},
          (c.spawn e).threads[j]? = some u → u.entry = .goroutine jobID cmd →
            c.threads[j]? = some u := by
        intro j u jobID cmd hu hentry
        rcases Config.getElem?_spawn hu with hold | ⟨_, rfl⟩
        · exact hold
        · -- A goroutine does not arrive from outside.
          rw [Thread.start_entry] at hentry
          subst hentry
          cases he
      constructor
      · exact hI.logged
      · simpa [Config.happened_spawn] using hI.known
      · intro j k u v jobID hu hv hany hany'
        exact hI.once j k u v jobID (hstarted hu hany) (hstarted hv hany') hany hany'
      · simpa [Config.happened_spawn] using hI.running
      · simpa [Config.happened_spawn] using hI.loaded
      · intro u hu jobID cmd hentry
        rcases List.mem_iff_getElem?.1 hu with ⟨j, hj⟩
        rw [Config.happened_spawn]
        exact hI.launched u (List.mem_of_getElem? (hgoroutine hj hentry)) jobID cmd hentry
      · intro j k u v jobID cmd cmd' hu hv hentry hentry'
        exact hI.alone j k u v jobID cmd cmd' (hgoroutine hu hentry) (hgoroutine hv hentry')
          hentry hentry'
  | @env x w hw =>
      rcases RepackWorld.env_frame hw with ⟨hjobs, hrunning⟩
      refine ⟨?_, ?_, hI.once, ?_, hI.loaded, hI.launched, hI.alone⟩
      · rcases hI.logged with ⟨log, hsound⟩
        exact ⟨log, hjobs ▸ hsound⟩
      · exact hjobs ▸ hI.known
      · exact fun job hjob => hI.running job (hrunning ▸ hjob)
  | @act i ch t a next r w ht hrest hexec => exact jobsInv_act hI ht hrest hexec

/-! ## The status of a job -/

/-- A job is cancelled only before anyone has cancelled it and before its goroutine has looked at it
or finished it; it is completed only if nobody has cancelled it. -/
def finishesInTime (c : RepackConfig h) : Label RepackChoice RepackEnv RepackEntry → Bool
  | .step i _ =>
      match (c.threads[i]?).bind Thread.action? with
      | some (.jobs (.cancel jobID _)) =>
          !c.happened fun ev => ev.act.ends jobID || ev.act.looksAt jobID
      | some (.jobs (.complete jobID _)) => !c.happened fun ev => ev.act.cancels jobID
      | _ => true
  | _ => true

/-- How the status of a job is related to what the threads have done. -/
structure StatusInv (c : RepackConfig h) : Prop where
  ended : ∀ jobID job, c.world.jobs.get jobID = some job → job.status ≠ .running →
    c.happened (fun ev => ev.act.ends jobID) = true
  canceled : ∀ jobID, c.happened (fun ev => ev.act.cancels jobID) = true →
    ∀ job, c.world.jobs.get jobID = some job → job.status = .canceled
  seen : ∀ jobID, c.happened (findsUncanceled jobID) = true →
    c.happened (fun ev => ev.act.cancels jobID) = true → c.world.jobs.get jobID = none
  error : ∀ jobID job, c.world.jobs.get jobID = some job → job.error ≠ "" → job.status = .failed

theorem statusInv_initial : StatusInv (Config.initial (repackSystem h) {}) where
  ended := by simp [JobStore.get]
  canceled := by simp [Config.happened]
  seen := by simp [Config.happened]
  error := by simp [JobStore.get]

/-- A job is ended by a cancel or by its own goroutine. -/
theorem ends_cases {t : Thread (repackSystem h)} {ev : RepackEvent} {jobID : JobID}
    (hev : ev ∈ t.past) (hends : ev.act.ends jobID = true) :
    ev.act.cancels jobID = true ∨ ∃ cmd, t.entry = .goroutine jobID cmd := by
  rcases follows_of_mem hev with ⟨before, _, hfollows⟩
  rcases RepackAct.eq_of_ends hends with ⟨_, ha⟩ | ⟨_, _, ha⟩ | ⟨_, _, ha⟩ | hcancels
  · rw [ha] at hfollows
    exact Or.inr hfollows.1
  · rw [ha] at hfollows
    cases hfollows
  · rw [ha] at hfollows
    exact Or.inr hfollows.1
  · exact Or.inl hcancels

/-- Only jobs that were started are cancelled. -/
theorem starts_of_cancels {c : RepackConfig h} {jobID : JobID} (hI : JobsInv c)
    (hcanceled : c.happened (fun ev => ev.act.cancels jobID) = true) :
    c.happened (startsJob jobID) = true := by
  rcases Config.happened_iff.1 hcanceled with ⟨t, ht, ev, hev, hcancels⟩
  rcases follows_of_mem hev with ⟨before, hbefore, hfollows⟩
  rcases RepackAct.eq_of_cancels hcancels with ⟨_, ha⟩
  rw [ha] at hfollows
  exact hI.loaded jobID (Config.happened_of_any ht (any_of_earlier hbefore hfollows.2))

section Act

variable {c : RepackConfig h} {i : Nat} {ch : RepackChoice} {t : Thread (repackSystem h)}
variable {a : RepackAct} {next : a.Resp → RepackProgram (Option RepackResponse)} {r : a.Resp}
variable {w : RepackWorld}

theorem action_of_rest (ht : c.threads[i]? = some t) (hrest : t.rest = .act a next) :
    (c.threads[i]?).bind Thread.action? = some a := by
  rw [ht]
  exact Thread.action?_of_rest hrest

/-- Nobody has ended the job of a goroutine that is about to end it, unless it was cancelled. -/
theorem canceled_of_ended (hJobs : JobsInv c) (ht : c.threads[i]? = some t) {jobID : JobID}
    (hentry : ∃ cmd, t.entry = .goroutine jobID cmd)
    (hnone : t.past.any (fun ev => ev.act.ends jobID) = false)
    (hended : c.happened (fun ev => ev.act.ends jobID) = true) :
    c.happened (fun ev => ev.act.cancels jobID) = true := by
  rcases Config.happened_iff.1 hended with ⟨u, hu, ev, hev, hends⟩
  rcases ends_cases hev hends with hcancels | ⟨cmd', hentry'⟩
  · exact Config.happened_iff.2 ⟨u, hu, ev, hev, hcancels⟩
  · -- The job has one goroutine only, and that has not ended the job yet.
    rcases hentry with ⟨cmd, hentry⟩
    rcases List.mem_iff_getElem?.1 hu with ⟨j, hj⟩
    have hany : u.past.any (fun ev => ev.act.ends jobID) = true :=
      List.any_eq_true.2 ⟨ev, hev, hends⟩
    have hsame := hJobs.alone j i u t jobID cmd' cmd hj ht hentry' hentry
    subst hsame
    cases hj.symm.trans ht
    cases hnone.symm.trans hany

/-- An action that ends a job finds it running. -/
theorem running_of_ends (hJobs : JobsInv c) (hI : StatusInv c)
    (hok : finishesInTime c (.step i ch) = true) (ht : c.threads[i]? = some t)
    (hrest : t.rest = .act a next) {jobID : JobID} (hends : a.ends jobID = true) {job : Job}
    (hget : c.world.jobs.get jobID = some job) : job.status = .running := by
  by_contra hstatus
  have hended := hI.ended jobID job hget hstatus
  have hfollows := follows_next hrest
  simp only [finishesInTime, action_of_rest ht hrest] at hok
  rcases RepackAct.eq_of_ends hends with ⟨message, rfl⟩ | ⟨message, artifact, rfl⟩ |
    ⟨message, details, rfl⟩ | hcancels
  · -- The goroutine completes the job, which must not have been cancelled.
    have hcanceled := canceled_of_ended hJobs ht hfollows.1 hfollows.2 hended
    simp [hcanceled] at hok
  · cases hfollows
  · -- The goroutine fails the job after a look that did not find it cancelled.
    have hcanceled := canceled_of_ended hJobs ht hfollows.1 hfollows.2.1 hended
    have hseen := Config.happened_of_any (List.mem_of_getElem? ht) hfollows.2.2
    cases hget.symm.trans (hI.seen jobID hseen hcanceled)
  · -- The cancel comes before anyone has ended the job.
    rcases RepackAct.eq_of_cancels hcancels with ⟨message, rfl⟩
    have hbefore : c.happened (fun ev => ev.act.ends jobID || ev.act.looksAt jobID) = true :=
      Config.happened_mono (fun ev hev => by simp [hev]) hended
    simp [hbefore] at hok

theorem statusInv_act (hJobs : JobsInv c) (hI : StatusInv c)
    (hok : finishesInTime c (.step i ch) = true) (ht : c.threads[i]? = some t)
    (hrest : t.rest = .act a next) (hexec : c.world.exec a ch = some (r, w)) :
    StatusInv (c.resume w i (t.advance hrest r) a.forks) := by
  have hold : ∀ {p : RepackEvent → Bool}, c.happened p = true →
      (c.resume w i (t.advance hrest r) a.forks).happened p = true :=
    fun hp => (Config.happened_resume ht hrest).2 (Or.inl hp)
  have hjob {jobID : JobID} {job : Job} (hget : w.jobs.get jobID = some job) :=
    RepackWorld.job_of_exec hJobs.logged hexec hget
  have hrunning {jobID : JobID} {job : Job} (hends : a.ends jobID = true)
      (hget : c.world.jobs.get jobID = some job) : job.status = .running :=
    running_of_ends hJobs hI hok ht hrest hends hget
  -- A job that this step starts has not been cancelled before.
  have hfresh : ∀ jobID, c.happened (fun ev => ev.act.cancels jobID) = true →
      startsJob jobID ⟨a, r⟩ = false := by
    intro jobID hcanceled
    by_contra hstarts
    rw [Bool.not_eq_false] at hstarts
    have hnew := (RepackWorld.seq_of_starts hJobs.logged hexec hstarts).1
    have hknown := hJobs.known jobID (starts_of_cancels hJobs hcanceled)
    omega
  constructor
  · -- `ended`: a status other than running was there before, or this step ends the job.
    intro jobID job hget hstatus
    rcases hjob hget with ⟨_, before, hbefore, hsame, _⟩ | ⟨hends, _⟩ | ⟨_, hnew, _⟩
    · exact hold (hI.ended jobID before hbefore (hsame ▸ hstatus))
    · exact (Config.happened_resume ht hrest).2 (Or.inr hends)
    · exact absurd hnew hstatus
  · -- `canceled`: a cancelled job is not running, so no later step ends it again.
    intro jobID hcanceled job hget
    rcases (Config.happened_resume ht hrest).1 hcanceled with hbefore | hnow
    · rcases hjob hget with ⟨_, before, hstored, hsame, _⟩ | ⟨hends, before, hstored, _⟩ |
        ⟨hstarts, _⟩
      · exact hsame ▸ hI.canceled jobID hbefore before hstored
      · cases (hrunning hends hstored).symm.trans (hI.canceled jobID hbefore before hstored)
      · cases (hfresh jobID hbefore).symm.trans hstarts
    · rcases hjob hget with ⟨hother, _⟩ | ⟨_, before, _, hset, _⟩ | ⟨hstarts, _⟩
      · cases hother.symm.trans (RepackAct.ends_of_cancels hnow)
      · exact hset hnow
      · rcases RepackAct.eq_of_cancels hnow with ⟨message, rfl⟩
        cases hstarts
  · -- `seen`: a look that misses the cancel finds no job at all.
    intro jobID hseen hcanceled
    by_contra hstored
    rcases Option.ne_none_iff_exists'.1 hstored with ⟨job, hget⟩
    rcases (Config.happened_resume ht hrest).1 hseen with hbefore | hnow
    · rcases (Config.happened_resume ht hrest).1 hcanceled with hbefore' | hnow'
      · have hnone := hI.seen jobID hbefore hbefore'
        rcases hjob hget with ⟨_, before, hstored', _⟩ | ⟨_, before, hstored', _⟩ | ⟨hstarts, _⟩
        · cases hnone.symm.trans hstored'
        · cases hnone.symm.trans hstored'
        · cases (hfresh jobID hbefore').symm.trans hstarts
      · -- The goroutine has looked at the job, so this cancel comes too late.
        rcases RepackAct.eq_of_cancels hnow' with ⟨message, rfl⟩
        have hlooked : c.happened (fun ev => ev.act.ends jobID || ev.act.looksAt jobID) = true :=
          Config.happened_mono (fun ev hev => by simp [looksAt_of_findsUncanceled hev]) hbefore
        simp [finishesInTime, action_of_rest ht hrest, hlooked] at hok
    · rcases RepackWorld.look_of_exec hexec hnow hget with ⟨hbefore, hstatus⟩
      rcases (Config.happened_resume ht hrest).1 hcanceled with hbefore' | hnow'
      · exact hstatus (hI.canceled jobID hbefore' job hbefore)
      · rcases RepackAct.eq_of_cancels hnow' with ⟨message, rfl⟩
        cases hnow
  · -- `error`
    intro jobID job hget herror
    rcases hjob hget with ⟨_, before, hbefore, hstatus, hsame, _⟩ |
      ⟨hends, before, hbefore, _, hset⟩ | ⟨_, _, hnew⟩
    · rw [hstatus]
      exact hI.error jobID before hbefore (hsame ▸ herror)
    · rcases hset with hsame | hfailed
      · -- The error of a running job is empty.
        have hfailed := hI.error jobID before hbefore (hsame ▸ herror)
        cases (hrunning hends hbefore).symm.trans hfailed
      · exact hfailed
    · exact absurd hnew herror

end Act

theorem statusInv_step {c c' : RepackConfig h} {l : Label RepackChoice RepackEnv RepackEntry}
    (hJobs : JobsInv c) (hI : StatusInv c) (hok : finishesInTime c l = true)
    (hstep : c.step l = some c') : StatusInv c' := by
  cases Config.moves_of_step hstep with
  | @arrive e he =>
      refine ⟨?_, ?_, ?_, hI.error⟩
      · simpa [Config.happened_spawn] using hI.ended
      · simpa [Config.happened_spawn] using hI.canceled
      · simpa [Config.happened_spawn] using hI.seen
  | @env x w hw =>
      rcases RepackWorld.env_frame hw with ⟨hjobs, _⟩
      exact ⟨hjobs ▸ hI.ended, hjobs ▸ hI.canceled, hjobs ▸ hI.seen, hjobs ▸ hI.error⟩
  | @act i ch t a next r w ht hrest hexec => exact statusInv_act hJobs hI hok ht hrest hexec

/-! ## The status is final -/

/-- A job whose status was not running at first has the same status, error and end afterwards. -/
def StatusFinal (w w' : RepackWorld) : Prop :=
  ∀ jobID job job', w.jobs.get jobID = some job → w'.jobs.get jobID = some job' →
    job.status ≠ .running →
      job'.status = job.status ∧ job'.error = job.error ∧ job'.finishedAt = job.finishedAt

/-- Only a failed job has an error. -/
def ErrorOnlyFailed (w : RepackWorld) : Prop :=
  ∀ jobID job, w.jobs.get jobID = some job → job.error ≠ "" → job.status = .failed

/-- What holds of a later state of a run that has come past `w`. -/
structure FinalSince (w : RepackWorld) (c : RepackConfig h) : Prop where
  jobs : JobsInv c
  status : StatusInv c
  known : ∀ jobID job, w.jobs.get jobID = some job → jobID.seq ≤ c.world.jobs.seq
  final : StatusFinal w c.world

theorem finalSince_refl {c : RepackConfig h} (hJobs : JobsInv c) (hI : StatusInv c) :
    FinalSince c.world c where
  jobs := hJobs
  status := hI
  known := by
    intro jobID job hget
    rcases hJobs.logged with ⟨log, hsound⟩
    exact hsound.seq_le_of_get hget
  final := by
    intro jobID job job' hget hget' _
    cases hget.symm.trans hget'
    exact ⟨rfl, rfl, rfl⟩

theorem finalSince_step {w : RepackWorld} {c c' : RepackConfig h}
    {l : Label RepackChoice RepackEnv RepackEntry} (hI : FinalSince w c)
    (hok : finishesInTime c l = true) (hstep : c.step l = some c') : FinalSince w c' := by
  refine ⟨jobsInv_step hI.jobs hstep, statusInv_step hI.jobs hI.status hok hstep, ?_, ?_⟩
  · intro jobID job hget
    refine Nat.le_trans (hI.known jobID job hget) ?_
    cases Config.moves_of_step hstep with
    | arrive _ => exact Nat.le_refl _
    | env hw => exact Nat.le_of_eq (congrArg JobStore.seq (RepackWorld.env_frame hw).1.symm)
    | act _ _ hexec => exact RepackWorld.seq_exec hI.jobs.logged hexec
  · intro jobID job job' hget hget' hstatus
    cases Config.moves_of_step hstep with
    | arrive _ => exact hI.final jobID job job' hget hget' hstatus
    | env hw =>
        rw [(RepackWorld.env_frame hw).1] at hget'
        exact hI.final jobID job job' hget hget' hstatus
    | @act i ch t a next r w' ht hrest hexec =>
        rcases RepackWorld.job_of_exec hI.jobs.logged hexec hget' with
          ⟨_, before, hbefore, hsame, hsame', hsame''⟩ | ⟨hends, before, hbefore, _⟩ | ⟨hstarts, _⟩
        · rcases hI.final jobID job before hget hbefore hstatus with ⟨heq, heq', heq''⟩
          exact ⟨hsame.trans heq, hsame'.trans heq', hsame''.trans heq''⟩
        · -- The job would have to be running, but it was not at first.
          have hrunning := running_of_ends hI.jobs hI.status hok ht hrest hends hbefore
          have heq := (hI.final jobID job before hget hbefore hstatus).1
          exact absurd (heq.symm.trans hrunning) hstatus
        · have hnew := (RepackWorld.seq_of_starts hI.jobs.logged hexec hstarts).1
          have hknown := hI.known jobID job hget
          omega

/-- In every run whose steps finish jobs in time, the status of a job is final once it is not
running, and only a failed job has an error. -/
theorem status_final {c c' : RepackConfig h}
    (hrun : Within Config.step (fun c l => finishesInTime c l = true)
      (Config.initial (repackSystem h) {}) c)
    (hrun' : Within Config.step (fun c l => finishesInTime c l = true) c c') :
    StatusFinal c.world c'.world ∧ ErrorOnlyFailed c'.world := by
  have hbefore : FinalSince (Config.initial (repackSystem h) {}).world c :=
    hrun.invariant (fun _ _ _ hI hok hstep => finalSince_step hI hok hstep)
      (finalSince_refl jobsInv_initial statusInv_initial)
  have hafter : FinalSince c.world c' :=
    hrun'.invariant (fun _ _ _ hI hok hstep => finalSince_step hI hok hstep)
      (finalSince_refl hbefore.jobs hbefore.status)
  exact ⟨hafter.final, hafter.status.error⟩

end

/-! ## Concrete runs -/

def firstJobID : JobID := { unix := Go.Time.unix 1, seq := 1 }

/-- The repack has been started, `CancelRepack` has killed its process and has recorded the cancel. -/
def killedAndCanceled : List (Label RepackChoice RepackEnv RepackEntry) :=
  .arrive exampleRequest :: List.replicate 5 (stepOf 0) ++ List.replicate 2 (stepOf 1) ++
    .arrive .cancelRepack :: List.replicate 4 (stepOf 2)

/-- The process exits and its goroutine runs to its end. -/
def goroutineEnds : List (Label RepackChoice RepackEnv RepackEntry) :=
  .env (.exit 0 false) :: List.replicate 3 (stepOf 1)

theorem status_final_canceled :
    ∃ c c' : RepackConfig exampleHandler,
      c.world.jobs.status? firstJobID = some .canceled ∧ c'.world.running = none ∧
        StatusFinal c.world c'.world ∧ ErrorOnlyFailed c'.world := by
  have hmeets : runMeets Config.step finishesInTime
      (Config.initial (repackSystem exampleHandler) {}) killedAndCanceled = true := by decide
  have hend : (Transition.run Config.step (Config.initial (repackSystem exampleHandler) {})
      killedAndCanceled).any (fun c =>
        decide (c.world.jobs.status? firstJobID = some .canceled) &&
          runMeets Config.step finishesInTime c goroutineEnds &&
            (Transition.run Config.step c goroutineEnds).any
              fun c' => decide (c'.world.running = none)) = true := by decide
  rcases exists_within_of_run hmeets hend with ⟨c, hrun, htest⟩
  simp only [Bool.and_eq_true, decide_eq_true_eq] at htest
  rcases exists_within_of_run htest.1.2 htest.2 with ⟨c', hrun', hended⟩
  exact ⟨c, c', htest.1.1, of_decide_eq_true hended, status_final hrun hrun'⟩

/-- The goroutine has found its job running when the cancel is recorded. -/
def canceledAfterLook : List (Label RepackChoice RepackEnv RepackEntry) :=
  .arrive exampleRequest :: List.replicate 5 (stepOf 0) ++ List.replicate 2 (stepOf 1) ++
    .arrive .cancelRepack :: List.replicate 3 (stepOf 2) ++
    .env (.exit 0 false) :: List.replicate 2 (stepOf 1) ++ [stepOf 2]

/-- A cancelled job becomes a failed one. -/
theorem canceled_then_failed :
    ¬ ∀ c c' : RepackConfig exampleHandler,
      Reach Config.step (Config.initial (repackSystem exampleHandler) {}) c →
        Reach Config.step c c' → StatusFinal c.world c'.world ∧ ErrorOnlyFailed c'.world := by
  intro hall
  have hend : (Transition.run Config.step (Config.initial (repackSystem exampleHandler) {})
      canceledAfterLook).any (fun c =>
        decide (c.world.jobs.status? firstJobID = some .canceled) &&
          (Transition.run Config.step c [stepOf 1]).any
            fun c' => decide (c'.world.jobs.status? firstJobID = some .failed)) = true := by decide
  rcases exists_reach_of_run hend with ⟨c, hreach, htest⟩
  simp only [Bool.and_eq_true, decide_eq_true_eq] at htest
  rcases exists_reach_of_run htest.2 with ⟨c', hreach', hfailed⟩
  rcases Option.map_eq_some_iff.1 htest.1 with ⟨job, hget, hcanceled⟩
  rcases Option.map_eq_some_iff.1 (of_decide_eq_true hfailed) with ⟨job', hget', hstatus⟩
  have hnot : job.status ≠ .running := by
    rw [hcanceled]
    decide
  have hsame := ((hall c c' hreach hreach').1 firstJobID job job' hget hget' hnot).1
  rw [hcanceled, hstatus] at hsame
  cases hsame

end Handler
end Pgaio
