import Pgaio.Handler.FileJobSafety

/-!
# FileJobTruth — what is shown of a job is true

A job of an export, an import or a verification is shown as running exactly as long as some request or
goroutine has yet to end it; afterwards it is shown as that goroutine has ended it: as failed if one of its
actions had failed, and else as succeeded.
-/

namespace Pgaio
namespace Handler

open Go Service Concurrency Transition

variable {env : DbEnv} {c c' : FileConfig env} {l : Label FileChoice FileEnv FileEntry}

/-! ## One call -/

/-- Where the status of a stored job comes from. -/
inductive StatusFrom (s : JobStore) (call : JobCall) (id : JobID) (job : Job) : Prop where
  | same (before : Job) : s.get id = some before → (∀ status, endedJob? call ≠ some (id, status)) →
      job.jobType = before.jobType → job.status = before.status → StatusFrom s call id job
  | ended (before : Job) (status : JobStatus) : s.get id = some before →
      endedJob? call = some (id, status) → job.jobType = before.jobType → job.status = status →
        StatusFrom s call id job
  | started : endedJob? call = none → id.seq = s.seq + 1 → job.status = .running → StatusFrom s call id job

theorem statusFrom {s : JobStore} {log : List Job} {now : Time} {call : JobCall} {id : JobID} {job : Job}
    (h : s.Sound log) (hget : (call.exec s now).2.get id = some job) : StatusFrom s call id job := by
  rcases h.get_exec hget with ⟨hnone, hold⟩ | ⟨f, before, hchange, hold, rfl⟩ | ⟨_, _, _, _, _, rfl, rfl, hid⟩
  · refine .same job hold (fun status heq => ?_) rfl rfl
    cases call <;> cases heq <;> exact hnone _ rfl
  · cases call with
    | update jobID message details =>
        cases hchange
        exact .same before hold (fun status heq => by cases heq) rfl rfl
    | start jobType target database message metadata => cases hchange
    | get jobID => cases hchange
    | _ =>
        cases hchange
        exact .ended before _ hold rfl rfl rfl
  · refine .started rfl ?_ rfl
    rw [← hid]
    rfl

theorem ended_afterCall (b : Books) (call : JobCall) (r : call.Resp) :
    (b.afterCall call r).ended = b.ended ++ (endedJob? call).toList.map fun e => (e.1, e.2, b.failed) := by
  cases call <;> first | rfl | exact (List.append_nil _).symm

theorem ended_after {b : Books} {a : FileAct} (r : a.Resp) (hcall : ∀ call, a ≠ .jobs call) :
    (b.after a r).ended = b.ended := by
  cases a with
  | jobs call => exact absurd rfl (hcall call)
  | _ => first | rfl | (cases r <;> rfl)

/-- A job that is ended was to be ended by the caller, who knows whether something has failed. -/
theorem allowed_end {b : Books} {call : JobCall} {id : JobID} {status : JobStatus} (h : b.AllowsCall call)
    (hended : endedJob? call = some (id, status)) :
    id ∈ b.ids ∧ status = if b.failed then .failed else .succeeded := by
  cases call with
  | complete jobID message =>
      cases hended
      exact ⟨h.1, by simp [h.2]⟩
  | completeWithArtifact jobID message artifact =>
      cases hended
      exact ⟨h.1, by simp [h.2.1]⟩
  | fail jobID message details =>
      cases hended
      exact ⟨h.1, by simp [h.2]⟩
  | cancel jobID message => exact h.elim
  | start jobType target database message metadata => cases hended
  | update jobID message details => cases hended
  | get jobID => cases hended

/-- Other handlers end no job here. -/
theorem foreign_end {s : JobStore} {call : JobCall} {id : JobID} {status : JobStatus} {job : Job}
    (h : foreign s call = true) (hended : endedJob? call = some (id, status)) (hget : s.get id = some job) :
    isFileJob job = false := by
  have hother : (s.get id).all (fun job => !fileJobTypes.contains job.jobType) = true := by
    cases call with
    | completeWithArtifact jobID message artifact => cases h
    | complete jobID message =>
        cases hended
        exact h
    | fail jobID message details =>
        cases hended
        exact h
    | cancel jobID message =>
        cases hended
        exact h
    | start jobType target database message metadata => cases hended
    | update jobID message details => cases hended
    | get jobID => cases hended
  rw [hget] at hother
  simpa [isFileJob] using hother

/-! ## What the books and the store say -/

/-- The job was ended in this way, and is shown so as long as it is stored. -/
structure EndedAs (s : JobStore) (id : JobID) (status : JobStatus) (failed : Bool) : Prop where
  verdict : status = if failed then .failed else .succeeded
  given : id.seq ≤ s.seq
  shown : ∀ job, s.get id = some job → isFileJob job = true ∧ job.status = status

theorem EndedAs.not_running {s : JobStore} {id : JobID} {status : JobStatus} {failed : Bool}
    (h : EndedAs s id status failed) : status ≠ .running := by
  rw [h.verdict]
  cases failed <;> decide

/-- Some thread has ended the job in this way. -/
def EndedBy (c : FileConfig env) (id : JobID) (status : JobStatus) (failed : Bool) : Prop :=
  ∃ t ∈ c.threads, (id, status, failed) ∈ (books t.entry t.past).ended

structure Told (c : FileConfig env) : Prop where
  /-- What a thread has done to a job is what is shown. -/
  ended : ∀ id status failed, EndedBy c id status failed → EndedAs c.world.jobs id status failed
  /-- What is shown is what some thread has done. -/
  backed : ∀ id job, c.world.jobs.get id = some job → isFileJob job = true → job.status ≠ .running →
    ∃ failed, EndedBy c id job.status failed

/-- The job of a thread that has to end it is not ended yet. -/
theorem Accounted.unended (h : Accounted c) {t : Thread (fileSystem env)} (ht : t ∈ c.threads) {id : JobID}
    (hid : id ∈ (books t.entry t.past).ids) :
    id.seq ≤ c.world.jobs.seq ∧ ∀ job, c.world.jobs.get id = some job →
      isFileJob job = true ∧ job.status = .running ∧ job.artifact = none := by
  have hle : (jobsLedger env).owned t id + settledAt c.world id ≤ issued c.world id :=
    h.jobs.owned_le (x := id) ht
  have hpos : 0 < (jobsLedger env).owned t id := List.count_pos_iff.2 hid
  have hone : issued c.world id ≤ 1 := Bool.toNat_le _
  have hissued : issued c.world id = 1 := by omega
  have hsettled : settledAt c.world id = 0 := by omega
  simp only [issued, Bool.toNat_eq_one, Bool.and_eq_true, decide_eq_true_eq] at hissued
  refine ⟨hissued.1, fun job hget => ?_⟩
  have hkind := hissued.2
  simp only [settledAt, hget, Option.any_some, Option.all_some, isSettled] at hsettled hkind
  simp [hkind] at hsettled
  exact ⟨hkind, hsettled⟩

/-! ## Runs -/

/-- A call that does not end the job leaves what is shown of it. -/
theorem EndedAs.call {s : JobStore} {log : List Job} {call : JobCall} {id : JobID} {status : JobStatus}
    {failed : Bool} (h : EndedAs s id status failed) (hsound : s.Sound log) (now : Time)
    (hother : ∀ status job, endedJob? call = some (id, status) → s.get id = some job →
      isFileJob job = true → job.status = .running) : EndedAs (call.exec s now).2 id status failed := by
  refine ⟨h.verdict, Nat.le_trans h.given (hsound.seq_exec now call), fun job hget => ?_⟩
  cases statusFrom hsound hget with
  | same before hold _ htype hstatus =>
      obtain ⟨hkind, hshown⟩ := h.shown before hold
      exact ⟨by rw [isFileJob, htype]; exact hkind, hstatus.trans hshown⟩
  | ended before status' hold hended _ _ =>
      obtain ⟨hkind, hshown⟩ := h.shown before hold
      exact absurd (hshown.symm.trans (hother status' before hended hold hkind)) h.not_running
  | started _ hseq _ =>
      have hgiven := h.given
      omega

/-- The call that ends a job brings it about that this is shown. -/
theorem EndedAs.new {s : JobStore} {log : List Job} {b : Books} {call : JobCall} {id : JobID}
    {status : JobStatus} (hsound : s.Sound log) (now : Time) (hallows : b.AllowsCall call)
    (hended : endedJob? call = some (id, status))
    (hopen : id.seq ≤ s.seq ∧ ∀ job, s.get id = some job → isFileJob job = true) :
    EndedAs (call.exec s now).2 id status b.failed := by
  refine ⟨(allowed_end hallows hended).2, Nat.le_trans hopen.1 (hsound.seq_exec now call), fun job hget => ?_⟩
  cases statusFrom hsound hget with
  | same before _ hnot _ _ => exact absurd hended (hnot status)
  | ended before status' hold hended' htype hstatus =>
      rw [hended] at hended'
      cases hended'
      exact ⟨by rw [isFileJob, htype]; exact hopen.2 before hold, hstatus⟩
  | started hnone _ _ =>
      rw [hnone] at hended
      cases hended

theorem endedBy_spawn {e : FileEntry} {id : JobID} {status : JobStatus} {failed : Bool} :
    EndedBy (c.spawn e) id status failed ↔ EndedBy c id status failed := by
  constructor
  · rintro ⟨t, ht, hmem⟩
    rcases List.mem_append.1 ht with hold | hnew
    · exact ⟨t, hold, hmem⟩
    · rw [List.mem_singleton.1 hnew] at hmem
      cases hmem
  · rintro ⟨t, ht, hmem⟩
    exact ⟨t, List.mem_append_left _ ht, hmem⟩

/-- The jobs that a thread has ended after an action. -/
theorem mem_ended_after {b : Books} {a : FileAct} {r : a.Resp} {id : JobID} {status : JobStatus}
    {failed : Bool} :
    (id, status, failed) ∈ (b.after a r).ended ↔
      (id, status, failed) ∈ b.ended ∨
        ∃ call, a = .jobs call ∧ endedJob? call = some (id, status) ∧ failed = b.failed := by
  by_cases hcall : ∃ call, a = .jobs call
  · obtain ⟨call, rfl⟩ := hcall
    have hended : (b.after (.jobs call) r).ended = _ := ended_afterCall b call r
    rw [hended, List.mem_append]
    refine or_congr Iff.rfl ?_
    cases hend : endedJob? call with
    | none => simp [hend]
    | some e => simp [hend, Prod.ext_iff, eq_comm, and_assoc]
  · rw [ended_after r fun call ha => hcall ⟨call, ha⟩]
    constructor
    · exact .inl
    · rintro (hold | ⟨call, ha, _⟩)
      · exact hold
      · exact absurd ⟨call, ha⟩ hcall

theorem endedBy_resume {i : Nat} {t : Thread (fileSystem env)} {a : FileAct}
    {next : a.Resp → FileProgram FileResult} {r : a.Resp} {w : FileWorld} {e : Option FileEntry} {id : JobID}
    {status : JobStatus} {failed : Bool} (ht : c.threads[i]? = some t) (hrest : t.rest = .act a next) :
    EndedBy (c.resume w i (t.advance hrest r) e) id status failed ↔
      EndedBy c id status failed ∨
        ∃ call, a = .jobs call ∧ endedJob? call = some (id, status) ∧
          failed = (books t.entry t.past).failed := by
  have hself := Config.resume_getElem?_self (w := w) (t := t.advance hrest r) (e := e) ht
  constructor
  · rintro ⟨u, hu, hmem⟩
    obtain ⟨j, hj⟩ := List.mem_iff_getElem?.1 hu
    -- The thread that acted, another one, or the one that it has started.
    rcases Config.getElem?_resume hj with ⟨_, rfl⟩ | ⟨_, hold⟩ | ⟨_, e', _, rfl⟩
    · rw [Thread.advance_entry, Thread.advance_past, books_snoc, mem_ended_after] at hmem
      exact hmem.imp (fun hold => ⟨t, List.mem_of_getElem? ht, hold⟩) fun hnew => hnew
    · exact .inl ⟨u, List.mem_of_getElem? hold, hmem⟩
    · cases hmem
  · have hgrows (hmem : (id, status, failed) ∈ ((books t.entry t.past).after a r).ended) :
        EndedBy (c.resume w i (t.advance hrest r) e) id status failed := by
      refine ⟨_, List.mem_of_getElem? hself, ?_⟩
      rw [Thread.advance_entry, Thread.advance_past, books_snoc]
      exact hmem
    rintro (⟨u, hu, hmem⟩ | hnew)
    · obtain ⟨j, hj⟩ := List.mem_iff_getElem?.1 hu
      by_cases hji : j = i
      · subst hji
        cases ht.symm.trans hj
        exact hgrows (mem_ended_after.2 (.inl hmem))
      · exact ⟨u, List.mem_of_getElem? (Config.resume_getElem?_ne hji hj), hmem⟩
    · exact hgrows (mem_ended_after.2 (.inr hnew))

/-- A call of a thread. -/
theorem Told.call (h : Told c) (hbooks : Accounted c) {i : Nat} {ch : FileChoice} {t : Thread (fileSystem env)}
    {call : JobCall} {next : call.Resp → FileProgram FileResult} {w : FileWorld} {r : call.Resp}
    {e : Option FileEntry} (ht : c.threads[i]? = some t) (hrest : t.rest = .act (.jobs call) next)
    (hjobs : w.jobs = (call.exec c.world.jobs ch.now).2) :
    Told (c.resume w i (t.advance hrest r) e) := by
  obtain ⟨log, hsound⟩ := hbooks.sound
  have hallows : (books t.entry t.past).AllowsCall call := allows_of_rest hrest
  have hopen {id : JobID} {status : JobStatus} (hended : endedJob? call = some (id, status)) :=
    hbooks.unended (List.mem_of_getElem? ht) (allowed_end hallows hended).1
  constructor
  · intro id status failed hby
    rw [Config.resume_world, hjobs]
    rcases (endedBy_resume ht hrest).1 hby with hold | ⟨call', hcall, hended, rfl⟩
    · refine (h.ended id status failed hold).call hsound _ fun status' job hended hget _ => ?_
      exact ((hopen hended).2 job hget).2.1
    · cases hcall
      have hrunning := hopen hended
      exact EndedAs.new hsound _ hallows hended ⟨hrunning.1, fun job hget => (hrunning.2 job hget).1⟩
  · intro id job hget hkind hstatus
    rw [Config.resume_world, hjobs] at hget
    cases statusFrom hsound hget with
    | same before hold _ htype hsame =>
        rw [isFileJob, htype] at hkind
        rw [hsame] at hstatus ⊢
        obtain ⟨failed, hby⟩ := h.backed id before hold hkind hstatus
        exact ⟨failed, (endedBy_resume ht hrest).2 (.inl hby)⟩
    | ended before status' hold hended _ hnow =>
        exact ⟨_, (endedBy_resume ht hrest).2 (.inr ⟨call, rfl, hnow ▸ hended, rfl⟩)⟩
    | started _ _ hrunning => exact absurd hrunning hstatus

/-- A call of another handler. -/
theorem Told.foreign (h : Told c) (hbooks : Accounted c) {call : JobCall} {now : Time} {w : FileWorld}
    (hforeign : foreign c.world.jobs call = true) (hjobs : w.jobs = (call.exec c.world.jobs now).2) :
    Told { c with world := w } := by
  obtain ⟨log, hsound⟩ := hbooks.sound
  constructor
  · intro id status failed hby
    show EndedAs w.jobs id status failed
    rw [hjobs]
    refine (h.ended id status failed hby).call hsound _ fun status' job hended hget hkind => ?_
    rw [foreign_end hforeign hended hget] at hkind
    cases hkind
  · intro id job hget hkind hstatus
    change w.jobs.get id = some job at hget
    rw [hjobs] at hget
    cases statusFrom hsound hget with
    | same before hold _ htype hsame =>
        rw [isFileJob, htype] at hkind
        rw [hsame] at hstatus ⊢
        exact h.backed id before hold hkind hstatus
    | ended before status' hold hended htype _ =>
        rw [isFileJob, htype] at hkind
        exact absurd hkind (by simpa [isFileJob] using foreign_end hforeign hended hold)
    | started _ _ hrunning => exact absurd hrunning hstatus

theorem Told.step (h : Told c) (hbooks : Accounted c) (hstep : c.step l = some c') : Told c' := by
  cases Config.moves_of_step hstep with
  | @arrive e he =>
      refine ⟨fun id status failed hby => h.ended id status failed (endedBy_spawn.1 hby), ?_⟩
      intro id job hget hkind hstatus
      obtain ⟨failed, hby⟩ := h.backed id job hget hkind hstatus
      exact ⟨failed, endedBy_spawn.2 hby⟩
  | @env y w hw =>
      obtain ⟨hforeign, rfl⟩ := envStep_cases hw
      exact h.foreign hbooks hforeign rfl
  | @act i ch t a next r w ht hrest hexec =>
      by_cases hcall : ∃ call, a = .jobs call
      · obtain ⟨call, rfl⟩ := hcall
        obtain ⟨rfl, rfl⟩ := Prod.mk.inj (Option.some.inj hexec)
        exact h.call hbooks ht hrest rfl
      · -- Neither the store nor what the threads have ended changes.
        have hjobs : w.jobs = c.world.jobs :=
          jobs_exec (i := i) (fun call ha => hcall ⟨call, ha⟩) hexec
        constructor
        · intro id status failed hby
          rw [Config.resume_world, hjobs]
          rcases (endedBy_resume ht hrest).1 hby with hold | ⟨call, ha, _⟩
          · exact h.ended id status failed hold
          · exact absurd ⟨call, ha⟩ hcall
        · intro id job hget hkind hstatus
          rw [Config.resume_world, hjobs] at hget
          obtain ⟨failed, hby⟩ := h.backed id job hget hkind hstatus
          exact ⟨failed, (endedBy_resume ht hrest).2 (.inl hby)⟩

theorem told_start : Told (fileStart env) where
  ended := by
    rintro id status failed ⟨t, ht, -⟩
    cases ht
  backed id job hget := by cases hget

theorem told_of_reach (h : Reach Config.step (fileStart env) c) : Told c := by
  have hboth : Accounted c ∧ Told c := by
    refine h.invariant (I := fun c => Accounted c ∧ Told c) ?_ ⟨accounted_start, told_start⟩
    rintro c l c' ⟨hbooks, htold⟩ _ hstep
    exact ⟨hbooks.step hstep, htold.step hbooks hstep⟩
  exact hboth.2

/-- A thread that has to end a job has not returned. -/
theorem unfinished_of_ids {t : Thread (fileSystem env)} {id : JobID} (hid : id ∈ (books t.entry t.past).ids) :
    t.finished = false := by
  by_contra hfinished
  obtain ⟨x, hrest⟩ := Thread.finished_iff.1 (eq_true_of_ne_false hfinished)
  have hend := Thread.post_of_finished (fileBody_safe env t.entry) hrest
  have hnone : (books t.entry t.past).ids = [] := hend.1.ids
  rw [hnone] at hid
  cases hid

/-- In every run: a job that is shown as running has a thread that has yet to end it; every other one was
ended by a thread, as failed exactly if an action of that thread had failed, and nobody will end it again. -/
theorem file_jobs_truthful (h : Reach Config.step (fileStart env) c) {id : JobID} {job : Job}
    (hget : c.world.jobs.get id = some job) (hkind : isFileJob job = true) :
    if job.status = .running then
      ∃ t ∈ c.threads, t.finished = false ∧ id ∈ (books t.entry t.past).ids
    else
      (∃ t ∈ c.threads, ∃ failed, (id, job.status, failed) ∈ (books t.entry t.past).ended ∧
        job.status = if failed then .failed else .succeeded) ∧
      ∀ t ∈ c.threads, id ∉ (books t.entry t.past).ids := by
  have hbooks := accounted_of_within h
  have htold := told_of_reach h
  split
  · rename_i hrunning
    have hsupply : 0 < (runningLedger env).supply c.world id := by
      show 0 < runningAt c.world id
      simp [runningAt, hget, hkind, hrunning]
    rcases hbooks.running.owner hsupply with ⟨t, ht, howned⟩ | hnone
    · have hid : id ∈ (books t.entry t.past).ids := List.count_pos_iff.1 howned
      exact ⟨t, ht, unfinished_of_ids hid, hid⟩
    · cases hnone
  · rename_i hstatus
    obtain ⟨failed, hby⟩ := htold.backed id job hget hkind hstatus
    have hverdict := (htold.ended id job.status failed hby).verdict
    obtain ⟨t, ht, hmem⟩ := hby
    refine ⟨⟨t, ht, failed, hmem, hverdict⟩, fun u hu hid => ?_⟩
    exact hstatus ((hbooks.unended hu hid).2 job hget).2.1

/-- An import whose file `psql` refuses. -/
def refusedImport : List (Label FileChoice FileEnv FileEntry) :=
  [.arrive (.importDatabase (.ok { file := some ⟨"dump.sql", "SELECT"⟩ })), .step 0 { random := "7" },
    .step 0 {}, .step 0 {}, .step 0 {}, .step 1 {}, .step 1 { ok := false, output := "exit status 3" },
    .step 1 {}]

theorem file_jobs_truthful_refused :
    ∃ c : FileConfig {}, ∃ id job, c.world.jobs.get id = some job ∧ job.status = .failed ∧
      ∃ t ∈ c.threads, (id, JobStatus.failed, true) ∈ (books t.entry t.past).ended := by
  have hend : (Transition.run Config.step (fileStart {}) refusedImport).any (fun c =>
      (c.world.jobs.get ⟨Time.unix 1, 1⟩).any fun job => isFileJob job && job.status = .failed) = true := by
    decide
  obtain ⟨c, hreach, htest⟩ := exists_reach_of_run hend
  obtain ⟨job, hget, hjob⟩ := (Option.any_eq_true _ _).1 htest
  obtain ⟨hkind, hstatus⟩ := Bool.and_eq_true_iff.1 hjob
  have hfailed : job.status = .failed := of_decide_eq_true hstatus
  have htruth := file_jobs_truthful hreach hget hkind
  rw [if_neg (by simp [hfailed])] at htruth
  obtain ⟨⟨t, ht, failed, hmem, hverdict⟩, -⟩ := htruth
  refine ⟨c, _, job, hget, hfailed, t, ht, ?_⟩
  cases failed with
  | true => exact hfailed ▸ hmem
  | false =>
      rw [hfailed] at hverdict
      cases hverdict

end Handler
end Pgaio
