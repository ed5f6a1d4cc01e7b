import Pgaio.Handler.RepackExclusion
import Pgaio.Handler.RepackOrder

/-!
# RepackSlot — whose job is in the slot?

The end of a goroutine and the end of a cancel set `h.running` to nil, whatever job it holds by then.
A goroutine that ends late therefore takes the slot away from a newer job (`slot_taken`).

A job is unfinished business as long as some thread still works on it.  `installsAlone` says that a
request fills the slot only when there is no unfinished business.  Along such runs all unfinished
business is about one job, and the slot holds no other one (`OneJob`), so no step on behalf of a job
changes a slot that holds another one (`slot_owned`).
-/

namespace Pgaio
namespace Handler

open Service Concurrency Transition

/-! ## The job of a thread -/

/-- The job that an event makes the business of its thread. -/
def RepackEntry.gains (e : RepackEntry) (ev : RepackEvent) : Option JobID :=
  match e, ev with
  | .cancelRepack, ⟨.loadRunning, some job⟩ => some job.jobID
  | .run _, ⟨.setRunning _ _ jobID _, _⟩ => some jobID
  | _, _ => none

/-- The jobs on whose behalf a thread acts: the job of a goroutine, the job that a cancel has read as
the running one, the job that a request has put into the slot. -/
def RepackEntry.jobsOf (e : RepackEntry) (past : List RepackEvent) : List JobID :=
  match e with
  | .goroutine jobID _ => [jobID]
  | _ => past.filterMap e.gains

theorem mem_jobsOf_snoc {e : RepackEntry} {past : List RepackEvent} {ev : RepackEvent}
    {jobID : JobID} :
    jobID ∈ e.jobsOf (past ++ [ev]) ↔ jobID ∈ e.jobsOf past ∨ e.gains ev = some jobID := by
  cases e with
  | goroutine id cmd => simp [RepackEntry.jobsOf, RepackEntry.gains]
  | _ => simp [RepackEntry.jobsOf]

/-- A job becomes the business of a thread when it is found in the slot or put there. -/
theorem gains_cases {e : RepackEntry} {a : RepackAct} {r : a.Resp} {jobID : JobID}
    (h : e.gains ⟨a, r⟩ = some jobID) :
    (∃ job : RepackJob, (⟨a, r⟩ : RepackEvent) = ⟨.loadRunning, some job⟩ ∧ job.jobID = jobID) ∨
      ∃ table database cmd, a = .setRunning table database jobID cmd := by
  unfold RepackEntry.gains at h
  split at h
  · rename_i job heq
    exact Or.inl ⟨job, heq, Option.some.inj h⟩
  · rename_i heq
    cases heq
    cases h
    exact Or.inr ⟨_, _, _, rfl⟩
  · cases h

section

variable {h : RepackHandler}

/-- The thread acts, or has acted, on behalf of the job. -/
def ActsFor (t : Thread (repackSystem h)) (jobID : JobID) : Prop :=
  jobID ∈ t.entry.jobsOf t.past

/-- Some thread that has not finished acts on behalf of the job. -/
def Business (c : RepackConfig h) (jobID : JobID) : Prop :=
  ∃ t ∈ c.threads, t.finished = false ∧ ActsFor t jobID

def hasBusiness (t : Thread (repackSystem h)) : Bool :=
  !t.finished && !(t.entry.jobsOf t.past).isEmpty

/-- A request puts its job into the slot when no thread has unfinished business: the goroutines of
all earlier jobs have ended, every cancel that found a job has been answered, and every request that
filled the slot has started its goroutine. -/
def installsAlone (c : RepackConfig h) : Label RepackChoice RepackEnv RepackEntry → Bool
  | .step i _ =>
      match (c.threads[i]?).bind Thread.action? with
      | some (.setRunning _ _ _ _) => !c.threads.any hasBusiness
      | _ => true
  | _ => true

/-- All unfinished business is about one job, and the slot holds no other one. -/
structure OneJob (c : RepackConfig h) : Prop where
  same : ∀ jobID jobID', Business c jobID → Business c jobID' → jobID = jobID'
  slot : ∀ jobID, Business c jobID → ∀ job, c.world.running = some job → job.jobID = jobID

/-! ## Goroutines -/

/-- A request starts a goroutine for the job that it has put into the slot. -/
def RepackEntry.Launches (e : RepackEntry) (past : List RepackEvent) : RepackAct → Prop
  | .go e' => ∃ jobID cmd, e' = .goroutine jobID cmd ∧ jobID ∈ e.jobsOf past
  | _ => True

theorem reportRepack_launches {e : RepackEntry} {past : List RepackEvent} {jobID : JobID}
    {cmd : Nat} {output : String} {failed : Bool} :
    Program.wp e.Launches (fun _ _ => True) past (reportRepack jobID cmd output failed) := by
  unfold reportRepack
  cases failed with
  | true =>
      refine ⟨trivial, fun current => ?_⟩
      simp only [Program.done_bind]
      split
      · exact ⟨trivial, fun _ => trivial⟩
      · exact ⟨trivial, fun _ => ⟨trivial, fun _ => trivial⟩⟩
  | false => exact ⟨trivial, fun _ => ⟨trivial, fun _ => trivial⟩⟩

theorem run_launches (req : Option RunRequest) :
    Program.wp (RepackEntry.run req).Launches (fun _ _ => True) [] (run h req) := by
  cases req with
  | none => trivial
  | some req =>
      simp only [run]
      split
      · trivial
      · refine ⟨trivial, fun busy => ?_⟩
        cases busy with
        | true =>
            refine ⟨trivial, fun found => ?_⟩
            cases found with
            | none => trivial
            | some job =>
                refine ⟨trivial, fun found' => ?_⟩
                cases found' <;> trivial
        | false =>
            refine ⟨trivial, fun cmd => ⟨trivial, fun job => ⟨trivial, fun _ => ⟨?_, ?_⟩⟩⟩⟩
            · refine ⟨_, _, rfl, ?_⟩
              exact mem_jobsOf_snoc.2 (Or.inr rfl)
            · exact fun _ => trivial

theorem body_launches (e : RepackEntry) :
    Program.wp e.Launches (fun _ _ => True) [] (e.body h) := by
  cases e with
  | run req => exact run_launches req
  | cancelRepack =>
      refine ⟨trivial, fun found => ?_⟩
      cases found with
      | none => trivial
      | some job =>
          refine ⟨trivial, fun started => ?_⟩
          cases started with
          | false => exact ⟨trivial, fun _ => ⟨trivial, fun _ => trivial⟩⟩
          | true =>
              refine ⟨trivial, fun result => ?_⟩
              cases result with
              | error err => trivial
              | ok _ => exact ⟨trivial, fun _ => ⟨trivial, fun _ => trivial⟩⟩
  | goroutine jobID cmd =>
      refine ⟨trivial, fun _ => ⟨trivial, fun started => ?_⟩⟩
      cases started with
      | error err => exact reportRepack_launches
      | ok _ => exact ⟨trivial, fun _ => reportRepack_launches⟩

/-! ## The slot along a run -/

theorem business_of_acting {c : RepackConfig h} {t : Thread (repackSystem h)} {a : RepackAct}
    {next : a.Resp → RepackProgram (Option RepackResponse)} {jobID : JobID} (ht : t ∈ c.threads)
    (hrest : t.rest = .act a next) (hjob : ActsFor t jobID) : Business c jobID := by
  refine ⟨t, ht, ?_, hjob⟩
  simp [Thread.finished, Thread.action?_of_rest hrest]

theorem business_spawn {c : RepackConfig h} {e : RepackEntry} {jobID : JobID}
    (he : e.isRequest = true) (hbusiness : Business (c.spawn e) jobID) : Business c jobID := by
  rcases hbusiness with ⟨t, ht, hrunning, hjob⟩
  rcases List.mem_append.1 ht with hold | hnew
  · exact ⟨t, hold, hrunning, hjob⟩
  · -- A request has no business when it arrives.
    rw [List.mem_singleton.1 hnew] at hjob
    cases e with
    | goroutine id cmd => cases he
    | _ => cases hjob

/-- The business after a step was there before it, or the step found it in the slot or put it
there. -/
theorem business_resume {c : RepackConfig h} {i : Nat} {t : Thread (repackSystem h)} {a : RepackAct}
    {next : a.Resp → RepackProgram (Option RepackResponse)} {ch : RepackChoice} {r : a.Resp}
    {w : RepackWorld} {jobID : JobID} (ht : c.threads[i]? = some t) (hrest : t.rest = .act a next)
    (hexec : c.world.exec a ch = some (r, w))
    (hbusiness : Business (c.resume w i (t.advance hrest r) a.forks) jobID) :
    Business c jobID ∨
      (a = .loadRunning ∧ ∃ job, c.world.running = some job ∧ job.jobID = jobID) ∨
        ∃ table database cmd, a = .setRunning table database jobID cmd := by
  have hmem := List.mem_of_getElem? ht
  rcases hbusiness with ⟨u, hu, hrunning, hjob⟩
  rcases List.mem_iff_getElem?.1 hu with ⟨j, hj⟩
  rcases Config.getElem?_resume hj with ⟨_, rfl⟩ | ⟨_, hold⟩ | ⟨_, e', hfork, rfl⟩
  · rcases mem_jobsOf_snoc.1 hjob with hbefore | hgains
    · exact Or.inl (business_of_acting hmem hrest hbefore)
    · rcases gains_cases hgains with ⟨job, hev, hid⟩ | hset
      · cases hev
        rcases Prod.mk.inj (Option.some.inj hexec) with ⟨hslot, _⟩
        exact Or.inr (Or.inl ⟨rfl, job, hslot, hid⟩)
      · exact Or.inr (Or.inr hset)
  · exact Or.inl ⟨u, List.mem_of_getElem? hold, hrunning, hjob⟩
  · -- The goroutine is for the job of the request that starts it.
    have hlaunches := t.wp (body_launches t.entry)
    rw [hrest] at hlaunches
    cases a with
    | go e =>
        cases hfork
        rcases hlaunches.1 with ⟨id, cmd, rfl, hid⟩
        rw [ActsFor, Thread.start_entry] at hjob
        rw [List.mem_singleton.1 hjob]
        exact Or.inl (business_of_acting hmem hrest hid)
    | _ => cases hfork

theorem oneJob_initial {w : RepackWorld} : OneJob (Config.initial (repackSystem h) w) where
  same := by
    rintro _ _ ⟨t, ht, _⟩
    simp at ht
  slot := by
    rintro _ ⟨t, ht, _⟩
    simp at ht

section Act

variable {c : RepackConfig h} {i : Nat} {t : Thread (repackSystem h)} {a : RepackAct}
variable {next : a.Resp → RepackProgram (Option RepackResponse)} {ch : RepackChoice} {r : a.Resp}
variable {w : RepackWorld}

/-- After a request has filled the slot alone, all business is that of its job. -/
theorem business_of_installed {table database : String} {jobID id : JobID} {cmd : Nat}
    (hok : installsAlone c (.step i ch) = true) (ht : c.threads[i]? = some t)
    (ha : a = .setRunning table database jobID cmd) (hrest : t.rest = .act a next)
    (hexec : c.world.exec a ch = some (r, w))
    (hbusiness : Business (c.resume w i (t.advance hrest r) a.forks) id) : id = jobID := by
  rcases business_resume ht hrest hexec hbusiness with ⟨u, hu, hrunning, hid⟩ | ⟨hload, _⟩ |
    ⟨_, _, _, heq⟩
  · subst ha
    simp only [installsAlone, ht, Option.bind_some, Thread.action?_of_rest hrest,
      Bool.not_eq_true', List.any_eq_false] at hok
    refine absurd ?_ (hok u hu)
    have hne : u.entry.jobsOf u.past ≠ [] := List.ne_nil_of_mem hid
    simp [hasBusiness, hrunning, hne]
  · cases ha.symm.trans hload
  · cases ha.symm.trans heq
    rfl

theorem oneJob_act (hI : OneJob c) (hok : installsAlone c (.step i ch) = true)
    (ht : c.threads[i]? = some t) (hrest : t.rest = .act a next)
    (hexec : c.world.exec a ch = some (r, w)) :
    OneJob (c.resume w i (t.advance hrest r) a.forks) := by
  have hslot := RepackWorld.running_of_exec hexec
  by_cases hset : ∃ table database jobID cmd, a = .setRunning table database jobID cmd
  · rcases hset with ⟨table, database, jobID, cmd, ha⟩
    have honly : ∀ id, Business (c.resume w i (t.advance hrest r) a.forks) id → id = jobID :=
      fun id hid => business_of_installed hok ht ha hrest hexec hid
    refine ⟨fun id id' hid hid' => (honly id hid).trans (honly id' hid').symm, ?_⟩
    intro id hid job hjob
    rw [honly id hid]
    subst ha
    cases hexec
    cases hjob
    rfl
  · -- The slot keeps its job or is cleared, and what is found in it is its job.
    have hback : ∀ id, Business (c.resume w i (t.advance hrest r) a.forks) id →
        Business c id ∨ ∃ job, c.world.running = some job ∧ job.jobID = id := by
      intro id hbusiness
      rcases business_resume ht hrest hexec hbusiness with hold | ⟨_, hfound⟩ |
        ⟨table, database, cmd, heq⟩
      · exact Or.inl hold
      · exact Or.inr hfound
      · exact absurd ⟨table, database, id, cmd, heq⟩ hset
    constructor
    · intro id id' hid hid'
      rcases hback id hid with hold | ⟨job, hjob, rfl⟩
      · rcases hback id' hid' with hold' | ⟨job', hjob', rfl⟩
        · exact hI.same id id' hold hold'
        · exact (hI.slot id hold job' hjob').symm
      · rcases hback id' hid' with hold' | ⟨job', hjob', rfl⟩
        · exact hI.slot id' hold' job hjob
        · cases hjob.symm.trans hjob'
          rfl
    · intro id hid job hjob
      rcases hslot with hsame | ⟨owner, _, hnone⟩ | ⟨table, database, jobID, cmd, _, heq, _⟩
      · have hjob' : c.world.running = some job := hsame.symm.trans hjob
        rcases hback id hid with hold | ⟨found, hfound, rfl⟩
        · exact hI.slot id hold job hjob'
        · cases hjob'.symm.trans hfound
          rfl
      · cases hnone.symm.trans hjob
      · exact absurd ⟨table, database, jobID, cmd, heq⟩ hset

end Act

theorem oneJob_step {c c' : RepackConfig h} {l : Label RepackChoice RepackEnv RepackEntry}
    (hI : OneJob c) (hok : installsAlone c l = true) (hstep : c.step l = some c') : OneJob c' := by
  cases Config.moves_of_step hstep with
  | @arrive e he =>
      refine ⟨fun id id' hid hid' => ?_, fun id hid => ?_⟩
      · exact hI.same id id' (business_spawn he hid) (business_spawn he hid')
      · exact hI.slot id (business_spawn he hid)
  | @env x w hw =>
      -- An exit leaves the slot as it is.
      rcases RepackWorld.env_cases hw with ⟨cmd, old, ok, _, _, rfl⟩
      exact ⟨hI.same, hI.slot⟩
  | @act i ch t a next r w ht hrest hexec => exact oneJob_act hI hok ht hrest hexec

/-- A step on behalf of a job does not change the slot while it holds another job. -/
def SlotOwned (c : RepackConfig h) : Prop :=
  ∀ (i : Nat) (ch : RepackChoice) (t : Thread (repackSystem h)) (jobID : JobID) (job : RepackJob)
    (c' : RepackConfig h), c.threads[i]? = some t → ActsFor t jobID →
      c.world.running = some job → job.jobID ≠ jobID → c.step (.step i ch) = some c' →
        c'.world.running = c.world.running

theorem OneJob.slotOwned {c : RepackConfig h} (hI : OneJob c) : SlotOwned c := by
  intro i ch t jobID job c' ht hacts hslot hother hstep
  cases Config.moves_of_step hstep with
  | act hu hrest hexec =>
      cases ht.symm.trans hu
      have hbusiness := business_of_acting (List.mem_of_getElem? ht) hrest hacts
      exact absurd (hI.slot jobID hbusiness job hslot) hother

/-- In every run in which requests fill the slot alone, the slot is changed on behalf of the job that
it holds only. -/
theorem slot_owned (h : RepackHandler) (w : RepackWorld) (c : RepackConfig h)
    (hrun : Within Config.step (fun c l => installsAlone c l = true)
      (Config.initial (repackSystem h) w) c) : SlotOwned c := by
  have hI : OneJob c :=
    hrun.invariant (fun _ _ _ hI hok hstep => oneJob_step hI hok hstep) oneJob_initial
  exact hI.slotOwned

end

/-! ## Concrete runs -/

/-- The job in the slot has the given number. -/
def slotHolds (seq : Nat) (c : RepackConfig exampleHandler) : Bool :=
  c.world.running.any fun job => job.jobID.seq == seq

theorem slot_owned_oneAfterTheOther :
    ∃ c : RepackConfig exampleHandler, slotHolds 2 c = true ∧ SlotOwned c := by
  have hmeets : runMeets Config.step installsAlone
      (Config.initial (repackSystem exampleHandler) {}) oneAfterTheOther = true := by decide
  have hend : (Transition.run Config.step (Config.initial (repackSystem exampleHandler) {})
      oneAfterTheOther).any (slotHolds 2) = true := by decide
  rcases exists_within_of_run hmeets hend with ⟨c, hrun, hholds⟩
  exact ⟨c, hholds, slot_owned exampleHandler {} c hrun⟩

/-- The first job is cancelled and killed, the second one is started, then the first goroutine is
about to end. -/
def lateEnd : List (Label RepackChoice RepackEnv RepackEntry) :=
  .arrive exampleRequest :: List.replicate 5 (stepOf 0) ++ List.replicate 2 (stepOf 1) ++
    .arrive .cancelRepack :: List.replicate 5 (stepOf 2) ++
    .arrive exampleRequest :: List.replicate 5 (stepOf 3) ++
    [.env (.exit 0 false)] ++ List.replicate 2 (stepOf 1)

/-- The slot holds the second job, and the next step of the first goroutine clears it. -/
def aboutToTake (c : RepackConfig exampleHandler) : Bool :=
  slotHolds 2 c &&
    ((c.threads[1]?).any fun t =>
      t.entry == .goroutine { unix := Go.Time.unix 1, seq := 1 } 0) &&
    ((c.step (stepOf 1)).any fun c' => c'.world.running.isNone)

/-- A goroutine that ends late takes the slot away from a newer job. -/
theorem slot_taken :
    ¬ ∀ c : RepackConfig exampleHandler,
      Reach Config.step (Config.initial (repackSystem exampleHandler) {}) c → SlotOwned c := by
  intro hall
  have hend : (Transition.run Config.step (Config.initial (repackSystem exampleHandler) {})
      lateEnd).any aboutToTake = true := by decide
  rcases exists_reach_of_run hend with ⟨c, hreach, htest⟩
  simp only [aboutToTake, slotHolds, Bool.and_eq_true, Option.any_eq_true, beq_iff_eq] at htest
  rcases htest with ⟨⟨⟨job, hslot, hseq⟩, t, ht, hentry⟩, c', hstep, hnone⟩
  have hacts : ActsFor t { unix := Go.Time.unix 1, seq := 1 } := by
    rw [ActsFor, hentry]
    exact List.mem_singleton.2 rfl
  have hother : job.jobID ≠ { unix := Go.Time.unix 1, seq := 1 } := by
    intro heq
    rw [heq] at hseq
    cases hseq
  have hkept := hall c hreach 1 {} t _ job c' ht hacts hslot hother hstep
  rw [hslot] at hkept
  rw [hkept] at hnone
  cases hnone

end Handler
end Pgaio
