import Pgaio.Handler.Repack

/-!
# RepackExclusion — when is at most one pg_repack alive?

`Run` looks at `h.running` in one critical section and assigns it in another, and `h.running` is
set to nil by cancels and by goroutines that end late.  So two requests can both find the slot
empty (`two_alive`).

`slotRespected` says what a step must not do for the slot to protect the process: assign `h.running`,
be it to a new job or to nil, while the job it holds has not ended.  Along runs that respect the
slot, every installed command whose process has not ended is the one in the slot (`SlotInv`), and
therefore at most one process is alive.
-/

namespace Pgaio
namespace Handler

open Service Concurrency Transition

abbrev RepackConfig (h : RepackHandler) := Config (repackSystem h)

/-! ## What one action does to a command -/

namespace RepackWorld

variable {w w' : RepackWorld} {k : Nat}

theorem cmdState_setCmdState {cmd : Nat} {st : ProcState} :
    (w.setCmdState cmd st).cmdState k =
      if cmd = k then (w.cmdState k).map fun _ => st else w.cmdState k := by
  unfold setCmdState cmdState
  rw [List.getElem?_modify]
  by_cases h : cmd = k
  · subst h
    cases w.cmds[cmd]? <;> simp
  · cases w.cmds[k]? <;> simp [h]

theorem alive_setCmdState {cmd : Nat} {st : ProcState}
    (h : (w.setCmdState cmd st).alive k = true) :
    w.alive k = true ∨ (cmd = k ∧ st.isAlive = true) := by
  unfold alive at h ⊢
  rw [cmdState_setCmdState] at h
  by_cases hk : cmd = k
  · rw [if_pos hk] at h
    cases hst : w.cmdState k with
    | none => simp [hst] at h
    | some old =>
        simp only [hst, Option.map_some, Option.any_some] at h
        exact Or.inr ⟨hk, h⟩
  · rw [if_neg hk] at h
    exact Or.inl h

theorem over_setCmdState {cmd : Nat} {old st : ProcState} (hold : w.cmdState cmd = some old)
    (hover : old.isOver = true → st.isOver = true) (h : w.cmdOver k = true) :
    (w.setCmdState cmd st).cmdOver k = true := by
  unfold cmdOver at h ⊢
  rw [cmdState_setCmdState]
  by_cases hk : cmd = k
  · subst hk
    rw [hold] at h
    simpa [hold] using hover (by simpa using h)
  · simpa [hk] using h

/-- What an action can do to the state of a command. -/
inductive ProcStep (k : Nat) : RepackAct → Option ProcState → Option ProcState → Prop where
  | keep {a : RepackAct} {st : Option ProcState} : ProcStep k a st st
  | create {args : List String} : ProcStep k (.command args) none (some .created)
  | start : ProcStep k (.cmdStart k) (some .created) (some .alive)
  | fail : ProcStep k (.cmdStart k) (some .created) (some .failed)
  | kill : ProcStep k (.kill k) (some .alive) (some .killed)
  | wait {ok : Bool} : ProcStep k (.cmdWait k) (some (.exited ok)) (some (.reaped ok))

theorem procStep_setCmdState {cmd : Nat} {old st : ProcState} {a : RepackAct}
    (hold : w.cmdState cmd = some old) (h : cmd = k → ProcStep k a (some old) (some st)) :
    ProcStep k a (w.cmdState k) ((w.setCmdState cmd st).cmdState k) := by
  rw [cmdState_setCmdState]
  by_cases hk : cmd = k
  · subst hk
    simpa [hold] using h rfl
  · rw [if_neg hk]
    exact .keep

theorem procStep_append {args : List String} :
    ProcStep k (.command args) (w.cmdState k)
      (({ w with cmds := w.cmds ++ [{ args := args, state := .created }] } :
        RepackWorld).cmdState k) := by
  unfold cmdState
  rcases Nat.lt_trichotomy k w.cmds.length with hlt | rfl | hgt
  · rw [List.getElem?_append_left hlt]
    exact .keep
  · simpa using .create
  · have hlength : (w.cmds ++ [({ args := args, state := .created } : Cmd)]).length ≤ k := by
      rw [List.length_append]
      exact hgt
    rw [List.getElem?_eq_none (Nat.le_of_lt hgt), List.getElem?_eq_none hlength]
    exact .keep

theorem procStep_of_exec {a : RepackAct} {ch : RepackChoice} {r : a.Resp}
    (hexec : w.exec a ch = some (r, w')) : ProcStep k a (w.cmdState k) (w'.cmdState k) := by
  -- Only these four actions concern the process of a command.
  cases a with
  | command args =>
      simp only [exec, Option.some.injEq, Prod.mk.injEq] at hexec
      rcases hexec with ⟨_, rfl⟩
      exact procStep_append
  | kill cmd =>
      simp only [exec] at hexec
      split at hexec
      · rename_i hst
        cases hexec
        exact procStep_setCmdState hst fun hk => hk ▸ .kill
      · cases hexec
        exact .keep
      · cases hexec
        exact .keep
      · cases hexec
        exact .keep
      · cases hexec
  | cmdStart cmd =>
      simp only [exec] at hexec
      split at hexec
      · rename_i hst
        split at hexec
        · cases hexec
          exact procStep_setCmdState hst fun hk => hk ▸ .start
        · cases hexec
          exact procStep_setCmdState hst fun hk => hk ▸ .fail
      · cases hexec
  | cmdWait cmd =>
      simp only [exec] at hexec
      split at hexec
      · rename_i hst
        cases hexec
        exact procStep_setCmdState hst fun hk => hk ▸ .wait
      · cases hexec
  | _ =>
      cases hexec
      exact .keep

/-- A process comes to life by its own start only. -/
theorem alive_of_exec {a : RepackAct} {ch : RepackChoice} {r : a.Resp}
    (hexec : w.exec a ch = some (r, w')) (h : w'.alive k = true) :
    w.alive k = true ∨ a = .cmdStart k := by
  have hstep := procStep_of_exec (k := k) hexec
  unfold alive at h ⊢
  -- Only the states before and after matter, so they are taken apart by what the step does.
  generalize w.cmdState k = before, w'.cmdState k = after at h hstep ⊢
  cases hstep with
  | keep => exact Or.inl h
  | create => cases h
  | start => exact Or.inr rfl
  | fail => cases h
  | kill => exact Or.inl rfl
  | wait => cases h

/-- An ended process stays ended. -/
theorem over_of_exec {a : RepackAct} {ch : RepackChoice} {r : a.Resp}
    (hexec : w.exec a ch = some (r, w')) (h : w.cmdOver k = true) : w'.cmdOver k = true := by
  have hstep := procStep_of_exec (k := k) hexec
  unfold cmdOver at h ⊢
  generalize w.cmdState k = before, w'.cmdState k = after at h hstep ⊢
  cases hstep with
  | keep => exact h
  | wait => rfl
  | _ => cases h

theorem env_cases {x : RepackEnv} (hstep : w.envStep x = some w') :
    ∃ cmd old ok, w.cmdState cmd = some old ∧ old.isOver = false ∧
      w' = w.setCmdState cmd (.exited ok) := by
  cases x with
  | exit cmd ok =>
      simp only [envStep] at hstep
      split at hstep
      · rename_i hst
        cases hstep
        exact ⟨cmd, _, ok, hst, rfl, rfl⟩
      · rename_i hst
        cases hstep
        exact ⟨cmd, _, false, hst, rfl, rfl⟩
      · cases hstep

/-- The slot changes in its two critical sections only. -/
theorem running_of_exec {a : RepackAct} {ch : RepackChoice} {r : a.Resp}
    (hexec : w.exec a ch = some (r, w')) :
    w'.running = w.running ∨ (∃ owner, a = .clearRunning owner ∧ w'.running = none) ∨
      ∃ table database jobID cmd job, a = .setRunning table database jobID cmd ∧
        w'.running = some job ∧ job.jobID = jobID ∧ job.cmd = cmd := by
  cases a with
  | setRunning table database jobID cmd =>
      cases hexec
      exact Or.inr (Or.inr ⟨table, database, jobID, cmd, _, rfl, rfl, rfl, rfl⟩)
  | clearRunning owner =>
      cases hexec
      exact Or.inr (Or.inl ⟨owner, rfl, rfl⟩)
  | kill cmd =>
      -- The process changes, and the slot does not.
      left
      simp only [exec] at hexec
      split at hexec <;> cases hexec <;> rfl
  | cmdStart cmd =>
      left
      simp only [exec] at hexec
      split at hexec
      · split at hexec <;> cases hexec <;> rfl
      · cases hexec
  | cmdWait cmd =>
      left
      simp only [exec] at hexec
      split at hexec <;> cases hexec
      rfl
  | _ =>
      cases hexec
      exact Or.inl rfl

end RepackWorld

/-! ## What the programs guarantee -/

/-- The command that an action puts into the slot. -/
def RepackAct.installs : RepackAct → Option Nat
  | .setRunning _ _ _ cmd => some cmd
  | _ => none

def HasInstalled (past : List (Event RepackAct RepackAct.Resp)) (cmd : Nat) : Prop :=
  ∃ e ∈ past, e.act.installs = some cmd

/-- A goroutine is started for an installed command, and only that goroutine starts the process. -/
def RepackEntry.Allows (e : RepackEntry) (past : List (Event RepackAct RepackAct.Resp)) :
    RepackAct → Prop
  | .go (.goroutine _ cmd) => HasInstalled past cmd
  | .cmdStart cmd => ∃ jobID, e = .goroutine jobID cmd
  | _ => True

theorem reportRepack_wp {e : RepackEntry} {past : List (Event RepackAct RepackAct.Resp)}
    {jobID : JobID} {cmd : Nat} {output : String} {failed : Bool} :
    Program.wp e.Allows (fun _ _ => True) past (reportRepack jobID cmd output failed) := by
  unfold reportRepack
  cases failed with
  | true =>
      refine ⟨trivial, ?_⟩
      intro current
      simp only [Program.done_bind]
      -- A cancelled job is not failed on top of it.
      split
      · exact ⟨trivial, fun _ => trivial⟩
      · exact ⟨trivial, fun _ => ⟨trivial, fun _ => trivial⟩⟩
  | false => exact ⟨trivial, fun _ => ⟨trivial, fun _ => trivial⟩⟩

theorem body_wp (h : RepackHandler) (e : RepackEntry) :
    Program.wp e.Allows (fun _ _ => True) [] (e.body h) := by
  cases e with
  | run req =>
      cases req with
      | none => trivial
      | some req =>
          simp only [RepackEntry.body, run]
          split
          · trivial
          · refine ⟨trivial, ?_⟩
            intro busy
            cases busy with
            | true =>
                -- The slot is looked at twice more for the text of the refusal.
                refine ⟨trivial, ?_⟩
                intro job
                cases job with
                | none => trivial
                | some job =>
                    refine ⟨trivial, ?_⟩
                    intro job'
                    cases job' <;> trivial
            | false =>
                refine ⟨trivial, fun cmd => ⟨trivial, fun job => ⟨trivial, fun _ => ⟨?_, ?_⟩⟩⟩⟩
                · exact ⟨_, List.mem_append_right _ (List.mem_singleton.2 rfl), rfl⟩
                · intro _
                  trivial
  | cancelRepack =>
      refine ⟨trivial, ?_⟩
      intro job
      cases job with
      | none => trivial
      | some job =>
          refine ⟨trivial, ?_⟩
          intro started
          cases started with
          | true =>
              refine ⟨trivial, ?_⟩
              intro result
              cases result with
              | error err => trivial
              | ok _ => exact ⟨trivial, fun _ => ⟨trivial, fun _ => trivial⟩⟩
          | false => exact ⟨trivial, fun _ => ⟨trivial, fun _ => trivial⟩⟩
  | goroutine jobID cmd =>
      refine ⟨trivial, ?_⟩
      intro _
      refine ⟨⟨jobID, rfl⟩, ?_⟩
      intro started
      cases started with
      | error err => exact reportRepack_wp
      | ok _ => exact ⟨trivial, fun _ => reportRepack_wp⟩

section

variable {h : RepackHandler}

theorem allows_next {t : Thread (repackSystem h)} {a : RepackAct}
    {next : a.Resp → RepackProgram (Option RepackResponse)} (hrest : t.rest = .act a next) :
    t.entry.Allows t.past a := by
  have hwp := t.wp (body_wp h t.entry)
  rw [hrest] at hwp
  exact hwp.1

/-! ## The slot invariant -/

/-- Some request has put the command into the slot. -/
def Installed (c : RepackConfig h) (cmd : Nat) : Prop :=
  ∃ t ∈ c.threads, HasInstalled t.past cmd

/-- The slot is free to be assigned: it is nil, or the process of its job has ended. -/
def slotFree (w : RepackWorld) : Bool :=
  w.running.all fun job => w.cmdOver job.cmd

/-- The next step of a thread assigns `h.running` only when the slot is free. -/
def slotRespected (c : RepackConfig h) : Label RepackChoice RepackEnv RepackEntry → Bool
  | .step i _ =>
      match (c.threads[i]?).bind Thread.action? with
      | some (.setRunning _ _ _ _) => slotFree c.world
      | some (.clearRunning _) => slotFree c.world
      | _ => true
  | _ => true

structure SlotInv (c : RepackConfig h) : Prop where
  installed_of_goroutine : ∀ t ∈ c.threads, ∀ jobID cmd, t.entry = .goroutine jobID cmd →
    Installed c cmd
  installed_of_alive : ∀ cmd, c.world.alive cmd = true → Installed c cmd
  holds_slot : ∀ cmd, Installed c cmd → c.world.cmdOver cmd = false →
    ∃ job, c.world.running = some job ∧ job.cmd = cmd

theorem slotInv_initial {w : RepackWorld} (hw : ∀ cmd, w.alive cmd = false) :
    SlotInv (Config.initial (repackSystem h) w) where
  installed_of_goroutine := by
    intro t ht
    simp at ht
  installed_of_alive := by
    intro cmd hcmd
    rw [Config.initial_world, hw cmd] at hcmd
    cases hcmd
  holds_slot := by
    rintro cmd ⟨t, ht, _⟩
    simp at ht

theorem installed_iff {c : RepackConfig h} {cmd : Nat} :
    Installed c cmd ↔ c.happened (fun ev => decide (ev.act.installs = some cmd)) = true := by
  simp [Installed, HasInstalled, Config.happened_iff]

/-- What was installed stays installed, and a step installs what its action puts into the slot. -/
theorem installed_resume {c : RepackConfig h} {i : Nat} {t : Thread (repackSystem h)}
    {a : RepackAct} {next : a.Resp → RepackProgram (Option RepackResponse)}
    {r : a.Resp} {w : RepackWorld} {e : Option RepackEntry} {cmd : Nat}
    (ht : c.threads[i]? = some t) (hrest : t.rest = .act a next) :
    Installed (c.resume w i (t.advance hrest r) e) cmd ↔
      Installed c cmd ∨ a.installs = some cmd := by
  simp only [installed_iff, Config.happened_resume ht hrest, decide_eq_true_eq]

theorem installed_spawn {c : RepackConfig h} {e : RepackEntry} {cmd : Nat} :
    Installed (c.spawn e) cmd ↔ Installed c cmd := by
  simp only [installed_iff, Config.happened_spawn]

/-- A command that is not over in the new world was not over in the old one. -/
theorem not_over_before {w w' : RepackWorld} {cmd : Nat}
    (hmono : w.cmdOver cmd = true → w'.cmdOver cmd = true) (h : w'.cmdOver cmd = false) :
    w.cmdOver cmd = false := by
  cases hw : w.cmdOver cmd with
  | false => rfl
  | true =>
      rw [hmono hw] at h
      cases h

theorem not_installed_of_slotFree {c : RepackConfig h} {cmd : Nat} (hI : SlotInv c)
    (hfree : slotFree c.world = true) (hover : c.world.cmdOver cmd = false) : ¬ Installed c cmd := by
  intro hinst
  rcases hI.holds_slot cmd hinst hover with ⟨job, hrun, rfl⟩
  simp only [slotFree, hrun, Option.all_some] at hfree
  rw [hfree] at hover
  cases hover

theorem slotInv_step {c c' : RepackConfig h} {l : Label RepackChoice RepackEnv RepackEntry}
    (hI : SlotInv c) (hok : slotRespected c l = true) (hstep : c.step l = some c') :
    SlotInv c' := by
  cases Config.moves_of_step hstep with
  | @arrive e he =>
      refine ⟨?_, ?_, ?_⟩
      · intro t ht jobID cmd hentry
        rw [installed_spawn]
        rcases List.mem_append.1 ht with hold | hnew
        · exact hI.installed_of_goroutine t hold jobID cmd hentry
        · have heq := List.mem_singleton.1 hnew
          subst heq
          rw [Thread.start_entry] at hentry
          subst hentry
          cases he
      · intro cmd hcmd
        rw [installed_spawn]
        exact hI.installed_of_alive cmd hcmd
      · intro cmd hcmd hover
        exact hI.holds_slot cmd (installed_spawn.1 hcmd) hover
  | @env x w hw =>
      rcases RepackWorld.env_cases hw with ⟨cmd₀, old, ok, hst, hold, rfl⟩
      -- A process that exits comes to no life, and it stays over.
      refine ⟨hI.installed_of_goroutine, ?_, ?_⟩
      · intro cmd hcmd
        rcases RepackWorld.alive_setCmdState hcmd with hbefore | ⟨_, hst'⟩
        · exact hI.installed_of_alive cmd hbefore
        · cases hst'
      · intro cmd hcmd hover
        refine hI.holds_slot cmd hcmd (not_over_before ?_ hover)
        exact RepackWorld.over_setCmdState hst (by simp [hold])
  | @act i ch t a next r w ht hrest hexec =>
      have hexec' : c.world.exec a ch = some (r, w) := hexec
      have hallows := allows_next hrest
      have haction : (c.threads[i]?).bind Thread.action? = some a := by
        rw [ht]
        exact Thread.action?_of_rest hrest
      refine ⟨?_, ?_, ?_⟩
      · intro u hu jobID cmd hentry
        rw [installed_resume ht hrest]
        left
        rcases List.mem_iff_getElem?.1 hu with ⟨j, hj⟩
        rcases Config.getElem?_resume hj with ⟨_, rfl⟩ | ⟨_, hold⟩ | ⟨_, e', he', rfl⟩
        · exact hI.installed_of_goroutine t (List.mem_of_getElem? ht) jobID cmd hentry
        · exact hI.installed_of_goroutine u (List.mem_of_getElem? hold) jobID cmd hentry
        · -- The goroutine has just been started by a request that installed its command.
          rw [Thread.start_entry] at hentry
          subst hentry
          cases a with
          | go e =>
              cases he'
              exact ⟨t, List.mem_of_getElem? ht, hallows⟩
          | _ => cases he'
      · intro cmd hcmd
        rw [installed_resume ht hrest]
        left
        rcases RepackWorld.alive_of_exec hexec' hcmd with hbefore | rfl
        · exact hI.installed_of_alive cmd hbefore
        · -- Only the goroutine of an installed command starts it.
          rcases hallows with ⟨jobID, hentry⟩
          exact hI.installed_of_goroutine t (List.mem_of_getElem? ht) jobID cmd hentry
      · intro cmd hcmd hover
        rw [installed_resume ht hrest] at hcmd
        have hbefore : c.world.cmdOver cmd = false :=
          not_over_before (RepackWorld.over_of_exec hexec') hover
        rcases RepackWorld.running_of_exec hexec' with hsame | ⟨owner, rfl, _⟩ |
          ⟨table, database, jobID, cmd', job, rfl, hset, _, hjob⟩
        · rw [Config.resume_world, hsame]
          rcases hcmd with hold | hinst
          · exact hI.holds_slot cmd hold hbefore
          · -- An installing action changes the slot, so this case is the one above.
            cases a with
            | setRunning table database jobID cmd' =>
                cases hexec'
                cases hinst
                exact ⟨_, hsame.symm, rfl⟩
            | _ => cases hinst
        · -- The slot is cleared: no installed command can still be running.
          simp only [slotRespected, haction] at hok
          rcases hcmd with hold | hinst
          · exact absurd hold (not_installed_of_slotFree hI hok hbefore)
          · cases hinst
        · -- The slot is taken over: no other installed command can still be running.
          simp only [slotRespected, haction] at hok
          refine ⟨job, hset, ?_⟩
          rcases hcmd with hold | hinst
          · exact absurd hold (not_installed_of_slotFree hI hok hbefore)
          · rw [hjob]
            exact Option.some.inj hinst

theorem slotInv_of_within {w : RepackWorld} {c : RepackConfig h}
    (hw : ∀ cmd, w.alive cmd = false)
    (hrun : Within Config.step (fun c l => slotRespected c l = true)
      (Config.initial (repackSystem h) w) c) : SlotInv c :=
  hrun.invariant (fun _ _ _ hI hok hstep => slotInv_step hI hok hstep) (slotInv_initial hw)

/-- At most one process is alive. -/
def AtMostOneAlive (w : RepackWorld) : Prop :=
  ∀ i j, w.alive i = true → w.alive j = true → i = j

theorem over_of_alive {w : RepackWorld} {cmd : Nat} (h : w.alive cmd = true) :
    w.cmdOver cmd = false := by
  unfold RepackWorld.alive at h
  unfold RepackWorld.cmdOver
  cases hst : w.cmdState cmd with
  | none => rfl
  | some st =>
      rw [hst] at h
      cases st <;> first | rfl | cases h

theorem SlotInv.atMostOneAlive {c : RepackConfig h} (hI : SlotInv c) :
    AtMostOneAlive c.world := by
  intro i j hi hj
  -- Both commands are installed and not over, so both are the one in the slot.
  rcases hI.holds_slot i (hI.installed_of_alive i hi) (over_of_alive hi) with ⟨job, hrun, hjob⟩
  rcases hI.holds_slot j (hI.installed_of_alive j hj) (over_of_alive hj) with ⟨job', hrun', hjob'⟩
  rw [hrun] at hrun'
  cases hrun'
  rw [← hjob, ← hjob']

/-- In every run whose steps respect the slot, at most one pg_repack is alive at any moment. -/
theorem repack_exclusive (h : RepackHandler) (w : RepackWorld) (hw : ∀ cmd, w.alive cmd = false)
    (c : RepackConfig h)
    (hrun : Within Config.step (fun c l => slotRespected c l = true)
      (Config.initial (repackSystem h) w) c) : AtMostOneAlive c.world :=
  (slotInv_of_within hw hrun).atMostOneAlive

end

/-! ## Concrete runs -/

def exampleHandler : RepackHandler where
  defaultConnString := ""
  connStringForDB := fun _ => ""

def exampleRequest : RepackEntry :=
  .run (some { schema := "public", table := "t", database := "", jobs := 0 })

def stepOf (i : Nat) : Label RepackChoice RepackEnv RepackEntry :=
  .step i {}

/-- One request runs its repack to the end, then a second one starts another. -/
def oneAfterTheOther : List (Label RepackChoice RepackEnv RepackEntry) :=
  .arrive exampleRequest :: List.replicate 5 (stepOf 0) ++ List.replicate 2 (stepOf 1) ++
    [.env (.exit 0 true)] ++ List.replicate 3 (stepOf 1) ++
    .arrive exampleRequest :: List.replicate 5 (stepOf 2) ++ List.replicate 2 (stepOf 3)

theorem repack_exclusive_oneAfterTheOther :
    ∃ c : RepackConfig exampleHandler, c.world.alive 1 = true ∧ AtMostOneAlive c.world := by
  have hmeets : runMeets Config.step slotRespected
      (Config.initial (repackSystem exampleHandler) {}) oneAfterTheOther = true := by decide
  have hend : (Transition.run Config.step (Config.initial (repackSystem exampleHandler) {})
      oneAfterTheOther).any (fun c => c.world.alive 1) = true := by decide
  rcases exists_within_of_run hmeets hend with ⟨c, hrun, halive⟩
  exact ⟨c, halive, repack_exclusive exampleHandler {} (fun _ => rfl) c hrun⟩

/-- Both requests find the slot empty before either of them fills it. -/
def bothPassTheCheck : List (Label RepackChoice RepackEnv RepackEntry) :=
  [.arrive exampleRequest, .arrive exampleRequest, stepOf 0, stepOf 1] ++
    List.replicate 4 (stepOf 0) ++ List.replicate 4 (stepOf 1) ++
    List.replicate 2 (stepOf 2) ++ List.replicate 2 (stepOf 3)

theorem two_alive :
    ¬ ∀ c : RepackConfig exampleHandler,
      Reach Config.step (Config.initial (repackSystem exampleHandler) {}) c →
        AtMostOneAlive c.world := by
  intro hall
  have hend : (Transition.run Config.step (Config.initial (repackSystem exampleHandler) {})
      bothPassTheCheck).any (fun c => c.world.alive 0 && c.world.alive 1) = true := by decide
  rcases exists_reach_of_run hend with ⟨c, hreach, halive⟩
  rw [Bool.and_eq_true] at halive
  exact absurd (hall c hreach 0 1 halive.1 halive.2) (by decide)

end Handler
end Pgaio
