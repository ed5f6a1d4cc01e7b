import Pgaio.Service.WalGCluster

/-!
# WalGServer — who starts the server during a restore?

A restore stops the server, empties and refills the data directory, and starts the server again, all
under `opMu`.  Backups and other restores cannot come in between, but `RestartPostgreSQL` runs
`pg_ctl restart` without the lock, and a restart starts a stopped server (`restart_in_window`).

`StartsSafely` is what should hold of every step that starts a server: no other job is between its
stop and its own start, and the directory is whole.  `starts_safely_iff` reduces it, in every
reachable state, to a condition on the steps of `RestartPostgreSQL` alone.
-/

namespace Pgaio
namespace Service

open Go Model Concurrency Transition

/-- The directory whose server a command starts. -/
def Command.starts? : Command → Option String
  | .pgCtlStart dir => some dir
  | .pgCtlRestart dir => some dir
  | _ => none

section

variable {w : WalG} {locate : String → Nat}

def serverStart? (t : Thread (walgSystem w locate)) : Option String :=
  match t.action? with
  | some (.command cmd) => cmd.starts?
  | _ => none

def isRestore (t : Thread (walgSystem w locate)) : Bool :=
  match t.entry with
  | .restoreJob _ _ => true
  | _ => false

/-- A restore between its successful `pg_ctl stop` and its own `pg_ctl start`. -/
def inWindow (t : Thread (walgSystem w locate)) : Bool :=
  isRestore t && insideOpMu t && didBool t.past w.stopServer &&
    t.past.all fun e => decide (e.act.step < 8)

/-- If thread `i` is about to start a server, then nobody else is in its window and the directory is
neither partly cleaned nor partly fetched. -/
def StartsSafely (c : WalGConfig w locate) (i : Nat) : Prop :=
  ∀ t dir, c.threads[i]? = some t → serverStart? t = some dir →
    (∀ j u, c.threads[j]? = some u → j ≠ i → inWindow u = false) ∧
      (c.world.dirs (locate dir)).whole = true

/-- If thread `i` is about to restart a server, then the job that holds `opMu`, if there is one, is
not in its window, and the directory is whole. -/
def RestartAllowed (c : WalGConfig w locate) (i : Nat) : Prop :=
  ∀ t dir, c.threads[i]? = some t → t.action? = some (.command (.pgCtlRestart dir)) →
    (∀ j u, c.world.opMu = some j → c.threads[j]? = some u → inWindow u = false) ∧
      (c.world.dirs (locate dir)).whole = true

theorem inWindow_inside {t : Thread (walgSystem w locate)} (h : inWindow t = true) :
    insideOpMu t = true := by
  simp only [inWindow, Bool.and_eq_true] at h
  exact h.1.1.2

/-- A thread that restarts the server is no restore. -/
theorem not_inWindow_of_restart {t : Thread (walgSystem w locate)} {dir : String}
    (h : t.action? = some (.command (.pgCtlRestart dir))) : inWindow t = false := by
  have hallows := allows_of_action h
  cases hentry : t.entry with
  | restoreJob req jobID =>
      rw [hentry] at hallows
      rcases hallows with ⟨h, _⟩ | h | h <;> cases h
  | _ => simp [inWindow, isRestore, hentry]

/-- The start of a restore itself is always safe. -/
theorem startsSafely_of_start {world : WalGWorld} (hfree : world.opMu = none)
    {c : WalGConfig w locate}
    (hrun : Reach Config.step (Config.initial (walgSystem w locate) world) c) {i : Nat}
    {t : Thread (walgSystem w locate)} {dir : String} (ht : c.threads[i]? = some t)
    (ha : t.action? = some (.command (.pgCtlStart dir))) :
    (∀ j u, c.threads[j]? = some u → j ≠ i → inWindow u = false) ∧
      (c.world.dirs (locate dir)).whole = true := by
  have hholder : (opMuSpec w locate).HolderInv c :=
    LockSpec.holderInv (opMu_disciplined w locate) hfree hrun
  have hmem : t ∈ c.threads := List.mem_of_getElem? ht
  have hin : insideOpMu t = true := insideOpMu_of_needsLock ha rfl
  refine ⟨fun j u hu hne => ?_, ?_⟩
  · -- Two jobs are never inside at the same time.
    cases hwindow : inWindow u with
    | false => rfl
    | true => exact absurd (hholder.exclusive hu ht (inWindow_inside hwindow) hin) hne
  · rcases restore_of_start ha with ⟨req, jobID, hentry, hmay⟩
    have hallows := allows_of_action ha
    rw [hentry] at hallows
    rcases hallows with ⟨h, _⟩ | h | horder
    · cases h
    · cases h
    · rcases horder with ⟨rfl, _⟩
      exact (knows_of_reach hfree hrun hmem hin req jobID hentry).whole hmay.1

end

/-- In every reachable state and for every thread: the server is started safely exactly when a
restart by `RestartPostgreSQL` is. -/
theorem starts_safely_iff (w : WalG) (locate : String → Nat) (world : WalGWorld)
    (hfree : world.opMu = none) (c : WalGConfig w locate)
    (hrun : Reach Config.step (Config.initial (walgSystem w locate) world) c) (i : Nat) :
    StartsSafely c i ↔ RestartAllowed c i := by
  have hholder : (opMuSpec w locate).HolderInv c :=
    LockSpec.holderInv (opMu_disciplined w locate) hfree hrun
  constructor
  · intro hsafe t dir ht ha
    rcases hsafe t dir ht (by simp [serverStart?, ha, Command.starts?]) with ⟨halone, hwhole⟩
    refine ⟨fun j u _ hu => ?_, hwhole⟩
    -- The restart itself is not in a window.
    by_cases hji : j = i
    · rw [hji, ht] at hu
      cases hu
      exact not_inWindow_of_restart ha
    · exact halone j u hu hji
  · -- The server is started by a restore, under the lock, or by a restart.
    intro hallowed t dir ht hstart
    cases ha : t.action? with
    | none => simp [serverStart?, ha] at hstart
    | some a =>
        cases a with
        | command cmd =>
            cases cmd with
            | pgCtlStart dir' =>
                simp only [serverStart?, ha, Command.starts?, Option.some.injEq] at hstart
                subst hstart
                exact startsSafely_of_start hfree hrun ht ha
            | pgCtlRestart dir' =>
                simp only [serverStart?, ha, Command.starts?, Option.some.injEq] at hstart
                subst hstart
                rcases hallowed t dir' ht ha with ⟨hwindow, hwhole⟩
                refine ⟨fun j u hu _ => ?_, hwhole⟩
                cases hin : inWindow u with
                | false => rfl
                | true =>
                    -- A restore in its window is the holder of the lock.
                    have hj : c.world.opMu = some j := (hholder.1 j u hu).1 (inWindow_inside hin)
                    rw [hwindow j u hj hu] at hin
                    cases hin
            | _ => simp [serverStart?, ha, Command.starts?] at hstart
        | _ => simp [serverStart?, ha] at hstart

/-! ## Concrete runs -/

/-- A restart while no job holds the lock. -/
def restartAlone : List (Label WalGChoice WalGEnv WalGEntry) :=
  [.arrive .restartPostgreSQL, stepOf 0]

def aboutToRestart (i : Nat) (c : WalGConfig exampleWalG exampleLocate) : Bool :=
  c.threads[i]?.any fun t => decide (t.action? = some (.command (.pgCtlRestart defaultDataDir)))

theorem starts_safely_iff_restartAlone :
    ∃ c : WalGConfig exampleWalG exampleLocate, aboutToRestart 1 c = true ∧ StartsSafely c 1 := by
  have hend : (run Config.step (Config.initial (walgSystem exampleWalG exampleLocate) exampleWorld)
      restartAlone).any (fun c => aboutToRestart 1 c && decide (c.world.opMu = none) &&
        (c.world.dirs 0).whole) = true := by
    decide +kernel
  rcases exists_reach_of_run hend with ⟨c, hreach, htest⟩
  simp only [Bool.and_eq_true, decide_eq_true_eq] at htest
  refine ⟨c, htest.1.1, ?_⟩
  refine (starts_safely_iff exampleWalG exampleLocate exampleWorld rfl c hreach 1).2 ?_
  intro t dir _ _
  refine ⟨fun j u hj _ => ?_, htest.2⟩
  rw [htest.1.2] at hj
  cases hj

/-- The restart is executed after a restore has stopped the server and removed an entry. -/
def restartDuringRestore : List (Label WalGChoice WalGEnv WalGEntry) :=
  [.arrive (.restoreBackup { backupName := "base_1" })] ++ List.replicate 2 (stepOf 0) ++
    List.replicate 6 (stepOf 1) ++ [.arrive .restartPostgreSQL, stepOf 2]

theorem restart_in_window :
    ¬ ∀ (c : WalGConfig exampleWalG exampleLocate) (i : Nat),
      Reach Config.step (Config.initial (walgSystem exampleWalG exampleLocate) exampleWorld) c →
        StartsSafely c i := by
  intro hall
  have hend : (run Config.step (Config.initial (walgSystem exampleWalG exampleLocate) exampleWorld)
      restartDuringRestore).any (fun c => aboutToRestart 3 c && c.threads[1]?.any inWindow) =
        true := by
    decide +kernel
  rcases exists_reach_of_run hend with ⟨c, hreach, htest⟩
  simp only [Bool.and_eq_true, aboutToRestart, Option.any_eq_true, decide_eq_true_eq] at htest
  rcases htest with ⟨⟨t, ht, ha⟩, u, hu, hwindow⟩
  have hsafe := hall c 3 hreach t defaultDataDir ht (by simp [serverStart?, ha, Command.starts?])
  rw [hsafe.1 1 u hu (by decide)] at hwindow
  cases hwindow

end Service
end Pgaio
