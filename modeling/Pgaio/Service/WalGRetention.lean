import Pgaio.Service.WalGLock

/-!
# WalGRetention — does a waiting restore keep its backup?

A restore is accepted when its goroutine is started, and it fetches its backup after it has waited
for `opMu`.  Backup jobs that get the lock earlier may prune the storage meanwhile, and nothing
looks at the name again before the data directory is emptied (`source_lost`).

`sparesWaiting` says of a pruning step that the named backup of every waiting restore has fewer than
`n` newer full backups.  Along runs in which every pruning step does so, the backup is still there
when the restore reaches its fetch (`restore_keeps_source`).
-/

namespace Pgaio
namespace Service

open Go Model Concurrency Transition

variable {w : WalG} {locate : String → Nat}

/-- The name for which a restore that has not fetched yet is waiting. -/
def waitsFor? (t : Thread (walgSystem w locate)) : Option String :=
  match t.entry with
  | .restoreJob req _ =>
      if t.past.all fun e => e.act.step < 4 then some req.backupName else none
  | _ => none

/-- The number of full backups that the next step of a thread retains. -/
def prunesTo? (t : Thread (walgSystem w locate)) : Option Nat :=
  match t.action? with
  | some (.command (.deleteRetainFull retain)) => some retain.toNat
  | _ => none

/-- Pruning to `n` full backups does not reach the backup that `t` waits for. -/
def spares (storage : Storage) (n : Nat) (t : Thread (walgSystem w locate)) : Bool :=
  match waitsFor? t with
  | none => true
  | some name => !storage.holds name || storage.newerFulls name < n

/-- A step that prunes spares the backups of all waiting restores. -/
def sparesWaiting (c : WalGConfig w locate) : Label WalGChoice WalGEnv WalGEntry → Bool
  | .step i _ =>
      match c.threads[i]?.bind prunesTo? with
      | none => true
      | some n => c.threads.all (spares c.world.storage n)
  | _ => true

/-! ## What an action does to the storage -/

theorem holds_of_runCommand {world : WalGWorld} {ch : WalGChoice} {cmd : Command} {name : String}
    (h : world.storage.holds name = true)
    (hprune : ∀ retain, cmd = .deleteRetainFull retain →
      world.storage.newerFulls name < retain.toNat) :
    (world.runCommand locate ch cmd).2.storage.holds name = true := by
  cases cmd with
  | pgCtlStop dir =>
      simp only [WalGWorld.runCommand]
      split <;> exact h
  | pgCtlStart dir =>
      simp only [WalGWorld.runCommand]
      split <;> exact h
  | pgCtlRestart dir =>
      simp only [WalGWorld.runCommand]
      split <;> exact h
  | backupPush dir base =>
      simp only [WalGWorld.runCommand]
      split
      · -- A new backup is added to the storage.
        simp only [Storage.holds, List.any_cons, Bool.or_eq_true]
        exact Or.inr h
      · exact h
  | deleteRetainFull retain =>
      -- A failed deletion removes a part of what a successful one would.
      have hkept := (Storage.holds_retainFull h).2 (hprune retain rfl)
      simp only [WalGWorld.runCommand]
      split
      · exact hkept
      · simp only [Storage.retainFullPartly, Storage.holds_append, hkept, Bool.true_or]
  | backupFetch dir backup =>
      simp only [WalGWorld.runCommand]
      split
      · split <;> exact h
      · exact h

theorem holds_of_exec {world world' : WalGWorld} {i : Nat} {a : WalGAct} {ch : WalGChoice}
    {r : a.Resp} {name : String} (h : world.storage.holds name = true)
    (hprune : ∀ retain, a = .command (.deleteRetainFull retain) →
      world.storage.newerFulls name < retain.toNat)
    (hexec : world.exec locate i a ch = some (r, world')) :
    world'.storage.holds name = true := by
  rcases WalGWorld.exec_cases hexec with ⟨d, whole, files, rfl⟩ | rfl | ⟨cmd, rfl, rfl⟩ |
    ⟨call, _, rfl⟩ | ⟨_, _, rfl⟩ | ⟨_, rfl⟩
  · exact h
  · exact h
  · exact holds_of_runCommand h fun retain hcmd => hprune retain (hcmd ▸ rfl)
  · exact h
  · exact h
  · exact h

/-! ## Runs -/

/-- Thread `k` is a restore, and its backup is in storage as long as it has not tried to fetch. -/
def SourceKept (k : Nat) (req : RestoreRequest) (c : WalGConfig w locate) : Prop :=
  ∃ (t : Thread (walgSystem w locate)) (jobID : JobID), c.threads[k]? = some t ∧
    t.entry = .restoreJob req jobID ∧
      (StepsBelow 4 t.past → c.world.storage.holds req.backupName = true)

theorem sourceKept_step {k : Nat} {req : RestoreRequest} {c c' : WalGConfig w locate}
    {l : Label WalGChoice WalGEnv WalGEntry} (hI : SourceKept k req c)
    (hok : sparesWaiting c l = true) (hstep : c.step l = some c') : SourceKept k req c' := by
  rcases hI with ⟨t, jobID, ht, hentry, hkept⟩
  -- A log only grows, so a restore that has not fetched after the step had not before it.
  rcases Config.thread_of_step hstep ht with ⟨t', ht', hentry', hpast⟩
  refine ⟨t', jobID, ht', hentry'.trans hentry, fun hfresh' => ?_⟩
  have hfresh : StepsBelow 4 t.past := fun e he => hfresh' e (hpast.subset he)
  have hholds := hkept hfresh
  cases Config.moves_of_step hstep with
  | arrive _ => exact hholds
  | @env x world henv =>
      cases x <;> cases henv <;> exact hholds
  | @act i ch u a next r world hu hrest hexec =>
      refine holds_of_exec hholds ?_ hexec
      -- The restore is one of the waiting threads that a pruning step has to spare.
      intro retain ha
      have hprunes : c.threads[i]?.bind prunesTo? = some retain.toNat := by
        simp [hu, prunesTo?, Thread.action?, hrest, ha]
      simp only [sparesWaiting, hprunes, List.all_eq_true] at hok
      have hspares := hok t (List.mem_of_getElem? ht)
      have hwaits : waitsFor? t = some req.backupName := by
        have hall : (t.past.all fun e => decide (e.act.step < 4)) = true := by
          rw [List.all_eq_true]
          intro e he
          exact decide_eq_true (hfresh e he)
        simp [waitsFor?, hentry, hall]
      simpa [spares, hwaits, hholds] using hspares

/-- A restore that was accepted while its backup was in storage still finds it there when it
reaches its fetch, along runs that prune no backup a restore waits for. -/
theorem restore_keeps_source {w : WalG} {locate : String → Nat} {c c' : WalGConfig w locate}
    {k : Nat} {t t' : Thread (walgSystem w locate)} {req : RestoreRequest} {jobID : JobID}
    (ht : c.threads[k]? = some t) (hentry : t.entry = .restoreJob req jobID)
    (hstored : c.world.storage.holds req.backupName = true)
    (hrun : Within Config.step (fun c l => sparesWaiting c l = true) c c')
    (ht' : c'.threads[k]? = some t') (hfetch : t'.action? = some (w.fetch req)) :
    c'.world.storage.holds req.backupName = true := by
  have hinit : SourceKept k req c := ⟨t, jobID, ht, hentry, fun _ => hstored⟩
  have hI : SourceKept k req c' :=
    hrun.invariant (fun _ _ _ hI hok hstep => sourceKept_step hI hok hstep) hinit
  rcases hI with ⟨u, jobID', hu, hentry', hkept⟩
  rw [ht'] at hu
  cases hu
  refine hkept ?_
  -- A restore reaches its fetch once, so the fetch has not been tried before.
  have hallows := allows_of_action hfetch
  rw [hentry'] at hallows
  rcases hallows with ⟨h, _⟩ | h | horder
  · cases h
  · cases h
  · exact horder.2.2

/-! ## Concrete runs -/

def retentionWorld (retain : Int) : WalGWorld :=
  { exampleWorld with retainCount := some retain }

def exampleRestore : RestoreRequest := { backupName := "base_1" }

/-- A full backup is requested, then the restore is accepted; neither job has the lock yet. -/
def backupBeforeRestore : List (Label WalGChoice WalGEnv WalGEntry) :=
  [.arrive (.triggerBackup .full)] ++ List.replicate 2 (stepOf 0) ++
    [.arrive (.restoreBackup exampleRestore)] ++ List.replicate 2 (stepOf 2)

/-- The backup gets the lock and runs to its end, then the restore runs up to its fetch. -/
def upToFetch : List (Label WalGChoice WalGEnv WalGEntry) :=
  List.replicate 2 (stepOf 1) ++
    [.step 1 { backup := { name := "base_2", startTime := 3, finishTime := 4 } }] ++
    List.replicate 4 (stepOf 1) ++ List.replicate 7 (stepOf 3)

/-- Thread 3 is the restore, and its backup is in storage. -/
def acceptedWithSource (c : WalGConfig exampleWalG exampleLocate) : Bool :=
  c.world.storage.holds exampleRestore.backupName && c.threads[3]?.any fun t =>
    decide (t.entry = .restoreJob exampleRestore { unix := -62135596800, seq := 2 })

def atFetch (c : WalGConfig exampleWalG exampleLocate) : Bool :=
  c.threads[3]?.any fun t => decide (t.action? = some (exampleWalG.fetch exampleRestore))

theorem acceptedWithSource_iff {c : WalGConfig exampleWalG exampleLocate} :
    acceptedWithSource c = true ↔ c.world.storage.holds exampleRestore.backupName = true ∧
      ∃ t, c.threads[3]? = some t ∧
        t.entry = .restoreJob exampleRestore { unix := -62135596800, seq := 2 } := by
  simp [acceptedWithSource, Option.any_eq_true]

theorem atFetch_iff {c : WalGConfig exampleWalG exampleLocate} :
    atFetch c = true ↔
      ∃ t, c.threads[3]? = some t ∧ t.action? = some (exampleWalG.fetch exampleRestore) := by
  simp [atFetch, Option.any_eq_true]

/-- Two full backups are retained, so the waiting restore is spared. -/
theorem restore_keeps_source_retainTwo :
    ∃ c' : WalGConfig exampleWalG exampleLocate, atFetch c' = true ∧
      c'.world.storage.holds exampleRestore.backupName = true := by
  have hend : (run Config.step (Config.initial (walgSystem exampleWalG exampleLocate)
      (retentionWorld 2)) backupBeforeRestore).any (fun c => acceptedWithSource c &&
        runMeets Config.step sparesWaiting c upToFetch &&
          (run Config.step c upToFetch).any atFetch) = true := by
    decide +kernel
  rcases exists_reach_of_run hend with ⟨c, _, htest⟩
  simp only [Bool.and_eq_true, acceptedWithSource_iff] at htest
  rcases htest with ⟨⟨⟨hstored, t, ht, hentry⟩, hmeets⟩, hlast⟩
  rcases exists_within_of_run hmeets hlast with ⟨c', hrun, hfetch⟩
  rcases atFetch_iff.1 hfetch with ⟨t', ht', haction⟩
  exact ⟨c', hfetch, restore_keeps_source ht hentry hstored hrun ht' haction⟩

/-- With one full backup retained, the backup that ends first deletes what the restore needs. -/
theorem source_lost :
    ¬ ∀ (c c' : WalGConfig exampleWalG exampleLocate) (k : Nat)
        (t t' : Thread (walgSystem exampleWalG exampleLocate)) (req : RestoreRequest)
        (jobID : JobID),
      Reach Config.step (Config.initial (walgSystem exampleWalG exampleLocate)
        (retentionWorld 1)) c → c.threads[k]? = some t → t.entry = .restoreJob req jobID →
      c.world.storage.holds req.backupName = true → Reach Config.step c c' →
      c'.threads[k]? = some t' → t'.action? = some (exampleWalG.fetch req) →
        c'.world.storage.holds req.backupName = true := by
  intro hall
  have hend : (run Config.step (Config.initial (walgSystem exampleWalG exampleLocate)
      (retentionWorld 1)) backupBeforeRestore).any (fun c => acceptedWithSource c &&
        (run Config.step c upToFetch).any (fun c' => atFetch c' &&
          !c'.world.storage.holds exampleRestore.backupName)) = true := by
    decide +kernel
  rcases exists_reach_of_run hend with ⟨c, hreach, htest⟩
  simp only [Bool.and_eq_true, acceptedWithSource_iff] at htest
  rcases htest with ⟨⟨hstored, t, ht, hentry⟩, hlast⟩
  rcases exists_reach_of_run hlast with ⟨c', hreach', htest'⟩
  simp only [Bool.and_eq_true, atFetch_iff] at htest'
  rcases htest' with ⟨⟨t', ht', haction⟩, hgone⟩
  have hkept := hall c c' 3 t t' exampleRestore _ hreach ht hentry hstored hreach' ht' haction
  rw [hkept] at hgone
  cases hgone

end Service
end Pgaio
