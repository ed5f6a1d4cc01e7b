import Pgaio.Concurrency.Mutex
import Pgaio.Service.WalGProtocol

/-!
# WalGLock — the lock of the destructive operations

`opMu` instantiates the rules for threads that serialize on one lock: backup jobs and restore jobs
do their work between `Lock` and the deferred `Unlock`, requests and restarts never take the lock.
`restore_protocol` collects what follows for every interleaving.
-/

namespace Pgaio
namespace Service

open Go Model Concurrency Transition
open Program (wp wp_perform wp_last wp_bind wp_mono)

-- The proofs run the programs symbolically; the text functions stay folded meanwhile.
attribute [local irreducible] trimSpace

def WalGAct.lockOp : WalGAct → LockOp
  | .lock => .acquire
  | .unlock => .release
  | _ => .other

namespace WalGWorld

variable {locate : String → Nat} {w : WalGWorld}

@[simp] theorem setDir_opMu (d : Nat) (x : DataDir) : (w.setDir d x).opMu = w.opMu := rfl
@[simp] theorem setDir_storage (d : Nat) (x : DataDir) : (w.setDir d x).storage = w.storage := rfl

@[simp] theorem setDir_jobs (d : Nat) (x : DataDir) : (w.setDir d x).jobs = w.jobs := rfl
@[simp] theorem setFiles_opMu (d : Nat) (f : DataFiles) : (w.setFiles d f).opMu = w.opMu := rfl

@[simp] theorem setFiles_storage (d : Nat) (f : DataFiles) :
    (w.setFiles d f).storage = w.storage := rfl

@[simp] theorem setFiles_jobs (d : Nat) (f : DataFiles) : (w.setFiles d f).jobs = w.jobs := rfl
@[simp] theorem setRunning_opMu (d : Nat) (b : Bool) : (w.setRunning d b).opMu = w.opMu := rfl

@[simp] theorem setRunning_storage (d : Nat) (b : Bool) :
    (w.setRunning d b).storage = w.storage := rfl

@[simp] theorem setRunning_jobs (d : Nat) (b : Bool) : (w.setRunning d b).jobs = w.jobs := rfl

@[simp] theorem setDir_self (d : Nat) (x : DataDir) : (w.setDir d x).dirs d = x := by
  simp [setDir]

theorem setDir_ne {d e : Nat} {x : DataDir} (h : e ≠ d) : (w.setDir d x).dirs e = w.dirs e := by
  simp [setDir, h]

/-- Commands work on the storage and on the directories only. -/
theorem runCommand_frame (w : WalGWorld) (locate : String → Nat) (ch : WalGChoice)
    (cmd : Command) :
    (w.runCommand locate ch cmd).2.opMu = w.opMu ∧ (w.runCommand locate ch cmd).2.jobs = w.jobs := by
  cases cmd with
  | pgCtlStop dir =>
      simp only [runCommand]
      split <;> exact ⟨rfl, rfl⟩
  | pgCtlStart dir =>
      simp only [runCommand]
      split <;> exact ⟨rfl, rfl⟩
  | pgCtlRestart dir =>
      simp only [runCommand]
      split <;> exact ⟨rfl, rfl⟩
  | backupPush dir base =>
      simp only [runCommand]
      split <;> exact ⟨rfl, rfl⟩
  | deleteRetainFull retain =>
      simp only [runCommand]
      split <;> exact ⟨rfl, rfl⟩
  | backupFetch dir name =>
      simp only [runCommand]
      split
      · split <;> exact ⟨rfl, rfl⟩
      · exact ⟨rfl, rfl⟩

/-- What an action does to the world.  The file operations leave the server of their directory
alone. -/
theorem exec_cases {w' : WalGWorld} {i : Nat} {a : WalGAct} {ch : WalGChoice} {r : a.Resp}
    (h : w.exec locate i a ch = some (r, w')) :
    (∃ d whole files, w' = w.setDir d { w.dirs d with whole := whole, files := files }) ∨
    w' = w ∨
    (∃ cmd, a = .command cmd ∧ w' = (w.runCommand locate ch cmd).2) ∨
    (∃ call, a = .jobs call ∧ w' = { w with jobs := (call.exec w.jobs ch.now).2 }) ∨
    (a = .lock ∧ w.opMu = none ∧ w' = { w with opMu := some i }) ∨
    (a = .unlock ∧ w' = { w with opMu := none }) := by
  cases a with
  | removeAll dir name =>
      simp only [exec] at h
      split at h <;> cases h <;> exact Or.inl ⟨_, _, _, rfl⟩
  | writeFile dir name content =>
      simp only [exec] at h
      split at h <;> cases h <;> exact Or.inl ⟨_, _, _, rfl⟩
  | openAppend dir name =>
      simp only [exec] at h
      split at h <;> cases h
      · exact Or.inl ⟨_, _, _, rfl⟩
      · -- A file that cannot be opened stays as it is.
        exact Or.inr (Or.inl rfl)
  | writeString dir name content =>
      simp only [exec] at h
      split at h <;> cases h <;> exact Or.inl ⟨_, _, _, rfl⟩
  | command cmd =>
      simp only [exec, Option.some.injEq] at h
      have heq : w' = (w.runCommand locate ch cmd).2 := by rw [h]
      exact Or.inr (Or.inr (Or.inl ⟨cmd, rfl, heq⟩))
  | jobs call =>
      cases h
      exact Or.inr (Or.inr (Or.inr (Or.inl ⟨call, rfl, rfl⟩)))
  | lock =>
      simp only [exec] at h
      split at h
      · rename_i hfree
        cases h
        exact Or.inr (Or.inr (Or.inr (Or.inr (Or.inl ⟨rfl, hfree, rfl⟩))))
      · cases h
  | unlock =>
      cases h
      exact Or.inr (Or.inr (Or.inr (Or.inr (Or.inr ⟨rfl, rfl⟩))))
  | _ =>
      cases h
      exact Or.inr (Or.inl rfl)

theorem opMu_of_exec {w' : WalGWorld} {i : Nat} {a : WalGAct} {ch : WalGChoice} {r : a.Resp}
    (ha : a.lockOp = .other) (h : w.exec locate i a ch = some (r, w')) : w'.opMu = w.opMu := by
  rcases exec_cases h with ⟨d, whole, files, rfl⟩ | rfl | ⟨cmd, _, rfl⟩ | ⟨call, _, rfl⟩ |
    ⟨rfl, _⟩ | ⟨rfl, _⟩
  · rfl
  · rfl
  · exact (runCommand_frame w locate ch cmd).1
  · rfl
  · cases ha
  · cases ha

end WalGWorld

/-- `opMu` as a lock of the system. -/
def opMuSpec (w : WalG) (locate : String → Nat) : LockSpec (walgSystem w locate) where
  op := WalGAct.lockOp
  holder := WalGWorld.opMu
  acquire_free := by
    intro world i a ch r world' ha hexec
    cases a with
    | lock =>
        simp only [walgSystem, WalGWorld.exec] at hexec
        split at hexec
        · rename_i hfree
          cases hexec
          exact ⟨hfree, rfl⟩
        · cases hexec
    | _ => cases ha
  release_frees := by
    intro world i a ch r world' ha hexec
    cases a with
    | unlock =>
        cases hexec
        rfl
    | _ => cases ha
  other_keeps := fun ha hexec => WalGWorld.opMu_of_exec ha hexec
  env_keeps := by
    intro world x world' henv
    cases x with
    | setRetainCount retain =>
        cases henv
        rfl
    | serverExits d =>
        cases henv
        rfl

/-! ## What each program does -/

/-- The actions of a backup job under the lock. -/
def WalGAct.ofBackup : WalGAct → Bool
  | .jobs _ => true
  | .listBackups => true
  | .getRetainCount => true
  | .command (.backupPush _ _) => true
  | .command (.deleteRetainFull _) => true
  | _ => false

/-- What `RestoreBackup` checks before it starts a restore. -/
def Accepted (req : RestoreRequest) : Prop :=
  req.backupName ≠ "" ∧ (WalG.isPITR req = true → (parseWalgTime req.targetTime).isSome = true)

/-- What a thread may do next. -/
def WalGEntry.Allows (w : WalG) (past : List WalGEvent) (a : WalGAct) : WalGEntry → Prop
  | .backupJob _ _ => (a = .lock ∧ past = []) ∨ a = .unlock ∨ a.ofBackup = true
  | .restoreJob req _ => (a = .lock ∧ past = []) ∨ a = .unlock ∨ w.RestoreOrder req past a
  | .restartJob => a = .command (.pgCtlRestart defaultDataDir)
  | .restartPostgreSQL => a = .go .restartJob
  | .triggerBackup kind => (∃ call, a = .jobs call) ∨ ∃ jobID, a = .go (.backupJob kind jobID)
  | .restoreBackup req =>
      (∃ call, a = .jobs call) ∨
        Accepted req ∧ ∃ jobID, a = .go (.restoreJob req jobID)

namespace WalG

/-- A property of a job under the lock is a property of its body. -/
theorem wp_underOpMu {inv : List WalGEvent → WalGAct → Prop}
    {post : List WalGEvent → WalGResult → Prop} {body : WalGProgram Unit} (hlock : inv [] .lock)
    (hbody : wp inv (fun past _ => inv past .unlock ∧ post (past ++ [⟨.unlock, ()⟩]) .returned)
      [⟨.lock, ()⟩] body) :
    wp inv post [] (underOpMu body) := by
  refine wp_perform hlock fun _ => ?_
  refine (wp_bind body _).2 (wp_mono (fun _ _ h => h) ?_ hbody)
  intro past _ hpost
  exact wp_perform hpost.1 fun _ => hpost.2

/-- The program performs actions of a backup job only. -/
abbrev BackupActs {α : Type} (p : WalGProgram α) : Prop :=
  ∀ past, wp (fun _ a => a.ofBackup = true) (fun _ _ => True) past p

theorem backupActs_jobs (call : JobCall) : BackupActs (perform (.jobs call)) :=
  fun _ => wp_last rfl fun _ => trivial

theorem backupActs_applyRetention : BackupActs applyRetention := by
  intro past
  refine wp_perform rfl fun r => ?_
  cases r with
  | none => exact trivial
  | some retain =>
      dsimp only
      split
      · exact trivial
      · refine wp_perform rfl fun pruned => ?_
        cases pruned with
        | error stderr => exact trivial
        | ok out => exact trivial

theorem backupActs_pushBackup (w : WalG) (kind : BackupKind) (jobID : JobID)
    (base : Option String) : BackupActs (w.pushBackup kind jobID base) := by
  intro past
  refine wp_perform rfl fun _ => wp_perform rfl fun pushed => ?_
  cases pushed with
  | error stderr => exact backupActs_jobs _ _
  | ok out =>
      refine (wp_bind applyRetention _).2
        (wp_mono (fun _ _ h => h) ?_ (backupActs_applyRetention _))
      intro past' msg _
      split
      · exact backupActs_jobs _ _
      · exact backupActs_jobs _ _

theorem backupActs_backupBody (w : WalG) (jobID : JobID) (kind : BackupKind) :
    BackupActs (w.backupBody jobID kind) := by
  intro past
  cases kind with
  | full => exact backupActs_pushBackup w .full jobID none past
  | incremental =>
      refine wp_perform rfl fun listed => ?_
      cases listed with
      | error err => exact backupActs_jobs _ _
      | ok backups =>
          dsimp only
          split
          · exact backupActs_jobs _ _
          · exact backupActs_pushBackup w .incremental jobID _ _

theorem underway_lock (w : WalG) : Underway w [⟨.lock, ()⟩] where
  notEnded := by
    intro call hmem
    cases hmem
  notStarted := by
    rintro ⟨r, hmem, _⟩
    simp only [List.mem_singleton] at hmem
    cases hmem

theorem restoreBody_under (w : WalG) (req : RestoreRequest) (jobID : JobID) :
    wp (w.RestoreOrder req) (fun past _ => w.RestoreEnd req jobID past) [⟨.lock, ()⟩]
      (w.restoreBody req jobID) :=
  restoreBody_wp (underway_lock w) fun e he => by
    simp only [List.mem_singleton] at he
    subst he
    decide

end WalG

theorem ofBackup_other {a : WalGAct} (h : a.ofBackup = true) : a.lockOp = .other := by
  cases a <;> first | rfl | cases h

theorem restoreOrder_other {w : WalG} {req : RestoreRequest} {past : List WalGEvent} {a : WalGAct}
    (h : w.RestoreOrder req past a) : a.lockOp = .other := by
  cases a <;> first | rfl | cases h

/-- The body of a job leaves the lock alone. -/
theorem jobBody_other (w : WalG) :
    (∀ kind jobID, wp (fun _ a => a.lockOp = .other) (fun _ _ => True) [⟨.lock, ()⟩]
      (w.backupBody jobID kind)) ∧
    (∀ req jobID, wp (fun _ a => a.lockOp = .other) (fun _ _ => True) [⟨.lock, ()⟩]
      (w.restoreBody req jobID)) := by
  refine ⟨fun kind jobID => ?_, fun req jobID => ?_⟩
  · exact wp_mono (fun _ _ h => ofBackup_other h) (fun _ _ h => h)
      (WalG.backupActs_backupBody w jobID kind _)
  · exact wp_mono (fun _ _ h => restoreOrder_other h) (fun _ _ _ => trivial)
      (WalG.restoreBody_under w req jobID)

theorem restoreBackup_acts (w : WalG) (req : RestoreRequest) :
    wp (fun past a => (WalGEntry.restoreBackup req).Allows w past a) (fun _ _ => True) []
      (WalG.restoreBackup req) := by
  unfold WalG.restoreBackup
  split
  · exact trivial
  · rename_i hname
    split
    · exact trivial
    · rename_i htime
      -- Both checks have been passed when the job is started.
      have haccepted : Accepted req := by
        refine ⟨hname, fun hpitr => ?_⟩
        cases hparse : parseWalgTime req.targetTime with
        | none => simp [hpitr, hparse] at htime
        | some t => rfl
      exact wp_perform (Or.inl ⟨_, rfl⟩) fun _ =>
        wp_perform (Or.inr ⟨haccepted, _, rfl⟩) fun _ => trivial

/-- Every thread does only what its entry point allows. -/
theorem entry_wp (w : WalG) (e : WalGEntry) :
    wp (fun past a => e.Allows w past a) (fun _ _ => True) [] (e.body w) := by
  cases e with
  | triggerBackup kind =>
      exact wp_perform (Or.inl ⟨_, rfl⟩) fun _ => wp_perform (Or.inr ⟨_, rfl⟩) fun _ => trivial
  | restoreBackup req => exact restoreBackup_acts w req
  | restartPostgreSQL => exact wp_perform rfl fun _ => trivial
  | backupJob kind jobID =>
      refine WalG.wp_underOpMu (Or.inl ⟨rfl, rfl⟩) ?_
      exact wp_mono (fun _ _ h => Or.inr (Or.inr h)) (fun _ _ _ => ⟨Or.inr (Or.inl rfl), trivial⟩)
        (WalG.backupActs_backupBody w jobID kind _)
  | restoreJob req jobID =>
      refine WalG.wp_underOpMu (Or.inl ⟨rfl, rfl⟩) ?_
      exact wp_mono (fun _ _ h => Or.inr (Or.inr h)) (fun _ _ _ => ⟨Or.inr (Or.inl rfl), trivial⟩)
        (WalG.restoreBody_under w req jobID)
  | restartJob => exact wp_perform rfl fun _ => trivial

/-! ## Critical sections -/

/-- Every program brackets its critical section. -/
theorem opMu_disciplined (w : WalG) (locate : String → Nat) : (opMuSpec w locate).Disciplined := by
  have hrespects : ∀ past a, a.lockOp = .other → (opMuSpec w locate).Respects past a := by
    intro past a ha
    have hop : (opMuSpec w locate).op a = .other := ha
    simp [LockSpec.Respects, hop]
  -- Under the lock it is enough that the body leaves the lock alone.
  have hunder : ∀ body : WalGProgram Unit,
      wp (fun _ a => a.lockOp = .other) (fun _ _ => True) [⟨.lock, ()⟩] body →
        wp (opMuSpec w locate).Respects
          (fun past _ => inside WalGAct.lockOp past = false) [] (WalG.underOpMu body) := by
    intro body hbody
    refine WalG.wp_underOpMu rfl ?_
    refine wp_mono (fun past a h => hrespects past a h.2) ?_ (wp_inside hbody)
    intro past _ hin
    refine ⟨hin, ?_⟩
    simp [inside_snoc, WalGAct.lockOp]
  have hrequest : ∀ p : WalGProgram WalGResult,
      wp (fun _ a => a.lockOp = .other) (fun _ _ => True) [] p →
        wp (opMuSpec w locate).Respects (fun past _ => inside WalGAct.lockOp past = false) [] p := by
    intro p hp
    exact wp_mono (fun past a h => hrespects past a h.2) (fun _ _ h => h) (wp_inside hp)
  intro e
  cases e with
  | triggerBackup kind =>
      exact hrequest _ (wp_perform rfl fun _ => wp_perform rfl fun _ => trivial)
  | restoreBackup req =>
      refine hrequest _ (wp_mono ?_ (fun _ _ h => h) (restoreBackup_acts w req))
      rintro past a (⟨call, rfl⟩ | ⟨_, jobID, rfl⟩) <;> rfl
  | restartPostgreSQL => exact hrequest _ (wp_perform rfl fun _ => trivial)
  | backupJob kind jobID => exact hunder _ ((jobBody_other w).1 kind jobID)
  | restoreJob req jobID => exact hunder _ ((jobBody_other w).2 req jobID)
  | restartJob => exact hrequest _ (wp_perform rfl fun _ => trivial)

/-! ## The restore protocol -/

/-- The thread is between its `Lock` and its `Unlock`. -/
def insideOpMu {w : WalG} {locate : String → Nat} (t : Thread (walgSystem w locate)) : Bool :=
  inside WalGAct.lockOp t.past

/-- One call ends the job, it is the last one, and it tells whether all five steps succeeded. -/
def EndsOnce (w : WalG) (req : RestoreRequest) (jobID : JobID) (past : List WalGEvent) : Prop :=
  ∃ before last, jobCalls past = before ++ [last] ∧ (∀ call ∈ before, call.ends? = none) ∧
    (w.AllSteps req past → ∃ message, last = .complete jobID message) ∧
    (¬ w.AllSteps req past → ∃ message details, last = .fail jobID message details)

structure RestoreProtocol {w : WalG} {locate : String → Nat} (c : WalGConfig w locate) :
    Prop where
  exclusive : ∀ (i j : Nat) (t u : Thread (walgSystem w locate)), c.threads[i]? = some t → c.threads[j]? = some u →
    insideOpMu t = true → insideOpMu u = true → i = j
  cleans_after_stop : ∀ t ∈ c.threads, ∀ a dir, t.action? = some a → a.cleans = some dir →
    ∃ req jobID, t.entry = .restoreJob req jobID ∧ w.MayClean t.past dir
  starts_after_recovery : ∀ t ∈ c.threads, ∀ dir,
    t.action? = some (.command (.pgCtlStart dir)) →
      ∃ req jobID, t.entry = .restoreJob req jobID ∧ w.MayStart req t.past
  ends_once : ∀ t ∈ c.threads, ∀ req jobID, t.entry = .restoreJob req jobID →
    t.finished = true → EndsOnce w req jobID t.past

section

variable {w : WalG} {locate : String → Nat}

theorem allows_of_action {t : Thread (walgSystem w locate)} {a : WalGAct}
    (h : t.action? = some a) : t.entry.Allows w t.past a := by
  rcases Thread.action?_eq_some.1 h with ⟨next, hrest⟩
  have hwp := t.wp (entry_wp w t.entry)
  rw [hrest] at hwp
  exact hwp.1

/-- Only a restore lists or removes entries, and only when it may. -/
theorem restore_of_cleans {t : Thread (walgSystem w locate)} {a : WalGAct} {dir : String}
    (ha : t.action? = some a) (hdir : a.cleans = some dir) :
    ∃ req jobID, t.entry = .restoreJob req jobID ∧ w.MayClean t.past dir := by
  have hallows := allows_of_action ha
  -- Only the order of a restore lets a thread list or remove entries.
  cases hentry : t.entry with
  | restoreJob req jobID =>
      rw [hentry] at hallows
      refine ⟨req, jobID, rfl, ?_⟩
      rcases hallows with ⟨rfl, _⟩ | rfl | horder
      · cases hdir
      · cases hdir
      · cases a <;> cases hdir <;> exact horder.1
  | backupJob kind jobID =>
      rw [hentry] at hallows
      rcases hallows with ⟨rfl, _⟩ | rfl | hbackup
      · cases hdir
      · cases hdir
      · cases a <;> cases hdir <;> cases hbackup
  | restartJob =>
      rw [hentry] at hallows
      cases hallows
      cases hdir
  | restartPostgreSQL =>
      rw [hentry] at hallows
      cases hallows
      cases hdir
  | triggerBackup kind =>
      rw [hentry] at hallows
      rcases hallows with ⟨call, rfl⟩ | ⟨jobID, rfl⟩ <;> cases hdir
  | restoreBackup req =>
      rw [hentry] at hallows
      rcases hallows with ⟨call, rfl⟩ | ⟨_, jobID, rfl⟩ <;> cases hdir

/-- Only a restore issues `pg_ctl start`, and only when it may. -/
theorem restore_of_start {t : Thread (walgSystem w locate)} {dir : String}
    (ha : t.action? = some (.command (.pgCtlStart dir))) :
    ∃ req jobID, t.entry = .restoreJob req jobID ∧ w.MayStart req t.past := by
  have hallows := allows_of_action ha
  cases hentry : t.entry with
  | restoreJob req jobID =>
      rw [hentry] at hallows
      rcases hallows with ⟨h, _⟩ | h | horder
      · cases h
      · cases h
      · exact ⟨req, jobID, rfl, horder.2.1⟩
  | backupJob kind jobID =>
      rw [hentry] at hallows
      rcases hallows with ⟨h, _⟩ | h | h <;> cases h
  | triggerBackup kind =>
      rw [hentry] at hallows
      rcases hallows with ⟨call, h⟩ | ⟨jobID, h⟩ <;> cases h
  | restoreBackup req =>
      rw [hentry] at hallows
      rcases hallows with ⟨call, h⟩ | ⟨_, jobID, h⟩ <;> cases h
  | _ =>
      rw [hentry] at hallows
      cases hallows

theorem endsOnce_of_finished {t : Thread (walgSystem w locate)} {req : RestoreRequest}
    {jobID : JobID} (hentry : t.entry = .restoreJob req jobID) (h : t.finished = true) :
    EndsOnce w req jobID t.past := by
  rcases Thread.finished_iff.1 h with ⟨x, hrest⟩
  have hbody : wp (fun _ _ => True) (fun past _ => w.RestoreEnd req jobID past) []
      ((walgSystem w locate).body t.entry) := by
    rw [hentry]
    refine WalG.wp_underOpMu trivial ?_
    refine wp_mono (fun _ _ _ => trivial) ?_ (WalG.restoreBody_under w req jobID)
    -- Unlocking is no call and no step of the restore.
    rintro past _ ⟨before, last, hcalls, hbefore, hend⟩
    refine ⟨trivial, before, last, ?_, hbefore, ?_⟩
    · rw [jobCalls_snoc_other rfl]
      exact hcalls
    · rcases hend with ⟨hsteps, hlast⟩ | ⟨hnot, hlast⟩
      · exact Or.inl ⟨hsteps.append _, hlast⟩
      · refine Or.inr ⟨fun hdid => ?_, hlast⟩
        rcases did_snoc.1 hdid with hold | ⟨hact, _⟩
        · exact hnot hold
        · cases hact
  have hwp := t.wp hbody
  rw [hrest] at hwp
  rcases hwp with ⟨before, last, hcalls, hbefore, hend⟩
  refine ⟨before, last, hcalls, hbefore, fun hsteps => ?_, fun hsteps => ?_⟩
  · rcases hend with ⟨_, hlast⟩ | ⟨hnot, _⟩
    · exact hlast
    · exact absurd hsteps.started hnot
  · rcases hend with ⟨hall, _⟩ | ⟨_, hlast⟩
    · exact absurd hall hsteps
    · exact hlast

end

/-- In every interleaving of backups, restores and restarts the restores follow the protocol. -/
theorem restore_protocol (w : WalG) (locate : String → Nat) (world : WalGWorld)
    (hfree : world.opMu = none) (c : WalGConfig w locate)
    (hrun : Reach Config.step (Config.initial (walgSystem w locate) world) c) :
    RestoreProtocol c := by
  have hholder : (opMuSpec w locate).HolderInv c :=
    LockSpec.holderInv (opMu_disciplined w locate) hfree hrun
  refine ⟨?_, ?_, ?_, ?_⟩
  · intro i j t u ht hu hit hju
    exact hholder.exclusive ht hu hit hju
  · intro t _ a dir ha hdir
    exact restore_of_cleans ha hdir
  · intro t _ dir ha
    exact restore_of_start ha
  · intro t _ req jobID hentry hdone
    exact endsOnce_of_finished hentry hdone

/-! ## A concrete run -/

def exampleWalG : WalG := newWalG ""

def exampleLocate (_ : String) : Nat := 0

def storedBackup (name : String) (full : Bool) (files : DataFiles) : StoredBackup where
  info :=
    { name := name
      startTime := 1
      finishTime := 2 }
  full := full
  files := files

/-- A running server on a whole directory, and one full backup in storage. -/
def exampleWorld : WalGWorld where
  storage := [storedBackup "base_1" true ∅]
  dirs := fun _ =>
    { running := true
      whole := true
      files := (∅ : DataFiles).insert "PG_VERSION" "17" }

def stepOf (i : Nat) : Label WalGChoice WalGEnv WalGEntry :=
  .step i {}

/-- A restore and a full backup are requested; the backup waits for the end of the restore. -/
def restoreThenBackup : List (Label WalGChoice WalGEnv WalGEntry) :=
  [.arrive (.restoreBackup { backupName := "base_1" }), .arrive (.triggerBackup .full)] ++
    List.replicate 2 (stepOf 0) ++ List.replicate 2 (stepOf 1) ++ List.replicate 16 (stepOf 2) ++
    List.replicate 3 (stepOf 3)

theorem restore_protocol_restoreThenBackup :
    ∃ c : WalGConfig exampleWalG exampleLocate,
      c.threads.map Thread.finished = [true, true, true, false] ∧ RestoreProtocol c := by
  have hend : (run Config.step (Config.initial (walgSystem exampleWalG exampleLocate) exampleWorld)
      restoreThenBackup).any
        (fun c => decide (c.threads.map Thread.finished = [true, true, true, false])) = true := by
    decide +kernel
  rcases exists_reach_of_run hend with ⟨c, hreach, hdone⟩
  refine ⟨c, of_decide_eq_true hdone, ?_⟩
  exact restore_protocol exampleWalG exampleLocate exampleWorld rfl c hreach

end Service
end Pgaio
