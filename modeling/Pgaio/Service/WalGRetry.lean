import Pgaio.Concurrency.Solo
import Pgaio.Service.WalGCluster

/-!
# WalGRetry — can a failed restore be repeated?

A further restore starts when everything requested before has come to an end, and all its operations
succeed; only its `pg_ctl stop` cannot succeed unless a server is running.  A restore that failed
after its first step has left the server stopped, so the further one fails at its own first step
(`retry_fails`).  `restore_repeats_iff` says from which states a further restore succeeds.
-/

namespace Pgaio
namespace Service

open Go Model Concurrency Transition
open Program (MustEnd CanEnd mustEnd_perform mustEnd_bind mustEnd_mono canEnd_perform canEnd_bind)

-- The proofs run the programs symbolically; the text functions stay folded meanwhile.
attribute [local irreducible] trimSpace

/-- The outcomes of a further restore: every action but `pg_ctl stop` succeeds, and `pg_ctl stop`
succeeds when a server is running. -/
def furtherOk (w : WalG) (locate : String → Nat) : Outcomes WalGWorld WalGAct WalGChoice :=
  fun world i a ch => ch.ok = true ∧ (a ≠ w.stopServer →
    ∀ r world', world.exec locate i a ch = some (r, world') → a.succeeded r = true)

variable {w : WalG} {locate : String → Nat}

/-- A fetch for `req` can succeed: the backup is stored, and the directory that is cleaned, at the
path without surrounding blanks, is the one that WAL-G fetches into. -/
def Fetchable (w : WalG) (locate : String → Nat) (req : RestoreRequest) (world : WalGWorld) :
    Prop :=
  (world.storage.source req.backupName).isSome = true ∧
    locate (trimSpace w.dataDir) = locate w.dataDir

/-- The job of thread `k` is a restore for `req`, and it is listed with the given status. -/
def RestoreListed (c : WalGConfig w locate) (k : Nat) (req : RestoreRequest)
    (status : JobStatus) : Prop :=
  ∃ (t : Thread (walgSystem w locate)) (jobID : JobID), c.threads[k]? = some t ∧
    t.entry = .restoreJob req jobID ∧ c.world.jobs.status? jobID = some status

/-- However far a further restore has got, it comes to an end, and its job has then succeeded. -/
def RestoreRepeats (c : WalGConfig w locate) (req : RestoreRequest) : Prop :=
  ∀ c', Within Config.step (Config.Allowed (furtherOk w locate)) (c.spawn (.restoreBackup req)) c' →
    ∃ c'', Within Config.step (Config.Allowed (furtherOk w locate)) c' c'' ∧ c''.Quiet ∧
      RestoreListed c'' (c.threads.length + 1) req .succeeded

/-! ## The job store along a restore -/

theorem jobs_of_exec {world world' : WalGWorld} {i : Nat} {a : WalGAct} {ch : WalGChoice}
    {r : a.Resp} (ha : jobCall? ⟨a, r⟩ = none)
    (hexec : world.exec locate i a ch = some (r, world')) : world'.jobs = world.jobs := by
  rcases WalGWorld.exec_cases hexec with ⟨d, whole, files, rfl⟩ | rfl | ⟨cmd, _, rfl⟩ |
    ⟨call, rfl, _⟩ | ⟨_, _, rfl⟩ | ⟨_, rfl⟩
  · rfl
  · rfl
  · exact (WalGWorld.runCommand_frame world locate ch cmd).2
  · cases ha
  · rfl
  · rfl

/-- The job is stored, so that it can be updated and ended. -/
def JobStored (jobID : JobID) (world : WalGWorld) : Prop :=
  (world.jobs.get jobID).isSome = true

abbrev Ends (w : WalG) (locate : String → Nat) (i : Nat) {α : Type}
    (post : WalGWorld → α → Prop) : WalGWorld → WalGProgram α → Prop :=
  MustEnd (walgSystem w locate) (furtherOk w locate) i post

variable {i : Nat} {jobID : JobID} {req : RestoreRequest} {world : WalGWorld} {α : Type}

/-- An action that can succeed does so and leaves the jobs as they are. -/
theorem ends_success {post : WalGWorld → α → Prop} {a : WalGAct} {f : a.Resp → WalGProgram α}
    {r₀ : a.Resp} {world₀ : WalGWorld} (hstored : JobStored jobID world)
    (hcall : ∀ r, jobCall? ⟨a, r⟩ = none) (hfork : a.forks = none) (hstop : a ≠ w.stopServer)
    (hexec₀ : world.exec locate i a {} = some (r₀, world₀)) (hok₀ : a.succeeded r₀ = true)
    (h : ∀ ch r world', ch.ok = true → world.exec locate i a ch = some (r, world') →
      JobStored jobID world' → a.succeeded r = true → Ends w locate i post world' (f r)) :
    Ends w locate i post world (WalG.perform a >>= f) := by
  refine mustEnd_perform hfork ⟨{}, r₀, world₀, ⟨rfl, fun _ r world' hexec => ?_⟩, hexec₀⟩ ?_
  · rw [hexec₀] at hexec
    cases hexec
    exact hok₀
  · intro ch r world' hok hexec
    have hstored' : JobStored jobID world' := by
      unfold JobStored
      rw [jobs_of_exec (hcall r) hexec]
      exact hstored
    exact h ch r world' hok.1 hexec hstored' (hok.2 hstop r world' hexec)

theorem ends_update {post : WalGWorld → α → Prop} {message details : String}
    {f : Unit → WalGProgram α} (hstored : JobStored jobID world)
    (h : ∀ world', JobStored jobID world' → world'.storage = world.storage →
      world'.dirs = world.dirs → Ends w locate i post world' (f ())) :
    Ends w locate i post world
      (WalG.perform (.jobs (.update jobID message details)) >>= f) := by
  refine mustEnd_perform rfl ⟨{}, (), _, ⟨rfl, fun _ _ _ _ => rfl⟩, rfl⟩ ?_
  intro ch r world' _ hexec
  cases hexec
  exact h _ (JobStore.isSome_get_update hstored ch.now message details) rfl rfl

abbrev Succeeds (jobID : JobID) (world : WalGWorld) : Prop :=
  world.jobs.status? jobID = some .succeeded

theorem ends_complete {message : String} (hstored : JobStored jobID world) :
    Ends w locate i (fun world _ => Succeeds jobID world) world
      (WalG.perform (.jobs (.complete jobID message))) := by
  refine ⟨rfl, ⟨{}, (), _, ⟨rfl, fun _ _ _ _ => rfl⟩, rfl⟩, fun ch r world' _ hexec => ?_⟩
  cases hexec
  exact JobStore.status?_finish_of_isSome hstored ch.now .succeeded message "" none

/-! ## A further restore with a running server -/

theorem startServer_ends (hstored : JobStored jobID world) :
    Ends w locate i (fun world _ => Succeeds jobID world) world (w.startServer jobID) := by
  refine ends_update hstored fun world hstored _ _ => ?_
  refine ends_success hstored (fun _ => rfl) rfl (fun h => by cases h) rfl rfl ?_
  intro ch r world' _ _ hstored hok
  cases r with
  | error out => cases hok
  | ok out => exact ends_complete hstored

theorem configureRecovery_ends (hstored : JobStored jobID world) :
    Ends w locate i (fun world _ => Succeeds jobID world) world
      (w.configureRecovery req jobID) := by
  refine ends_update hstored fun world hstored _ _ => ?_
  refine ends_success hstored (fun _ => rfl) rfl (fun h => by cases h) rfl rfl ?_
  intro ch r world' _ _ hstored hok
  cases r with
  | error err => cases hok
  | ok _ =>
      refine ends_success hstored (fun _ => rfl) rfl (fun h => by cases h) rfl rfl ?_
      intro ch r world' _ _ hstored hok
      cases r with
      | error err => cases hok
      | ok _ =>
          refine ends_success hstored (fun _ => rfl) rfl (fun h => by cases h) rfl rfl ?_
          intro ch r world' _ _ hstored hok
          cases r with
          | error err => cases hok
          | ok _ => exact startServer_ends hstored

/-- A stored backup can be fetched into an empty directory. -/
theorem fetchBackup_ends (hstored : JobStored jobID world)
    (hsource : (world.storage.source req.backupName).isSome = true)
    (hempty : (world.dirs (locate w.dataDir)).files.keys = []) :
    Ends w locate i (fun world _ => Succeeds jobID world) world
      (w.fetchBackup req jobID) := by
  rcases Option.isSome_iff_exists.1 hsource with ⟨stored, hstoredBackup⟩
  refine ends_update hstored fun world hstored hstorage hdirs => ?_
  let fetched : WalGWorld := world.setDir (locate w.dataDir)
    { world.dirs (locate w.dataDir) with whole := true, files := stored.files }
  have hexec : world.exec locate i (.command (.backupFetch w.dataDir req.backupName)) {} =
      some (.ok "", fetched) := by
    simp [WalGWorld.exec, WalGWorld.runCommand, hstorage, hdirs, hempty, hstoredBackup, fetched]
  refine ends_success hstored (fun _ => rfl) rfl (fun h => by cases h) hexec rfl ?_
  intro ch r world' _ _ hstored hok
  cases r with
  | error out => cases hok
  | ok out => exact configureRecovery_ends hstored

/-- What the cleaning of `dir` leaves. -/
structure Emptied (locate : String → Nat) (dir : String) (jobID : JobID)
    (storage : Storage) (world : WalGWorld) : Prop where
  stored : JobStored jobID world
  storage_eq : world.storage = storage
  empty : (world.dirs (locate dir)).files.keys = []

theorem removeEntries_ends {dir : String} {entries : List String}
    (hstored : JobStored jobID world)
    (hkeys : (world.dirs (locate dir)).files.keys = entries) :
    Ends w locate i (fun world' r => Emptied locate dir jobID world.storage world' ∧ r.isOk = true)
      world (WalG.removeEntries dir entries) := by
  induction entries generalizing world with
  | nil => exact ⟨⟨hstored, rfl, hkeys⟩, rfl⟩
  | cons name entries ih =>
      refine ends_success hstored (fun _ => rfl) rfl (fun h => by cases h) rfl rfl ?_
      intro ch r world' hch hexec hstored hok
      cases r with
      | error err => cases hok
      | ok _ =>
          simp only [WalGWorld.exec, hch, if_true, Option.some.injEq, Prod.mk.injEq] at hexec
          rcases hexec with ⟨_, rfl⟩
          -- The entries that are left are those still to be removed.
          refine ih hstored ?_
          simp [WalGWorld.setDir, AList.keys_erase, hkeys]

theorem cleanDir_ends (hblank : trimSpace w.dataDir ≠ "") (hstored : JobStored jobID world) :
    Ends w locate i
      (fun world' r =>
        Emptied locate (trimSpace w.dataDir) jobID world.storage world' ∧ r.isOk = true)
      world (WalG.cleanDir w.dataDir) := by
  unfold WalG.cleanDir
  dsimp only
  rw [if_neg hblank]
  refine ends_success hstored (fun _ => rfl) rfl (fun h => by cases h) rfl rfl ?_
  intro ch r world' hch hexec hstored hok
  cases r with
  | error err => cases hok
  | ok entries =>
      simp only [WalGWorld.exec, hch, if_true, Option.some.injEq, Prod.mk.injEq,
        Except.ok.injEq] at hexec
      rcases hexec with ⟨hkeys, rfl⟩
      exact removeEntries_ends hstored hkeys

theorem cleanDataDir_ends (hblank : trimSpace w.dataDir ≠ "") (hstored : JobStored jobID world)
    (hfetch : Fetchable w locate req world) :
    Ends w locate i (fun world _ => Succeeds jobID world) world
      (w.cleanDataDir req jobID) := by
  refine ends_update hstored fun world hstored hstorage _ => mustEnd_bind ?_
  -- The cleaning empties the trimmed path; the fetch looks into the path as configured.
  refine mustEnd_mono ?_ (cleanDir_ends hblank hstored)
  rintro world' r ⟨hemptied, hok⟩
  cases r with
  | error err => cases hok
  | ok _ =>
      refine fetchBackup_ends hemptied.stored ?_ ?_
      · rw [hemptied.storage_eq, hstorage]
        exact hfetch.1
      · rw [← hfetch.2]
        exact hemptied.empty

/-- A running server can be stopped, and everything after that succeeds. -/
theorem restoreBody_ends (hblank : trimSpace w.dataDir ≠ "")
    (hrunning : (world.dirs (locate w.dataDir)).running = true)
    (hstored : JobStored jobID world) (hfetch : Fetchable w locate req world) :
    Ends w locate i (fun world _ => Succeeds jobID world) world
      (w.restoreBody req jobID) := by
  unfold WalG.restoreBody
  rw [if_neg hblank]
  refine ends_update hstored fun world' hstored hstorage hdirs => ?_
  -- The stop has one outcome, because a server is running.
  have hstop : ∀ ch : WalGChoice, ch.ok = true →
      world'.exec locate i (.command (.pgCtlStop w.dataDir)) ch =
        some (.ok ch.output, world'.setRunning (locate w.dataDir) false) := by
    intro ch hch
    simp [WalGWorld.exec, WalGWorld.runCommand, hdirs, hrunning, hch]
  refine mustEnd_perform rfl ⟨{}, _, _, ⟨rfl, fun hne => absurd rfl hne⟩, hstop {} rfl⟩ ?_
  intro ch r world'' hok hexec
  have heq := (hstop ch hok.1).symm.trans hexec
  cases heq
  refine cleanDataDir_ends hblank hstored ⟨?_, hfetch.2⟩
  exact hstorage.symm ▸ hfetch.1

theorem restoreJob_ends (hblank : trimSpace w.dataDir ≠ "")
    (hrunning : (world.dirs (locate w.dataDir)).running = true)
    (hfree : world.opMu = none) (hstored : JobStored jobID world)
    (hfetch : Fetchable w locate req world) :
    Ends w locate i (fun world _ => Succeeds jobID world) world
      (WalG.underOpMu (w.restoreBody req jobID)) := by
  have hlock : ∀ ch : WalGChoice,
      world.exec locate i .lock ch = some ((), { world with opMu := some i }) := by
    intro ch
    simp [WalGWorld.exec, hfree]
  refine mustEnd_perform rfl ⟨{}, _, _, ⟨rfl, fun _ _ _ _ => rfl⟩, hlock {}⟩ ?_
  intro ch r world' _ hexec
  have heq := (hlock ch).symm.trans hexec
  cases heq
  refine mustEnd_bind (mustEnd_mono ?_ (restoreBody_ends hblank hrunning hstored hfetch))
  intro world' _ hsucceeds
  refine mustEnd_perform rfl ⟨{}, _, _, ⟨rfl, fun _ _ _ _ => rfl⟩, rfl⟩ ?_
  intro ch r world'' _ hexec
  cases hexec
  exact hsucceeds

/-! ## A further restore without a running server -/

/-- The restore can end, and when it has ended so its job has failed. -/
theorem restoreJob_canFail (hfree : world.opMu = none) (hstored : JobStored jobID world)
    (hcond : ¬ (trimSpace w.dataDir ≠ "" ∧ (world.dirs (locate w.dataDir)).running = true)) :
    CanEnd (walgSystem w locate) (furtherOk w locate) i
      (fun world _ => world.jobs.status? jobID = some .failed) world
      (WalG.underOpMu (w.restoreBody req jobID)) := by
  have hfail : ∀ (world : WalGWorld) message details, JobStored jobID world →
      CanEnd (walgSystem w locate) (furtherOk w locate) i
        (fun world _ => CanEnd (walgSystem w locate) (furtherOk w locate) i
          (fun world _ => world.jobs.status? jobID = some .failed) world
          (WalG.perform .unlock >>= fun _ => pure WalGResult.returned)) world
        (WalG.perform (.jobs (.fail jobID message details))) := by
    intro world message details hstored
    refine ⟨rfl, {}, (), _, ⟨rfl, fun _ _ _ _ => rfl⟩, rfl, ?_⟩
    refine canEnd_perform rfl {} ⟨rfl, fun _ _ _ _ => rfl⟩ rfl ?_
    exact JobStore.status?_finish_of_isSome hstored 1 .failed message details none
  have hlock : world.exec locate i .lock {} = some ((), { world with opMu := some i }) := by
    simp [WalGWorld.exec, hfree]
  refine canEnd_perform rfl {} ⟨rfl, fun _ _ _ _ => rfl⟩ hlock (canEnd_bind ?_)
  unfold WalG.restoreBody
  by_cases hblank : trimSpace w.dataDir = ""
  · rw [if_pos hblank]
    exact hfail _ _ _ hstored
  · rw [if_neg hblank]
    have hstopped : (world.dirs (locate w.dataDir)).running = false := by
      cases hrunning : (world.dirs (locate w.dataDir)).running with
      | false => rfl
      | true => exact absurd ⟨hblank, hrunning⟩ hcond
    let updated : WalGWorld :=
      { world with
        opMu := some i
        jobs := world.jobs.update 1 jobID "stopping PostgreSQL" "" }
    have hstop : updated.exec locate i (.command (.pgCtlStop w.dataDir)) {} =
        some (.error "", updated.setRunning (locate w.dataDir) false) := by
      simp [WalGWorld.exec, WalGWorld.runCommand, updated, hstopped]
    refine canEnd_perform rfl {} ⟨rfl, fun _ _ _ _ => rfl⟩ rfl ?_
    -- There is nothing to stop.
    refine canEnd_perform rfl {} ⟨rfl, fun hne => absurd rfl hne⟩ hstop ?_
    exact hfail _ _ _ (JobStore.isSome_get_update hstored 1 "stopping PostgreSQL" "")

/-! ## From the request to the job -/

/-- The call that registers the job of an accepted request. -/
def startCall (req : RestoreRequest) : JobCall :=
  .start "restore" (WalG.restoreLabel req) "" "restore queued" [("backupName", req.backupName)]

def restoreResponse (req : RestoreRequest) (jobID : JobID) : BackupTriggerResponse JobID where
  message := WalG.restoreMessage req
  status := "running"
  jobID := jobID

theorem restoreBackup_accepted {req : RestoreRequest} (h : Accepted req) :
    WalG.restoreBackup req =
      .act (.jobs (startCall req)) fun job =>
        .act (.go (.restoreJob req job.id)) fun _ =>
          .done (.triggered (restoreResponse req job.id)) := by
  unfold WalG.restoreBackup
  rw [if_neg h.1]
  by_cases hpitr : WalG.isPITR req = true
  · rcases Option.isSome_iff_exists.1 (h.2 hpitr) with ⟨t, ht⟩
    simp [hpitr, ht, startCall, restoreResponse]
  · simp [hpitr, startCall, restoreResponse]

/-- The job of the request is listed, and its goroutine is about to be started. -/
structure JobListed (c c₁ : WalGConfig w locate) (req : RestoreRequest) (jobID : JobID) :
    Prop where
  alone : c₁.Alone c.threads.length (.act (.go (.restoreJob req jobID)) fun _ =>
    .done (.triggered (restoreResponse req jobID)))
  length : c₁.threads.length = c.threads.length + 1
  stored : JobStored jobID c₁.world
  opMu : c₁.world.opMu = c.world.opMu
  storage : c₁.world.storage = c.world.storage
  dirs : c₁.world.dirs = c.world.dirs

/-- The goroutine has been started as a thread of its own, and all others have finished. -/
structure JobStarted (c c₂ : WalGConfig w locate) (req : RestoreRequest) (jobID : JobID) :
    Prop where
  alone : c₂.Alone (c.threads.length + 1) (WalG.underOpMu (w.restoreBody req jobID))
  entry : ∃ t, c₂.threads[c.threads.length + 1]? = some t ∧ t.entry = .restoreJob req jobID
  stored : JobStored jobID c₂.world
  opMu : c₂.world.opMu = c.world.opMu
  storage : c₂.world.storage = c.world.storage
  dirs : c₂.world.dirs = c.world.dirs

variable {c c₁ c₂ c' : WalGConfig w locate} {l : Label WalGChoice WalGEnv WalGEntry}

theorem alone_of_request (hquiet : c.Quiet) (hreq : Accepted req) :
    (c.spawn (.restoreBackup req)).Alone c.threads.length
      (.act (.jobs (startCall req)) fun job =>
        .act (.go (.restoreJob req job.id)) fun _ =>
          .done (.triggered (restoreResponse req job.id))) := by
  have halone := Config.alone_spawn hquiet (.restoreBackup req)
  rw [show (walgSystem w locate).body (.restoreBackup req) = WalG.restoreBackup req from rfl,
    restoreBackup_accepted hreq] at halone
  exact halone

theorem jobListed_of_step (hquiet : c.Quiet) (hjobs : c.world.jobs.WellFormed)
    (hreq : Accepted req)
    (hok : Config.Allowed (furtherOk w locate) (c.spawn (.restoreBackup req)) l)
    (hstep : (c.spawn (.restoreBackup req)).step l = some c₁) :
    ∃ jobID, JobListed c c₁ req jobID := by
  have halone := alone_of_request hquiet hreq
  rcases halone.inversion hok hstep with ⟨t, ch, job, world, ht, _, hexec, hrest, rfl⟩
  have halone₁ := halone.resume ht hrest job world
  have hlen : ((c.spawn (.restoreBackup req)).resume world c.threads.length
      (t.advance hrest job) none).threads.length = c.threads.length + 1 := by
    simp [Config.resume, Config.spawn]
  cases hexec
  have hstart := JobStore.get_start hjobs ch.now "restore" (WalG.restoreLabel req) ""
    "restore queued" [("backupName", req.backupName)]
  exact ⟨_, halone₁, hlen, Option.isSome_iff_exists.2 ⟨_, hstart⟩, rfl, rfl, rfl⟩

theorem jobStarted_of_step (h : JobListed c c₁ req jobID)
    (hok : Config.Allowed (furtherOk w locate) c₁ l) (hstep : c₁.step l = some c₂) :
    JobStarted c c₂ req jobID := by
  rcases h.alone.inversion hok hstep with ⟨t, ch, r, world, _, _, hexec, hrest, rfl⟩
  have halone := h.alone.handOver hrest r rfl world (.restoreJob req jobID)
  have hfork := Config.resume_getElem?_fork (c := c₁) (w := world) (i := c.threads.length)
    (t := t.advance hrest r) (e := .restoreJob req jobID)
  rw [h.length] at halone hfork
  cases hexec
  exact ⟨halone, ⟨_, hfork, rfl⟩, h.stored, h.opMu, h.storage, h.dirs⟩

abbrev FurtherRun (c c' : WalGConfig w locate) : Prop :=
  Within Config.step (Config.Allowed (furtherOk w locate)) c c'

/-- However far the request has got, its goroutine will be started. -/
theorem jobStarted_of_run (hquiet : c.Quiet) (hjobs : c.world.jobs.WellFormed)
    (hreq : Accepted req) (hrun : FurtherRun (c.spawn (.restoreBackup req)) c') :
    ∃ c₂ jobID, JobStarted c c₂ req jobID ∧ FurtherRun (c.spawn (.restoreBackup req)) c₂ ∧
      (FurtherRun c' c₂ ∨ FurtherRun c₂ c') := by
  have hsecond : ∀ {c₁ : WalGConfig w locate} {jobID : JobID}, JobListed c c₁ req jobID →
      ∃ c₂, JobStarted c c₂ req jobID ∧ FurtherRun c₁ c₂ := by
    intro c₁ jobID hlisted
    have hok : furtherOk w locate c₁.world c.threads.length (.go (.restoreJob req jobID)) {} :=
      ⟨rfl, fun _ _ _ _ => rfl⟩
    rcases hlisted.alone.enabled hok rfl with ⟨c₂, hok, hstep⟩
    exact ⟨c₂, jobStarted_of_step hlisted hok hstep, Within.refl.tail hok hstep⟩
  -- The first two steps list the job and start its goroutine; the run may stop before either.
  rcases Relation.ReflTransGen.cases_head hrun with rfl | ⟨c₁, ⟨l, hok, hstep⟩, htail⟩
  · have hok : furtherOk w locate c.world c.threads.length (.jobs (startCall req)) {} :=
      ⟨rfl, fun _ _ _ _ => rfl⟩
    rcases (alone_of_request hquiet hreq).enabled hok rfl with ⟨c₁, hok, hstep⟩
    rcases jobListed_of_step hquiet hjobs hreq hok hstep with ⟨jobID, hlisted⟩
    rcases hsecond hlisted with ⟨c₂, hstarted, hrun₂⟩
    have hrun₂ := (Within.refl.tail hok hstep).trans hrun₂
    exact ⟨c₂, jobID, hstarted, hrun₂, Or.inl hrun₂⟩
  · have hrun₁ := Within.refl.tail hok hstep
    rcases jobListed_of_step hquiet hjobs hreq hok hstep with ⟨jobID, hlisted⟩
    rcases Relation.ReflTransGen.cases_head htail with rfl | ⟨c₂, ⟨l', hok', hstep'⟩, htail'⟩
    · rcases hsecond hlisted with ⟨c₂, hstarted, hrun₂⟩
      exact ⟨c₂, jobID, hstarted, hrun₁.trans hrun₂, Or.inl hrun₂⟩
    · have hstarted := jobStarted_of_step hlisted hok' hstep'
      exact ⟨c₂, jobID, hstarted, hrun₁.tail hok' hstep', Or.inr htail'⟩

/-! ## States between the jobs -/

theorem jobs_wellFormed {world : WalGWorld} (hjobs : world.jobs.WellFormed)
    (hrun : Reach Config.step (Config.initial (walgSystem w locate) world) c) :
    c.world.jobs.WellFormed := by
  refine hrun.invariant (I := fun c => c.world.jobs.WellFormed) ?_ hjobs
  intro c l c' hwell _ hstep
  cases Config.moves_of_step hstep with
  | arrive _ => exact hwell
  | @env x world' hx =>
      cases x <;> cases hx <;> exact hwell
  | @act i ch t a next r world' ht hrest hexec =>
      cases hcall : jobCall? ⟨a, r⟩ with
      | none =>
          have heq := jobs_of_exec hcall hexec
          simp only [Config.resume_world, heq]
          exact hwell
      | some call =>
          cases a with
          | jobs call =>
              cases hexec
              exact JobStore.wellFormed_exec hwell ch.now call
          | _ => cases hcall

/-- Between the jobs the lock is free. -/
theorem opMu_of_quiet {world : WalGWorld} (hfree : world.opMu = none)
    (hrun : Reach Config.step (Config.initial (walgSystem w locate) world) c) (hquiet : c.Quiet) :
    c.world.opMu = none := by
  have hholder : (opMuSpec w locate).HolderInv c :=
    LockSpec.holderInv (opMu_disciplined w locate) hfree hrun
  cases hopMu : c.world.opMu with
  | none => rfl
  | some j =>
      have hlt : j < c.threads.length := hholder.2 j hopMu
      have ht : c.threads[j]? = some c.threads[j] := List.getElem?_eq_getElem hlt
      -- The holder would be inside, but a finished thread is outside.
      have hin : insideOpMu c.threads[j] = true := (hholder.1 j _ ht).2 hopMu
      rcases Thread.finished_iff.1 (hquiet _ (List.getElem_mem hlt)) with ⟨x, hx⟩
      have hout := (opMu_disciplined w locate).outside_of_done hx
      exact absurd (hin.symm.trans hout) (by decide)

/-- A further restore can fail when no server runs or no directory is configured. -/
theorem retry_fails (hquiet : c.Quiet) (hwell : c.world.jobs.WellFormed)
    (hopMu : c.world.opMu = none) (hreq : Accepted req)
    (hcond : ¬ (trimSpace w.dataDir ≠ "" ∧ (c.world.dirs (locate w.dataDir)).running = true)) :
    ¬ RestoreRepeats c req := by
  intro hrepeats
  rcases jobStarted_of_run hquiet hwell hreq Within.refl with ⟨c₂, jobID, hstarted, hrun₂, _⟩
  have hcan : CanEnd (walgSystem w locate) (furtherOk w locate) (c.threads.length + 1)
      (fun world _ => world.jobs.status? jobID = some .failed) c₂.world
      (WalG.underOpMu (w.restoreBody req jobID)) := by
    refine restoreJob_canFail (hstarted.opMu.trans hopMu) hstarted.stored ?_
    rw [hstarted.dirs]
    exact hcond
  rcases hstarted.alone.canEnd hcan with ⟨c', hrun', hquiet', _, hfailed⟩
  rcases hrepeats c' (hrun₂.trans hrun') with ⟨c'', hrun'', _, t, jobID', ht, hentry, hsucceeded⟩
  -- The job has come to its end in `c'` already.
  have heq := hquiet'.eq_of_within hrun''
  subst heq
  rcases Config.entry_of_within hrun' hstarted.entry with ⟨t', ht', hentry'⟩
  rw [ht] at ht'
  cases ht'
  rw [hentry] at hentry'
  cases hentry'
  rw [hfailed] at hsucceeded
  cases hsucceeded

theorem retry_succeeds (hquiet : c.Quiet) (hwell : c.world.jobs.WellFormed)
    (hopMu : c.world.opMu = none) (hreq : Accepted req) (hfetch : Fetchable w locate req c.world)
    (hblank : trimSpace w.dataDir ≠ "")
    (hrunning : (c.world.dirs (locate w.dataDir)).running = true) : RestoreRepeats c req := by
  intro c' hrun'
  rcases jobStarted_of_run hquiet hwell hreq hrun' with ⟨c₂, jobID, hstarted, _, hrun₂⟩
  have hfetch₂ : Fetchable w locate req c₂.world := ⟨hstarted.storage ▸ hfetch.1, hfetch.2⟩
  have hmust : Ends w locate (c.threads.length + 1) (fun world _ => Succeeds jobID world)
      c₂.world (WalG.underOpMu (w.restoreBody req jobID)) :=
    restoreJob_ends hblank (hstarted.dirs ▸ hrunning) (hstarted.opMu.trans hopMu)
      hstarted.stored hfetch₂
  -- The run has reached the start of the goroutine, or is about to.
  have hend : ∃ c'', FurtherRun c' c'' ∧ FurtherRun c₂ c'' ∧ c''.Quiet ∧
      Succeeds jobID c''.world := by
    rcases hrun₂ with hto | hfrom
    · rcases hstarted.alone.mustEnd hmust Within.refl with ⟨c'', hrun'', hquiet'', _, hsucceeds⟩
      exact ⟨c'', hto.trans hrun'', hrun'', hquiet'', hsucceeds⟩
    · rcases hstarted.alone.mustEnd hmust hfrom with ⟨c'', hrun'', hquiet'', _, hsucceeds⟩
      exact ⟨c'', hrun'', hfrom.trans hrun'', hquiet'', hsucceeds⟩
  rcases hend with ⟨c'', hrun'', hrun₂'', hquiet'', hsucceeds⟩
  rcases Config.entry_of_within hrun₂'' hstarted.entry with ⟨t, ht, hentry⟩
  exact ⟨c'', hrun'', hquiet'', t, jobID, ht, hentry, hsucceeds⟩

/-- In every state between the jobs: an accepted restore that can fetch its backup ends with status
succeeded exactly when the path of the data directory is not blank and a server runs on it. -/
theorem restore_repeats_iff (w : WalG) (locate : String → Nat) (world : WalGWorld)
    (hfree : world.opMu = none) (hjobs : world.jobs.WellFormed) (c : WalGConfig w locate)
    (hrun : Reach Config.step (Config.initial (walgSystem w locate) world) c) (hquiet : c.Quiet)
    (req : RestoreRequest) (hreq : Accepted req) (hfetch : Fetchable w locate req c.world) :
    RestoreRepeats c req ↔
      trimSpace w.dataDir ≠ "" ∧ (c.world.dirs (locate w.dataDir)).running = true := by
  have hopMu := opMu_of_quiet hfree hrun hquiet
  have hwell := jobs_wellFormed hjobs hrun
  constructor
  · intro hrepeats
    by_contra hcond
    exact retry_fails hquiet hwell hopMu hreq hcond hrepeats
  · rintro ⟨hblank, hrunning⟩
    exact retry_succeeds hquiet hwell hopMu hreq hfetch hblank hrunning

/-! ## Concrete runs -/

def retriedRestore : RestoreRequest := { backupName := "base_1" }

theorem accepted_retriedRestore : Accepted retriedRestore :=
  ⟨by decide, fun h => absurd h (by decide)⟩

theorem restore_repeats_iff_running :
    RestoreRepeats (Config.initial (walgSystem exampleWalG exampleLocate) exampleWorld)
      retriedRestore := by
  refine (restore_repeats_iff exampleWalG exampleLocate exampleWorld rfl JobStore.wellFormed_new _
    Within.refl (fun t ht => by cases ht) retriedRestore accepted_retriedRestore ?_).2 ?_
  · exact ⟨by decide +kernel, rfl⟩
  · exact ⟨by decide +kernel, rfl⟩

/-- A restore whose fetch fails. -/
def failedRestore : List (Label WalGChoice WalGEnv WalGEntry) :=
  [.arrive (.restoreBackup retriedRestore)] ++ List.replicate 2 (stepOf 0) ++
    List.replicate 7 (stepOf 1) ++ [.step 1 { ok := false }] ++ List.replicate 2 (stepOf 1)

theorem failed_not_repeated :
    ¬ ∀ (c : WalGConfig exampleWalG exampleLocate) (req : RestoreRequest),
      Reach Config.step (Config.initial (walgSystem exampleWalG exampleLocate) exampleWorld) c →
        c.Quiet → Accepted req → Fetchable exampleWalG exampleLocate req c.world →
          RestoreRepeats c req := by
  intro hall
  have hend : (run Config.step (Config.initial (walgSystem exampleWalG exampleLocate) exampleWorld)
      failedRestore).any (fun c => c.threads.all Thread.finished && !(c.world.dirs 0).running &&
        (c.world.storage.source "base_1").isSome) = true := by
    decide +kernel
  rcases exists_reach_of_run hend with ⟨c, hreach, htest⟩
  simp only [Bool.and_eq_true, Bool.not_eq_true', List.all_eq_true] at htest
  rcases htest with ⟨⟨hquiet, hstopped⟩, hsource⟩
  have hwell := jobs_wellFormed JobStore.wellFormed_new hreach
  have hopMu := opMu_of_quiet (show exampleWorld.opMu = none from rfl) hreach hquiet
  refine retry_fails hquiet hwell hopMu accepted_retriedRestore ?_
    (hall c retriedRestore hreach hquiet accepted_retriedRestore ⟨hsource, rfl⟩)
  rintro ⟨_, hrunning⟩
  rw [show exampleLocate exampleWalG.dataDir = 0 from rfl, hstopped] at hrunning
  cases hrunning

end Service
end Pgaio
