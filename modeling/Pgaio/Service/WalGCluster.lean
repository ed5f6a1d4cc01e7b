import Pgaio.Service.WalGLock

/-!
# WalGCluster — the data directory under the lock

The storage and the contents of the data directories are changed only by jobs that hold `opMu`.
`Progress` is what a restore inside its critical section knows about them after the steps it has
done; the rule for protected resources carries it through every interleaving.
-/

namespace Pgaio
namespace Service

open Go Model Concurrency Transition
open Program (wp wp_mono)

/-- The part of the world that only jobs under the lock change. -/
@[ext]
structure ClusterView where
  storage : Storage
  files : Nat → DataFiles
  whole : Nat → Bool

namespace WalGWorld

variable {locate : String → Nat} {world : WalGWorld}

def cluster (world : WalGWorld) : ClusterView where
  storage := world.storage
  files := fun d => (world.dirs d).files
  whole := fun d => (world.dirs d).whole

theorem cluster_setRunning (d : Nat) (running : Bool) :
    (world.setRunning d running).cluster = world.cluster := by
  have hdir : ∀ e, ((world.setRunning d running).dirs e).files = (world.dirs e).files ∧
      ((world.setRunning d running).dirs e).whole = (world.dirs e).whole := by
    intro e
    by_cases he : e = d
    · subst he
      simp [setRunning]
    · simp [setRunning, setDir_ne he]
  ext1
  · rfl
  · exact funext fun e => (hdir e).1
  · exact funext fun e => (hdir e).2

@[simp] theorem cluster_storage : world.cluster.storage = world.storage := rfl

@[simp] theorem cluster_files (d : Nat) : world.cluster.files d = (world.dirs d).files := rfl

@[simp] theorem cluster_whole (d : Nat) : world.cluster.whole d = (world.dirs d).whole := rfl

end WalGWorld

def WalGAct.touchesCluster : WalGAct → Bool
  | .command (.backupPush _ _) => true
  | .command (.deleteRetainFull _) => true
  | .command (.backupFetch _ _) => true
  | .removeAll _ _ => true
  | .writeFile _ _ _ => true
  | .openAppend _ _ => true
  | .writeString _ _ _ => true
  | _ => false

theorem cluster_untouched {locate : String → Nat} {world world' : WalGWorld} {i : Nat}
    {a : WalGAct} {ch : WalGChoice} {r : a.Resp} (ha : a.touchesCluster = false)
    (hexec : world.exec locate i a ch = some (r, world')) : world'.cluster = world.cluster := by
  cases a with
  | command cmd =>
      -- The commands of `pg_ctl` change the server and leave the files.
      cases cmd with
      | pgCtlStop dir =>
          simp only [WalGWorld.exec, WalGWorld.runCommand] at hexec
          split at hexec <;> cases hexec <;> exact WalGWorld.cluster_setRunning _ _
      | pgCtlStart dir =>
          simp only [WalGWorld.exec, WalGWorld.runCommand] at hexec
          split at hexec <;> cases hexec <;> exact WalGWorld.cluster_setRunning _ _
      | pgCtlRestart dir =>
          simp only [WalGWorld.exec, WalGWorld.runCommand] at hexec
          split at hexec <;> cases hexec <;> exact WalGWorld.cluster_setRunning _ _
      | _ => cases ha
  | lock =>
      simp only [WalGWorld.exec] at hexec
      split at hexec <;> cases hexec
      rfl
  | removeAll dir name => cases ha
  | writeFile dir name content => cases ha
  | openAppend dir name => cases ha
  | writeString dir name content => cases ha
  | _ =>
      cases hexec
      rfl

/-- The actions that only a job inside its critical section performs. -/
def WalGAct.needsLock (a : WalGAct) : Bool :=
  a.touchesCluster || decide (0 < a.step)

theorem needsLock_inside (w : WalG) (e : WalGEntry) :
    wp (fun past a => a.needsLock = true → inside WalGAct.lockOp past = true)
      (fun _ _ => True) [] (e.body w) := by
  -- Between `Lock` and `Unlock` a body that leaves the lock alone is always inside.
  have hunder : ∀ body : WalGProgram Unit,
      wp (fun _ a => a.lockOp = .other) (fun _ _ => True) [⟨.lock, ()⟩] body →
        wp (fun past a => a.needsLock = true → inside WalGAct.lockOp past = true)
          (fun _ _ => True) [] (WalG.underOpMu body) := by
    intro body hbody
    refine WalG.wp_underOpMu (fun h => by cases h) ?_
    refine wp_mono ?_ (fun _ _ _ => ⟨fun h => (by cases h), trivial⟩) (wp_inside hbody)
    intro past a h _
    exact h.1
  -- A program without the lock performs no action that needs it.
  have hrequest : ∀ p : WalGProgram WalGResult,
      wp (fun _ a => a.needsLock = false) (fun _ _ => True) [] p →
        wp (fun past a => a.needsLock = true → inside WalGAct.lockOp past = true)
          (fun _ _ => True) [] p := by
    intro p hp
    refine wp_mono ?_ (fun _ _ h => h) hp
    intro past a hno hyes
    rw [hno] at hyes
    cases hyes
  cases e with
  | triggerBackup kind =>
      refine hrequest _ (wp_mono ?_ (fun _ _ h => h) (entry_wp w (.triggerBackup kind)))
      rintro past a (⟨call, rfl⟩ | ⟨jobID, rfl⟩) <;> rfl
  | restoreBackup req =>
      refine hrequest _ (wp_mono ?_ (fun _ _ h => h) (entry_wp w (.restoreBackup req)))
      rintro past a (⟨call, rfl⟩ | ⟨_, jobID, rfl⟩) <;> rfl
  | restartPostgreSQL =>
      refine hrequest _ (wp_mono ?_ (fun _ _ h => h) (entry_wp w .restartPostgreSQL))
      rintro past a rfl
      rfl
  | restartJob =>
      refine hrequest _ (wp_mono ?_ (fun _ _ h => h) (entry_wp w .restartJob))
      rintro past a rfl
      rfl
  | backupJob kind jobID => exact hunder _ ((jobBody_other w).1 kind jobID)
  | restoreJob req jobID => exact hunder _ ((jobBody_other w).2 req jobID)

theorem insideOpMu_of_needsLock {w : WalG} {locate : String → Nat}
    {t : Thread (walgSystem w locate)} {a : WalGAct} (h : t.action? = some a)
    (ha : a.needsLock = true) : insideOpMu t = true := by
  rcases Thread.action?_eq_some.1 h with ⟨next, hrest⟩
  have hwp := t.wp (needsLock_inside w t.entry)
  rw [hrest] at hwp
  exact hwp.1 ha

def clusterSpec (w : WalG) (locate : String → Nat) :
    LockSpec.Protected (opMuSpec w locate) ClusterView where
  view := WalGWorld.cluster
  touches := WalGAct.touchesCluster
  lock_other := by
    intro a ha
    cases a with
    | lock => cases ha
    | unlock => cases ha
    | _ => rfl
  untouched := fun ha hexec => cluster_untouched ha hexec
  env_untouched := by
    intro world x world' henv
    cases x with
    | setRetainCount retain =>
        cases henv
        rfl
    | serverExits d =>
        cases henv
        exact WalGWorld.cluster_setRunning d false
  guarded := fun e => wp_mono (fun _ a h ha => h (by simp [WalGAct.needsLock, ha]))
    (fun _ _ h => h) (needsLock_inside w e)

/-! ## What a restore knows -/

/-- The text of postgresql.auto.conf; a missing file reads as an empty one. -/
def confText (files : DataFiles) : String :=
  (files.lookup "postgresql.auto.conf").getD ""

/-- What the steps done so far say about the data directory of a restore. -/
structure Progress (w : WalG) (locate : String → Nat) (req : RestoreRequest)
    (past : List WalGEvent) (v : ClusterView) : Prop where
  whole : Did past (w.fetch req) → v.whole (locate w.dataDir) = true
  copied : Did past (w.fetch req) → StepsBelow 7 past →
    ∃ stored, v.storage.source req.backupName = some stored ∧
      confText (v.files (locate w.dataDir)) = confText stored.files
  configured : Did past (w.writeSettings req) →
    ∃ stored, v.storage.source req.backupName = some stored ∧
      confText (v.files (locate w.dataDir)) = confText stored.files ++ WalG.recoveryLines req
  started : Did past w.start → Did past (w.writeSettings req)

theorem not_did_of_below {n : Nat} {past : List WalGEvent} {a : WalGAct} (h : StepsBelow n past)
    (ha : n ≤ a.step) : ¬ Did past a := by
  rintro ⟨r, hmem, _⟩
  exact absurd (h _ hmem) (Nat.not_lt.2 ha)

theorem not_did_snoc {n : Nat} {past : List WalGEvent} {a b : WalGAct} {r : a.Resp}
    (h : StepsBelow n past) (hb : n ≤ b.step) (hne : b ≠ a) : ¬ Did (past ++ [⟨a, r⟩]) b := by
  intro hdid
  rcases did_snoc.1 hdid with hold | ⟨heq, _⟩
  · exact not_did_of_below h hb hold
  · exact hne heq

theorem StepsBelow.mono_past {n : Nat} {past es : List WalGEvent} (h : StepsBelow n (past ++ es)) :
    StepsBelow n past :=
  fun e he => h e (List.mem_append_left es he)

section

variable {w : WalG} {locate : String → Nat} {req : RestoreRequest} {past : List WalGEvent}

/-- An action that is no step of the protected part leaves the knowledge as it is. -/
theorem Progress.frame {v : ClusterView} (h : Progress w locate req past v) {a : WalGAct}
    {r : a.Resp} (hfetch : w.fetch req ≠ a) (hsettings : w.writeSettings req ≠ a)
    (hstart : w.start = a → Did past (w.writeSettings req)) :
    Progress w locate req (past ++ [⟨a, r⟩]) v := by
  have hold : ∀ b : WalGAct, b ≠ a → Did (past ++ [⟨a, r⟩]) b → Did past b := by
    intro b hb hdid
    rcases did_snoc.1 hdid with hpast | ⟨heq, _⟩
    · exact hpast
    · exact absurd heq hb
  exact
    { whole := fun hdid => h.whole (hold _ hfetch hdid)
      copied := fun hdid hbelow => h.copied (hold _ hfetch hdid) hbelow.mono_past
      configured := fun hdid => h.configured (hold _ hsettings hdid)
      started := by
        intro hdid
        rcases did_snoc.1 hdid with hpast | ⟨heq, _⟩
        · exact (h.started hpast).append _
        · exact (hstart heq).append _ }

/-- Only the storage and the configuration file of the directory matter. -/
theorem Progress.congr {v v' : ClusterView} (h : Progress w locate req past v)
    (hstorage : v'.storage = v.storage)
    (hwhole : v'.whole (locate w.dataDir) = v.whole (locate w.dataDir))
    (hconf : confText (v'.files (locate w.dataDir)) = confText (v.files (locate w.dataDir))) :
    Progress w locate req past v' where
  whole := fun hdid => hwhole.trans (h.whole hdid)
  copied := by
    intro hdid hbelow
    rw [hstorage, hconf]
    exact h.copied hdid hbelow
  configured := by
    intro hdid
    rw [hstorage, hconf]
    exact h.configured hdid
  started := h.started

/-- Before the fetch there is nothing to know. -/
theorem Progress.of_below {v : ClusterView} (h : StepsBelow 4 past) :
    Progress w locate req past v where
  whole := fun hdid => absurd hdid (not_did_of_below h (Nat.le_refl 4))
  copied := fun hdid _ => absurd hdid (not_did_of_below h (Nat.le_refl 4))
  configured := fun hdid => absurd hdid (not_did_of_below h (show 4 ≤ 7 by decide))
  started := fun hdid => absurd hdid (not_did_of_below h (show 4 ≤ 8 by decide))

theorem confText_insert_ne {files : DataFiles} {name content : String}
    (h : name ≠ "postgresql.auto.conf") :
    confText (files.insert name content) = confText files := by
  simp only [confText, AList.lookup_insert_ne (Ne.symm h)]

theorem confText_leave_ne {files : DataFiles} {name : String} {left : Option String}
    (h : name ≠ "postgresql.auto.conf") :
    confText (WalGWorld.leave files name left) = confText files := by
  cases left with
  | none => simp only [WalGWorld.leave, confText, AList.lookup_erase_ne (Ne.symm h)]
  | some content => exact confText_insert_ne h

theorem progress_fetch {world world' : WalGWorld} {i : Nat} {ch : WalGChoice}
    {r : (w.fetch req).Resp} (hbelow : StepsBelow 4 past)
    (hexec : world.exec locate i (w.fetch req) ch = some (r, world')) :
    Progress w locate req (past ++ [⟨w.fetch req, r⟩]) world'.cluster := by
  -- The steps after the fetch have not been tried.
  have hsettings : ¬ Did (past ++ [⟨w.fetch req, r⟩]) (w.writeSettings req) :=
    not_did_snoc hbelow (show 4 ≤ 7 by decide) fun heq => by cases heq
  have hstart : ¬ Did (past ++ [⟨w.fetch req, r⟩]) w.start :=
    not_did_snoc hbelow (show 4 ≤ 8 by decide) fun heq => by cases heq
  -- A fetch that failed leaves nothing to know.
  have hnothing : r.isOk = false →
      Progress w locate req (past ++ [⟨w.fetch req, r⟩]) world'.cluster := by
    intro hfail
    have hnot : ¬ Did (past ++ [⟨w.fetch req, r⟩]) (w.fetch req) := by
      intro hdid
      rcases did_snoc.1 hdid with hold | ⟨_, hok⟩
      · exact absurd hold (not_did_of_below hbelow (Nat.le_refl 4))
      · rw [show (w.fetch req).succeeded r = r.isOk from rfl, hfail] at hok
        cases hok
    exact ⟨fun hdid => absurd hdid hnot, fun hdid => absurd hdid hnot,
      fun hdid => absurd hdid hsettings, fun hdid => absurd hdid hstart⟩
  simp only [WalG.fetch, WalGWorld.exec, WalGWorld.runCommand, Option.some.injEq] at hexec
  split at hexec
  · split at hexec
    · rename_i stored _ hsource
      cases hexec
      exact ⟨fun _ => by simp, fun _ _ => ⟨stored, hsource, by simp⟩,
        fun hdid => absurd hdid hsettings, fun hdid => absurd hdid hstart⟩
    · cases hexec
      exact hnothing rfl
  · cases hexec
    exact hnothing rfl

theorem progress_writeSettings {world world' : WalGWorld} {i : Nat} {ch : WalGChoice}
    {r : (w.writeSettings req).Resp} (hfetch : Did past (w.fetch req)) (hbelow : StepsBelow 7 past)
    (hexec : world.exec locate i (w.writeSettings req) ch = some (r, world'))
    (h : Progress w locate req past world.cluster) :
    Progress w locate req (past ++ [⟨w.writeSettings req, r⟩]) world'.cluster := by
  rcases h.copied hfetch hbelow with ⟨stored, hsource, hcopy⟩
  have hwhole := h.whole hfetch
  refine ⟨fun _ => ?_, fun _ hsettled => ?_, fun hdid => ?_, fun hdid => ?_⟩
  · simp only [WalG.writeSettings, WalGWorld.exec] at hexec
    split at hexec <;> cases hexec <;> simpa [WalGWorld.setFiles] using hwhole
  · -- The settings have been tried, so this is not the state before them.
    have hlast := hsettled ⟨w.writeSettings req, r⟩ (by simp)
    exact absurd hlast (Nat.lt_irrefl 7)
  · -- The settings are appended to the file that the backup captured.
    refine ⟨stored, ?_⟩
    simp only [WalG.writeSettings, WalGWorld.exec] at hexec
    split at hexec
    · cases hexec
      refine ⟨hsource, ?_⟩
      have hold : ((world.dirs (locate w.dataDir)).files.lookup "postgresql.auto.conf").getD "" =
          confText stored.files := hcopy
      simpa [WalGWorld.setFiles, confText] using hold
    · -- A failed write is no success.
      cases hexec
      rcases did_snoc.1 hdid with hold | ⟨_, hok⟩
      · exact absurd hold (not_did_of_below hbelow (Nat.le_refl 7))
      · cases hok
  · exact absurd hdid (not_did_snoc hbelow (show 7 ≤ 8 by decide) fun heq => by cases heq)

/-- Each action of a restore turns what is known before it into what is known after it. -/
theorem progress_step {world world' : WalGWorld} {i : Nat} {a : WalGAct} {ch : WalGChoice}
    {r : a.Resp} (horder : w.RestoreOrder req past a)
    (hexec : world.exec locate i a ch = some (r, world'))
    (h : Progress w locate req past world.cluster) :
    Progress w locate req (past ++ [⟨a, r⟩]) world'.cluster := by
  -- Most actions neither change the directory nor count as a step that is known about.
  have hsame : a.touchesCluster = false → w.fetch req ≠ a → w.writeSettings req ≠ a →
      (w.start = a → Did past (w.writeSettings req)) →
        Progress w locate req (past ++ [⟨a, r⟩]) world'.cluster := by
    intro ha hfetch hsettings hstart
    rw [cluster_untouched ha hexec]
    exact h.frame hfetch hsettings hstart
  cases a with
  | jobs call =>
      exact hsame rfl (fun h => by cases h) (fun h => by cases h) (fun h => by cases h)
  | readDir dir =>
      exact hsame rfl (fun h => by cases h) (fun h => by cases h) (fun h => by cases h)
  | removeAll dir name =>
      -- Entries are removed before the fetch, when nothing is known yet.
      exact .of_below (horder.2.snoc (Nat.le_refl 4) rfl)
  | writeFile dir name content =>
      rcases horder with ⟨hsignal, _, hbelow⟩
      cases hsignal
      have hframe := h.frame (a := w.writeSignal) (r := r) (fun h => by cases h)
        (fun h => by cases h) (fun h => by cases h)
      simp only [WalGWorld.exec] at hexec
      split at hexec
      · cases hexec
        exact hframe.congr (by simp [WalGWorld.setFiles]) (by simp [WalGWorld.setFiles])
          (by simp [WalGWorld.setFiles, confText_insert_ne])
      · cases hexec
        exact hframe.congr (by simp [WalGWorld.setFiles]) (by simp [WalGWorld.setFiles])
          (by simp [WalGWorld.setFiles, confText_leave_ne])
  | openAppend dir name =>
      rcases horder with ⟨hopen, _, hbelow⟩
      cases hopen
      have hframe := h.frame (a := w.openConf) (r := r) (fun h => by cases h)
        (fun h => by cases h) (fun h => by cases h)
      simp only [WalGWorld.exec] at hexec
      split at hexec
      · cases hexec
        exact hframe.congr (by simp [WalGWorld.setFiles]) (by simp [WalGWorld.setFiles])
          (by simp [WalGWorld.setFiles, confText])
      · cases hexec
        exact hframe
  | writeString dir name content =>
      rcases horder with ⟨hsettings, hfetch, hbelow⟩
      cases hsettings
      exact progress_writeSettings hfetch hbelow hexec h
  | command cmd =>
      cases cmd with
      | pgCtlStop dir =>
          exact hsame rfl (fun h => by cases h) (fun h => by cases h) (fun h => by cases h)
      | pgCtlStart dir =>
          exact hsame rfl (fun h => by cases h) (fun h => by cases h) fun _ => horder.2.1.2.2
      | backupFetch dir name =>
          rcases horder with ⟨rfl, rfl, hbelow⟩
          exact progress_fetch hbelow hexec
      | _ => cases horder
  | _ => cases horder

end

/-! ## Every run -/

/-- The knowledge of a thread inside its critical section. -/
def Knows (w : WalG) (locate : String → Nat) (t : Thread (walgSystem w locate))
    (v : ClusterView) : Prop :=
  ∀ req jobID, t.entry = .restoreJob req jobID → Progress w locate req t.past v

theorem knows_of_reach {w : WalG} {locate : String → Nat} {world : WalGWorld}
    (hfree : world.opMu = none) {c : WalGConfig w locate}
    (hrun : Reach Config.step (Config.initial (walgSystem w locate) world) c)
    {t : Thread (walgSystem w locate)} (ht : t ∈ c.threads) (hin : insideOpMu t = true) :
    Knows w locate t c.world.cluster := by
  have hinv := (clusterSpec w locate).invariant (fun _ => True) (Knows w locate)
    (opMu_disciplined w locate) ?_ (fun _ _ _ _ _ _ _ => trivial) ?_
    hfree trivial hrun
  · rcases List.getElem?_of_mem ht with ⟨i, hi⟩
    exact hinv.2.2 i t hi ((hinv.1.1 i t hi).1 hin)
  · -- A restore that takes the lock has not done any step.
    intro t a next hrest r v hop _ req jobID hentry
    have hallows := allows_of_action (Thread.action?_of_rest hrest)
    have hentry' : t.entry = .restoreJob req jobID := hentry
    rw [hentry'] at hallows
    rcases hallows with ⟨rfl, hpast⟩ | rfl | horder
    · refine .of_below ?_
      intro e he
      simp only [Thread.advance_past, hpast, List.nil_append, List.mem_singleton] at he
      subst he
      exact Nat.succ_pos 3
    · cases hop
    · have hother : a.lockOp = .other := restoreOrder_other horder
      exact absurd (hop.symm.trans hother) (by decide)
  · -- Inside, the order of a restore says which action comes next.
    intro t a next hrest i ch r world world' hop _ hexec hknows req jobID hentry
    have hallows := allows_of_action (Thread.action?_of_rest hrest)
    have hentry' : t.entry = .restoreJob req jobID := hentry
    rw [hentry'] at hallows
    rcases hallows with ⟨rfl, _⟩ | rfl | horder
    · cases hop
    · cases hop
    · exact progress_step horder hexec (hknows req jobID hentry')

end Service
end Pgaio
