import Pgaio.Postgres.ConfFile
import Pgaio.Service.WalGCluster

/-!
# WalGRecovery — the recovery target after a restore

A restore appends its settings to the postgresql.auto.conf that the backup captured.  A restore with
a `TargetTime` therefore always gets its own recovery target, because the last assignment counts.  A
plain restore appends no target at all, so a target that an earlier restore left in the captured file
stays in effect (`target_left_over`).  `recovery_target_iff` says exactly when the target in effect
is the requested one.
-/

namespace Pgaio
namespace Service

open Go Model Postgres Concurrency Transition

/-- The recovery target that PostgreSQL takes from the text of postgresql.auto.conf; an empty value
means that there is none. -/
def effectiveTarget (conf : String) : Option String :=
  (lastValue "recovery_target_time" conf.toList).filter fun value => value != ""

def requestedTarget (req : RestoreRequest) : Option String :=
  if WalG.isPITR req then some req.targetTime else none

/-! ## The appended lines -/

def commandLine : List Char :=
  "restore_command = 'wal-g wal-fetch \"%f\" \"%p\"'".toList

def targetLine (req : RestoreRequest) : List Char :=
  WalG.targetTimeText.toList ++ (req.targetTime.toList ++ ['\''])

def actionLine : List Char :=
  "recovery_target_action = 'promote'".toList

/-- The lines that a restore appends. -/
def recoveryLineList (req : RestoreRequest) : List (List Char) :=
  commandLine :: if WalG.isPITR req then [targetLine req, actionLine] else []

/-- The assignments on these lines. -/
def recoverySettings (req : RestoreRequest) : List (String × String) :=
  ("restore_command", "wal-g wal-fetch \"%f\" \"%p\"") ::
    if WalG.isPITR req then
      [("recovery_target_time", req.targetTime), ("recovery_target_action", "promote")]
    else []

/-- The appended text first ends the line before it. -/
theorem recoveryLines_toList (req : RestoreRequest) :
    (WalG.recoveryLines req).toList = '\n' :: unlines (recoveryLineList req) := by
  have hcommand : WalG.restoreCommandText.toList = '\n' :: (commandLine ++ ['\n']) := by decide
  have haction : WalG.targetActionText.toList =
      ['\'', '\n'] ++ (actionLine ++ ['\n']) := by decide
  by_cases hpitr : WalG.isPITR req = true
  · rw [WalG.recoveryLines, if_pos hpitr, String.toList_append, String.toList_append,
      String.toList_append, hcommand, haction, recoveryLineList, if_pos hpitr]
    simp [unlines, targetLine, WalG.targetTimeText]
  · rw [WalG.recoveryLines, if_neg hpitr, String.toList_append, hcommand, recoveryLineList,
      if_neg hpitr]
    simp [unlines]

theorem isPlain_of_isTimeChar {c : Char} (h : isTimeChar c = true) : isPlain c = true := by
  rw [isPlain_iff]
  refine ⟨?_, ?_, ?_⟩ <;> rintro rfl <;> exact absurd h (by decide)

theorem targetTime_chars {req : RestoreRequest} (hreq : Accepted req)
    (hpitr : WalG.isPITR req = true) : ∀ c ∈ req.targetTime.toList, isTimeChar c = true := by
  rcases Option.isSome_iff_exists.1 (hreq.2 hpitr) with ⟨t, hparse⟩
  exact parseWalgTime_chars hparse

def targetName : List Char := "recovery_target_time".toList

/-- An accepted timestamp is read back from its line exactly. -/
theorem parseLine_target {req : RestoreRequest} (hreq : Accepted req)
    (hpitr : WalG.isPITR req = true) :
    parseLine (targetLine req) = some ("recovery_target_time", req.targetTime) := by
  have hhead : targetName.head?.any isLetter = true := by decide
  have hchars : targetName.all isNameChar = true := by decide
  -- No character of a timestamp ends the quoted value or has to be unescaped.
  have hline := parseLine_quoted hhead (List.all_eq_true.1 hchars)
    fun c hc => isPlain_of_isTimeChar (targetTime_chars hreq hpitr c hc)
  have hname : String.ofList (targetName.map Char.toLower) = "recovery_target_time" := by decide
  have hsplit : WalG.targetTimeText.toList = targetName ++ " = '".toList := by decide
  rw [targetLine, hsplit, List.append_assoc, hline, hname, String.ofList_toList]

theorem newline_notMem {req : RestoreRequest} (hreq : Accepted req) :
    ∀ line ∈ recoveryLineList req, '\n' ∉ line := by
  have hcommand : '\n' ∉ commandLine := by decide
  have haction : '\n' ∉ actionLine := by decide
  intro line hline
  by_cases hpitr : WalG.isPITR req = true
  · simp only [recoveryLineList, hpitr, if_true, List.mem_cons, List.not_mem_nil, or_false] at hline
    rcases hline with rfl | rfl | rfl
    · exact hcommand
    · -- The line of the target holds the timestamp between two fixed texts.
      intro hmem
      rcases List.mem_append.1 hmem with hhead | htail
      · exact absurd hhead (by decide)
      · rcases List.mem_append.1 htail with htime | hquote
        · exact absurd (targetTime_chars hreq hpitr _ htime) (by decide)
        · exact absurd hquote (by decide)
    · exact haction
  · simp only [recoveryLineList, hpitr, if_false, List.mem_singleton, Bool.false_eq_true] at hline
    rw [hline]
    exact hcommand

theorem assignments_recoveryLines {req : RestoreRequest} (hreq : Accepted req) :
    assignments (unlines (recoveryLineList req)) = recoverySettings req := by
  have hcommand : parseLine commandLine =
      some ("restore_command", "wal-g wal-fetch \"%f\" \"%p\"") := by decide
  have haction : parseLine actionLine = some ("recovery_target_action", "promote") := by decide
  rw [assignments_unlines (newline_notMem hreq)]
  by_cases hpitr : WalG.isPITR req = true
  · simp [recoveryLineList, recoverySettings, hpitr, hcommand, haction,
      parseLine_target hreq hpitr]
  · simp [recoveryLineList, recoverySettings, hpitr, hcommand]

/-- What the target is after the settings have been appended to a file. -/
theorem effectiveTarget_append {req : RestoreRequest} (hreq : Accepted req) (conf : String) :
    effectiveTarget (conf ++ WalG.recoveryLines req) =
      if WalG.isPITR req then some req.targetTime else effectiveTarget conf := by
  have hlast : lastValue "recovery_target_time" (conf ++ WalG.recoveryLines req).toList =
      (lastOf "recovery_target_time" (recoverySettings req)).or
        (lastValue "recovery_target_time" conf.toList) := by
    calc lastValue "recovery_target_time" (conf ++ WalG.recoveryLines req).toList
        = lastValue "recovery_target_time"
            (conf.toList ++ '\n' :: unlines (recoveryLineList req)) := by
          rw [String.toList_append, recoveryLines_toList]
      _ = (lastValue "recovery_target_time" (unlines (recoveryLineList req))).or
            (lastValue "recovery_target_time" conf.toList) := lastValue_append _ _ _
      _ = _ := by rw [lastValue, assignments_recoveryLines hreq]
  -- The last assignment counts, and only a recovery with a target appends one.
  rw [effectiveTarget, hlast]
  by_cases hpitr : WalG.isPITR req = true
  · have hne : req.targetTime ≠ "" := by simpa [WalG.isPITR] using hpitr
    simp [recoverySettings, hpitr, lastOf, hne]
  · simp [recoverySettings, hpitr, lastOf, effectiveTarget]

/-- Whatever file the lines are appended to, an accepted target adds three settings to it. -/
theorem assignments_append_recoveryLines {req : RestoreRequest} (hreq : Accepted req)
    (hpitr : req.targetTime ≠ "") :
    assignments (WalG.recoveryLines req).toList =
        [("restore_command", "wal-g wal-fetch \"%f\" \"%p\""),
          ("recovery_target_time", req.targetTime), ("recovery_target_action", "promote")] ∧
      ∀ conf : String, assignments (conf ++ WalG.recoveryLines req).toList =
        assignments conf.toList ++ assignments (WalG.recoveryLines req).toList := by
  have hsettings : recoverySettings req =
      [("restore_command", "wal-g wal-fetch \"%f\" \"%p\""),
        ("recovery_target_time", req.targetTime), ("recovery_target_action", "promote")] := by
    simp [recoverySettings, WalG.isPITR, hpitr]
  have happended (conf : List Char) :
      assignments (conf ++ (WalG.recoveryLines req).toList) = assignments conf ++ recoverySettings req := by
    rw [recoveryLines_toList, assignments_append, assignments_recoveryLines hreq]
  -- By themselves the lines are what they add to an empty file.
  have halone : assignments (WalG.recoveryLines req).toList = recoverySettings req := happended []
  refine ⟨halone.trans hsettings, fun conf => ?_⟩
  rw [String.toList_append, happended, halone]

theorem assignments_append_recoveryLines_blanks :
    assignments (WalG.recoveryLines { backupName := "base_1", targetTime := "2026-01-01  08:30:00,5" }).toList =
      [("restore_command", "wal-g wal-fetch \"%f\" \"%p\""),
        ("recovery_target_time", "2026-01-01  08:30:00,5"), ("recovery_target_action", "promote")] :=
  (assignments_append_recoveryLines ⟨by decide, fun _ => by decide +kernel⟩ (by decide)).1

/-! ## Accepted requests -/

theorem accepted_of_reach {w : WalG} {locate : String → Nat} {world : WalGWorld}
    {c : WalGConfig w locate}
    (hrun : Reach Config.step (Config.initial (walgSystem w locate) world) c)
    {t : Thread (walgSystem w locate)} (ht : t ∈ c.threads) {req : RestoreRequest} {jobID : JobID}
    (hentry : t.entry = .restoreJob req jobID) : Accepted req := by
  have hinv : ∀ t ∈ c.threads, ∀ req jobID, t.entry = .restoreJob req jobID → Accepted req := by
    refine Within.invariant (I := fun c : WalGConfig w locate =>
      ∀ t ∈ c.threads, ∀ req jobID, t.entry = .restoreJob req jobID → Accepted req) ?_ hrun
      (fun t ht => by simp at ht)
    intro c l c' hI _ hstep u hu req jobID hentry
    rcases List.getElem?_of_mem hu with ⟨j, hj⟩
    cases Config.moves_of_step hstep with
    | @arrive e he =>
        rcases Config.getElem?_spawn hj with hold | ⟨_, rfl⟩
        · exact hI u (List.mem_of_getElem? hold) req jobID hentry
        · -- A restore job is not called from outside.
          rw [show e = .restoreJob req jobID from hentry] at he
          cases he
    | env _ => exact hI u hu req jobID hentry
    | @act i ch t a next r world ht hrest hexec =>
        rcases Config.getElem?_resume hj with ⟨_, rfl⟩ | ⟨_, hold⟩ | ⟨_, e, hfork, rfl⟩
        · exact hI t (List.mem_of_getElem? ht) req jobID hentry
        · exact hI u (List.mem_of_getElem? hold) req jobID hentry
        · -- Only an accepted request starts a restore job.
          rw [show e = .restoreJob req jobID from hentry] at hfork
          have hallows := allows_of_action (Thread.action?_of_rest hrest)
          have ha : a = .go (.restoreJob req jobID) := by
            cases a <;> cases hfork
            rfl
          subst ha
          cases hcaller : t.entry with
          | restoreBackup req' =>
              rw [hcaller] at hallows
              rcases hallows with ⟨call, h⟩ | ⟨haccepted, jobID', h⟩
              · cases h
              · cases h
                exact haccepted
          | triggerBackup kind =>
              rw [hcaller] at hallows
              rcases hallows with ⟨call, h⟩ | ⟨jobID', h⟩ <;> cases h
          | restartPostgreSQL =>
              rw [hcaller] at hallows
              cases hallows
          | restartJob =>
              rw [hcaller] at hallows
              cases hallows
          | backupJob kind jobID' =>
              rw [hcaller] at hallows
              rcases hallows with ⟨h, _⟩ | h | h <;> cases h
          | restoreJob req' jobID' =>
              rw [hcaller] at hallows
              rcases hallows with ⟨h, _⟩ | h | h <;> cases h
  exact hinv t ht req jobID hentry

/-! ## The target in effect -/

/-- After a restore has started the server, the target in effect is the requested one exactly when
the request has a target or the configuration captured by its backup has none in effect. -/
theorem recovery_target_iff (w : WalG) (locate : String → Nat) (world : WalGWorld)
    (hfree : world.opMu = none) (c : WalGConfig w locate)
    (hrun : Reach Config.step (Config.initial (walgSystem w locate) world) c)
    (t : Thread (walgSystem w locate)) (ht : t ∈ c.threads) (req : RestoreRequest) (jobID : JobID)
    (hentry : t.entry = .restoreJob req jobID) (hin : insideOpMu t = true)
    (hstarted : Did t.past w.start) :
    ∃ stored, c.world.storage.source req.backupName = some stored ∧
      (effectiveTarget (confText (c.world.dirs (locate w.dataDir)).files) = requestedTarget req ↔
        req.targetTime ≠ "" ∨ effectiveTarget (confText stored.files) = none) := by
  have hprogress := knows_of_reach hfree hrun ht hin req jobID hentry
  have hreq := accepted_of_reach hrun ht hentry
  rcases hprogress.configured (hprogress.started hstarted) with ⟨stored, hsource, hconf⟩
  refine ⟨stored, hsource, ?_⟩
  have htext : confText (c.world.dirs (locate w.dataDir)).files =
      confText stored.files ++ WalG.recoveryLines req := hconf
  rw [htext, effectiveTarget_append hreq]
  by_cases hpitr : WalG.isPITR req = true
  · have hne : req.targetTime ≠ "" := by simpa [WalG.isPITR] using hpitr
    simp [requestedTarget, hpitr, hne]
  · have heq : req.targetTime = "" := by simpa [WalG.isPITR] using hpitr
    simp [requestedTarget, hpitr, heq]

/-! ## Concrete runs -/

def exampleTarget : String := "2026-01-01T00:00:00Z"

def pitrRestore : RestoreRequest := { backupName := "base_1", targetTime := exampleTarget }

/-- Thread `k` is the given restore; it has started the server and still holds the lock. -/
def restoredAt (k : Nat) (req : RestoreRequest) (jobID : JobID)
    (c : WalGConfig exampleWalG exampleLocate) : Bool :=
  c.threads[k]?.any fun t => decide (t.entry = .restoreJob req jobID) && insideOpMu t &&
    didBool t.past exampleWalG.start

theorem exists_of_restoredAt {k : Nat} {req : RestoreRequest} {jobID : JobID}
    {c : WalGConfig exampleWalG exampleLocate} (h : restoredAt k req jobID c = true) :
    ∃ t ∈ c.threads, t.entry = .restoreJob req jobID ∧ insideOpMu t = true ∧
      Did t.past exampleWalG.start := by
  rcases (Option.any_eq_true _ _).1 h with ⟨t, ht, htest⟩
  simp only [Bool.and_eq_true, decide_eq_true_eq] at htest
  exact ⟨t, List.mem_of_getElem? ht, htest.1.1, htest.1.2, did_of_didBool htest.2⟩

def pitrRun : List (Label WalGChoice WalGEnv WalGEntry) :=
  [.arrive (.restoreBackup pitrRestore)] ++ List.replicate 2 (stepOf 0) ++
    List.replicate 14 (stepOf 1)

theorem recovery_target_iff_pitr :
    ∃ (c : WalGConfig exampleWalG exampleLocate) (stored : StoredBackup),
      c.world.storage.source "base_1" = some stored ∧
      (effectiveTarget (confText (c.world.dirs 0).files) = requestedTarget pitrRestore ↔
        pitrRestore.targetTime ≠ "" ∨ effectiveTarget (confText stored.files) = none) := by
  have hend : (run Config.step (Config.initial (walgSystem exampleWalG exampleLocate) exampleWorld)
      pitrRun).any (restoredAt 1 pitrRestore { unix := -62135596800, seq := 1 }) = true := by
    decide +kernel
  rcases exists_reach_of_run hend with ⟨c, hreach, htest⟩
  rcases exists_of_restoredAt htest with ⟨t, ht, hentry, hin, hstarted⟩
  refine ⟨c, ?_⟩
  exact recovery_target_iff exampleWalG exampleLocate exampleWorld rfl c hreach t ht pitrRestore _
    hentry hin hstarted

/-- A point-in-time recovery, a full backup of its result, and a plain restore of that backup. -/
def pitrBackupRestore : List (Label WalGChoice WalGEnv WalGEntry) :=
  pitrRun ++ List.replicate 2 (stepOf 1) ++
    [.arrive (.triggerBackup .full)] ++ List.replicate 2 (stepOf 2) ++ List.replicate 2 (stepOf 3) ++
    [.step 3 { backup := { name := "base_2", startTime := 3, finishTime := 4 } }] ++
    List.replicate 3 (stepOf 3) ++
    [.arrive (.restoreBackup { backupName := "base_2" })] ++ List.replicate 2 (stepOf 4) ++
    List.replicate 15 (stepOf 5)

/-- The target of the first restore is still in effect after the last one. -/
theorem target_left_over :
    ¬ ∀ c : WalGConfig exampleWalG exampleLocate,
      Reach Config.step (Config.initial (walgSystem exampleWalG exampleLocate) exampleWorld) c →
      ∀ t ∈ c.threads, ∀ (req : RestoreRequest) (jobID : JobID), t.entry = .restoreJob req jobID →
        insideOpMu t = true → Did t.past exampleWalG.start →
          effectiveTarget (confText (c.world.dirs 0).files) = requestedTarget req := by
  intro hall
  have hend : (run Config.step (Config.initial (walgSystem exampleWalG exampleLocate) exampleWorld)
      pitrBackupRestore).any (fun c =>
        restoredAt 5 { backupName := "base_2" } { unix := -62135596800, seq := 3 } c &&
          decide (effectiveTarget (confText (c.world.dirs 0).files) = some exampleTarget)) = true := by
    decide +kernel
  rcases exists_reach_of_run hend with ⟨c, hreach, htest⟩
  simp only [Bool.and_eq_true, decide_eq_true_eq] at htest
  rcases exists_of_restoredAt htest.1 with ⟨t, ht, hentry, hin, hstarted⟩
  have hnone := hall c hreach t ht _ _ hentry hin hstarted
  rw [htest.2] at hnone
  cases hnone

end Service
end Pgaio
