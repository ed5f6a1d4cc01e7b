import Pgaio.Go.Slices
import Pgaio.Handler.Settings

/-!
# ScheduleSilence — does a cancelled loop still trigger backups?

A restart cancels the context of the loop before it.  The loop looks at its context only in its
`select`, where a timer or ticker that is ready may be chosen instead; and between the `select` and
the backup it does not look again.  So it can trigger a backup after it has been cancelled
(`cancelled_loop_triggers`).

`silentStep` excludes both moments.  Along such runs nothing is triggered by a cancelled loop, and
after a restart with backups disabled nothing is triggered at all (`schedule_silent`).
-/

namespace Pgaio
namespace Handler

open Go Model Service Transition

/-! ## The moments that matter -/

/-- The loop has received a value and has not triggered the backup yet. -/
def aboutToTrigger (l : Loop) : Bool :=
  match l.pc with
  | .trigger _ => true
  | _ => false

/-- The loop waits in its `select`, and a value waits for it. -/
def findsReady (l : Loop) : Bool :=
  decide (l.pc = .selecting) && l.clocks.any fun c => c.timer.ready || c.ticker.ready

/-- A restart does not come between the `select` and the backup of the loop that it cancels, and a
cancelled loop finds nothing ready when it comes to its `select`. -/
def silentStep (w : SettingsWorld) (l : SettingsLabel) : Bool :=
  match l with
  | .serve _ _ =>
      !w.restarts l ||
        !w.sched.cancel.any fun k => (w.sched.loops[k]?).any aboutToTrigger
  | .loop k _ => (w.sched.loops[k]?).all fun l => !(l.cancelled && findsReady l)
  | _ => true

/-- A step that lets no loop begin. -/
def startsNoLoop (w : SettingsWorld) (l : SettingsLabel) : Bool :=
  !w.restarts l || !w.store.getBackup.enabled

/-! ## Invariants -/

structure Silent (w : SettingsWorld) : Prop where
  past : ∀ t ∈ w.sched.triggers, t.cancelled = false
  /-- A loop that is about to trigger a backup is not cancelled. -/
  ahead : ∀ (k : Nat) (l : Loop), w.sched.loops[k]? = some l → aboutToTrigger l = true →
    l.cancelled = false
  live : w.sched.OnlyLive

/-- All loops are cancelled, and none of them will trigger a backup. -/
structure Over (triggers : List Trigger) (w : SettingsWorld) : Prop where
  triggers : w.sched.triggers = triggers
  cancelled : ∀ (k : Nat) (l : Loop), w.sched.loops[k]? = some l → l.cancelled = true
  ahead : ∀ (k : Nat) (l : Loop), w.sched.loops[k]? = some l → aboutToTrigger l = false

section Loop

variable {l l' : Loop} {backup : BackupConfig} {now : Time} {choice : SelectCase} {effect : Effect}

/-- A loop that was in its `select` has found something ready. -/
theorem aboutToTrigger_of_moves (h : l.Moves backup now choice l' effect)
    (hahead : aboutToTrigger l' = true) : findsReady l = true := by
  cases h with
  | receiveFull hpc hclocks hready => simp [findsReady, hpc, hclocks, hready]
  | receiveIncremental hpc hclocks hready => simp [findsReady, hpc, hclocks, hready]
  | panic hpc _ => simp [aboutToTrigger, hpc] at hahead
  | @trigger _ kind hpc => cases kind <;> simp [aboutToTrigger, Loop.afterTrigger] at hahead
  | _ => simp [aboutToTrigger, Loop.rearm] at hahead

theorem aboutToTrigger_of_fires {kind : BackupKind} (h : l.Fires now kind l') :
    aboutToTrigger l' = aboutToTrigger l := by
  cases h <;> rfl

/-- What a move adds to the log is triggered by a loop that was about to. -/
theorem triggers_of_moves {s : Scheduler} {k : Nat} (h : l.Moves backup now choice l' effect) :
    (s.record k l' now effect).triggers = s.triggers ∨
      (aboutToTrigger l = true ∧ ∃ kind, (s.record k l' now effect).triggers = s.triggers ++
        [{ kind := kind, loop := k, time := now, cancelled := l.cancelled }]) := by
  cases h with
  | @trigger _ kind hpc => exact Or.inr ⟨by simp [aboutToTrigger, hpc], kind, rfl⟩
  | _ => exact Or.inl rfl

end Loop

/-! ## Steps -/

section Step

variable {env : ConnEnv} {w w' : SettingsWorld} {l : SettingsLabel}

theorem silent_record {k : Nat} {choice : SelectCase} {u u' : Loop} {effect : Effect}
    (h : Silent w) (hok : silentStep w (.loop k choice) = true) (hu : w.sched.loops[k]? = some u)
    (hmoves : u.Moves w.store.getBackup w.now choice u' effect) :
    Silent { w with sched := w.sched.record k u' w.now effect } where
  past := by
    intro t ht
    rcases triggers_of_moves (s := w.sched) (k := k) hmoves with hsame | ⟨hahead, kind, hsnoc⟩
    · exact h.past t (hsame ▸ ht)
    · -- The loop was about to trigger this backup, so it is not cancelled.
      rw [hsnoc] at ht
      rcases List.mem_append.1 ht with hold | hnew
      · exact h.past t hold
      · rw [List.mem_singleton.1 hnew]
        exact h.ahead k u hu hahead
  ahead := by
    intro j v hv hahead
    rw [Scheduler.record_loops] at hv
    rcases getElem?_of_set hv with ⟨_, rfl⟩ | ⟨_, hold⟩
    · have hready := aboutToTrigger_of_moves hmoves hahead
      simp only [silentStep, hu, Option.all_some, hready, Bool.and_true, Bool.not_eq_true'] at hok
      rw [hmoves.cancelled]
      exact hok
    · exact h.ahead j v hold hahead
  live := h.live.record hu hmoves.cancelled w.now effect

theorem silent_fire {k : Nat} {kind : BackupKind} {u u' : Loop} (h : Silent w)
    (hu : w.sched.loops[k]? = some u) (hfires : u.Fires w.now kind u') :
    Silent { w with sched := { w.sched with loops := w.sched.loops.set k u' } } where
  past := h.past
  ahead := by
    intro j v hv hahead
    rcases getElem?_of_set hv with ⟨_, rfl⟩ | ⟨_, hold⟩
    · rw [hfires.cancelled]
      rw [aboutToTrigger_of_fires hfires] at hahead
      exact h.ahead k u hu hahead
    · exact h.ahead j v hold hahead
  live := fun _ _ hv hlive => h.live.set hu hfires.cancelled hv hlive

theorem aboutToTrigger_start {s : Scheduler} {backup : BackupConfig} {now : Time} {k : Nat}
    {u : Loop} (hu : (s.start backup now).loops[k]? = some u) (hahead : aboutToTrigger u = true) :
    ∃ v, s.loops[k]? = some v ∧ aboutToTrigger v = true ∧ u = s.afterCancel k v := by
  rcases Scheduler.getElem?_start hu with ⟨v, hv, rfl⟩ | ⟨_, _, rfl⟩
  · refine ⟨v, hv, ?_, rfl⟩
    unfold Scheduler.afterCancel at hahead
    split at hahead <;> exact hahead
  · cases hahead

theorem silent_restart {i : Nat} {outcome : WriteOutcome} {r : SettingsRequest} {pc : RequestPC}
    (h : Silent w) (hok : silentStep w (.serve i outcome) = true) (hr : w.requests[i]? = some r)
    (hpc : r.pc = .restart) :
    Silent ({ w with sched := w.sched.start w.store.getBackup w.now }.setRequest i r pc) where
  past := by
    intro t ht
    rw [SettingsWorld.setRequest_sched, Scheduler.start_triggers] at ht
    exact h.past t ht
  ahead := by
    intro k u hu hahead
    obtain ⟨v, hv, hahead', rfl⟩ := aboutToTrigger_start hu hahead
    have hrestarts : w.restarts (.serve i outcome) = true := by
      simp [SettingsWorld.restarts, hr, hpc, RequestPC.isRestart]
    simp only [silentStep, hrestarts, Bool.not_true, Bool.false_or, Bool.not_eq_true'] at hok
    -- The loop that is cancelled now is not about to trigger a backup.
    unfold Scheduler.afterCancel
    by_cases hcancel : w.sched.cancel = some k
    · simp [hcancel, hv, hahead'] at hok
    · rw [if_neg hcancel]
      exact h.ahead k v hv hahead'
  live := h.live.start w.store.getBackup w.now

theorem silent_step (h : Silent w) (hok : silentStep w l = true) (hstep : w.step env l = some w') :
    Silent w' := by
  cases SettingsWorld.moves_of_step hstep with
  | post => exact ⟨h.past, h.ahead, h.live⟩
  | readToken _ _ => exact ⟨h.past, h.ahead, h.live⟩
  | update _ _ => exact ⟨h.past, h.ahead, h.live⟩
  | restart hr hpc => exact silent_restart h hok hr hpc
  | loop hu hmoves => exact silent_record h hok hu hmoves
  | fire hu hfires => exact silent_fire h hu hfires
  | pass => exact ⟨h.past, h.ahead, h.live⟩

theorem silent_boot (store : ConfigStore) (now : Time) : Silent (SettingsWorld.boot store now) where
  past := by
    intro t ht
    simp [SettingsWorld.boot, Scheduler.start_triggers] at ht
  ahead := by
    intro k u hu hahead
    obtain ⟨v, hv, _⟩ := aboutToTrigger_start hu hahead
    simp at hv
  live := Scheduler.OnlyLive.initial.start store.getBackup now

/-! ## After a restart with backups disabled -/

theorem schedules_of_disabled {backup : BackupConfig} (h : backup.enabled = false) :
    backup.schedules = false := by
  simp [BackupConfig.schedules, h]

theorem over_of_disabled {i : Nat} {outcome : WriteOutcome} (h : Silent w)
    (hdisabled : w.store.getBackup.enabled = false)
    (hrestarts : w.restarts (.serve i outcome) = true)
    (hok : silentStep w (.serve i outcome) = true)
    (hstep : w.step env (.serve i outcome) = some w') : Over w'.sched.triggers w' := by
  have hsilent : Silent w' := silent_step h hok hstep
  have hcancelled : ∀ (k : Nat) (u : Loop), w'.sched.loops[k]? = some u → u.cancelled = true := by
    intro k u hu
    cases SettingsWorld.moves_of_step hstep with
    | restart hr hpc =>
        -- A live loop would have been started by settings with a schedule.
        by_contra hlive
        rw [Bool.not_eq_true] at hlive
        have hschedules := (h.live.of_start hu hlive).1
        rw [schedules_of_disabled hdisabled] at hschedules
        cases hschedules
    | readToken hr hpc =>
        simp [SettingsWorld.restarts, hr, hpc, RequestPC.isRestart] at hrestarts
    | update hr hpc =>
        simp [SettingsWorld.restarts, hr, hpc, RequestPC.isRestart] at hrestarts
  -- A cancelled loop of a silent world is not about to trigger.
  refine ⟨rfl, hcancelled, ?_⟩
  intro k u hu
  by_contra hahead
  rw [Bool.not_eq_false] at hahead
  have hlive := hsilent.ahead k u hu hahead
  rw [hcancelled k u hu] at hlive
  cases hlive

theorem over_step {triggers : List Trigger} (h : Over triggers w) (hok : silentStep w l = true)
    (hstarts : startsNoLoop w l = true) (hstep : w.step env l = some w') : Over triggers w' := by
  cases SettingsWorld.moves_of_step hstep with
  | post => exact ⟨h.triggers, h.cancelled, h.ahead⟩
  | readToken _ _ => exact ⟨h.triggers, h.cancelled, h.ahead⟩
  | update _ _ => exact ⟨h.triggers, h.cancelled, h.ahead⟩
  | @restart i outcome r hr hpc =>
      have hdisabled : w.store.getBackup.enabled = false := by
        simpa [startsNoLoop, SettingsWorld.restarts, hr, hpc, RequestPC.isRestart] using hstarts
      have hback : ∀ (k : Nat) (u : Loop),
          (w.sched.start w.store.getBackup w.now).loops[k]? = some u →
            ∃ v, w.sched.loops[k]? = some v ∧ u = w.sched.afterCancel k v := by
        intro k u hu
        rcases Scheduler.getElem?_start hu with hold | ⟨hschedules, _⟩
        · exact hold
        · rw [schedules_of_disabled hdisabled] at hschedules
          cases hschedules
      refine ⟨(Scheduler.start_triggers _ _).trans h.triggers, ?_, ?_⟩
      · intro k u hu
        obtain ⟨v, hv, rfl⟩ := hback k u hu
        unfold Scheduler.afterCancel
        split
        · rfl
        · exact h.cancelled k v hv
      · intro k u hu
        obtain ⟨v, hv, rfl⟩ := hback k u hu
        unfold Scheduler.afterCancel
        split <;> exact h.ahead k v hv
  | @loop k choice u u' effect hu hmoves =>
      have hcancelled : u'.cancelled = true :=
        hmoves.cancelled.trans (h.cancelled k u hu)
      refine ⟨?_, ?_, ?_⟩
      · rcases triggers_of_moves (s := w.sched) (k := k) hmoves with hsame | ⟨hahead, _⟩
        · exact hsame.trans h.triggers
        · rw [h.ahead k u hu] at hahead
          cases hahead
      · intro j v hv
        rw [Scheduler.record_loops] at hv
        rcases getElem?_of_set hv with ⟨_, rfl⟩ | ⟨_, hold⟩
        · exact hcancelled
        · exact h.cancelled j v hold
      · intro j v hv
        rw [Scheduler.record_loops] at hv
        rcases getElem?_of_set hv with ⟨_, rfl⟩ | ⟨_, hold⟩
        · -- The loop is cancelled, so its `select` has found nothing ready.
          by_contra hahead
          rw [Bool.not_eq_false] at hahead
          have hready := aboutToTrigger_of_moves hmoves hahead
          simp [silentStep, hu, hready, h.cancelled k u hu] at hok
        · exact h.ahead j v hold
  | @fire k kind u u' hu hfires =>
      refine ⟨h.triggers, ?_, ?_⟩
      · intro j v hv
        rcases getElem?_of_set hv with ⟨_, rfl⟩ | ⟨_, hold⟩
        · exact hfires.cancelled.trans (h.cancelled k u hu)
        · exact h.cancelled j v hold
      · intro j v hv
        rcases getElem?_of_set hv with ⟨_, rfl⟩ | ⟨_, hold⟩
        · exact (aboutToTrigger_of_fires hfires).trans (h.ahead k u hu)
        · exact h.ahead j v hold
  | pass => exact ⟨h.triggers, h.cancelled, h.ahead⟩

/-- No cancelled loop has triggered a backup, and after a restart with backups disabled none is
triggered until a loop is started again. -/
structure StaysSilent (env : ConnEnv) (w : SettingsWorld) : Prop where
  past : ∀ t ∈ w.sched.triggers, t.cancelled = false
  disabled : ∀ (i : Nat) (outcome : WriteOutcome) (w₁ w₂ : SettingsWorld),
    w.store.getBackup.enabled = false → w.restarts (.serve i outcome) = true →
      silentStep w (.serve i outcome) = true → w.step env (.serve i outcome) = some w₁ →
        Within (SettingsWorld.step env)
          (fun w l => silentStep w l = true ∧ startsNoLoop w l = true) w₁ w₂ →
            w₂.sched.triggers = w₁.sched.triggers

end Step

theorem schedule_silent (env : ConnEnv) (store : ConfigStore) (now : Time) (w : SettingsWorld)
    (hrun : Within (SettingsWorld.step env) (fun w l => silentStep w l = true)
      (SettingsWorld.boot store now) w) : StaysSilent env w := by
  have hsilent : Silent w :=
    hrun.invariant (fun _ _ _ h hok hstep => silent_step h hok hstep) (silent_boot store now)
  refine ⟨hsilent.past, ?_⟩
  intro i outcome w₁ w₂ hdisabled hrestarts hok hstep hafter
  have hover : Over w₁.sched.triggers w₁ :=
    over_of_disabled hsilent hdisabled hrestarts hok hstep
  have hend : Over w₁.sched.triggers w₂ :=
    hafter.invariant (fun _ _ _ h hok hstep => over_step h hok.1 hok.2 hstep) hover
  exact hend.triggers

/-! ## Concrete runs -/

def hourlyStore : ConfigStore where
  config := { backup := { enabled := true, incrementalIntervalHours := 1, fullHour := 4 } }
  file := .error ""

/-- A request that disables backups. -/
def disableBackups : Except String JSON :=
  .ok (.obj [("backup", .obj [("enabled", .bool false)])])

/-- The first tick of the first loop. -/
def firstTick : List SettingsLabel :=
  [.loop 0 .done, .pass 3600000000000, .fire 0 .incremental]

def receiveTick : SettingsLabel :=
  .loop 0 (.receive .incremental)

/-- The request is served to its end. -/
def serveDisable : List SettingsLabel :=
  [.post disableBackups, .serve 0 .written, .serve 0 .written]

/-- The tick leads to a backup, then backups are disabled, and the loop returns. -/
def disabledAfterBackup : List SettingsLabel :=
  firstTick ++ [receiveTick, .loop 0 .done, .loop 0 .done, .loop 0 .done] ++ serveDisable ++
    [.loop 0 .done]

theorem schedule_silent_oneBackup :
    ∃ w : SettingsWorld, w.sched.triggers.length = 1 ∧ StaysSilent {} w := by
  have hmeets : runMeets (SettingsWorld.step {}) silentStep (SettingsWorld.boot hourlyStore 0)
      disabledAfterBackup = true := by decide +kernel
  have hend : (Transition.run (SettingsWorld.step {}) (SettingsWorld.boot hourlyStore 0)
      disabledAfterBackup).any (fun w => decide (w.sched.triggers.length = 1)) = true := by
    decide +kernel
  obtain ⟨w, hrun, hlength⟩ := exists_within_of_run hmeets hend
  exact ⟨w, of_decide_eq_true hlength, schedule_silent {} hourlyStore 0 w hrun⟩

/-- Backups are disabled while a tick waits.  The loop receives the tick all the same. -/
def disabledBeforeSelect : List SettingsLabel :=
  firstTick ++ serveDisable ++ [receiveTick, .loop 0 .done]

theorem cancelled_loop_triggers :
    ¬∀ (env : ConnEnv) (store : ConfigStore) (now : Time) (w : SettingsWorld),
      Reach (SettingsWorld.step env) (SettingsWorld.boot store now) w → StaysSilent env w := by
  intro hall
  have hend : (Transition.run (SettingsWorld.step {}) (SettingsWorld.boot hourlyStore 0)
      disabledBeforeSelect).any (fun w => w.sched.triggers.any Trigger.cancelled) = true := by
    decide +kernel
  obtain ⟨w, hreach, hcancelled⟩ := exists_reach_of_run hend
  obtain ⟨t, ht, hbad⟩ := List.any_eq_true.1 hcancelled
  rw [(hall {} hourlyStore 0 w hreach).past t ht] at hbad
  cases hbad

end Handler
end Pgaio
