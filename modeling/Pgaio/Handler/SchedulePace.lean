import Pgaio.Handler.ScheduleSilence
import Pgaio.Service.SettingsLimits

/-!
# SchedulePace — do saved settings postpone backups?

Every request that saves settings restarts the scheduler, whatever it changes, and the new loop counts
its first interval from the restart.  So saving settings postpones the next incremental backup, again
and again (`backups_postponed`).  The full backups are not postponed: they have an instant.

Here time passes only when no loop has anything to do and nothing is due (`mayPass`), and requests
leave the settings of the backups as they are.  When restarts come at most `lag` after the latest
incremental backup, or after the start, the next one comes at most an interval and `lag` after it
(`lag_bounded`); for no lag at all this is what the settings promise (`backups_paced`).
-/

namespace Pgaio
namespace Handler

open Go Model Service Transition

/-- The later one of the latest incremental backup and `first`. -/
def paceFrom (first : Time) (triggers : List Trigger) : Time :=
  triggers.foldl (fun t x => if x.kind = .incremental then max t x.time else t) first

/-- Requests keep the settings of the backups, and time passes when it may. -/
def keepStep (w : SettingsWorld) : SettingsLabel → Bool
  | .serve i _ =>
      match (w.requests[i]?).map SettingsRequest.pc with
      | some (.update cfg) => decide (cfg.backup = w.store.getBackup)
      | _ => true
  | .pass d => w.mayPass d
  | _ => true

/-- Besides, requests restart the scheduler within `lag`. -/
def paceStep (first : Time) (lag : Duration) (w : SettingsWorld) (l : SettingsLabel) : Bool :=
  keepStep w l &&
    (!w.restarts l || decide (w.now ≤ paceFrom first w.sched.triggers + lag))

theorem paceFrom_snoc (first : Time) (triggers : List Trigger) (t : Trigger) :
    paceFrom first (triggers ++ [t]) =
      if t.kind = .incremental then max (paceFrom first triggers) t.time
      else paceFrom first triggers := by
  simp [paceFrom]

/-! ## A loop that keeps its deadline -/

/-- The loop has made its clocks, and is not about to trigger an incremental backup. -/
def awaitsTick : LoopPC → Bool
  | .starting => false
  | .trigger .incremental => false
  | .returned => false
  | _ => true

/-- The next incremental backup of the loop comes at `deadline` or before. -/
inductive OnTime (interval : Duration) (now deadline : Time) (l : Loop) : Prop where
  | starting :
      l.pc = .starting → l.clocks = none → l.incrementalInterval = interval →
        now + interval ≤ deadline → OnTime interval now deadline l
  | waiting {c : LoopClocks} :
      awaitsTick l.pc = true → l.clocks = some c → c.ticker.period = interval →
        c.ticker.ready = false → now ≤ c.ticker.next → c.ticker.next ≤ deadline →
          OnTime interval now deadline l
  /-- The tick is there. -/
  | ticked {c : LoopClocks} :
      awaitsTick l.pc = true → l.clocks = some c → c.ticker.period = interval →
        c.ticker.ready = true → c.ticker.next = now + interval → now ≤ deadline →
          OnTime interval now deadline l
  /-- The loop has received the tick. -/
  | received {c : LoopClocks} :
      l.pc = .trigger .incremental → l.clocks = some c → c.ticker.period = interval →
        c.ticker.ready = false → c.ticker.next = now + interval → now ≤ deadline →
          OnTime interval now deadline l

section OnTime

variable {interval : Duration} {now deadline : Time} {l l' : Loop}

theorem OnTime.le (h : OnTime interval now deadline l) (hinterval : 0 < interval) :
    now ≤ deadline := by
  cases h with
  | starting _ _ _ hdeadline => linarith
  | waiting _ _ _ _ hnow hdeadline => exact hnow.trans hdeadline
  | ticked _ _ _ _ _ hdeadline => exact hdeadline
  | received _ _ _ _ _ hdeadline => exact hdeadline

theorem OnTime.mono (h : OnTime interval now deadline l) {deadline' : Time}
    (hle : deadline ≤ deadline') : OnTime interval now deadline' l := by
  cases h with
  | starting hpc hclocks hinterval hdeadline =>
      exact .starting hpc hclocks hinterval (hdeadline.trans hle)
  | waiting hpc hclocks hperiod hready hnow hdeadline =>
      exact .waiting hpc hclocks hperiod hready hnow (hdeadline.trans hle)
  | ticked hpc hclocks hperiod hready hnext hdeadline =>
      exact .ticked hpc hclocks hperiod hready hnext (hdeadline.trans hle)
  | received hpc hclocks hperiod hready hnext hdeadline =>
      exact .received hpc hclocks hperiod hready hnext (hdeadline.trans hle)

theorem OnTime.of_starting (h : OnTime interval now deadline l) (hpc : l.pc = .starting) :
    l.incrementalInterval = interval ∧ now + interval ≤ deadline := by
  cases h with
  | starting _ _ hinterval hdeadline => exact ⟨hinterval, hdeadline⟩
  | waiting hwaiting => simp [awaitsTick, hpc] at hwaiting
  | ticked hwaiting => simp [awaitsTick, hpc] at hwaiting
  | received hreceived => cases hreceived.symm.trans hpc

/-- A loop that is not about to trigger an incremental backup goes on with the same ticker. -/
theorem OnTime.turn (h : OnTime interval now deadline l) {pc : LoopPC} (hpc : l.pc = pc)
    (hbefore : awaitsTick pc = true) (hafter : awaitsTick l'.pc = true)
    (hclocks : ∀ c, l.clocks = some c → ∃ c', l'.clocks = some c' ∧ c'.ticker = c.ticker) :
    OnTime interval now deadline l' := by
  subst hpc
  cases h with
  | starting hstarting => simp [awaitsTick, hstarting] at hbefore
  | @waiting c _ hc hperiod hready hnow hdeadline =>
      obtain ⟨c', hc', hticker⟩ := hclocks c hc
      rw [← hticker] at hperiod hready hnow hdeadline
      exact .waiting hafter hc' hperiod hready hnow hdeadline
  | @ticked c _ hc hperiod hready hnext hdeadline =>
      obtain ⟨c', hc', hticker⟩ := hclocks c hc
      rw [← hticker] at hperiod hready hnext
      exact .ticked hafter hc' hperiod hready hnext hdeadline
  | received hreceived => simp [awaitsTick, hreceived] at hbefore

/-- The first tick comes a whole interval after the start. -/
theorem OnTime.start (h : OnTime interval now deadline l) {ticker : Ticker} {timer : Timer}
    (hpc : l.pc = .starting) (hticker : newTicker now l.incrementalInterval = some ticker) :
    OnTime interval now deadline
      { l with pc := .selecting, clocks := some { ticker := ticker, timer := timer } } := by
  obtain ⟨hinterval, hdeadline⟩ := h.of_starting hpc
  obtain ⟨hpos, rfl⟩ := newTicker_cases hticker
  rw [hinterval] at hpos ⊢
  refine .waiting rfl rfl rfl rfl ?_ hdeadline
  linarith

theorem OnTime.receive (h : OnTime interval now deadline l) {c : LoopClocks}
    (hpc : l.pc = .selecting) (hclocks : l.clocks = some c) (hready : c.ticker.ready = true) :
    OnTime interval now deadline
      { l with
        pc := .trigger .incremental
        clocks := some { c with ticker := { c.ticker with ready := false } } } := by
  cases h with
  | starting hstarting => cases hstarting.symm.trans hpc
  | waiting _ hc _ hwaiting =>
      cases hc.symm.trans hclocks
      cases hwaiting.symm.trans hready
  | ticked _ hc hperiod _ hnext hdeadline =>
      cases hc.symm.trans hclocks
      exact .received rfl rfl hperiod rfl hnext hdeadline
  | received hreceived => cases hreceived.symm.trans hpc

/-- The loop keeps its deadline while it does anything but trigger an incremental backup. -/
theorem OnTime.moves {backup : BackupConfig} {choice : SelectCase} {effect : Effect}
    (h : OnTime interval now deadline l) (hinterval : 0 < interval) (hlive : l.cancelled = false)
    (hmoves : l.Moves backup now choice l' effect) (heffect : effect ≠ .trigger .incremental) :
    OnTime interval now deadline l' := by
  cases hmoves with
  | panic hpc hticker =>
      -- The interval is positive.
      rw [(h.of_starting hpc).1, newTicker, if_pos hinterval] at hticker
      cases hticker
  | start hpc hticker => exact h.start hpc hticker
  | done _ hcancelled => cases hlive.symm.trans hcancelled
  | receiveFull hpc hclocks _ =>
      apply h.turn hpc rfl rfl
      rintro c hc
      cases hc.symm.trans hclocks
      exact ⟨_, rfl, rfl⟩
  | receiveIncremental hpc hclocks hready => exact h.receive hpc hclocks hready
  | @trigger _ kind hpc =>
      cases kind with
      | incremental => exact absurd rfl heffect
      | full => exact h.turn hpc rfl rfl fun c hc => ⟨c, hc, rfl⟩
  | recordFull hpc => exact h.turn hpc rfl rfl fun c hc => ⟨c, hc, rfl⟩
  | rearm hpc =>
      -- Another timer, the same ticker.
      apply h.turn hpc rfl rfl
      intro c hc
      refine ⟨{ c with timer := newTimer now ((backup.nextFull now).sub now) }, ?_, rfl⟩
      simp [Loop.rearm, hc]
  | readHours hpc => exact h.turn hpc rfl rfl fun c hc => ⟨c, hc, rfl⟩
  | recordIncremental hpc => exact h.turn hpc rfl rfl fun c hc => ⟨c, hc, rfl⟩

/-- After the trigger the deadline is a whole interval away. -/
theorem OnTime.triggered (h : OnTime interval now deadline l) (hinterval : 0 < interval)
    (hpc : l.pc = .trigger .incremental) {deadline' : Time} (hnext : now + interval ≤ deadline') :
    OnTime interval now deadline' { l with pc := .readHours } := by
  cases h with
  | starting hstarting => cases hstarting.symm.trans hpc
  | waiting hwaiting => simp [awaitsTick, hpc] at hwaiting
  | ticked hwaiting => simp [awaitsTick, hpc] at hwaiting
  | received _ hclocks hperiod hready heq =>
      refine .waiting rfl hclocks hperiod hready ?_ ?_
      · rw [heq]
        linarith
      · rw [heq]
        exact hnext

theorem OnTime.fires {kind : BackupKind} (h : OnTime interval now deadline l)
    (hinterval : 0 < interval) (hfires : l.Fires now kind l') : OnTime interval now deadline l' := by
  cases hfires with
  | @full clocks due hclocks hdue hle =>
      -- The ticker is another one.
      cases h with
      | starting _ hnone => cases hnone.symm.trans hclocks
      | waiting hpc hc hperiod hready hnow hdeadline =>
          cases hc.symm.trans hclocks
          exact .waiting hpc rfl hperiod hready hnow hdeadline
      | ticked hpc hc hperiod hready hnext hdeadline =>
          cases hc.symm.trans hclocks
          exact .ticked hpc rfl hperiod hready hnext hdeadline
      | received hpc hc hperiod hready hnext hdeadline =>
          cases hc.symm.trans hclocks
          exact .received hpc rfl hperiod hready hnext hdeadline
  | @incremental clocks ticker hclocks hfire =>
      cases h with
      | starting _ hnone => cases hnone.symm.trans hclocks
      | waiting hpc hc hperiod _ hnow hdeadline =>
          cases hc.symm.trans hclocks
          obtain ⟨hnext, rfl⟩ := Ticker.fire_onTime hfire hnow
          refine .ticked hpc rfl hperiod rfl ?_ (hnext ▸ hdeadline)
          rw [hperiod]
      | ticked _ hc _ _ hnext _ =>
          -- The next tick is an interval away.
          cases hc.symm.trans hclocks
          have hdue := (Ticker.fire_cases hfire).1
          linarith
      | received _ hc _ _ hnext _ =>
          cases hc.symm.trans hclocks
          have hdue := (Ticker.fire_cases hfire).1
          linarith

/-- Time never passes while a tick waits, so the deadline is not passed either. -/
theorem OnTime.pass {d : Nat} (h : OnTime interval now deadline l) (hwaits : l.waits now = true)
    (hlasts : l.lasts (now + d) = true) : OnTime interval (now + d) deadline l := by
  cases h with
  | starting hpc => simp [Loop.waits, hpc] at hwaits
  | waiting hpc hc hperiod hready _ hdeadline =>
      simp only [Loop.lasts, hc, Option.all_some, Bool.and_eq_true, decide_eq_true_eq] at hlasts
      exact .waiting hpc hc hperiod hready hlasts.1 hdeadline
  | ticked hwaiting hc _ hready =>
      unfold Loop.waits at hwaits
      split at hwaits
      · rename_i hpc
        simp [awaitsTick, hpc] at hwaiting
      · simp [hc, Ticker.idle, hready] at hwaits
      · cases hwaits
  | received hpc => simp [Loop.waits, hpc] at hwaits

end OnTime

/-! ## Steps -/

/-- The log after a move: what it adds never lies ahead of the clock. -/
theorem paceFrom_record {first now : Time} {s : Scheduler} (h : paceFrom first s.triggers ≤ now)
    (k : Nat) (l : Loop) (effect : Effect) :
    paceFrom first s.triggers ≤ paceFrom first (s.record k l now effect).triggers ∧
      paceFrom first (s.record k l now effect).triggers ≤ now ∧
        (effect = .trigger .incremental →
          paceFrom first (s.record k l now effect).triggers = now) := by
  cases effect with
  | trigger kind =>
      simp only [Scheduler.record, paceFrom_snoc]
      cases kind with
      | incremental =>
          simp only [if_true, max_eq_right h]
          exact ⟨h, le_refl now, fun _ => trivial⟩
      | full =>
          simp only [reduceCtorEq, if_false]
          exact ⟨le_refl _, h, fun heffect => by simp at heffect⟩
  | _ => exact ⟨le_refl _, h, fun heffect => by cases heffect⟩

/-- One loop, not cancelled, keeps the deadline of the schedule. -/
structure Paced (backup : BackupConfig) (first : Time) (lag : Duration) (w : SettingsWorld) :
    Prop where
  kept : w.store.getBackup = backup
  past : paceFrom first w.sched.triggers ≤ w.now
  loop : ∃ (k : Nat) (l : Loop), w.sched.loops[k]? = some l ∧ l.cancelled = false ∧
    OnTime backup.incrementalInterval w.now
      (paceFrom first w.sched.triggers + lag + backup.incrementalInterval) l

section Step

variable {env : ConnEnv} {backup : BackupConfig} {first : Time} {lag : Duration}
  {w w' : SettingsWorld} {l : SettingsLabel}

theorem paced_record {j : Nat} {choice : SelectCase} {u u' : Loop} {effect : Effect}
    (h : Paced backup first lag w) (hlag : 0 ≤ lag) (hinterval : 0 < backup.incrementalInterval)
    (hu : w.sched.loops[j]? = some u) (hmoves : u.Moves w.store.getBackup w.now choice u' effect) :
    Paced backup first lag { w with sched := w.sched.record j u' w.now effect } := by
  obtain ⟨hlater, hpast, htriggered⟩ := paceFrom_record h.past j u' effect
  obtain ⟨k, v, hv, hlive, honTime⟩ := h.loop
  have hdeadline : paceFrom first w.sched.triggers + lag + backup.incrementalInterval ≤
      paceFrom first (w.sched.record j u' w.now effect).triggers + lag +
        backup.incrementalInterval := by linarith
  refine ⟨h.kept, hpast, k, ?_⟩
  simp only [Scheduler.record_loops]
  rcases getElem?_set_cases hu hv u' with ⟨rfl, rfl, hset⟩ | ⟨_, hset⟩
  · -- The loop that keeps the deadline has moved.
    refine ⟨u', hset, hmoves.cancelled.trans hlive, ?_⟩
    by_cases heffect : effect = .trigger .incremental
    · -- Its own backup moves the deadline on by a whole interval.
      subst heffect
      cases hmoves with
      | trigger hpc =>
          refine honTime.triggered hinterval hpc ?_
          rw [htriggered rfl]
          linarith
    · exact (honTime.moves hinterval hlive hmoves heffect).mono hdeadline
  · -- Another loop can only put the deadline off, by a backup of its own.
    exact ⟨v, hset, hlive, honTime.mono hdeadline⟩

theorem paced_fire {j : Nat} {kind : BackupKind} {u u' : Loop} (h : Paced backup first lag w)
    (hinterval : 0 < backup.incrementalInterval) (hu : w.sched.loops[j]? = some u)
    (hfires : u.Fires w.now kind u') :
    Paced backup first lag { w with sched := { w.sched with loops := w.sched.loops.set j u' } } := by
  obtain ⟨k, v, hv, hlive, honTime⟩ := h.loop
  refine ⟨h.kept, h.past, k, ?_⟩
  rcases getElem?_set_cases hu hv u' with ⟨rfl, rfl, hset⟩ | ⟨_, hset⟩
  · exact ⟨u', hset, hfires.cancelled.trans hlive, honTime.fires hinterval hfires⟩
  · exact ⟨v, hset, hlive, honTime⟩

theorem paced_restart {i : Nat} {outcome : WriteOutcome} {r : SettingsRequest} {pc : RequestPC}
    (h : Paced backup first lag w) (hschedules : backup.schedules = true)
    (hok : paceStep first lag w (.serve i outcome) = true) (hr : w.requests[i]? = some r)
    (hpc : r.pc = .restart) :
    Paced backup first lag
      ({ w with sched := w.sched.start w.store.getBackup w.now }.setRequest i r pc) := by
  have hsoon : w.now ≤ paceFrom first w.sched.triggers + lag := by
    simpa [paceStep, keepStep, SettingsWorld.restarts, RequestPC.isRestart, hr, hpc] using hok
  have hbackup : w.store.getBackup = backup := h.kept
  refine ⟨hbackup, ?_, w.sched.loops.length, ?_⟩
  · simp only [SettingsWorld.setRequest_sched, Scheduler.start_triggers,
      SettingsWorld.setRequest_now]
    exact h.past
  · simp only [SettingsWorld.setRequest_sched, Scheduler.start_triggers, hbackup,
      SettingsWorld.setRequest_now]
    -- The new loop counts from now, which is `lag` after the latest backup at most.
    refine ⟨_, Scheduler.getElem?_start_new w.sched w.now hschedules, rfl, ?_⟩
    refine .starting rfl rfl rfl ?_
    linarith

theorem paced_step (hlag : 0 ≤ lag) (hschedules : backup.schedules = true)
    (hinterval : 0 < backup.incrementalInterval) (h : Paced backup first lag w)
    (hok : paceStep first lag w l = true) (hstep : w.step env l = some w') :
    Paced backup first lag w' := by
  cases SettingsWorld.moves_of_step hstep with
  | post => exact ⟨h.kept, h.past, h.loop⟩
  | readToken _ _ => exact ⟨h.kept, h.past, h.loop⟩
  | @update i outcome r cfg hr hpc =>
      have hsame : cfg.backup = w.store.getBackup := by
        simpa [paceStep, keepStep, SettingsWorld.restarts, RequestPC.isRestart, hr, hpc] using hok
      refine ⟨?_, h.past, h.loop⟩
      calc (w.store.update env cfg outcome).1.getBackup
          = (env.applyConnectionDefaultsLocked cfg).backup := by
            rw [ConfigStore.getBackup, update_config]
        _ = w.store.getBackup := hsame
        _ = backup := h.kept
  | restart hr hpc => exact paced_restart h hschedules hok hr hpc
  | loop hu hmoves => exact paced_record h hlag hinterval hu hmoves
  | fire hu hfires => exact paced_fire h hinterval hu hfires
  | @pass d =>
      obtain ⟨k, v, hv, hlive, honTime⟩ := h.loop
      -- Time may pass no further than the next clock that is due.
      have hmay : w.mayPass d = true := (Bool.and_eq_true_iff.1 hok).1
      have hall := List.all_eq_true.1 hmay v (List.mem_of_getElem? hv)
      rw [Bool.and_eq_true] at hall
      refine ⟨h.kept, ?_, k, v, hv, hlive, honTime.pass hall.1 hall.2⟩
      have hpast := h.past
      change paceFrom first w.sched.triggers ≤ w.now + d
      unfold Time at *
      omega

theorem paced_boot {store : ConfigStore} (hlag : 0 ≤ lag)
    (hschedules : store.getBackup.schedules = true) :
    Paced store.getBackup first lag (SettingsWorld.boot store first) := by
  have hnone : paceFrom first (SettingsWorld.boot store first).sched.triggers = first := by
    simp [SettingsWorld.boot, Scheduler.start_triggers, paceFrom]
  refine ⟨rfl, hnone.le, 0, _, Scheduler.getElem?_start_new {} first hschedules, rfl, ?_⟩
  refine .starting rfl rfl rfl ?_
  rw [hnone]
  change first + _ ≤ _
  linarith

/-- Restarts within `lag` of the latest backup delay the next one by `lag` at most. -/
theorem lag_bounded {store : ConfigStore} (hlag : 0 ≤ lag)
    (hschedules : store.getBackup.schedules = true)
    (hinterval : 0 < store.getBackup.incrementalInterval)
    (hrun : Within (SettingsWorld.step env) (fun w l => paceStep first lag w l = true)
      (SettingsWorld.boot store first) w) :
    w.now ≤ paceFrom first w.sched.triggers + lag + store.getBackup.incrementalInterval := by
  have hpaced : Paced store.getBackup first lag w :=
    hrun.invariant (fun _ _ _ h hok hstep => paced_step hlag hschedules hinterval h hok hstep)
      (paced_boot hlag hschedules)
  obtain ⟨_, _, _, _, honTime⟩ := hpaced.loop
  exact honTime.le hinterval

end Step

theorem backups_paced (env : ConnEnv) (store : ConfigStore) (first : Time) (w : SettingsWorld)
    (henabled : store.getBackup.enabled = true) (hmin : 1 ≤ store.getBackup.incrementalHours)
    (hmax : store.getBackup.incrementalHours ≤ 24)
    (hrun : Within (SettingsWorld.step env) (fun w l => paceStep first 0 w l = true)
      (SettingsWorld.boot store first) w) :
    w.now - paceFrom first w.sched.triggers ≤
      store.getBackup.incrementalHours * Duration.hour := by
  have hpos : 0 < store.getBackup.incrementalHours := hmin
  have hexact : store.getBackup.incrementalInterval =
      store.getBackup.incrementalHours * Duration.hour :=
    (times_hour_eq_iff hpos).2 (hmax.trans (by decide))
  have hschedules : store.getBackup.schedules = true := by
    simp [BackupConfig.schedules, henabled, hpos]
  have hhour : 0 < Duration.hour := by decide
  have hinterval : 0 < store.getBackup.incrementalInterval := by
    rw [hexact]
    exact mul_pos hpos hhour
  have hbound := lag_bounded (le_refl 0) hschedules hinterval hrun
  rw [hexact] at hbound
  linarith

/-! ## Concrete runs -/

/-- A request that leaves the backups as they are. -/
def sameBackups : Except String JSON :=
  .ok (.obj [("backup", backupCodec.encode hourlyStore.getBackup)])

/-- The settings are saved at the moment of the first backup; half an hour passes. -/
def savedAfterBackup : List SettingsLabel :=
  firstTick ++ [receiveTick, .loop 0 .done, .loop 0 .done, .loop 0 .done] ++
    [.post sameBackups, .serve 0 .written, .serve 0 .written] ++
      [.loop 0 .done, .loop 1 .done, .pass 1800000000000]

theorem backups_paced_savedAfterBackup :
    ∃ w : SettingsWorld, w.sched.loops.length = 2 ∧
      w.now - paceFrom 0 w.sched.triggers ≤ 1 * Duration.hour := by
  have hmeets : runMeets (SettingsWorld.step {}) (paceStep 0 0) (SettingsWorld.boot hourlyStore 0)
      savedAfterBackup = true := by decide +kernel
  have hend : (Transition.run (SettingsWorld.step {}) (SettingsWorld.boot hourlyStore 0)
      savedAfterBackup).any (fun w => decide (w.sched.loops.length = 2)) = true := by
    decide +kernel
  obtain ⟨w, hrun, hlength⟩ := exists_within_of_run hmeets hend
  exact ⟨w, of_decide_eq_true hlength,
    backups_paced {} hourlyStore 0 w (by decide) (by decide) (by decide) hrun⟩

/-- The settings are saved after 59 minutes, and two minutes more pass. -/
def savedBeforeBackup : List SettingsLabel :=
  [.loop 0 .done, .pass 3540000000000] ++
    [.post sameBackups, .serve 0 .written, .serve 0 .written] ++
      [.loop 0 .done, .loop 1 .done, .pass 120000000000]

theorem backups_postponed :
    ¬∀ (env : ConnEnv) (store : ConfigStore) (first : Time) (w : SettingsWorld),
      store.getBackup.enabled = true → 1 ≤ store.getBackup.incrementalHours →
        store.getBackup.incrementalHours ≤ 24 →
          Within (SettingsWorld.step env) (fun w l => keepStep w l = true)
            (SettingsWorld.boot store first) w →
              w.now - paceFrom first w.sched.triggers ≤
                store.getBackup.incrementalHours * Duration.hour := by
  intro hall
  have hmeets : runMeets (SettingsWorld.step {}) keepStep (SettingsWorld.boot hourlyStore 0)
      savedBeforeBackup = true := by decide +kernel
  have hend : (Transition.run (SettingsWorld.step {}) (SettingsWorld.boot hourlyStore 0)
      savedBeforeBackup).any
        (fun w => decide (Duration.hour < w.now - paceFrom 0 w.sched.triggers)) = true := by
    decide +kernel
  obtain ⟨w, hrun, hlate⟩ := exists_within_of_run hmeets hend
  have hbound := hall {} hourlyStore 0 w (by decide) (by decide) (by decide) hrun
  have hhours : hourlyStore.getBackup.incrementalHours = 1 := by decide
  rw [hhours, one_mul] at hbound
  exact absurd hbound (not_le.2 (of_decide_eq_true hlate))

end Handler
end Pgaio
