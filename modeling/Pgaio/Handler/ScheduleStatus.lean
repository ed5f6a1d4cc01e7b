import Pgaio.Handler.ScheduleSilence
import Pgaio.Service.ConfigRoundTrip
import Pgaio.Service.WeeklyRun

/-!
# ScheduleStatus — does the status tell when the next backups come?

The status reports two instants that `Start` and the backups have noted, whenever backups are enabled.
The instants at which backups really come are those of the ticker and the timer of the loop.  A loop
notes an instant some time after its ticker or timer has fired, and makes its clocks some time after
`Start` has noted both instants; the two differ by such times.

Where the interval is missing there is no loop, and the status reports instants all the same
(`idle_schedule_reported`).  The two also drift apart when a cancelled loop notes the hours of settings that
are no longer in force, and when settings could not be written.  `statusStep` excludes this, and it bounds
by `lag` how long the loops are busy at a stretch; then the status is right up to `lag` whenever no request
is about to restart the scheduler and no loop is in the middle of a backup (`status_tells`).
-/

namespace Pgaio
namespace Handler

open Go Model Service Transition

/-! ## When the status is right -/

/-- Two instants that are `lag` apart at most. -/
def Near (lag : Nat) (a b : Time) : Prop :=
  a ≤ b + lag ∧ b ≤ a + lag

/-- The status names no instants, or those of the clocks of the loop that is not cancelled, up to
`lag`. -/
def StatusTells (lag : Nat) (w : SettingsWorld) : Prop :=
  w.status.nextFullRun.isSome ∨ w.status.nextIncrementalRun.isSome →
    ∃ (k : Nat) (l : Loop) (c : LoopClocks) (due full incremental : Time),
      w.sched.cancel = some k ∧ w.sched.loops[k]? = some l ∧ l.cancelled = false ∧
        l.clocks = some c ∧ c.timer.due = some due ∧
          w.status.nextFullRun = some full ∧ Near lag full due ∧
            w.status.nextIncrementalRun = some incremental ∧ Near lag incremental c.ticker.next

/-- Some request has updated the store and has not restarted the scheduler yet. -/
def pending (w : SettingsWorld) : Bool :=
  w.requests.any fun r => r.pc.isRestart

/-- The settings are in force, and no loop but cancelled ones has anything to do. -/
def settled (w : SettingsWorld) : Bool :=
  !w.sched.panicked && !pending w && w.sched.loops.all fun l => l.cancelled || l.waits w.now

/-- No loop has anything to do at this moment. -/
def quiet (w : SettingsWorld) : Bool :=
  w.sched.loops.all fun l => l.waits w.now

/-- A world that is watched; `quietAt` is the latest moment up to which no loop had anything to do, or
that of a restart after it. -/
structure WatchedWorld where
  world : SettingsWorld
  quietAt : Time

namespace WatchedWorld

def boot (store : ConfigStore) (now : Time) : WatchedWorld where
  world := SettingsWorld.boot store now
  quietAt := now

/-- The moment from which on some loop has been busy. -/
def rested (w : WatchedWorld) : Time :=
  if quiet w.world then w.world.now else w.quietAt

def step (env : ConnEnv) (w : WatchedWorld) (l : SettingsLabel) : Option WatchedWorld :=
  (w.world.step env l).map fun world =>
    { world := world
      quietAt :=
        if w.world.restarts l then world.now
        else
          match l with
          | .pass d => if w.world.mayPass d then world.now else w.rested
          | _ => w.rested }

end WatchedWorld

/-- Enabled backups have an interval. -/
def hasInterval (backup : BackupConfig) : Bool :=
  !backup.enabled || decide (0 < backup.incrementalHours)

/-- The hours that the loop has read, if it is about to use them, are those of the settings. -/
def keepsHours (backup : BackupConfig) (l : Loop) : Bool :=
  match l.pc with
  | .recordIncremental hours => decide (hours = backup.incrementalHours)
  | _ => true

def isWritten : WriteOutcome → Bool
  | .written => true
  | _ => false

def statusStep (lag : Nat) (w : WatchedWorld) : SettingsLabel → Bool
  | .serve i outcome =>
      match (w.world.requests[i]?).map SettingsRequest.pc with
      | some (.update cfg) =>
          hasInterval cfg.backup && (isWritten outcome || decide (cfg.backup = w.world.store.getBackup))
      | some .restart =>
          !w.world.store.getBackup.enabled || w.world.sched.loops.all (keepsHours w.world.store.getBackup)
      | _ => true
  | .pass d =>
      pending w.world || !w.world.store.getBackup.enabled || w.world.mayPass d ||
        decide (w.world.now + d ≤ w.rested + lag)
  | _ => true

/-! ## Slots -/

section Slot

variable {backup : BackupConfig} {now a b : Time}

theorem nextFull_bounds (backup : BackupConfig) (now : Time) :
    now < backup.nextFull now ∧ backup.nextFull now ≤ now + 7 * Duration.day :=
  nextWeeklyRun_bounds now backup.fullWeekday backup.fullHour

/-- The next full backup as it was at some moment in the past. -/
def Slot (backup : BackupConfig) (now slot : Time) : Prop :=
  ∃ t, t ≤ now ∧ slot = backup.nextFull t

theorem Slot.mono (h : Slot backup a b) (hle : a ≤ now) : Slot backup now b := by
  obtain ⟨t, ht, rfl⟩ := h
  exact ⟨t, ht.trans hle, rfl⟩

/-- A slot that lies ahead is the next one. -/
theorem Slot.eq_next (h : Slot backup now b) (hahead : now < b) : backup.nextFull now = b := by
  obtain ⟨t, ht, rfl⟩ := h
  exact WeeklyRun.nextWeeklyRun_of_between ht hahead

/-- The next full backup after a slot moves no further than time does. -/
theorem Slot.near_next {slot : Time} {lag : Nat} (h : Slot backup a slot) (ha : slot ≤ a) (hab : a ≤ b)
    (hlag : b ≤ slot + lag) : Near lag (backup.nextFull a) (backup.nextFull b) := by
  obtain ⟨t, _, rfl⟩ := h
  have hweek := WeeklyRun.nextWeeklyRun_of_passed ha
  have hmono : backup.nextFull a ≤ backup.nextFull b := WeeklyRun.nextWeeklyRun_mono hab
  have hsoon := (nextFull_bounds backup b).2
  have hlow : backup.nextFull t + 7 * Duration.day ≤ backup.nextFull a := hweek
  refine ⟨by linarith, by linarith⟩

theorem Near.refl (lag : Nat) (t : Time) : Near lag t t := by
  have hlag : (0 : Int) ≤ lag := Int.natCast_nonneg lag
  exact ⟨by linarith, by linarith⟩

/-- A timer that is set for the next full backup. -/
theorem newTimer_nextFull (hbefore : a ≤ now) (hafter : now ≤ backup.nextFull a) :
    newTimer now ((backup.nextFull a).sub now) = { due := some (backup.nextFull a), ready := false } := by
  have hsoon := (nextFull_bounds backup a).2
  have hweek : 7 * Duration.day ≤ maxInt64 := by decide
  exact newTimer_until hafter (by linarith)

/-- A timer that is set for an instant in the past fires at once. -/
theorem newTimer_past {instant : Time} (h : instant ≤ now) :
    newTimer now (instant.sub now) = { due := some now, ready := false } := by
  have hsub : instant.sub now ≤ 0 := by
    unfold Time.sub
    have hdiff : instant - now ≤ 0 := sub_nonpos.2 h
    have hmin : minInt64 ≤ 0 := by decide
    exact max_le hmin ((min_le_right _ _).trans hdiff)
  unfold newTimer
  rw [max_eq_left hsub, add_zero]

end Slot

/-! ## One loop -/

/-- The loop has made its clocks and has not returned. -/
def running : LoopPC → Bool
  | .starting => false
  | .returned => false
  | _ => true

/-- The loop is between a tick and the end of its backup. -/
def runsIncremental : LoopPC → Bool
  | .trigger .incremental => true
  | .readHours => true
  | .recordIncremental _ => true
  | _ => false

/-- The loop has received from its timer and has not set it again. -/
def runsFull : LoopPC → Bool
  | .trigger .full => true
  | .recordFull => true
  | .rearm => true
  | _ => false

/-- The ticker, beside the instant that is reported for it. -/
structure TickerAgrees (lag : Nat) (interval : Duration) (now quietAt reported : Time) (pc : LoopPC)
    (t : Ticker) : Prop where
  period : t.period = interval
  next_le : t.next ≤ now + interval
  set : t.ready = false → runsIncremental pc = false → quietAt ≤ t.next ∧ Near lag reported t.next
  /-- The last tick came while the loops were busy. -/
  ticked : t.ready = true ∨ runsIncremental pc = true → quietAt + interval ≤ t.next

/-- The timer, beside the instant that is reported for it. -/
inductive TimerAgrees (lag : Nat) (backup : BackupConfig) (now quietAt reported : Time) (pc : LoopPC)
    (t : Timer) : Prop where
  | set {due slot : Time} : runsFull pc = false → t = { due := some due, ready := false } →
      Slot backup now slot → quietAt ≤ slot → slot ≤ due →
        (now < due → slot = due ∧ Near lag reported due) →
          TimerAgrees lag backup now quietAt reported pc t
  | fired {slot : Time} : runsFull pc = false → t = { due := none, ready := true } →
      Slot backup now slot → quietAt ≤ slot → slot ≤ now →
        TimerAgrees lag backup now quietAt reported pc t
  /-- The backup notes the next instant before the timer is set. -/
  | busy {slot : Time} : runsFull pc = true → t = { due := none, ready := false } →
      Slot backup now slot → quietAt ≤ slot → slot ≤ now →
        (pc = .rearm → ∃ noted, slot ≤ noted ∧ noted ≤ now ∧ reported = backup.nextFull noted) →
          TimerAgrees lag backup now quietAt reported pc t

inductive LoopAgrees (lag : Nat) (backup : BackupConfig)
    (now quietAt reportedIncremental reportedFull : Time) (l : Loop) : Prop where
  | starting {began noted noted' : Time} : l.pc = .starting → l.clocks = none →
      l.incrementalInterval = backup.incrementalInterval → l.nextFull = backup.nextFull began →
        quietAt ≤ began → began ≤ noted → noted ≤ now →
          reportedIncremental = noted + backup.incrementalInterval →
            began ≤ noted' → noted' ≤ now → reportedFull = backup.nextFull noted' →
              LoopAgrees lag backup now quietAt reportedIncremental reportedFull l
  | started {c : LoopClocks} : running l.pc = true → l.clocks = some c →
      0 < backup.incrementalInterval →
        TickerAgrees lag backup.incrementalInterval now quietAt reportedIncremental l.pc c.ticker →
          TimerAgrees lag backup now quietAt reportedFull l.pc c.timer →
            LoopAgrees lag backup now quietAt reportedIncremental reportedFull l

/-- The loop has made its ticker since the loops were quiet, or not yet. -/
def Fresh (backup : BackupConfig) (quietAt : Time) (l : Loop) : Prop :=
  ∀ c, l.clocks = some c → quietAt + backup.incrementalInterval ≤ c.ticker.next

section Loop

variable {lag : Nat} {backup : BackupConfig} {now now' quietAt reported : Time} {pc pc' : LoopPC} {l l' : Loop}
variable {interval : Duration}

namespace TickerAgrees

variable {t t' : Ticker}

/-- Outside an incremental backup the loop does not touch its ticker. -/
theorem turn (h : TickerAgrees lag interval now quietAt reported pc t) (hpc : runsIncremental pc = false)
    (hpc' : runsIncremental pc' = false) : TickerAgrees lag interval now quietAt reported pc' t where
  period := h.period
  next_le := h.next_le
  set := fun hready _ => h.set hready hpc
  ticked := by
    rintro (hready | hbusy)
    · exact h.ticked (.inl hready)
    · cases hbusy.symm.trans hpc'

/-- Within an incremental backup nothing is set before its end. -/
theorem busy (h : TickerAgrees lag interval now quietAt reported pc t) (hpc : runsIncremental pc = true)
    (hpc' : runsIncremental pc' = true) : TickerAgrees lag interval now quietAt reported pc' t where
  period := h.period
  next_le := h.next_le
  set := fun _ hidle => by cases hidle.symm.trans hpc'
  ticked := fun _ => h.ticked (.inr hpc)

/-- The loop receives a tick. -/
theorem receive (h : TickerAgrees lag interval now quietAt reported pc t) (hready : t.ready = true)
    (hpc' : runsIncremental pc' = true) :
    TickerAgrees lag interval now quietAt reported pc' { t with ready := false } where
  period := h.period
  next_le := h.next_le
  set := fun _ hidle => by cases hidle.symm.trans hpc'
  ticked := fun _ => h.ticked (.inl hready)

theorem quietAt_le (h : TickerAgrees lag interval now quietAt reported pc t) (hinterval : 0 < interval) :
    quietAt ≤ t.next := by
  by_cases hbusy : t.ready = true ∨ runsIncremental pc = true
  · have hnext := h.ticked hbusy
    linarith
  · simp only [not_or, Bool.not_eq_true] at hbusy
    exact (h.set hbusy.1 hbusy.2).1

/-- An instant that is noted now is near a tick that is set by the last one. -/
theorem near_note (h : TickerAgrees lag interval now quietAt reported pc t)
    (hnext : quietAt + interval ≤ t.next) (hlag : now ≤ quietAt + lag) : Near lag (now + interval) t.next := by
  have hle := h.next_le
  have hpos : (0 : Int) ≤ lag := Int.natCast_nonneg lag
  exact ⟨by linarith, by linarith⟩

/-- Another instant is reported. -/
theorem note (h : TickerAgrees lag interval now quietAt reported pc t) (hinterval : 0 < interval)
    (hnext : quietAt + interval ≤ t.next) (hlag : now ≤ quietAt + lag) :
    TickerAgrees lag interval now quietAt (now + interval) pc' t where
  period := h.period
  next_le := h.next_le
  set := fun _ _ => ⟨by linarith, h.near_note hnext hlag⟩
  ticked := fun _ => hnext

theorem next_fire (hinterval : 0 < t.period) (hfire : t.fire now = some t') :
    t'.period = t.period ∧ t'.ready = true ∧ t.next + t.period ≤ t'.next ∧ t'.next ≤ now + t.period := by
  obtain ⟨hdue, rfl⟩ := Ticker.fire_cases hfire
  have hnonneg : 0 ≤ (now - t.next) / t.period := Int.ediv_nonneg (sub_nonneg.2 hdue) hinterval.le
  have hmul : t.period * ((now - t.next) / t.period) ≤ now - t.next := Int.mul_ediv_self_le hinterval.ne'
  have hmore : 0 ≤ t.period * ((now - t.next) / t.period) := mul_nonneg hinterval.le hnonneg
  refine ⟨rfl, rfl, ?_, ?_⟩
  · dsimp only
    linarith
  · dsimp only
    linarith

theorem fire (h : TickerAgrees lag interval now quietAt reported pc t) (hinterval : 0 < interval)
    (hfire : t.fire now = some t') : TickerAgrees lag interval now quietAt reported pc t' := by
  have hquiet := h.quietAt_le hinterval
  obtain ⟨hperiod, hready, hlow, hhigh⟩ := next_fire (h.period ▸ hinterval) hfire
  rw [h.period] at hperiod hlow hhigh
  exact {
    period := hperiod
    next_le := hhigh
    set := fun hidle => by cases hidle.symm.trans hready
    ticked := fun _ => by linarith }

/-- Time goes on. -/
theorem later (h : TickerAgrees lag interval now quietAt reported pc t) (hle : now ≤ now') :
    TickerAgrees lag interval now' quietAt reported pc t where
  period := h.period
  next_le := h.next_le.trans (by linarith)
  set := h.set
  ticked := h.ticked

/-- The loops are quiet until `now'`. -/
theorem rest (h : TickerAgrees lag interval now quietAt reported pc t) (hpc : runsIncremental pc = false)
    (hready : t.ready = false) (hle : now ≤ now') (hnext : now' ≤ t.next) :
    TickerAgrees lag interval now' now' reported pc t where
  period := h.period
  next_le := h.next_le.trans (by linarith)
  set := fun _ _ => ⟨hnext, (h.set hready hpc).2⟩
  ticked := by
    rintro (htrue | hbusy)
    · cases htrue.symm.trans hready
    · cases hbusy.symm.trans hpc

end TickerAgrees

namespace TimerAgrees

variable {t : Timer}

/-- Outside a full backup the loop does not touch its timer. -/
theorem turn (h : TimerAgrees lag backup now quietAt reported pc t) (hpc : runsFull pc = false)
    (hpc' : runsFull pc' = false) : TimerAgrees lag backup now quietAt reported pc' t := by
  cases h with
  | set _ ht hslot hquiet hle hahead => exact .set hpc' ht hslot hquiet hle hahead
  | fired _ ht hslot hquiet hle => exact .fired hpc' ht hslot hquiet hle
  | busy hbusy _ _ _ _ _ => cases hbusy.symm.trans hpc

/-- The slot of the full backup that the loop is making. -/
theorem slot_of_busy (h : TimerAgrees lag backup now quietAt reported pc t) (hpc : runsFull pc = true) :
    t = { due := none, ready := false } ∧
      ∃ slot, Slot backup now slot ∧ quietAt ≤ slot ∧ slot ≤ now ∧
        (pc = .rearm → ∃ noted, slot ≤ noted ∧ noted ≤ now ∧ reported = backup.nextFull noted) := by
  cases h with
  | set hidle _ _ _ _ _ => cases hidle.symm.trans hpc
  | fired hidle _ _ _ _ => cases hidle.symm.trans hpc
  | @busy slot _ ht hslot hquiet hle hrearm => exact ⟨ht, slot, hslot, hquiet, hle, hrearm⟩

/-- The loop receives from its timer. -/
theorem receive (h : TimerAgrees lag backup now quietAt reported pc t) (hready : t.ready = true) :
    TimerAgrees lag backup now quietAt reported (.trigger .full) { t with ready := false } := by
  cases h with
  | set _ ht _ _ _ _ => simp [ht] at hready
  | fired _ ht hslot hquiet hle => exact .busy rfl (by rw [ht]) hslot hquiet hle (by simp)
  | busy _ ht _ _ _ _ => simp [ht] at hready

/-- The timer is set for the slot after the backup, which was noted not long ago. -/
theorem rearm (h : TimerAgrees lag backup now quietAt reported .rearm t) (hlag : now ≤ quietAt + lag) :
    TimerAgrees lag backup now quietAt reported .selecting
      (newTimer now ((backup.nextFull now).sub now)) := by
  obtain ⟨_, slot, hslot, hquiet, _, hrearm⟩ := h.slot_of_busy rfl
  obtain ⟨noted, hlow, hhigh, rfl⟩ := hrearm rfl
  have hafter := (nextFull_bounds backup now).1
  have hslot' : Slot backup noted slot := by
    obtain ⟨t, _, rfl⟩ := hslot
    exact ⟨t, ((nextFull_bounds backup t).1.trans_le hlow).le, rfl⟩
  refine .set rfl (newTimer_nextFull le_rfl hafter.le) ⟨now, le_rfl, rfl⟩ ?_ le_rfl fun _ => ⟨rfl, ?_⟩
  · linarith
  · exact hslot'.near_next hlow hhigh (by linarith)

/-- The instant that is due now is reported. -/
theorem note (h : TimerAgrees lag backup now quietAt reported pc t) :
    TimerAgrees lag backup now quietAt (backup.nextFull now) pc t := by
  cases h with
  | @set due slot hpc ht hslot hquiet hle hahead =>
      refine .set hpc ht hslot hquiet hle fun hlt => ?_
      obtain ⟨rfl, _⟩ := hahead hlt
      exact ⟨rfl, hslot.eq_next hlt ▸ Near.refl lag slot⟩
  | fired hpc ht hslot hquiet hle => exact .fired hpc ht hslot hquiet hle
  | busy hpc ht hslot hquiet hle _ =>
      exact .busy hpc ht hslot hquiet hle fun _ => ⟨now, hle, le_rfl, rfl⟩

theorem fire {due : Time} (h : TimerAgrees lag backup now quietAt reported pc t) (hdue : t.due = some due)
    (hle : due ≤ now) : TimerAgrees lag backup now quietAt reported pc { due := none, ready := true } := by
  cases h with
  | set hpc ht hslot hquiet hbefore _ =>
      have hsame : _ = due := Option.some.inj ((congrArg Timer.due ht).symm.trans hdue)
      exact .fired hpc rfl hslot hquiet ((hbefore.trans hsame.le).trans hle)
  | fired _ ht _ _ _ => simp [ht] at hdue
  | busy _ ht _ _ _ _ => simp [ht] at hdue

/-- Time goes on. -/
theorem later (h : TimerAgrees lag backup now quietAt reported pc t) (hle : now ≤ now') :
    TimerAgrees lag backup now' quietAt reported pc t := by
  cases h with
  | set hpc ht hslot hquiet hdue hahead =>
      exact .set hpc ht (hslot.mono hle) hquiet hdue fun hlt => hahead (hle.trans_lt hlt)
  | fired hpc ht hslot hquiet hpast => exact .fired hpc ht (hslot.mono hle) hquiet (hpast.trans hle)
  | busy hpc ht hslot hquiet hpast hrearm =>
      refine .busy hpc ht (hslot.mono hle) hquiet (hpast.trans hle) fun heq => ?_
      obtain ⟨noted, hlow, hhigh, hreported⟩ := hrearm heq
      exact ⟨noted, hlow, hhigh.trans hle, hreported⟩

/-- An idle timer is set for the slot that is reported, or for one near it. -/
theorem due_of_idle (h : TimerAgrees lag backup now quietAt reported pc t) (hpc : runsFull pc = false)
    (hidle : t.idle now = true) :
    ∃ due, t = { due := some due, ready := false } ∧ Slot backup now due ∧ now < due ∧
      Near lag reported due := by
  obtain ⟨hready, hahead⟩ := Timer.idle_iff.1 hidle
  cases h with
  | @set due slot _ ht hslot _ _ hnear =>
      have hlt := hahead due (by rw [ht])
      obtain ⟨rfl, hreported⟩ := hnear hlt
      exact ⟨slot, ht, hslot, hlt, hreported⟩
  | fired _ ht _ _ _ => simp [ht] at hready
  | busy hbusy _ _ _ _ _ => cases hbusy.symm.trans hpc

end TimerAgrees

theorem LoopAgrees.cases_started {reportedIncremental reportedFull : Time}
    (h : LoopAgrees lag backup now quietAt reportedIncremental reportedFull l) (hpc : l.pc = pc)
    (hstarted : pc ≠ .starting) :
    ∃ c, running pc = true ∧ l.clocks = some c ∧ 0 < backup.incrementalInterval ∧
      TickerAgrees lag backup.incrementalInterval now quietAt reportedIncremental pc c.ticker ∧
        TimerAgrees lag backup now quietAt reportedFull pc c.timer := by
  subst hpc
  cases h with
  | starting hstarting => exact absurd hstarting hstarted
  | @started c hrunning hclocks hinterval hticker htimer =>
      exact ⟨c, hrunning, hclocks, hinterval, hticker, htimer⟩

/-- The clocks are set for what `Start` has noted, up to the time since then. -/
theorem LoopAgrees.start {reportedIncremental reportedFull : Time} {ticker : Ticker}
    (h : LoopAgrees lag backup now quietAt reportedIncremental reportedFull l) (hlag : now ≤ quietAt + lag)
    (hpc : l.pc = .starting) (hticker : newTicker now l.incrementalInterval = some ticker) :
    LoopAgrees lag backup now quietAt reportedIncremental reportedFull
        { l with
          pc := .selecting
          clocks := some { ticker := ticker, timer := newTimer now (l.nextFull.sub now) } } ∧
      quietAt + backup.incrementalInterval ≤ ticker.next := by
  cases h with
  | started hrunning => simp [running, hpc] at hrunning
  | @starting began noted noted' _ _ hinterval hfull hquiet hbegan hnoted hincremental hbegan' hnoted' hnext =>
      obtain ⟨hpos, rfl⟩ := newTicker_cases hticker
      rw [hinterval] at hpos ⊢
      have hafter := (nextFull_bounds backup began).1
      have hnonneg : (0 : Int) ≤ lag := Int.natCast_nonneg lag
      have hslot : Slot backup now (backup.nextFull began) := ⟨began, hbegan.trans hnoted, rfl⟩
      refine ⟨.started rfl rfl hpos ?_ ?_, by linarith⟩
      · refine ⟨rfl, le_rfl, fun _ _ => ⟨by linarith, ?_⟩, ?_⟩
        · rw [hincremental]
          exact ⟨by linarith, by linarith⟩
        · rintro (hready | hbusy)
          · cases hready
          · cases hbusy
      · rw [hfull]
        rcases le_total now (backup.nextFull began) with hahead | hpast
        · -- The slot lies ahead; it is still the one that is reported.
          refine .set rfl (newTimer_nextFull (hbegan.trans hnoted) hahead) hslot (by linarith) le_rfl ?_
          intro hlt
          have hsame : Slot backup noted' (backup.nextFull began) := ⟨began, hbegan', rfl⟩
          rw [hnext, hsame.eq_next (lt_of_le_of_lt hnoted' hlt)]
          exact ⟨rfl, Near.refl lag _⟩
        · exact .set rfl (newTimer_past hpast) hslot (by linarith) hpast fun hlt => absurd hlt (lt_irrefl now)

/-- What a loop notes by a move is what its clocks are set for, up to the time that the loops are busy. -/
theorem LoopAgrees.moves {s : Scheduler} {k : Nat} {choice : SelectCase} {effect : Effect}
    (h : LoopAgrees lag backup now quietAt s.nextIncrementalRun s.nextFullRun l) (hlive : l.cancelled = false)
    (hlag : now ≤ quietAt + lag) (hhours : keepsHours backup l = true)
    (hmoves : l.Moves backup now choice l' effect) (halive : effect ≠ .panic) :
    LoopAgrees lag backup now quietAt (s.record k l' now effect).nextIncrementalRun
      (s.record k l' now effect).nextFullRun l' := by
  cases hmoves with
  | panic _ _ => exact absurd rfl halive
  | start hpc hticker => exact (h.start hlag hpc hticker).1
  | done _ hcancelled => cases hlive.symm.trans hcancelled
  | receiveFull hpc hclocks hready =>
      obtain ⟨c, _, hc, hpos, hticker, htimer⟩ := h.cases_started hpc (by simp)
      cases hclocks.symm.trans hc
      exact .started rfl rfl hpos (hticker.turn rfl rfl) (htimer.receive hready)
  | receiveIncremental hpc hclocks hready =>
      obtain ⟨c, _, hc, hpos, hticker, htimer⟩ := h.cases_started hpc (by simp)
      cases hclocks.symm.trans hc
      exact .started rfl rfl hpos (hticker.receive hready rfl) (htimer.turn rfl rfl)
  | @trigger _ kind hpc =>
      obtain ⟨c, _, hc, hpos, hticker, htimer⟩ := h.cases_started hpc (by simp)
      cases kind with
      | full =>
          obtain ⟨ht, slot, hslot, hquiet, hle, _⟩ := htimer.slot_of_busy rfl
          exact .started rfl hc hpos (hticker.turn rfl rfl)
            (.busy rfl ht hslot hquiet hle (by simp [Loop.afterTrigger]))
      | incremental =>
          exact .started rfl hc hpos (hticker.busy rfl rfl) (htimer.turn rfl rfl)
  | recordFull hpc =>
      obtain ⟨c, _, hc, hpos, hticker, htimer⟩ := h.cases_started hpc (by simp)
      obtain ⟨ht, slot, hslot, hquiet, hle, _⟩ := htimer.slot_of_busy rfl
      exact .started rfl hc hpos (hticker.turn rfl rfl)
        (.busy rfl ht hslot hquiet hle fun _ => ⟨now, hle, le_rfl, rfl⟩)
  | rearm hpc =>
      obtain ⟨c, _, hc, hpos, hticker, htimer⟩ := h.cases_started hpc (by simp)
      refine .started (c := { c with timer := newTimer now ((backup.nextFull now).sub now) })
        rfl ?_ hpos (hticker.turn rfl rfl) (htimer.rearm hlag)
      simp [Loop.rearm, hc]
  | readHours hpc =>
      obtain ⟨c, _, hc, hpos, hticker, htimer⟩ := h.cases_started hpc (by simp)
      exact .started rfl hc hpos (hticker.busy rfl rfl) (htimer.turn rfl rfl)
  | recordIncremental hpc =>
      obtain ⟨c, _, hc, hpos, hticker, htimer⟩ := h.cases_started hpc (by simp)
      simp only [keepsHours, hpc, decide_eq_true_eq] at hhours
      subst hhours
      exact .started rfl hc hpos (hticker.note hpos (hticker.ticked (.inr rfl)) hlag) (htimer.turn rfl rfl)

/-- A new loop stays so until the loops are quiet. -/
theorem Fresh.moves {reportedIncremental reportedFull : Time} {choice : SelectCase} {effect : Effect}
    (hfresh : Fresh backup quietAt l)
    (h : LoopAgrees lag backup now quietAt reportedIncremental reportedFull l) (hlag : now ≤ quietAt + lag)
    (hmoves : l.Moves backup now choice l' effect) : Fresh backup quietAt l' := by
  intro c hc
  cases hmoves with
  | start hpc hticker =>
      cases hc
      exact (h.start hlag hpc hticker).2
  | done => cases hc
  | @receiveFull clocks _ hclocks _ =>
      cases hc
      exact hfresh clocks hclocks
  | @receiveIncremental clocks _ hclocks _ =>
      cases hc
      exact hfresh clocks hclocks
  | rearm =>
      obtain ⟨c', hc', rfl⟩ := Option.map_eq_some_iff.1 hc
      exact hfresh c' hc'
  | _ => exact hfresh c hc

theorem LoopAgrees.fires {reportedIncremental reportedFull : Time} {kind : BackupKind}
    (h : LoopAgrees lag backup now quietAt reportedIncremental reportedFull l)
    (hfires : l.Fires now kind l') :
    LoopAgrees lag backup now quietAt reportedIncremental reportedFull l' := by
  cases h with
  | starting _ hnone =>
      cases hfires with
      | full hclocks => cases hnone.symm.trans hclocks
      | incremental hclocks => cases hnone.symm.trans hclocks
  | started hpc hc hpos hticker htimer =>
      cases hfires with
      | full hclocks hdue hle =>
          cases hclocks.symm.trans hc
          exact .started hpc rfl hpos hticker (htimer.fire hdue hle)
      | incremental hclocks hfire =>
          cases hclocks.symm.trans hc
          exact .started hpc rfl hpos (hticker.fire hpos hfire) htimer

theorem Fresh.fires {reportedIncremental reportedFull : Time} {kind : BackupKind}
    (hfresh : Fresh backup quietAt l)
    (h : LoopAgrees lag backup now quietAt reportedIncremental reportedFull l)
    (hfires : l.Fires now kind l') : Fresh backup quietAt l' := by
  intro c hc
  cases h with
  | starting _ hnone =>
      cases hfires with
      | full hclocks => cases hnone.symm.trans hclocks
      | incremental hclocks => cases hnone.symm.trans hclocks
  | started _ hc' hpos hticker _ =>
      cases hfires with
      | @full clocks _ hclocks _ _ =>
          cases hc
          exact hfresh clocks hclocks
      | incremental hclocks hfire =>
          cases hc
          cases hclocks.symm.trans hc'
          have hnext := TickerAgrees.next_fire (hticker.period ▸ hpos) hfire
          have hbefore := hfresh _ hclocks
          have hperiod := hticker.period ▸ hpos
          linarith [hnext.2.2.1]

/-- Another loop notes an instant. -/
theorem LoopAgrees.noteIncremental {reportedIncremental reportedFull : Time}
    (h : LoopAgrees lag backup now quietAt reportedIncremental reportedFull l) (hfresh : Fresh backup quietAt l)
    (hlag : now ≤ quietAt + lag) :
    LoopAgrees lag backup now quietAt (now + backup.incrementalInterval) reportedFull l := by
  cases h with
  | starting hpc hclocks hinterval hfull hquiet hbegan hnoted _ hbegan' hnoted' hnext =>
      exact .starting hpc hclocks hinterval hfull hquiet (hbegan.trans hnoted) le_rfl rfl hbegan' hnoted' hnext
  | started hpc hc hpos hticker htimer =>
      exact .started hpc hc hpos (hticker.note hpos (hfresh _ hc) hlag) htimer

theorem LoopAgrees.noteFull {reportedIncremental reportedFull : Time}
    (h : LoopAgrees lag backup now quietAt reportedIncremental reportedFull l) :
    LoopAgrees lag backup now quietAt reportedIncremental (backup.nextFull now) l := by
  cases h with
  | starting hpc hclocks hinterval hfull hquiet hbegan hnoted hincremental hbegan' hnoted' _ =>
      exact .starting hpc hclocks hinterval hfull hquiet hbegan hnoted hincremental
        (hbegan'.trans hnoted') le_rfl rfl
  | started hpc hc hpos hticker htimer => exact .started hpc hc hpos hticker htimer.note

/-- Another loop moves. -/
theorem LoopAgrees.moves_of_other {s : Scheduler} {k : Nat} {choice : SelectCase} {effect : Effect}
    {u u' : Loop} (h : LoopAgrees lag backup now quietAt s.nextIncrementalRun s.nextFullRun l)
    (hfresh : Fresh backup quietAt l) (hlag : now ≤ quietAt + lag) (hhours : keepsHours backup u = true)
    (hmoves : u.Moves backup now choice u' effect) :
    LoopAgrees lag backup now quietAt (s.record k u' now effect).nextIncrementalRun
      (s.record k u' now effect).nextFullRun l := by
  cases hmoves with
  | recordFull _ => exact h.noteFull
  | recordIncremental hpc =>
      simp only [keepsHours, hpc, decide_eq_true_eq] at hhours
      subst hhours
      exact h.noteIncremental hfresh hlag
  | _ => exact h

theorem LoopAgrees.later {reportedIncremental reportedFull : Time}
    (h : LoopAgrees lag backup now quietAt reportedIncremental reportedFull l) (hle : now ≤ now') :
    LoopAgrees lag backup now' quietAt reportedIncremental reportedFull l := by
  cases h with
  | starting hpc hclocks hinterval hfull hquiet hbegan hnoted hincremental hbegan' hnoted' hnext =>
      exact .starting hpc hclocks hinterval hfull hquiet hbegan (hnoted.trans hle) hincremental hbegan'
        (hnoted'.trans hle) hnext
  | started hpc hc hpos hticker htimer => exact .started hpc hc hpos (hticker.later hle) (htimer.later hle)

/-- The clocks of a loop that waits are set for the instants that are reported, or for some near them. -/
theorem LoopAgrees.clocks_of_waits {reportedIncremental reportedFull : Time}
    (h : LoopAgrees lag backup now quietAt reportedIncremental reportedFull l) (hlive : l.cancelled = false)
    (hwaits : l.waits now = true) :
    ∃ c due, l.pc = .selecting ∧ l.clocks = some c ∧ 0 < backup.incrementalInterval ∧
      TickerAgrees lag backup.incrementalInterval now quietAt reportedIncremental .selecting c.ticker ∧
        c.ticker.ready = false ∧ now < c.ticker.next ∧ Near lag reportedIncremental c.ticker.next ∧
          c.timer = { due := some due, ready := false } ∧ Slot backup now due ∧ now < due ∧
            Near lag reportedFull due := by
  have hstarted : l.pc ≠ .starting := by
    intro hpc
    simp [Loop.waits, hpc] at hwaits
  obtain ⟨c, hrunning, hc, hpos, hticker, htimer⟩ := h.cases_started rfl hstarted
  have hselecting : l.pc = .selecting := by
    unfold Loop.waits at hwaits
    split at hwaits
    · rename_i hpc
      simp [running, hpc] at hrunning
    · rename_i hpc
      exact hpc
    · cases hwaits
  simp only [Loop.waits, hselecting, hlive, hc, Option.any_some, Bool.not_false, Bool.true_and,
    Bool.and_eq_true] at hwaits
  rw [hselecting] at hticker htimer
  obtain ⟨hready, hnext⟩ := Ticker.idle_iff.1 hwaits.1
  obtain ⟨due, ht, hslot, hahead, hnear⟩ := htimer.due_of_idle rfl hwaits.2
  exact ⟨c, due, hselecting, hc, hpos, hticker, hready, hnext, (hticker.set hready rfl).2, ht, hslot, hahead,
    hnear⟩

/-- The loops are quiet until `now'`, and the clocks are not passed. -/
theorem LoopAgrees.rest {reportedIncremental reportedFull : Time}
    (h : LoopAgrees lag backup now quietAt reportedIncremental reportedFull l) (hlive : l.cancelled = false)
    (hwaits : l.waits now = true) (hle : now ≤ now') (hlasts : l.lasts now' = true) :
    LoopAgrees lag backup now' now' reportedIncremental reportedFull l := by
  obtain ⟨c, due, hselecting, hc, hpos, hticker, hready, _, _, ht, hslot, hahead, hnear⟩ :=
    h.clocks_of_waits hlive hwaits
  simp only [Loop.lasts, hc, ht, Option.all_some, Bool.and_eq_true, decide_eq_true_eq] at hlasts
  refine .started (by rw [hselecting]; rfl) hc hpos ?_ ?_
  · rw [hselecting]
    exact hticker.rest rfl hready hle hlasts.1
  · rw [hselecting]
    exact .set rfl ht (hslot.mono hle) hlasts.2 le_rfl fun _ => ⟨rfl, hnear⟩

/-- Nothing is passed at the moment at which the loop waits. -/
theorem lasts_of_waits (hlive : l.cancelled = false)
    (h : LoopAgrees lag backup now quietAt reported now' l) (hwaits : l.waits now = true) :
    l.lasts now = true := by
  obtain ⟨c, due, _, hc, _, _, _, hnext, _, ht, _, hahead, _⟩ := h.clocks_of_waits hlive hwaits
  simp [Loop.lasts, hc, ht, hnext.le, hahead.le]

theorem keepsHours_of_moves {choice : SelectCase} {effect : Effect}
    (h : l.Moves backup now choice l' effect) : keepsHours backup l' = true := by
  cases h with
  | panic hpc _ => simp [keepsHours, hpc]
  | @trigger _ kind _ => cases kind <;> rfl
  | readHours _ => simp [keepsHours]
  | _ => rfl

theorem keepsHours_of_pc (h : l'.pc = l.pc) : keepsHours backup l' = keepsHours backup l := by
  unfold keepsHours
  rw [h]

end Loop

/-! ## The scheduler -/

/-- Beside the loop that is not cancelled the others do not matter: they have returned, or the loop is as
new as what they note. -/
def OthersAgree (backup : BackupConfig) (quietAt : Time) (s : Scheduler) (l : Loop) : Prop :=
  (∀ (j : Nat) (u : Loop), s.loops[j]? = some u → s.cancel ≠ some j → u.pc = .returned) ∨
    Fresh backup quietAt l

structure Agrees (lag : Nat) (backup : BackupConfig) (now quietAt : Time) (s : Scheduler) : Prop where
  /-- The loops are not busy for longer than `lag`. -/
  busy : now ≤ quietAt + lag
  hours : ∀ (j : Nat) (l : Loop), s.loops[j]? = some l → keepsHours backup l = true
  loop : s.panicked = false → ∃ (k : Nat) (l : Loop),
    s.cancel = some k ∧ s.loops[k]? = some l ∧ l.cancelled = false ∧ OthersAgree backup quietAt s l ∧
      LoopAgrees lag backup now quietAt s.nextIncrementalRun s.nextFullRun l

section Scheduler

variable {lag : Nat} {backup : BackupConfig} {now now' quietAt : Time} {s : Scheduler}

theorem Agrees.start (hinterval : backup.schedules = true)
    (hhours : ∀ (j : Nat) (l : Loop), s.loops[j]? = some l → keepsHours backup l = true) :
    Agrees lag backup now now (s.start backup now) := by
  have hincremental :
      (s.start backup now).nextIncrementalRun = now + backup.incrementalInterval := by
    simp [Scheduler.start, hinterval]
  have hfull : (s.start backup now).nextFullRun = backup.nextFull now := by
    simp [Scheduler.start, hinterval]
  refine ⟨le_add_of_nonneg_right (Int.natCast_nonneg lag), ?_, fun _ => ?_⟩
  · intro j u hu
    rcases Scheduler.getElem?_start hu with ⟨v, hv, rfl⟩ | ⟨_, _, rfl⟩
    · unfold Scheduler.afterCancel
      split <;> exact hhours j v hv
    · rfl
  · refine ⟨s.loops.length, _, Scheduler.start_cancel hinterval,
      Scheduler.getElem?_start_new s now hinterval, rfl, .inr ?_, ?_⟩
    · intro c hc
      cases hc
    · exact .starting rfl rfl rfl rfl le_rfl le_rfl le_rfl hincremental le_rfl le_rfl hfull

/-- Whichever loop moves, the reports stay right. -/
theorem Agrees.record {j : Nat} {choice : SelectCase} {u u' : Loop} {effect : Effect}
    (h : Agrees lag backup now quietAt s) (hu : s.loops[j]? = some u)
    (hmoves : u.Moves backup now choice u' effect) :
    Agrees lag backup now quietAt (s.record j u' now effect) := by
  have hkeeps := h.hours j u hu
  refine ⟨h.busy, ?_, ?_⟩
  · intro i v hv
    rw [Scheduler.record_loops] at hv
    rcases getElem?_of_set hv with ⟨_, rfl⟩ | ⟨_, hold⟩
    · exact keepsHours_of_moves hmoves
    · exact h.hours i v hold
  · intro halive
    have hbefore : s.panicked = false ∧ effect ≠ .panic := by
      cases effect <;> simp_all [Scheduler.record]
    obtain ⟨k, v, hcancel, hv, hlive, hothers, hagrees⟩ := h.loop hbefore.1
    refine ⟨k, ?_⟩
    unfold OthersAgree
    rw [Scheduler.record_cancel, Scheduler.record_loops]
    -- A loop that has returned does not move, and the others that have returned stay so.
    have hreturned : (∀ (i : Nat) (w : Loop), s.loops[i]? = some w → s.cancel ≠ some i → w.pc = .returned) →
        ∀ (i : Nat) (w : Loop), (s.loops.set j u')[i]? = some w → s.cancel ≠ some i → w.pc = .returned := by
      intro hall i w hw hother
      rcases getElem?_of_set hw with ⟨rfl, rfl⟩ | ⟨_, hold⟩
      · exact absurd (hall i u hu hother) hmoves.not_returned
      · exact hall i w hold hother
    rcases getElem?_set_cases hu hv u' with ⟨rfl, rfl, hset⟩ | ⟨hjk, hset⟩
    · refine ⟨u', hcancel, hset, hmoves.cancelled.trans hlive, ?_,
        hagrees.moves hlive h.busy hkeeps hmoves hbefore.2⟩
      exact hothers.imp hreturned fun hfresh => hfresh.moves hagrees h.busy hmoves
    · refine ⟨v, hcancel, hset, hlive, hothers.imp_left hreturned, ?_⟩
      have hother : s.cancel ≠ some j := by
        rw [hcancel]
        simpa using Ne.symm hjk
      rcases hothers with hall | hfresh
      · exact absurd (hall j u hu hother) hmoves.not_returned
      · exact hagrees.moves_of_other hfresh h.busy hkeeps hmoves

theorem Agrees.fire {j : Nat} {kind : BackupKind} {u u' : Loop} (h : Agrees lag backup now quietAt s)
    (hu : s.loops[j]? = some u) (hfires : u.Fires now kind u') :
    Agrees lag backup now quietAt { s with loops := s.loops.set j u' } := by
  refine ⟨h.busy, ?_, ?_⟩
  · intro i v hv
    rcases getElem?_of_set hv with ⟨_, rfl⟩ | ⟨_, hold⟩
    · rw [keepsHours_of_pc hfires.pc]
      exact h.hours j u hu
    · exact h.hours i v hold
  · intro halive
    obtain ⟨k, v, hcancel, hv, hlive, hothers, hagrees⟩ := h.loop halive
    refine ⟨k, ?_⟩
    have hreturned : (∀ (i : Nat) (w : Loop), s.loops[i]? = some w → s.cancel ≠ some i → w.pc = .returned) →
        ∀ (i : Nat) (w : Loop), (s.loops.set j u')[i]? = some w → s.cancel ≠ some i → w.pc = .returned := by
      intro hall i w hw hother
      rcases getElem?_of_set hw with ⟨rfl, rfl⟩ | ⟨_, hold⟩
      · exact hfires.pc.trans (hall i u hu hother)
      · exact hall i w hold hother
    rcases getElem?_set_cases hu hv u' with ⟨rfl, rfl, hset⟩ | ⟨_, hset⟩
    · exact ⟨u', hcancel, hset, hfires.cancelled.trans hlive,
        hothers.imp hreturned fun hfresh => hfresh.fires hagrees hfires, hagrees.fires hfires⟩
    · exact ⟨v, hcancel, hset, hlive, hothers.imp_left hreturned, hagrees⟩

/-- Time passes while the loops are busy. -/
theorem Agrees.later (h : Agrees lag backup now quietAt s) (hle : now ≤ now') (hlag : now' ≤ quietAt + lag) :
    Agrees lag backup now' quietAt s where
  busy := hlag
  hours := h.hours
  loop := fun halive => by
    obtain ⟨k, l, hcancel, hl, hlive, hothers, hagrees⟩ := h.loop halive
    exact ⟨k, l, hcancel, hl, hlive, hothers, hagrees.later hle⟩

/-- Where no loop has anything to do, every cancelled loop has returned. -/
theorem returned_of_waits (honly : s.OnlyLive)
    (hwaits : ∀ (j : Nat) (l : Loop), s.loops[j]? = some l → l.waits now = true) (j : Nat) (l : Loop)
    (hl : s.loops[j]? = some l) (hother : s.cancel ≠ some j) : l.pc = .returned := by
  -- A cancelled loop in its `select` has something to do, so it is not there any more.
  have hcancelled : l.cancelled = true := by
    by_contra hlive
    rw [Bool.not_eq_true] at hlive
    exact hother (honly j l hl hlive)
  have hwait := hwaits j l hl
  unfold Loop.waits at hwait
  split at hwait
  · rename_i hpc
    exact hpc
  · simp [hcancelled] at hwait
  · cases hwait

/-- No loop has anything to do until `now'`, and no clock is passed. -/
theorem Agrees.rest (h : Agrees lag backup now quietAt s) (honly : s.OnlyLive)
    (hwaits : ∀ (j : Nat) (l : Loop), s.loops[j]? = some l → l.waits now = true) (hle : now ≤ now')
    (hlasts : ∀ (j : Nat) (l : Loop), s.loops[j]? = some l → l.cancelled = false → l.lasts now' = true) :
    Agrees lag backup now' now' s where
  busy := le_add_of_nonneg_right (Int.natCast_nonneg lag)
  hours := h.hours
  loop := fun halive => by
    obtain ⟨k, l, hcancel, hl, hlive, _, hagrees⟩ := h.loop halive
    exact ⟨k, l, hcancel, hl, hlive, .inl (returned_of_waits honly hwaits),
      hagrees.rest hlive (hwaits k l hl) hle (hlasts k l hl hlive)⟩

end Scheduler

/-! ## Steps -/

/-- The reports are right unless some request is about to restart the scheduler. -/
structure Truthful (lag : Nat) (w : WatchedWorld) : Prop where
  interval : hasInterval w.world.store.getBackup = true
  live : w.world.sched.OnlyLive
  agrees : pending w.world = false → w.world.store.getBackup.enabled = true →
    Agrees lag w.world.store.getBackup w.world.now w.quietAt w.world.sched

section Step

variable {env : ConnEnv} {lag : Nat} {w w' : WatchedWorld} {l : SettingsLabel}

theorem schedules_of_enabled {backup : BackupConfig} (hinterval : hasInterval backup = true)
    (henabled : backup.enabled = true) : backup.schedules = true := by
  simpa [hasInterval, BackupConfig.schedules, henabled] using hinterval

/-- A request that does not wait for its restart does not count. -/
theorem pending_of_setRequest {w : SettingsWorld} {i : Nat} {r : SettingsRequest} {pc : RequestPC}
    (hr : w.requests[i]? = some r) (hbefore : r.pc.isRestart = false)
    (h : pending (w.setRequest i r pc) = false) : pending w = false ∧ pc.isRestart = false := by
  have hi : i < w.requests.length := (List.getElem?_eq_some_iff.1 hr).1
  simp only [pending, SettingsWorld.setRequest, List.any_eq_false] at h ⊢
  refine ⟨?_, ?_⟩
  · intro u hu
    obtain ⟨j, hj⟩ := List.mem_iff_getElem?.1 hu
    rcases getElem?_set_cases hr hj { r with pc := pc } with ⟨_, rfl, _⟩ | ⟨_, hset⟩
    · simp [hbefore]
    · exact h u (List.mem_of_getElem? hset)
  · have hmem : { r with pc := pc } ∈ w.requests.set i { r with pc := pc } :=
      List.mem_of_getElem? (List.getElem?_set_self hi)
    simpa using h _ hmem

/-- Only an update that has written the file waits for its restart. -/
theorem isRestart_afterUpdate {cs : ConfigStore} {cfg : AppConfig} {outcome : WriteOutcome} :
    (afterUpdate (cs.update env cfg outcome).2).isRestart = isWritten outcome := by
  cases outcome <;> rfl

/-- The reports are right also when only the busy time of the loops counts. -/
theorem Truthful.rested (h : Truthful lag w) (hpending : pending w.world = false)
    (henabled : w.world.store.getBackup.enabled = true) :
    Agrees lag w.world.store.getBackup w.world.now w.rested w.world.sched := by
  have hagrees := h.agrees hpending henabled
  unfold WatchedWorld.rested
  by_cases hquiet : quiet w.world = true
  · rw [if_pos hquiet]
    have hwaits : ∀ (j : Nat) (u : Loop), w.world.sched.loops[j]? = some u → u.waits w.world.now = true :=
      fun j u hu => List.all_eq_true.1 hquiet u (List.mem_of_getElem? hu)
    by_cases hpanicked : w.world.sched.panicked = true
    · exact ⟨le_add_of_nonneg_right (Int.natCast_nonneg lag), hagrees.hours, fun halive => by
        cases halive.symm.trans hpanicked⟩
    · obtain ⟨k, u, hcancel, hu, hlive, _, hloop⟩ := hagrees.loop (Bool.eq_false_of_not_eq_true hpanicked)
      refine hagrees.rest h.live hwaits le_rfl fun j v hv hv' => ?_
      -- Only this loop is not cancelled.
      have hsame : some k = some j := hcancel.symm.trans (h.live j v hv hv')
      cases hsame
      cases hu.symm.trans hv
      exact lasts_of_waits hlive hloop (hwaits k u hu)
  · rw [if_neg hquiet]
    exact hagrees

theorem truthful_step (h : Truthful lag w) (hok : statusStep lag w l = true)
    (hstep : w.step env l = some w') : Truthful lag w' := by
  obtain ⟨world, hworld, rfl⟩ := Option.map_eq_some_iff.1 hstep
  cases SettingsWorld.moves_of_step hworld with
  | @post body =>
      -- Another request can only add to those that are pending.
      refine ⟨h.interval, h.live, fun hpending => h.rested ?_⟩
      simp only [pending, List.any_append, Bool.or_eq_false_iff] at hpending
      exact hpending.1
  | readToken hr hpc =>
      simp only [SettingsWorld.restarts, hr, hpc, Option.any_some, RequestPC.isRestart, Bool.false_eq_true,
        if_false]
      refine ⟨h.interval, h.live, fun hpending => h.rested ?_⟩
      exact (pending_of_setRequest hr (by simp [hpc, RequestPC.isRestart]) hpending).1
  | @update i outcome r cfg hr hpc =>
      have hupdate : (w.world.store.update env cfg outcome).1.getBackup = cfg.backup := by
        rw [ConfigStore.getBackup, update_config]
        rfl
      simp only [statusStep, hr, hpc, Option.map_some, Bool.and_eq_true, Bool.or_eq_true,
        decide_eq_true_eq] at hok
      obtain ⟨hinterval, hwritten⟩ := hok
      simp only [SettingsWorld.restarts, hr, hpc, Option.any_some, RequestPC.isRestart, Bool.false_eq_true,
        if_false]
      refine ⟨hupdate ▸ hinterval, h.live, ?_⟩
      intro hpending henabled
      obtain ⟨hbefore, hfailed⟩ := pending_of_setRequest (w := { w.world with store := _ }) hr
        (by simp [hpc, RequestPC.isRestart]) hpending
      rw [isRestart_afterUpdate] at hfailed
      -- The settings could not be written; they are those from before.
      have hsame : cfg.backup = w.world.store.getBackup := by simpa [hfailed] using hwritten
      simp only [SettingsWorld.setRequest_store, SettingsWorld.setRequest_now,
        SettingsWorld.setRequest_sched, hupdate, hsame] at henabled ⊢
      exact h.rested hbefore henabled
  | @restart i outcome r hr hpc =>
      -- Whatever was true before, `Start` notes both instants anew.
      simp only [SettingsWorld.restarts, hr, hpc, Option.any_some, RequestPC.isRestart, if_true]
      refine ⟨h.interval, h.live.start _ _, ?_⟩
      intro _ henabled
      have hkeeps : w.world.sched.loops.all (keepsHours w.world.store.getBackup) = true := by
        simpa [statusStep, hr, hpc, show w.world.store.getBackup.enabled = true from henabled] using hok
      refine Agrees.start (schedules_of_enabled h.interval henabled) ?_
      intro j u hu
      exact List.all_eq_true.1 hkeeps u (List.mem_of_getElem? hu)
  | loop hu hmoves =>
      refine ⟨h.interval, h.live.record hu hmoves.cancelled _ _, ?_⟩
      intro hpending henabled
      exact (h.rested hpending henabled).record hu hmoves
  | fire hu hfires =>
      refine ⟨h.interval, fun _ _ hv hlive => h.live.set hu hfires.cancelled hv hlive, ?_⟩
      intro hpending henabled
      exact (h.rested hpending henabled).fire hu hfires
  | @pass d =>
      simp only [SettingsWorld.restarts, Bool.false_eq_true, if_false]
      refine ⟨h.interval, h.live, ?_⟩
      intro hpending henabled
      have hagrees := h.rested hpending henabled
      have hlater : w.world.now ≤ w.world.now + (d : Int) := le_add_of_nonneg_right (Int.natCast_nonneg d)
      by_cases hmay : w.world.mayPass d = true
      · simp only [hmay, if_true]
        have hboth : ∀ (j : Nat) (u : Loop), w.world.sched.loops[j]? = some u →
            u.waits w.world.now = true ∧ u.lasts (w.world.now + d) = true := fun j u hu =>
          Bool.and_eq_true_iff.1 (List.all_eq_true.1 hmay u (List.mem_of_getElem? hu))
        exact hagrees.rest h.live (fun j u hu => (hboth j u hu).1) hlater fun j u hu _ => (hboth j u hu).2
      · simp only [hmay, Bool.false_eq_true, if_false]
        have hlag : w.world.now + (d : Int) ≤ w.rested + lag := by
          simpa [statusStep, show pending w.world = false from hpending,
            show w.world.store.getBackup.enabled = true from henabled, hmay] using hok
        exact hagrees.later hlater hlag

theorem truthful_boot {store : ConfigStore} (hinterval : hasInterval store.getBackup = true)
    (now : Time) : Truthful lag (WatchedWorld.boot store now) := by
  refine ⟨hinterval, Scheduler.OnlyLive.initial.start _ _, ?_⟩
  intro _ henabled
  refine Agrees.start (schedules_of_enabled hinterval henabled) ?_
  intro j u hu
  simp at hu

/-- A status that names instants names those of the loop's clocks. -/
theorem Truthful.tells (h : Truthful lag w) (hsettled : settled w.world = true) :
    StatusTells lag w.world := by
  intro hnames
  have henabled : w.world.store.getBackup.enabled = true := by
    by_contra hdisabled
    rw [Bool.not_eq_true] at hdisabled
    simp [SettingsWorld.status, Scheduler.status, hdisabled] at hnames
  simp only [settled, Bool.and_eq_true, Bool.not_eq_true'] at hsettled
  obtain ⟨⟨halive, hpending⟩, hwait⟩ := hsettled
  obtain ⟨k, l, hcancel, hl, hlive, _, hagrees⟩ := (h.agrees hpending henabled).loop halive
  have hwaits : l.waits w.world.now = true := by
    simpa [hlive] using List.all_eq_true.1 hwait l (List.mem_of_getElem? hl)
  obtain ⟨c, due, _, hc, _, _, _, _, hticker, htimer, _, _, hfull⟩ := hagrees.clocks_of_waits hlive hwaits
  refine ⟨k, l, c, due, w.world.sched.nextFullRun, w.world.sched.nextIncrementalRun, hcancel, hl, hlive, hc,
    by rw [htimer], ?_, hfull, ?_, hticker⟩
  · simp [SettingsWorld.status, Scheduler.status, henabled]
  · simp [SettingsWorld.status, Scheduler.status, henabled]

end Step

theorem status_tells (env : ConnEnv) (lag : Nat) (store : ConfigStore) (now : Time) (w : WatchedWorld)
    (hinterval : hasInterval store.getBackup = true)
    (hrun : Within (WatchedWorld.step env) (fun w l => statusStep lag w l = true)
      (WatchedWorld.boot store now) w)
    (hsettled : settled w.world = true) : StatusTells lag w.world := by
  have htruthful : Truthful lag w :=
    hrun.invariant (fun _ _ _ h hok hstep => truthful_step h hok hstep)
      (truthful_boot hinterval now)
  exact htruthful.tells hsettled

/-! ## Concrete runs -/

/-- One backup, for which the loop takes three seconds; then the interval is changed, and the new loop waits
after two seconds. -/
def rescheduled : List SettingsLabel :=
  firstTick ++ [.pass 1000000000, receiveTick, .loop 0 .done, .pass 2000000000, .loop 0 .done, .loop 0 .done] ++
    [.pass 1800000000000, .post (.ok (.obj [("backup",
        .obj [("enabled", .bool true), ("incrementalIntervalHours", .int 6)])])),
      .serve 0 .written, .serve 0 .written] ++
      [.pass 2000000000, .loop 0 .done, .loop 1 .done, .pass 1800000000000]

/-- The tolerance is three seconds. -/
theorem status_tells_rescheduled :
    ∃ w : SettingsWorld,
      w.status.nextIncrementalRun = some (7 * Duration.hour + 1803000000000) ∧
        StatusTells 3000000000 w := by
  have hmeets : runMeets (WatchedWorld.step {}) (statusStep 3000000000) (WatchedWorld.boot hourlyStore 0)
      rescheduled = true := by decide +kernel
  have hend : (Transition.run (WatchedWorld.step {}) (WatchedWorld.boot hourlyStore 0)
      rescheduled).any (fun w => settled w.world &&
        decide (w.world.status.nextIncrementalRun = some (7 * Duration.hour + 1803000000000))) = true := by
    decide +kernel
  obtain ⟨w, hrun, htest⟩ := exists_within_of_run hmeets hend
  obtain ⟨hsettled, hnext⟩ := Bool.and_eq_true_iff.1 htest
  exact ⟨w.world, of_decide_eq_true hnext,
    status_tells {} 3000000000 hourlyStore 0 w (by decide) hrun hsettled⟩

/-- Backups are enabled without an interval. -/
def enabledWithoutInterval : List SettingsLabel :=
  [.loop 0 .done, .post (.ok (.obj [("backup", .obj [("enabled", .bool true)])])),
    .serve 0 .written, .serve 0 .written, .loop 0 .done]

/-- Whatever the tolerance is. -/
theorem idle_schedule_reported :
    ¬∃ lag : Nat, ∀ (env : ConnEnv) (store : ConfigStore) (now : Time) (w : SettingsWorld),
      Reach (SettingsWorld.step env) (SettingsWorld.boot store now) w → settled w = true →
        StatusTells lag w := by
  rintro ⟨lag, hall⟩
  have hend : (Transition.run (SettingsWorld.step {}) (SettingsWorld.boot hourlyStore 0)
      enabledWithoutInterval).any (fun w => settled w && w.status.nextFullRun.isSome &&
        w.sched.loops.all Loop.cancelled) = true := by
    decide +kernel
  obtain ⟨w, hreach, htest⟩ := exists_reach_of_run hend
  simp only [Bool.and_eq_true] at htest
  obtain ⟨⟨hsettled, hnames⟩, hcancelled⟩ := htest
  obtain ⟨k, l, c, due, full, incremental, _, hl, hlive, _⟩ :=
    hall {} hourlyStore 0 w hreach hsettled (.inl hnames)
  rw [List.all_eq_true.1 hcancelled l (List.mem_of_getElem? hl)] at hlive
  cases hlive

end Handler
end Pgaio
