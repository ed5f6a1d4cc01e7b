import Mathlib.Tactic.Linarith
import Pgaio.Go.Slices
import Pgaio.Go.Timers
import Pgaio.Service.AppConfig
import Pgaio.Service.WalG

/-!
# Scheduler — the loops that trigger backups

`service/scheduler.go`.  `start` cancels the loop before and starts a new one; the old loops go on
until they notice.  A loop is the goroutine of `run`; `LoopPC` says which action it performs next.
Atomic are the critical sections of `s.mu`, the calls of the config store and of `WalG`, and one
receive of the `select`.

What a step of a loop does to the scheduler is an `Effect`.  Of a backup the model keeps the moment at
which it was triggered.  After a panic nothing happens any more.
-/

namespace Pgaio
namespace Service

open Go

/-! ## Instants and intervals -/

/-- The offset of the zone GMT+7. -/
def gmt7 : Duration := 7 * Duration.hour

/-- The hour on the next such weekday, today included. -/
def onWeekday (now : Time) (weekday hour : Int) : Time :=
  -- Days since 1 January of the year 1, which was a Monday.
  let today := (now + gmt7) / Duration.day
  let days := (weekday - (today + 1) % 7 + 7) % 7
  (today + days) * Duration.day + hour * Duration.hour - gmt7

def nextWeeklyRun (now : Time) (weekday hour : Int) : Time :=
  let weekday := if weekday < 0 ∨ 6 < weekday then 0 else weekday
  let hour := if hour < 0 ∨ 23 < hour then 4 else hour
  let next := onWeekday now weekday hour
  if next.after now then next else next + 7 * Duration.day

namespace BackupConfig

/-- `incrementalHours`, with the older setting where the newer one is missing. -/
def incrementalHours (b : BackupConfig) : Int :=
  if b.incrementalIntervalHours ≤ 0 then b.intervalHours else b.incrementalIntervalHours

/-- `time.Duration(hours) * time.Hour`. -/
def incrementalInterval (b : BackupConfig) : Duration :=
  Duration.times b.incrementalHours Duration.hour

/-- `Start` does not return early. -/
def schedules (b : BackupConfig) : Bool :=
  b.enabled && decide (0 < b.incrementalHours)

def nextFull (b : BackupConfig) (now : Time) : Time :=
  nextWeeklyRun now b.fullWeekday b.fullHour

theorem incrementalHours_pos {b : BackupConfig} (h : b.schedules = true) :
    0 < b.incrementalHours := by
  simp only [schedules, Bool.and_eq_true, decide_eq_true_eq] at h
  exact h.2

end BackupConfig

/-! ## Loops -/

inductive LoopPC where
  /-- Before `time.NewTicker`. -/
  | starting
  | selecting
  /-- Before the call of `TriggerFullBackup` or `TriggerIncrementalBackup`. -/
  | trigger (kind : BackupKind)
  /-- Before the critical section of `runFullBackup`. -/
  | recordFull
  /-- Before `fullTimer.Reset`. -/
  | rearm
  /-- Before `s.config.GetBackup()` in `runIncrementalBackup`. -/
  | readHours
  /-- Before the critical section of `runIncrementalBackup`, with the hours that were read. -/
  | recordIncremental (hours : Int)
  | returned
  deriving DecidableEq, Repr

/-- `incrementalTicker` and `fullTimer`. -/
structure LoopClocks where
  ticker : Ticker
  timer : Timer
  deriving DecidableEq, Repr

structure Loop where
  incrementalInterval : Duration
  nextFull : Time
  /-- `ctx` has been cancelled. -/
  cancelled : Bool := false
  pc : LoopPC := .starting
  clocks : Option LoopClocks := none
  deriving DecidableEq, Repr

/-- The case of the `select`. -/
inductive SelectCase where
  | done
  | receive (kind : BackupKind)
  deriving DecidableEq, Repr

inductive Effect where
  | nothing
  | trigger (kind : BackupKind)
  /-- `s.lastFullRun` is now, `s.nextFullRun` is `next`. -/
  | recordFull (next : Time)
  | recordIncremental (next : Time)
  | panic
  deriving DecidableEq, Repr

namespace Loop

/-- One case of the `select`; `none` when its channel is not ready. -/
def select (l : Loop) : SelectCase → Option Loop
  | .done => if l.cancelled then some { l with pc := .returned, clocks := none } else none
  | .receive .full => do
      let clocks ← l.clocks
      let timer ← clocks.timer.receive
      some { l with pc := .trigger .full, clocks := some { clocks with timer := timer } }
  | .receive .incremental => do
      let clocks ← l.clocks
      let ticker ← clocks.ticker.receive
      some { l with pc := .trigger .incremental, clocks := some { clocks with ticker := ticker } }

/-- The first lines of `run`. -/
def makeClocks (l : Loop) (now : Time) : Loop × Effect :=
  match newTicker now l.incrementalInterval with
  | none => (l, .panic)
  | some ticker =>
      ( { l with
          pc := .selecting
          clocks := some { ticker := ticker, timer := newTimer now (l.nextFull.sub now) } },
        .nothing)

/-- `fullTimer.Reset`. -/
def rearm (l : Loop) (now next : Time) : Loop :=
  { l with
    pc := .selecting
    clocks := l.clocks.map fun c => { c with timer := newTimer now (next.sub now) } }

/-- After the call: what is left of `runFullBackup` or `runIncrementalBackup`. -/
def afterTrigger : BackupKind → LoopPC
  | .full => .recordFull
  | .incremental => .readHours

/-- The next action of the loop; `backup` are the settings that it would read now. -/
def step (l : Loop) (backup : BackupConfig) (now : Time) (choice : SelectCase) :
    Option (Loop × Effect) :=
  match l.pc with
  | .starting => some (l.makeClocks now)
  | .selecting => (l.select choice).map fun l => (l, .nothing)
  | .trigger kind => some ({ l with pc := afterTrigger kind }, .trigger kind)
  | .recordFull => some ({ l with pc := .rearm }, .recordFull (backup.nextFull now))
  | .rearm => some (l.rearm now (backup.nextFull now), .nothing)
  | .readHours => some ({ l with pc := .recordIncremental backup.incrementalHours }, .nothing)
  | .recordIncremental hours =>
      some ({ l with pc := .selecting },
        .recordIncremental (now + Duration.times hours Duration.hour))
  | .returned => none

/-- The ticker or the timer of the loop fires. -/
def fire (l : Loop) (now : Time) (kind : BackupKind) : Option Loop := do
  let clocks ← l.clocks
  match kind with
  | .incremental =>
      let ticker ← clocks.ticker.fire now
      some { l with clocks := some { clocks with ticker := ticker } }
  | .full =>
      let timer ← clocks.timer.fire now
      some { l with clocks := some { clocks with timer := timer } }

end Loop

/-- The loop has nothing to do at this moment: it has returned, or it waits in its `select` and
neither its ticker nor its timer is due. -/
def Loop.waits (l : Loop) (now : Time) : Bool :=
  match l.pc with
  | .returned => true
  | .selecting => !l.cancelled && l.clocks.any fun c => c.ticker.idle now && c.timer.idle now
  | _ => false

/-- Up to the instant neither the ticker nor the timer of the loop is passed. -/
def Loop.lasts (l : Loop) (instant : Time) : Bool :=
  l.clocks.all fun c =>
    decide (instant ≤ c.ticker.next) && c.timer.due.all fun due => decide (instant ≤ due)

/-! ## The scheduler -/

/-- A call of `TriggerFullBackup` or `TriggerIncrementalBackup`. -/
structure Trigger where
  kind : BackupKind
  loop : Nat
  time : Time
  /-- The context of the loop had been cancelled. -/
  cancelled : Bool
  deriving DecidableEq, Repr

structure Scheduler where
  /-- The loop that `s.cancel` cancels. -/
  cancel : Option Nat := none
  lastFullRun : Time := 0
  lastIncrementalRun : Time := 0
  nextFullRun : Time := 0
  nextIncrementalRun : Time := 0
  /-- Every loop that has been started. -/
  loops : List Loop := []
  triggers : List Trigger := []
  panicked : Bool := false
  deriving DecidableEq, Repr

structure SchedulerStatus where
  enabled : Bool
  incrementalIntervalHours : Int
  fullWeekday : Int
  fullHour : Int
  retainCount : Int
  lastFullRun : Option Time
  lastIncrementalRun : Option Time
  nextFullRun : Option Time
  nextIncrementalRun : Option Time
  deriving DecidableEq, Repr

namespace Scheduler

variable (s : Scheduler)

/-- `s.cancel()`. -/
def cancelCurrent : Scheduler :=
  match s.cancel with
  | none => s
  | some k => { s with loops := s.loops.modify k fun l => { l with cancelled := true } }

/-- `Start` and `Restart`. -/
def start (backup : BackupConfig) (now : Time) : Scheduler :=
  let s := s.cancelCurrent
  if backup.schedules then
    { s with
      cancel := some s.loops.length
      nextIncrementalRun := now + backup.incrementalInterval
      nextFullRun := backup.nextFull now
      loops := s.loops ++
        [{ incrementalInterval := backup.incrementalInterval
           nextFull := backup.nextFull now }] }
  else s

/-- The scheduler after loop `k` became `l` with the given effect. -/
def record (k : Nat) (l : Loop) (now : Time) (effect : Effect) : Scheduler :=
  let s := { s with loops := s.loops.set k l }
  match effect with
  | .nothing => s
  | .trigger kind =>
      { s with
        triggers := s.triggers ++
          [{ kind := kind
             loop := k
             time := now
             cancelled := l.cancelled }] }
  | .recordFull next => { s with lastFullRun := now, nextFullRun := next }
  | .recordIncremental next => { s with lastIncrementalRun := now, nextIncrementalRun := next }
  | .panic => { s with panicked := true }

def stepLoop (backup : BackupConfig) (now : Time) (k : Nat) (choice : SelectCase) :
    Option Scheduler := do
  let l ← s.loops[k]?
  let (l', effect) ← l.step backup now choice
  some (s.record k l' now effect)

def fireLoop (now : Time) (k : Nat) (kind : BackupKind) : Option Scheduler := do
  let l ← s.loops[k]?
  let l' ← l.fire now kind
  some { s with loops := s.loops.set k l' }

/-- An instant, unless it is Go's zero time. -/
def unlessZero (t : Time) : Option Time :=
  if t.isZero then none else some t

def status (backup : BackupConfig) : SchedulerStatus where
  enabled := backup.enabled
  incrementalIntervalHours := backup.incrementalHours
  fullWeekday := backup.fullWeekday
  fullHour := backup.fullHour
  retainCount := backup.retainCount
  lastFullRun := unlessZero s.lastFullRun
  lastIncrementalRun := unlessZero s.lastIncrementalRun
  nextFullRun := if backup.enabled then some s.nextFullRun else none
  nextIncrementalRun := if backup.enabled then some s.nextIncrementalRun else none

end Scheduler

/-! ## What a step does -/

/-- Everything a loop can do. -/
inductive Loop.Moves (l : Loop) (backup : BackupConfig) (now : Time) :
    SelectCase → Loop → Effect → Prop where
  | panic {choice : SelectCase} :
      l.pc = .starting → newTicker now l.incrementalInterval = none →
        Moves l backup now choice l .panic
  | start {choice : SelectCase} {ticker : Ticker} :
      l.pc = .starting → newTicker now l.incrementalInterval = some ticker →
        Moves l backup now choice
          { l with
            pc := .selecting
            clocks := some { ticker := ticker, timer := newTimer now (l.nextFull.sub now) } }
          .nothing
  | done :
      l.pc = .selecting → l.cancelled = true →
        Moves l backup now .done { l with pc := .returned, clocks := none } .nothing
  | receiveFull {clocks : LoopClocks} :
      l.pc = .selecting → l.clocks = some clocks → clocks.timer.ready = true →
        Moves l backup now (.receive .full)
          { l with
            pc := .trigger .full
            clocks := some { clocks with timer := { clocks.timer with ready := false } } }
          .nothing
  | receiveIncremental {clocks : LoopClocks} :
      l.pc = .selecting → l.clocks = some clocks → clocks.ticker.ready = true →
        Moves l backup now (.receive .incremental)
          { l with
            pc := .trigger .incremental
            clocks := some { clocks with ticker := { clocks.ticker with ready := false } } }
          .nothing
  | trigger {choice : SelectCase} {kind : BackupKind} :
      l.pc = .trigger kind →
        Moves l backup now choice { l with pc := Loop.afterTrigger kind } (.trigger kind)
  | recordFull {choice : SelectCase} :
      l.pc = .recordFull →
        Moves l backup now choice { l with pc := .rearm } (.recordFull (backup.nextFull now))
  | rearm {choice : SelectCase} :
      l.pc = .rearm → Moves l backup now choice (l.rearm now (backup.nextFull now)) .nothing
  | readHours {choice : SelectCase} :
      l.pc = .readHours →
        Moves l backup now choice { l with pc := .recordIncremental backup.incrementalHours }
          .nothing
  | recordIncremental {choice : SelectCase} {hours : Int} :
      l.pc = .recordIncremental hours →
        Moves l backup now choice { l with pc := .selecting }
          (.recordIncremental (now + Duration.times hours Duration.hour))

theorem Loop.moves_of_step {l l' : Loop} {backup : BackupConfig} {now : Time} {choice : SelectCase}
    {effect : Effect} (h : l.step backup now choice = some (l', effect)) :
    l.Moves backup now choice l' effect := by
  unfold Loop.step at h
  cases hpc : l.pc with
  | starting =>
      simp only [hpc, Loop.makeClocks] at h
      cases hticker : newTicker now l.incrementalInterval with
      | none =>
          simp only [hticker] at h
          cases h
          exact .panic hpc hticker
      | some ticker =>
          simp only [hticker] at h
          cases h
          exact .start hpc hticker
  -- A `select` takes a branch that is ready, and each of the three has a test of its own.
  | selecting =>
      simp only [hpc, Option.map_eq_some_iff, Prod.mk.injEq] at h
      obtain ⟨l₁, hselect, rfl, rfl⟩ := h
      cases choice with
      | done =>
          simp only [Loop.select, Option.ite_none_right_eq_some, Option.some.injEq] at hselect
          obtain ⟨hcancelled, rfl⟩ := hselect
          exact .done hpc hcancelled
      | receive kind =>
          cases hclocks : l.clocks with
          | none => cases kind <;> simp [Loop.select, hclocks] at hselect
          | some clocks =>
              cases kind with
              | full =>
                  cases htimer : clocks.timer.receive with
                  | none => simp [Loop.select, hclocks, htimer] at hselect
                  | some timer =>
                      obtain ⟨hready, rfl⟩ := Timer.receive_cases htimer
                      simp only [Loop.select, hclocks, htimer, Option.bind_eq_bind,
                        Option.bind_some, Option.some.injEq] at hselect
                      rw [← hselect]
                      exact .receiveFull hpc hclocks hready
              | incremental =>
                  cases hticker : clocks.ticker.receive with
                  | none => simp [Loop.select, hclocks, hticker] at hselect
                  | some ticker =>
                      obtain ⟨hready, rfl⟩ := Ticker.receive_cases hticker
                      simp only [Loop.select, hclocks, hticker, Option.bind_eq_bind,
                        Option.bind_some, Option.some.injEq] at hselect
                      rw [← hselect]
                      exact .receiveIncremental hpc hclocks hready
  | trigger kind =>
      simp only [hpc, Option.some.injEq, Prod.mk.injEq] at h
      obtain ⟨rfl, rfl⟩ := h
      exact .trigger hpc
  | recordFull =>
      simp only [hpc, Option.some.injEq, Prod.mk.injEq] at h
      obtain ⟨rfl, rfl⟩ := h
      exact .recordFull hpc
  | rearm =>
      simp only [hpc, Option.some.injEq, Prod.mk.injEq] at h
      obtain ⟨rfl, rfl⟩ := h
      exact .rearm hpc
  | readHours =>
      simp only [hpc, Option.some.injEq, Prod.mk.injEq] at h
      obtain ⟨rfl, rfl⟩ := h
      exact .readHours hpc
  | recordIncremental hours =>
      simp only [hpc, Option.some.injEq, Prod.mk.injEq] at h
      obtain ⟨rfl, rfl⟩ := h
      exact .recordIncremental hpc
  | returned => simp [hpc] at h

/-- A ticker or a timer that fires. -/
inductive Loop.Fires (l : Loop) (now : Time) : BackupKind → Loop → Prop where
  | full {clocks : LoopClocks} {due : Time} :
      l.clocks = some clocks → clocks.timer.due = some due → due ≤ now →
        Fires l now .full
          { l with clocks := some { clocks with timer := { due := none, ready := true } } }
  | incremental {clocks : LoopClocks} {ticker : Ticker} :
      l.clocks = some clocks → clocks.ticker.fire now = some ticker →
        Fires l now .incremental { l with clocks := some { clocks with ticker := ticker } }

theorem Loop.fires_of_fire {l l' : Loop} {now : Time} {kind : BackupKind}
    (h : l.fire now kind = some l') : l.Fires now kind l' := by
  unfold Loop.fire at h
  cases hclocks : l.clocks with
  | none => simp [hclocks] at h
  | some clocks =>
      cases kind with
      | full =>
          cases htimer : clocks.timer.fire now with
          | none => simp [hclocks, htimer] at h
          | some timer =>
              obtain ⟨due, hdue, hle, rfl⟩ := Timer.fire_cases htimer
              simp only [hclocks, htimer, Option.bind_eq_bind, Option.bind_some,
                Option.some.injEq] at h
              rw [← h]
              exact .full hclocks hdue hle
      | incremental =>
          cases hticker : clocks.ticker.fire now with
          | none => simp [hclocks, hticker] at h
          | some ticker =>
              simp only [hclocks, hticker, Option.bind_eq_bind, Option.bind_some,
                Option.some.injEq] at h
              rw [← h]
              exact .incremental hclocks hticker

theorem Loop.Moves.cancelled {l l' : Loop} {backup : BackupConfig} {now : Time}
    {choice : SelectCase} {effect : Effect} (h : l.Moves backup now choice l' effect) :
    l'.cancelled = l.cancelled := by
  cases h <;> rfl

/-- A loop that has returned does not move. -/
theorem Loop.Moves.not_returned {l l' : Loop} {backup : BackupConfig} {now : Time}
    {choice : SelectCase} {effect : Effect} (h : l.Moves backup now choice l' effect) :
    l.pc ≠ .returned := by
  intro hpc
  cases h <;> simp_all only [reduceCtorEq]

theorem Loop.Fires.cancelled {l l' : Loop} {now : Time} {kind : BackupKind}
    (h : l.Fires now kind l') : l'.cancelled = l.cancelled := by
  cases h <;> rfl

theorem Loop.Fires.pc {l l' : Loop} {now : Time} {kind : BackupKind} (h : l.Fires now kind l') :
    l'.pc = l.pc := by
  cases h <;> rfl

namespace Scheduler

variable {s : Scheduler}

@[simp] theorem record_loops (k : Nat) (l : Loop) (now : Time) (effect : Effect) :
    (s.record k l now effect).loops = s.loops.set k l := by
  unfold record
  cases effect <;> rfl

@[simp] theorem record_cancel (k : Nat) (l : Loop) (now : Time) (effect : Effect) :
    (s.record k l now effect).cancel = s.cancel := by
  unfold record
  cases effect <;> rfl

/-- The loop that `s.cancel` cancels, cancelled. -/
def afterCancel (s : Scheduler) (j : Nat) (l : Loop) : Loop :=
  if s.cancel = some j then { l with cancelled := true } else l

theorem cancelCurrent_getElem? (j : Nat) :
    s.cancelCurrent.loops[j]? = (s.loops[j]?).map (s.afterCancel j) := by
  unfold cancelCurrent afterCancel
  cases hcancel : s.cancel with
  | none => simp
  | some k =>
      simp only [List.getElem?_modify, Option.some.injEq]
      cases s.loops[j]? with
      | none => rfl
      | some l => rfl

@[simp] theorem cancelCurrent_length : s.cancelCurrent.loops.length = s.loops.length := by
  unfold cancelCurrent
  cases s.cancel with
  | none => rfl
  | some k => simp

/-- A loop after `start` was there before, possibly cancelled now, or it is the new one. -/
theorem getElem?_start {backup : BackupConfig} {now : Time} {j : Nat} {u : Loop}
    (h : (s.start backup now).loops[j]? = some u) :
    (∃ l, s.loops[j]? = some l ∧ u = s.afterCancel j l) ∨
      (backup.schedules = true ∧ j = s.loops.length ∧
        u = { incrementalInterval := backup.incrementalInterval
              nextFull := backup.nextFull now }) := by
  have hold : s.cancelCurrent.loops[j]? = some u → ∃ l, s.loops[j]? = some l ∧
      u = s.afterCancel j l := by
    intro hu
    rw [cancelCurrent_getElem?, Option.map_eq_some_iff] at hu
    obtain ⟨l, hl, heq⟩ := hu
    exact ⟨l, hl, heq.symm⟩
  unfold start at h
  by_cases hschedules : backup.schedules = true
  · simp only [hschedules, if_true] at h
    -- Below the old length stands an old loop, and at it the one that was appended.
    by_cases hj : j < s.loops.length
    · rw [List.getElem?_append_left (by simpa using hj)] at h
      exact Or.inl (hold h)
    · rw [List.getElem?_append_right (by simpa using hj), cancelCurrent_length] at h
      have hlen : j - s.loops.length < 1 := by
        simpa using (List.getElem?_eq_some_iff.1 h).1
      have hj' : j = s.loops.length := by omega
      refine Or.inr ⟨hschedules, hj', ?_⟩
      rw [hj', Nat.sub_self, List.getElem?_cons_zero, Option.some.injEq] at h
      exact h.symm
  · simp only [hschedules, Bool.false_eq_true, if_false] at h
    exact Or.inl (hold h)

theorem getElem?_start_new (s : Scheduler) {backup : BackupConfig} (now : Time)
    (h : backup.schedules = true) :
    (s.start backup now).loops[s.loops.length]? =
      some
        { incrementalInterval := backup.incrementalInterval
          nextFull := backup.nextFull now } := by
  simp [start, h]

theorem start_cancel {backup : BackupConfig} {now : Time} (h : backup.schedules = true) :
    (s.start backup now).cancel = some s.loops.length := by
  simp [start, h]

theorem start_triggers (backup : BackupConfig) (now : Time) :
    (s.start backup now).triggers = s.triggers := by
  have hcancel : s.cancelCurrent.triggers = s.triggers := by
    unfold cancelCurrent
    cases s.cancel <;> rfl
  unfold start
  split <;> exact hcancel

/-- Only the loop that `s.cancel` cancels is not cancelled. -/
def OnlyLive (s : Scheduler) : Prop :=
  ∀ (k : Nat) (l : Loop), s.loops[k]? = some l → l.cancelled = false → s.cancel = some k

/-- After `start` only the loop that it began is not cancelled. -/
theorem OnlyLive.of_start {backup : BackupConfig} {now : Time} {k : Nat} {u : Loop}
    (h : s.OnlyLive) (hu : (s.start backup now).loops[k]? = some u) (hlive : u.cancelled = false) :
    backup.schedules = true ∧ k = s.loops.length := by
  rcases getElem?_start hu with ⟨v, hv, rfl⟩ | ⟨hschedules, hk, _⟩
  · unfold afterCancel at hlive
    by_cases hcancel : s.cancel = some k
    · simp [hcancel] at hlive
    · rw [if_neg hcancel] at hlive
      exact absurd (h k v hv hlive) hcancel
  · exact ⟨hschedules, hk⟩

theorem OnlyLive.start (h : s.OnlyLive) (backup : BackupConfig) (now : Time) :
    (s.start backup now).OnlyLive := by
  intro k u hu hlive
  obtain ⟨hschedules, rfl⟩ := h.of_start hu hlive
  exact start_cancel hschedules

theorem OnlyLive.set (h : s.OnlyLive) {k : Nat} {l l' : Loop} (hl : s.loops[k]? = some l)
    (hcancelled : l'.cancelled = l.cancelled) {j : Nat} {u : Loop}
    (hu : (s.loops.set k l')[j]? = some u) (hlive : u.cancelled = false) : s.cancel = some j := by
  rcases getElem?_of_set hu with ⟨rfl, rfl⟩ | ⟨_, hold⟩
  · exact h j l hl (hcancelled.symm.trans hlive)
  · exact h j u hold hlive

theorem OnlyLive.record (h : s.OnlyLive) {k : Nat} {l l' : Loop} (hl : s.loops[k]? = some l)
    (hcancelled : l'.cancelled = l.cancelled) (now : Time) (effect : Effect) :
    (s.record k l' now effect).OnlyLive := by
  intro j u hu hlive
  rw [record_loops] at hu
  rw [record_cancel]
  exact h.set hl hcancelled hu hlive

theorem OnlyLive.initial : ({} : Scheduler).OnlyLive := by
  intro k l hl
  simp at hl

end Scheduler

/-! ## The next weekly run -/

theorem onWeekday_bounds (now : Time) (weekday : Int) {hour : Int} (hhour : 0 ≤ hour ∧ hour ≤ 23) :
    now - Duration.day < onWeekday now weekday hour ∧
      onWeekday now weekday hour ≤ now + 7 * Duration.day := by
  simp only [onWeekday, Duration.day, Duration.hour, gmt7, nanosecondsPerSecond]
  unfold Time at *
  omega

/-- The run comes after `now`, and within a week. -/
theorem nextWeeklyRun_bounds (now : Time) (weekday hour : Int) :
    now < nextWeeklyRun now weekday hour ∧
      nextWeeklyRun now weekday hour ≤ now + 7 * Duration.day := by
  have hhour : 0 ≤ (if hour < 0 ∨ 23 < hour then 4 else hour) ∧
      (if hour < 0 ∨ 23 < hour then 4 else hour) ≤ 23 := by
    split <;> omega
  have hbounds := onWeekday_bounds now (if weekday < 0 ∨ 6 < weekday then 0 else weekday) hhour
  simp only [nextWeeklyRun, Time.after, decide_eq_true_eq]
  generalize onWeekday now _ _ = next at hbounds ⊢
  by_cases hafter : now < next
  · rw [if_pos hafter]
    exact ⟨hafter, hbounds.2⟩
  · -- The hour has passed today already.
    have hday : 0 < Duration.day := by decide
    rw [if_neg hafter]
    constructor <;> linarith

end Service
end Pgaio
