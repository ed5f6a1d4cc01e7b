import Mathlib.Algebra.Order.Ring.Int
import Pgaio.Go.Time

/-!
# Timers — `time.Ticker` and `time.Timer`

Both fire when the clock has reached their instant.  The channel of either holds one value, so ticks
that nobody receives are dropped.  A value is received, and a timer is set again, by the program.

`Ticker.idle` and `Timer.idle` say that nothing waits in the channel and nothing is due.
-/

namespace Pgaio
namespace Go

structure Ticker where
  /-- The instant of the next tick. -/
  next : Time
  period : Duration
  /-- A tick waits in the channel. -/
  ready : Bool := false
  deriving DecidableEq, Repr

/-- `time.NewTicker`, which panics when the period is not positive. -/
def newTicker (now : Time) (period : Duration) : Option Ticker :=
  if 0 < period then
    some
      { next := now + period
        period := period }
  else none

namespace Ticker

/-- The next tick after `now` is a whole number of periods later. -/
def fire (now : Time) (t : Ticker) : Option Ticker :=
  if t.next ≤ now then
    some
      { t with
        next := t.next + t.period * (1 + (now - t.next) / t.period)
        ready := true }
  else none

def receive (t : Ticker) : Option Ticker :=
  if t.ready then some { t with ready := false } else none

def idle (now : Time) (t : Ticker) : Bool :=
  !t.ready && decide (now < t.next)

end Ticker

structure Timer where
  /-- The instant at which the timer fires; `none` when it has fired. -/
  due : Option Time
  ready : Bool := false
  deriving DecidableEq, Repr

/-- `time.NewTimer` and `Reset`. -/
def newTimer (now : Time) (d : Duration) : Timer where
  due := some (now + max 0 d)

namespace Timer

def fire (now : Time) (t : Timer) : Option Timer :=
  match t.due with
  | none => none
  | some due =>
      if due ≤ now then
        some
          { due := none
            ready := true }
      else none

def receive (t : Timer) : Option Timer :=
  if t.ready then some { t with ready := false } else none

def idle (now : Time) (t : Timer) : Bool :=
  !t.ready && t.due.all fun due => decide (now < due)

end Timer

/-! ## What the operations do -/

theorem newTicker_cases {now : Time} {period : Duration} {t : Ticker}
    (h : newTicker now period = some t) :
    0 < period ∧ t = { next := now + period, period := period } := by
  unfold newTicker at h
  split at h
  · rename_i hpos
    exact ⟨hpos, (Option.some.inj h).symm⟩
  · cases h

namespace Ticker

theorem fire_cases {now : Time} {t t' : Ticker} (h : t.fire now = some t') :
    t.next ≤ now ∧ t' = { t with next := t.next + t.period * (1 + (now - t.next) / t.period),
                                 ready := true } := by
  unfold fire at h
  split at h
  · rename_i hdue
    exact ⟨hdue, (Option.some.inj h).symm⟩
  · cases h

/-- A ticker that fires on time is set for one period later. -/
theorem fire_onTime {now : Time} {t t' : Ticker} (h : t.fire now = some t') (hnext : now ≤ t.next) :
    t.next = now ∧ t' = { t with next := now + t.period, ready := true } := by
  obtain ⟨hdue, rfl⟩ := fire_cases h
  have hnow : t.next = now := Int.le_antisymm hdue hnext
  refine ⟨hnow, ?_⟩
  simp [hnow]

theorem receive_cases {t t' : Ticker} (h : t.receive = some t') :
    t.ready = true ∧ t' = { t with ready := false } := by
  unfold receive at h
  split at h
  · rename_i hready
    exact ⟨hready, (Option.some.inj h).symm⟩
  · cases h

theorem idle_iff {now : Time} {t : Ticker} :
    t.idle now = true ↔ t.ready = false ∧ now < t.next := by
  simp [idle]

end Ticker

namespace Timer

theorem fire_cases {now : Time} {t t' : Timer} (h : t.fire now = some t') :
    ∃ due, t.due = some due ∧ due ≤ now ∧ t' = { due := none, ready := true } := by
  unfold fire at h
  cases hdue : t.due with
  | none => simp [hdue] at h
  | some due =>
      simp only [hdue] at h
      split at h
      · rename_i hle
        exact ⟨due, rfl, hle, (Option.some.inj h).symm⟩
      · cases h

theorem receive_cases {t t' : Timer} (h : t.receive = some t') :
    t.ready = true ∧ t' = { t with ready := false } := by
  unfold receive at h
  split at h
  · rename_i hready
    exact ⟨hready, (Option.some.inj h).symm⟩
  · cases h

theorem idle_iff {now : Time} {t : Timer} :
    t.idle now = true ↔ t.ready = false ∧ ∀ due, t.due = some due → now < due := by
  unfold idle
  cases t.due with
  | none => simp
  | some due => simp

end Timer

/-- A timer that is set for an instant fires at that instant. -/
theorem newTimer_until {now instant : Time} (hafter : now ≤ instant)
    (hsoon : instant - now ≤ maxInt64) :
    newTimer now (instant.sub now) = { due := some instant } := by
  have hmin : minInt64 ≤ 0 := by decide
  have hsub : instant.sub now = instant - now := by
    unfold Time.sub
    rw [min_eq_right hsoon, max_eq_right (hmin.trans (Int.sub_nonneg_of_le hafter))]
  unfold newTimer
  rw [hsub, max_eq_right (Int.sub_nonneg_of_le hafter), add_sub_cancel]

end Go
end Pgaio
