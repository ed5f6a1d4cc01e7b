import Pgaio.Service.AlertKeys
import Mathlib.Data.List.Induction

/-!
# AlertCooldown — when a firing is announced, and what the history keeps

The cooldown of a key runs from its last 'open' event, across resolutions and changes of the
settings: `LastFiredAt` is the time of that event (`run_lastFired`).  The history is cut after every
event, and so it always holds the last hundred of all events (`run_history`).
-/

namespace Pgaio
namespace Service

open Go

/-! ## The last 'open' event -/

def AlertConfig.cooldown (cfg : AlertConfig) : Duration :=
  Duration.times cfg.cooldownMinutes Duration.minute

/-- The time of the last 'open' event of a key. -/
def lastOpen (key : String) (events : List AlertEvent) : Option Time :=
  ((eventsOf key events).filter fun e => e.status = .opened).getLast?.map AlertEvent.time

@[simp] theorem lastOpen_nil (key : String) : lastOpen key [] = none := rfl

theorem lastOpen_append (key : String) (es fs : List AlertEvent) :
    lastOpen key (es ++ fs) = (lastOpen key fs).or (lastOpen key es) := by
  unfold lastOpen
  rw [eventsOf_append, List.filter_append, List.getLast?_append]
  cases ((eventsOf key fs).filter fun e => e.status = .opened).getLast? <;> rfl

/-- Only the events of the key count. -/
theorem lastOpen_eventsOf (key : String) (events : List AlertEvent) :
    lastOpen key (eventsOf key events) = lastOpen key events := by
  unfold lastOpen eventsOf
  rw [List.filter_filter]
  simp

/-- The record of a key knows when its last 'open' event was; the zero time stands for never. -/
def LastFired (state? : Option AlertState) (last : Option Time) : Prop :=
  (state?.map AlertState.lastFiredAt).getD 0 = last.getD 0 ∧ ∀ t, last = some t → 0 < t

variable {key : String} {state? : Option AlertState} {events : List AlertEvent}

theorem touch_lastFiredAt (state? : Option AlertState) (now : Time) (f : Firing) :
    (touch state? now f).lastFiredAt = (state?.map AlertState.lastFiredAt).getD 0 := by
  cases state? <;> rfl

/-- One call moves the two on together. -/
theorem lastFired_step (call : AlertCall) (h : LastFired state? (lastOpen key events))
    (hpos : 0 < call.time) :
    LastFired (call.stateAfter key state?) (lastOpen key (events ++ call.eventsFor key state?)) := by
  rw [lastOpen_append]
  cases call with
  | fire cfg now f =>
      simp only [AlertCall.stateAfter, AlertCall.eventsFor]
      by_cases hkey : f.key = key
      · rw [if_pos hkey, if_pos hkey]
        split
        · -- Not announced: nothing has changed.
          refine ⟨?_, h.2⟩
          simp only [Option.map_some, Option.getD_some, touch_lastFiredAt]
          exact h.1
        · have hlast : lastOpen key [openEvent now f] = some now := by
            simp [lastOpen, eventsOf, openEvent, hkey]
          rw [hlast]
          refine ⟨rfl, fun t ht => ?_⟩
          cases ht
          exact hpos
      · rw [if_neg hkey, if_neg hkey]
        exact h
  | resolveMissing now seen order =>
      have hnone : lastOpen key (resolvedEvents now seen key state?) = none := by
        cases state? with
        | none => rfl
        | some state =>
            simp only [resolvedEvents]
            split
            · simp [lastOpen, eventsOf, resolvedEvent]
            · rfl
      simp only [AlertCall.stateAfter, AlertCall.eventsFor, hnone]
      refine ⟨?_, h.2⟩
      rw [Option.none_or, ← h.1]
      cases state? with
      | none => rfl
      | some state =>
          simp only [resolvedState, Option.map_some]
          split <;> rfl

theorem run_lastFired (hasWalG : Bool) (key : String) {calls : List AlertCall}
    (hpos : ∀ call ∈ calls, 0 < call.time) :
    LastFired ((Alerter.run { hasWalG := hasWalG } calls).1.active.lookup key)
      (lastOpen key (Alerter.run { hasWalG := hasWalG } calls).2) := by
  induction calls using List.reverseRecOn with
  | nil => exact ⟨rfl, fun t ht => by cases ht⟩
  | append_singleton calls call ih =>
      have hbefore := ih fun c hc => hpos c (List.mem_append_left _ hc)
      have hstep := lastFired_step call hbefore
        (hpos call (List.mem_append_right _ List.mem_cons_self))
      rw [Alerter.run_snoc, Alerter.lookup_exec, lastOpen_append,
        ← lastOpen_eventsOf key ((Alerter.run _ calls).1.exec call).2, Alerter.events_exec,
        ← lastOpen_append]
      exact hstep

/-! ## The cooldown -/

/-- A difference that does not fit into a `Duration` is longer than every cooldown. -/
theorem sub_lt_iff {now t : Time} {c : Duration} (hc : IsInt64 c) (hle : t ≤ now) :
    now.sub t < c ↔ now - t < c := by
  unfold IsInt64 minInt64 maxInt64 at hc
  unfold Time.sub minInt64 maxInt64
  unfold Time Duration at *
  omega

/-- The cooldown keeps a firing from being announced exactly when the last 'open' event is nearer than
that. -/
theorem coolingDown_iff {cfg : AlertConfig} {now : Time} {f : Firing} {last : Option Time}
    (h : LastFired state? last) (hle : ∀ t, last = some t → t ≤ now) :
    coolingDown cfg now (touch state? now f) = true ↔
      0 < cfg.cooldown ∧ ∃ t, last = some t ∧ now - t < cfg.cooldown := by
  have hcool : coolingDown cfg now (touch state? now f) = true ↔
      0 < cfg.cooldown ∧ last.getD 0 ≠ 0 ∧ now.sub (last.getD 0) < cfg.cooldown := by
    unfold coolingDown
    rw [touch_lastFiredAt, h.1]
    simp [AlertConfig.cooldown, Time.isZero, and_assoc]
  rw [hcool]
  apply and_congr_right
  intro _
  cases last with
  | none => simp
  | some t =>
      have hpos : t ≠ 0 := (Int.ne_of_lt (h.2 t rfl)).symm
      simp only [Option.getD_some, Option.some.injEq, exists_eq_left']
      have hfits : IsInt64 cfg.cooldown := isInt64_wrapInt64 _
      rw [sub_lt_iff hfits (hle t rfl)]
      exact and_iff_right hpos

theorem time_of_mem_eventsFor {call : AlertCall} {e : AlertEvent}
    (h : e ∈ call.eventsFor key state?) : e.time = call.time := by
  cases call with
  | fire cfg now f =>
      simp only [AlertCall.eventsFor] at h
      split at h
      · split at h
        · cases h
        · rw [List.mem_singleton.1 h]
          rfl
      · cases h
  | resolveMissing now seen order =>
      simp only [AlertCall.eventsFor, resolvedEvents] at h
      split at h
      · cases h
      · split at h
        · rw [List.mem_singleton.1 h]
          rfl
        · cases h

/-- The events of a run bear times of its calls. -/
theorem time_mem_of_lastOpen (hasWalG : Bool) {calls : List AlertCall} {t : Time}
    (h : lastOpen key (Alerter.run { hasWalG := hasWalG } calls).2 = some t) :
    t ∈ calls.map AlertCall.time := by
  induction calls using List.reverseRecOn with
  | nil => cases h
  | append_singleton calls call ih =>
      rw [List.map_append, List.map_singleton]
      rw [Alerter.run_snoc, lastOpen_append,
        ← lastOpen_eventsOf key ((Alerter.run _ calls).1.exec call).2, Alerter.events_exec] at h
      rcases Option.or_eq_some_iff.1 h with hnew | ⟨-, hold⟩
      · obtain ⟨e, he, rfl⟩ := Option.map_eq_some_iff.1 hnew
        have hmem := (List.mem_filter.1 (List.mem_of_getLast? he)).1
        rw [time_of_mem_eventsFor (List.mem_filter.1 hmem).1]
        exact List.mem_append_right _ List.mem_cons_self
      · exact List.mem_append_left _ (ih hold)

/-! ## The history -/

/-- The history of `a` is the end of `events`. -/
def KeepsLast (a : Alerter) (events : List AlertEvent) : Prop :=
  a.history = lastN maxHistory events

theorem KeepsLast.resolveKeys {a : Alerter} {before events : List AlertEvent}
    (h : KeepsLast a (before ++ events)) (now : Time) (seen keys : List String) :
    KeepsLast (keys.foldl (Alerter.resolveKey now seen) (a, events)).1
      (before ++ (keys.foldl (Alerter.resolveKey now seen) (a, events)).2) := by
  induction keys generalizing a events with
  | nil => exact h
  | cons key keys ih =>
      rw [List.foldl_cons]
      unfold Alerter.resolveKey
      dsimp only
      split
      · exact ih h
      · split
        · apply ih
          unfold KeepsLast keepLast at *
          dsimp only
          rw [h, appendKeeping_lastN, List.append_assoc]
        · exact ih h

theorem KeepsLast.exec {a : Alerter} {before : List AlertEvent} (h : KeepsLast a before)
    (call : AlertCall) : KeepsLast (a.exec call).1 (before ++ (a.exec call).2) := by
  cases call with
  | fire cfg now f =>
      simp only [Alerter.exec, Alerter.fire]
      split
      · exact (congrArg _ (List.append_nil before)).mpr h
      · unfold KeepsLast keepLast at *
        dsimp only
        rw [h, appendKeeping_lastN]
  | resolveMissing now seen order =>
      have hnone : KeepsLast a (before ++ []) := by
        rw [List.append_nil]
        exact h
      exact hnone.resolveKeys now seen _

/-- After every run the history holds the last hundred events. -/
theorem run_history (hasWalG : Bool) (calls : List AlertCall) :
    KeepsLast (Alerter.run { hasWalG := hasWalG } calls).1
      (Alerter.run { hasWalG := hasWalG } calls).2 := by
  induction calls using List.reverseRecOn with
  | nil => rfl
  | append_singleton calls call ih =>
      rw [Alerter.run_snoc]
      exact ih.exec call

/-! ## Exactness -/

/-- A firing is announced exactly when there is no cooldown, when its key has not been announced before,
or when the last announcement is at least the cooldown ago. -/
def CooldownExact (hasWalG : Bool) (calls : List AlertCall) : Prop :=
  ∀ before cfg now f after, calls = before ++ AlertCall.fire cfg now f :: after →
    let (a, events) := Alerter.run { hasWalG := hasWalG } before
    openEvent now f ∈ (a.exec (.fire cfg now f)).2 ↔
      cfg.cooldown ≤ 0 ∨ lastOpen f.key events = none ∨
        ∃ t, lastOpen f.key events = some t ∧ cfg.cooldown ≤ now - t

theorem cooldown_exact (hasWalG : Bool) {calls : List AlertCall}
    (hpos : ∀ call ∈ calls, 0 < call.time)
    (htimes : (calls.map AlertCall.time).Pairwise (· ≤ ·)) : CooldownExact hasWalG calls := by
  rintro before cfg now f after rfl
  have hbefore : ∀ call ∈ before, 0 < call.time := fun call hcall =>
    hpos call (List.mem_append_left _ hcall)
  -- The calls are in the order of time, so every announced firing lies behind.
  have hle : ∀ t, lastOpen f.key (Alerter.run { hasWalG := hasWalG } before).2 = some t → t ≤ now := by
    intro t ht
    rw [List.map_append] at htimes
    exact (List.pairwise_append.1 htimes).2.2 t (time_mem_of_lastOpen hasWalG ht) now
      List.mem_cons_self
  have hcool : coolingDown cfg now
      (touch ((Alerter.run { hasWalG := hasWalG } before).1.active.lookup f.key) now f) = true ↔ _ :=
    coolingDown_iff (run_lastFired hasWalG f.key hbefore) hle
  -- A firing is announced exactly if it is not cooling down.
  have hevents : openEvent now f ∈
      ((Alerter.run { hasWalG := hasWalG } before).1.exec (.fire cfg now f)).2 ↔
        ¬coolingDown cfg now
          (touch ((Alerter.run { hasWalG := hasWalG } before).1.active.lookup f.key) now f) = true := by
    simp only [Alerter.exec, Alerter.fire]
    split <;> simp [*]
  show _ ↔ _
  rw [hevents, hcool]
  cases hlast : lastOpen f.key (Alerter.run { hasWalG := hasWalG } before).2 with
  | none => simp
  | some t =>
      simp only [Option.some.injEq, exists_eq_left', not_and_or, reduceCtorEq, false_or]
      rw [Int.not_lt, Int.not_lt]

/-- For every sequence of calls at times that do not go back: firings are announced exactly as the
cooldown says, and the history holds the last hundred of all events. -/
theorem cooldown_exact_and_history (hasWalG : Bool) (calls : List AlertCall)
    (hpos : ∀ call ∈ calls, 0 < call.time)
    (htimes : (calls.map AlertCall.time).Pairwise (· ≤ ·)) :
    CooldownExact hasWalG calls ∧
      (Alerter.run { hasWalG := hasWalG } calls).1.history =
        lastN 100 (Alerter.run { hasWalG := hasWalG } calls).2 :=
  ⟨cooldown_exact hasWalG hpos htimes, run_history hasWalG calls⟩

def lagging : Firing where
  key := "replication"
  level := .warning
  metric := "replication_lag"
  message := "Replication lag 40s exceeds 30s"
  value := "40s"

/-- Three firings within two minutes, with a cooldown of one minute. -/
theorem cooldown_exact_and_history_three :
    let calls : List AlertCall :=
      [1, 30000000000, 90000000000].map fun now => .fire { cooldownMinutes := 1 } now lagging
    CooldownExact true calls ∧
      (Alerter.run { hasWalG := true } calls).1.history =
        lastN 100 (Alerter.run { hasWalG := true } calls).2 :=
  cooldown_exact_and_history true _ (by decide) (by decide)

end Service
end Pgaio
