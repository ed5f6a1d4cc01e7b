import Pgaio.Service.Alerter

/-!
# AlertKeys — the alerter seen from one key

The alerts of different keys do not influence each other: what a call makes of the alert of a key,
and which events of that key it appends, depends on the alert of this key alone.  `stateAfter` and
`eventsFor` say how; `lookup_exec` and `events_exec` connect them to the alerter.
-/

namespace Pgaio
namespace Service

open Go

/-! ## One alert -/

/-- The state after an announced firing. -/
def AlertState.announced (state : AlertState) (now : Time) : AlertState :=
  { state with lastFiredAt := now, resolvedAt := none }

def AlertState.resolve (state : AlertState) (now : Time) : AlertState :=
  { state with status := .resolved, resolvedAt := some now }

/-- The alert of `key` after `resolveMissing`. -/
def resolvedState (now : Time) (seen : List String) (key : String) (state? : Option AlertState) :
    Option AlertState :=
  state?.map fun state => if missing seen key state then state.resolve now else state

/-- The events of `key` that `resolveMissing` appends. -/
def resolvedEvents (now : Time) (seen : List String) (key : String) :
    Option AlertState → List AlertEvent
  | none => []
  | some state => if missing seen key state then [resolvedEvent now key state] else []

namespace AlertCall

/-- The reading of the clock. -/
def time : AlertCall → Time
  | .fire _ now _ => now
  | .resolveMissing now _ _ => now

/-- What a call makes of the alert of `key`. -/
def stateAfter (key : String) (state? : Option AlertState) : AlertCall → Option AlertState
  | .fire cfg now f =>
      if f.key = key then
        let state := touch state? now f
        some (if coolingDown cfg now state then state else state.announced now)
      else state?
  | .resolveMissing now seen _ => resolvedState now seen key state?

/-- The events of `key` that a call appends. -/
def eventsFor (key : String) (state? : Option AlertState) : AlertCall → List AlertEvent
  | .fire cfg now f =>
      if f.key = key then
        if coolingDown cfg now (touch state? now f) then [] else [openEvent now f]
      else []
  | .resolveMissing now seen _ => resolvedEvents now seen key state?

end AlertCall

/-- The events of one key. -/
def eventsOf (key : String) (events : List AlertEvent) : List AlertEvent :=
  events.filter fun e => e.key = key

@[simp] theorem eventsOf_append (key : String) (es fs : List AlertEvent) :
    eventsOf key (es ++ fs) = eventsOf key es ++ eventsOf key fs :=
  List.filter_append _ _

/-! ## The loop of `resolveMissing` -/

section

variable (now : Time) (seen : List String) (key : String)

/-- A second round for the same key does nothing. -/
theorem resolved_twice (state? : Option AlertState) :
    resolvedState now seen key (resolvedState now seen key state?) =
        resolvedState now seen key state? ∧
      resolvedEvents now seen key (resolvedState now seen key state?) = [] := by
  cases state? with
  | none => exact ⟨rfl, rfl⟩
  | some state =>
      have hresolved : missing seen key (state.resolve now) = false := by
        simp [missing, AlertState.resolve]
      simp only [resolvedState, resolvedEvents, Option.map_some]
      cases hmissing : missing seen key state with
      | true => simp [hresolved]
      | false => simp [hmissing]

variable (acc : Alerter × List AlertEvent)

theorem resolveKey_self :
    (Alerter.resolveKey now seen acc key).1.active.lookup key =
        resolvedState now seen key (acc.1.active.lookup key) ∧
      eventsOf key (Alerter.resolveKey now seen acc key).2 =
        eventsOf key acc.2 ++ resolvedEvents now seen key (acc.1.active.lookup key) := by
  rcases acc with ⟨a, events⟩
  unfold Alerter.resolveKey
  cases hlook : a.active.lookup key with
  | none => simp [hlook, resolvedState, resolvedEvents]
  | some state =>
      simp only [hlook, resolvedState, resolvedEvents, Option.map_some]
      split
      · refine ⟨AList.lookup_insert _, ?_⟩
        simp [eventsOf, resolvedEvent]
      · simp [hlook]

/-- A round for another key leaves this one alone. -/
theorem resolveKey_other {k : String} (hne : key ≠ k) :
    (Alerter.resolveKey now seen acc k).1.active.lookup key = acc.1.active.lookup key ∧
      eventsOf key (Alerter.resolveKey now seen acc k).2 = eventsOf key acc.2 := by
  rcases acc with ⟨a, events⟩
  unfold Alerter.resolveKey
  cases hlook : a.active.lookup k with
  | none => simp [hlook]
  | some state =>
      simp only [hlook]
      split
      · refine ⟨AList.lookup_insert_ne hne, ?_⟩
        simp [eventsOf, resolvedEvent, Ne.symm hne]
      · exact ⟨rfl, rfl⟩

/-- The loop over any keys: a key counts once, however often it comes up. -/
theorem foldl_resolveKey (keys : List String) :
    (keys.foldl (Alerter.resolveKey now seen) acc).1.active.lookup key =
        (if key ∈ keys then resolvedState now seen key (acc.1.active.lookup key)
          else acc.1.active.lookup key) ∧
      eventsOf key (keys.foldl (Alerter.resolveKey now seen) acc).2 =
        eventsOf key acc.2 ++
          (if key ∈ keys then resolvedEvents now seen key (acc.1.active.lookup key) else []) := by
  induction keys generalizing acc with
  | nil => simp
  | cons k keys ih =>
      rcases ih (Alerter.resolveKey now seen acc k) with ⟨hstate, hevents⟩
      rw [List.foldl_cons, hstate, hevents]
      by_cases hk : key = k
      · -- The first round for the key does the work, further ones find it resolved.
        subst hk
        rcases resolveKey_self now seen key acc with ⟨hstate', hevents'⟩
        rcases resolved_twice now seen key (acc.1.active.lookup key) with ⟨htwice, hnone⟩
        rw [hstate', hevents', htwice, hnone]
        simp
      · rcases resolveKey_other now seen key acc hk with ⟨hstate', hevents'⟩
        rw [hstate', hevents']
        simp [hk]

end

namespace Alerter

variable {a : Alerter}

theorem resolveMissing_key (now : Time) (seen : List String) (order : MapOrder) (key : String) :
    (a.resolveMissing now seen order).1.active.lookup key =
        resolvedState now seen key (a.active.lookup key) ∧
      eventsOf key (a.resolveMissing now seen order).2 =
        resolvedEvents now seen key (a.active.lookup key) := by
  rcases foldl_resolveKey now seen key (a, []) (order.order a.active.keys) with ⟨hstate, hevents⟩
  unfold resolveMissing
  rw [hstate, hevents]
  by_cases hkey : key ∈ order.order a.active.keys
  · simp [hkey, eventsOf]
  · -- A key that does not come up has no alert.
    have hnone : a.active.lookup key = none := by
      rw [AList.lookup_eq_none]
      exact fun hmem => hkey ((order.perm _).mem_iff.2 (AList.mem_keys.2 hmem))
    simp [hkey, hnone, resolvedState, resolvedEvents, eventsOf]

/-! ## Calls -/

/-- What a call makes of the alert of a key. -/
theorem lookup_exec (call : AlertCall) (key : String) :
    (a.exec call).1.active.lookup key = call.stateAfter key (a.active.lookup key) := by
  cases call with
  | fire cfg now f =>
      simp only [exec, fire, AlertCall.stateAfter]
      by_cases hkey : f.key = key
      · subst hkey
        split <;> simp [AlertState.announced]
      · have hne : key ≠ f.key := Ne.symm hkey
        split <;> simp [AList.lookup_insert_ne hne]
  | resolveMissing now seen order => exact (resolveMissing_key now seen order key).1

/-- Which events of a key a call appends. -/
theorem events_exec (call : AlertCall) (key : String) :
    eventsOf key (a.exec call).2 = call.eventsFor key (a.active.lookup key) := by
  cases call with
  | fire cfg now f =>
      simp only [exec, fire, AlertCall.eventsFor]
      by_cases hkey : f.key = key
      · subst hkey
        split <;> simp [eventsOf, openEvent]
      · split <;> simp [hkey, eventsOf, openEvent]
  | resolveMissing now seen order => exact (resolveMissing_key now seen order key).2

theorem run_append (calls more : List AlertCall) :
    a.run (calls ++ more) =
      (((a.run calls).1.run more).1, (a.run calls).2 ++ ((a.run calls).1.run more).2) := by
  induction calls generalizing a with
  | nil => simp [run]
  | cons call calls ih => simp [run, ih]

theorem run_snoc (calls : List AlertCall) (call : AlertCall) :
    a.run (calls ++ [call]) =
      (((a.run calls).1.exec call).1, (a.run calls).2 ++ ((a.run calls).1.exec call).2) := by
  rw [run_append]
  simp [run]

end Alerter

end Service
end Pgaio
