import Mathlib.Order.ConditionallyCompleteLattice.Basic
import Mathlib.Data.Int.ConditionallyCompleteOrder
import Pgaio.Service.AlertChecks
import Mathlib.Data.List.Induction
import Mathlib.Order.Monotone.Basic

/-!
# AlertAlternation — do 'open' and 'resolved' events alternate?

The cooldown of a key is counted from its last announced firing and is not reset when the alert is
resolved.  A condition that comes back within the cooldown therefore reopens its alert without an
'open' event, and if it goes away again, a second 'resolved' event follows the first one
(`resolved_twice_in_cooldown`).  `events_alternate_iff` says that this is the only way in which the
alternation is lost.
-/

namespace Pgaio
namespace Service

open Go Model

/-! ## What alternation means -/

/-- Before every 'resolved' event there is an 'open' event, and no other 'resolved' event stands
between them. -/
def Alternates (events : List AlertEvent) : Prop :=
  ∀ before e after, events = before ++ e :: after → e.status = .resolved →
    ∃ start o between, before = start ++ o :: between ∧ o.status = .opened ∧
      ∀ x ∈ between, x.status ≠ .resolved

/-- In every period during which the alert of `key` is open, up to any moment of it, an 'open' event
is appended. -/
def PeriodsAnnounced (a : Alerter) (key : String) (calls : List AlertCall) : Prop :=
  ∀ before during after, calls = before ++ (during ++ after) → during ≠ [] →
    (a.run before).1.isOpen key = false →
    (∀ d, d <+: during → d ≠ [] → (a.run (before ++ d)).1.isOpen key = true) →
      ∃ e ∈ ((a.run before).1.run during).2, e.key = key ∧ e.status = .opened

def EventsAlternate (a : Alerter) (calls : List AlertCall) : Prop :=
  ∀ key, Alternates (eventsOf key (a.run calls).2) ∧ PeriodsAnnounced a key calls

/-- The call reopens the resolved alert of `key` while the cooldown keeps it from being announced. -/
def AlertCall.silent (key : String) (state? : Option AlertState) : AlertCall → Bool
  | .fire cfg now f =>
      decide (f.key = key) &&
        state?.any fun state => decide (state.status = .resolved) && coolingDown cfg now state
  | .resolveMissing _ _ _ => false

def Alerter.reopensSilently (a : Alerter) : AlertCall → Bool
  | .fire cfg now f => (AlertCall.fire cfg now f).silent f.key (a.active.lookup f.key)
  | .resolveMissing _ _ _ => false

/-- No call of the run reopens an alert within its cooldown. -/
def NeverSilent (a : Alerter) (calls : List AlertCall) : Prop :=
  ∀ before call after, calls = before ++ call :: after →
    (a.run before).1.reopensSilently call = false

/-! ## One key -/

theorem silent_of_reopens {a : Alerter} {call : AlertCall} (h : a.reopensSilently call = false)
    (key : String) : call.silent key (a.active.lookup key) = false := by
  cases call with
  | fire cfg now f =>
      by_cases hkey : f.key = key
      · subst hkey
        exact h
      · simp [AlertCall.silent, hkey]
  | resolveMissing now seen order => rfl

/-- An alert that has never been announced is not cooling down. -/
theorem not_coolingDown_new (cfg : AlertConfig) (now : Time) (f : Firing) :
    coolingDown cfg now (touch none now f) = false := by
  simp [coolingDown, touch, Time.isZero]

theorem coolingDown_touch (cfg : AlertConfig) (now : Time) (f : Firing) (state : AlertState) :
    coolingDown cfg now (touch (some state) now f) = coolingDown cfg now state :=
  rfl

/-- Only an open alert is fired again within its cooldown, unless the call is silent. -/
theorem opened_of_coolingDown {key : String} {state? : Option AlertState} {cfg : AlertConfig}
    {now : Time} {f : Firing} (hkey : f.key = key)
    (hcool : coolingDown cfg now (touch state? now f) = true)
    (hsilent : (AlertCall.fire cfg now f).silent key state? = false) :
    ∃ state, state? = some state ∧ state.status = .opened := by
  cases state? with
  | none =>
      rw [not_coolingDown_new] at hcool
      cases hcool
  | some state =>
      rw [coolingDown_touch] at hcool
      cases hstatus : state.status with
      | opened => exact ⟨state, rfl, hstatus⟩
      | resolved => simp [AlertCall.silent, hkey, hstatus, hcool] at hsilent

/-- The last event of a key tells the status of its alert. -/
def Tracks (state? : Option AlertState) (events : List AlertEvent) : Prop :=
  events.getLast?.map AlertEvent.status = state?.map AlertState.status

theorem Alternates.snoc {events : List AlertEvent} {e : AlertEvent} (h : Alternates events)
    (he : e.status = .resolved → ∃ o, events.getLast? = some o ∧ o.status = .opened) :
    Alternates (events ++ [e]) := by
  intro before x after heq hx
  rcases List.eq_nil_or_concat after with rfl | ⟨after', y, rfl⟩
  · -- The event in question is the new one.
    have hlast := List.append_inj' heq rfl
    rcases hlast with ⟨rfl, hlast⟩
    cases hlast
    rcases he hx with ⟨o, ho, hstatus⟩
    rcases List.getLast?_eq_some_iff.1 ho with ⟨start, rfl⟩
    exact ⟨start, o, [], rfl, hstatus, fun x hx => by cases hx⟩
  · have hinit : events = before ++ x :: after' := by
      have heq' : events ++ [e] = (before ++ x :: after') ++ [y] := by
        simpa using heq
      exact (List.append_inj' heq' rfl).1
    exact h before x after' hinit hx

/-- A call that is not silent keeps events and alert of a key in step. -/
theorem tracks_step {key : String} {state? : Option AlertState} {events : List AlertEvent}
    {call : AlertCall} (htracks : Tracks state? events) (halt : Alternates events)
    (hsilent : call.silent key state? = false) :
    Tracks (call.stateAfter key state?) (events ++ call.eventsFor key state?) ∧
      Alternates (events ++ call.eventsFor key state?) := by
  cases call with
  | fire cfg now f =>
      simp only [AlertCall.stateAfter, AlertCall.eventsFor]
      by_cases hkey : f.key = key
      · rw [if_pos hkey, if_pos hkey]
        cases hcool : coolingDown cfg now (touch state? now f) with
        | false =>
            simp only [Bool.false_eq_true, if_false]
            refine ⟨?_, halt.snoc fun h => (by cases h)⟩
            simp [Tracks, openEvent, AlertState.announced, touch]
        | true =>
            -- Nothing is announced, and the alert stays open.
            simp only [if_true, List.append_nil]
            refine ⟨?_, halt⟩
            rcases opened_of_coolingDown hkey hcool hsilent with ⟨state, rfl, hopen⟩
            unfold Tracks at htracks ⊢
            rw [htracks]
            simp [touch, hopen]
      · rw [if_neg hkey, if_neg hkey, List.append_nil]
        exact ⟨htracks, halt⟩
  | resolveMissing now seen order =>
      simp only [AlertCall.stateAfter, AlertCall.eventsFor]
      cases state? with
      | none =>
          rw [resolvedEvents, List.append_nil]
          exact ⟨htracks, halt⟩
      | some state =>
          simp only [resolvedState, resolvedEvents, Option.map_some]
          cases hmissing : missing seen key state with
          | false =>
              simp only [Bool.false_eq_true, if_false, List.append_nil]
              exact ⟨htracks, halt⟩
          | true =>
              -- An open alert is resolved, and its last event has opened it.
              simp only [if_true]
              have hopen : state.status = .opened := by
                simp only [missing, Bool.and_eq_true, decide_eq_true_eq] at hmissing
                exact hmissing.1
              refine ⟨by simp [Tracks, resolvedEvent, AlertState.resolve], halt.snoc fun _ => ?_⟩
              rcases Option.map_eq_some_iff.1 htracks with ⟨o, ho, hstatus⟩
              exact ⟨o, ho, hstatus.trans hopen⟩

/-- A call that opens an alert and is not silent appends an 'open' event. -/
theorem announced_of_opening {key : String} {state? : Option AlertState} {call : AlertCall}
    (hbefore : opened state? = false) (hafter : opened (call.stateAfter key state?) = true)
    (hsilent : call.silent key state? = false) :
    ∃ e ∈ call.eventsFor key state?, e.status = .opened := by
  cases call with
  | fire cfg now f =>
      simp only [AlertCall.stateAfter, AlertCall.eventsFor] at hafter ⊢
      by_cases hkey : f.key = key
      · rw [if_pos hkey]
        cases hcool : coolingDown cfg now (touch state? now f) with
        | false => exact ⟨openEvent now f, by simp, rfl⟩
        | true =>
            -- The alert would have been open before.
            rcases opened_of_coolingDown hkey hcool hsilent with ⟨state, rfl, hopen⟩
            simp [opened, hopen] at hbefore
      · rw [if_neg hkey, hbefore] at hafter
        cases hafter
  | resolveMissing now seen order =>
      simp only [AlertCall.stateAfter] at hafter
      cases state? with
      | none => cases hafter
      | some state =>
          simp only [resolvedState, Option.map_some] at hafter
          cases hmissing : missing seen key state with
          | true => simp [hmissing, opened, AlertState.resolve] at hafter
          | false =>
              simp only [hmissing, Bool.false_eq_true, if_false] at hafter
              rw [hbefore] at hafter
              cases hafter

/-! ## Runs -/

theorem NeverSilent.init {a : Alerter} {calls : List AlertCall} {call : AlertCall}
    (h : NeverSilent a (calls ++ [call])) : NeverSilent a calls := by
  intro before c after heq
  refine h before c (after ++ [call]) ?_
  rw [heq, List.append_assoc, List.cons_append]

/-- In a run without silent calls the last event of every key tells the status of its alert. -/
theorem run_tracks (hasWalG : Bool) (key : String) {calls : List AlertCall}
    (h : NeverSilent { hasWalG := hasWalG } calls) :
    let result := ({ hasWalG := hasWalG } : Alerter).run calls
    Tracks (result.1.active.lookup key) (eventsOf key result.2) ∧
      Alternates (eventsOf key result.2) := by
  -- The induction is on the last call; `Tracks` is what it needs to know of the events before.
  induction calls using List.reverseRecOn with
  | nil =>
      refine ⟨rfl, fun before e after heq => ?_⟩
      simp [Alerter.run, eventsOf] at heq
  | append_singleton calls call ih =>
      rcases ih h.init with ⟨htracks, halt⟩
      have hlast := h calls call [] rfl
      simp only [Alerter.run_snoc, eventsOf_append, Alerter.lookup_exec, Alerter.events_exec]
      exact tracks_step htracks halt (silent_of_reopens hlast key)

/-- A period begins with a call that opens the alert, and this call announces it. -/
theorem periods_announced {a : Alerter} {calls : List AlertCall} (h : NeverSilent a calls)
    (key : String) : PeriodsAnnounced a key calls := by
  intro before during after heq hne hclosed hopen
  cases during with
  | nil => exact absurd rfl hne
  | cons call during =>
      -- The alert is closed before the first call of the period and open after it.
      have hfirst := hopen [call] (by simp) (by simp)
      have hsilent := h before call (during ++ after) (by simpa using heq)
      rw [Alerter.run_snoc] at hfirst
      unfold Alerter.isOpen at hclosed hfirst
      rw [Alerter.lookup_exec] at hfirst
      rcases announced_of_opening hclosed hfirst (silent_of_reopens hsilent key) with
        ⟨e, he, hstatus⟩
      rw [← Alerter.events_exec] at he
      rcases List.mem_filter.1 he with ⟨hmem, hkey⟩
      refine ⟨e, ?_, of_decide_eq_true hkey, hstatus⟩
      exact List.mem_append_left _ hmem

/-- A silent call begins a period without an 'open' event. -/
theorem not_announced_of_silent {a : Alerter} (before after : List AlertCall) {call : AlertCall}
    (hsilent : (a.run before).1.reopensSilently call = true) :
    ∃ key, ¬ PeriodsAnnounced a key (before ++ call :: after) := by
  cases call with
  | resolveMissing now seen order => cases hsilent
  | fire cfg now f =>
      simp only [Alerter.reopensSilently, AlertCall.silent, decide_true, Bool.true_and,
        Option.any_eq_true, Bool.and_eq_true, decide_eq_true_eq] at hsilent
      rcases hsilent with ⟨state, hlook, hresolved, hcool⟩
      refine ⟨f.key, fun hannounced => ?_⟩
      have hclosed : (a.run before).1.isOpen f.key = false := by
        simp [Alerter.isOpen, opened, hlook, hresolved]
      have hevents := Alerter.events_exec (a := (a.run before).1) (.fire cfg now f) f.key
      have hstate := Alerter.lookup_exec (a := (a.run before).1) (.fire cfg now f) f.key
      rw [hlook] at hevents hstate
      simp only [AlertCall.eventsFor, AlertCall.stateAfter, coolingDown_touch, hcool,
        if_true] at hevents hstate
      -- The period is the silent call alone.
      have hopen : ∀ d, d <+: [AlertCall.fire cfg now f] → d ≠ [] →
          (a.run (before ++ d)).1.isOpen f.key = true := by
        intro d hd hne
        have hlen : d = [.fire cfg now f] := by
          rcases List.prefix_cons_iff.1 hd with rfl | ⟨t, rfl, ht⟩
          · exact absurd rfl hne
          · rw [List.prefix_nil.1 ht]
        rw [hlen, Alerter.run_snoc]
        unfold Alerter.isOpen
        rw [hstate]
        simp [opened, touch]
      rcases hannounced before [.fire cfg now f] after (by simp) (by simp) hclosed hopen with
        ⟨e, hmem, hkey, _⟩
      have hin : e ∈ eventsOf f.key ((a.run before).1.exec (.fire cfg now f)).2 := by
        refine List.mem_filter.2 ⟨?_, decide_eq_true hkey⟩
        simpa [Alerter.run] using hmem
      rw [hevents] at hin
      cases hin

/-- For every sequence of calls to a new alerter: 'open' and 'resolved' events alternate exactly
when no call reopens a resolved alert within its cooldown. -/
theorem events_alternate_iff (hasWalG : Bool) (calls : List AlertCall) :
    EventsAlternate { hasWalG := hasWalG } calls ↔ NeverSilent { hasWalG := hasWalG } calls := by
  constructor
  · intro halternate before call after heq
    cases hsilent : (Alerter.run { hasWalG := hasWalG } before).1.reopensSilently call with
    | false => rfl
    | true =>
        rcases not_announced_of_silent before after hsilent with ⟨key, hnot⟩
        rw [← heq] at hnot
        exact absurd (halternate key).2 hnot
  · intro hnever key
    exact ⟨(run_tracks hasWalG key hnever).2, periods_announced hnever key⟩

/-! ## Sequences of checks -/

/-- One check after the other, and all events that they append. -/
def Alerter.checks (a : Alerter) : List CheckInput → Alerter × List AlertEvent
  | [] => (a, [])
  | input :: inputs =>
      let (a, events) := a.check input
      let (a, more) := a.checks inputs
      (a, events ++ more)

theorem hasWalG_resolve (now : Time) (seen keys : List String) (acc : Alerter × List AlertEvent) :
    (keys.foldl (Alerter.resolveKey now seen) acc).1.hasWalG = acc.1.hasWalG := by
  induction keys generalizing acc with
  | nil => rfl
  | cons key keys ih =>
      rw [List.foldl_cons, ih]
      rcases acc with ⟨a, events⟩
      unfold Alerter.resolveKey
      cases hlook : a.active.lookup key with
      | none => simp [hlook]
      | some state =>
          simp only [hlook]
          split <;> rfl

theorem hasWalG_run (a : Alerter) (calls : List AlertCall) :
    (a.run calls).1.hasWalG = a.hasWalG := by
  induction calls generalizing a with
  | nil => rfl
  | cons call calls ih =>
      refine (ih (a.exec call).1).trans ?_
      cases call with
      | fire cfg now f =>
          simp only [Alerter.exec, Alerter.fire]
          split <;> rfl
      | resolveMissing now seen order => exact hasWalG_resolve _ _ _ _

/-- A sequence of checks is a sequence of calls. -/
theorem checks_eq_run (a : Alerter) (inputs : List CheckInput) :
    a.checks inputs = a.run (inputs.flatMap (checkCalls a.hasWalG)) := by
  induction inputs generalizing a with
  | nil => rfl
  | cons input inputs ih =>
      have hwalg : (a.check input).1.hasWalG = a.hasWalG := hasWalG_run a _
      simp only [Alerter.checks, List.flatMap_cons, Alerter.run_append, ih, hwalg]
      rfl

/-! ## A concrete sequence -/

/-- Two 'resolved' events in a row. -/
theorem not_alternates (xs : List AlertEvent) {ys : List AlertEvent} {e f : AlertEvent}
    (he : e.status = .resolved) (hf : f.status = .resolved) : ¬ Alternates (xs ++ e :: f :: ys) := by
  intro halternate
  rcases halternate (xs ++ [e]) f ys (by simp) hf with ⟨start, o, between, heq, ho, hbetween⟩
  rcases List.eq_nil_or_concat between with rfl | ⟨between, x, rfl⟩
  · -- The event before `f` would be the one that opened the alert.
    have hlast := (List.append_inj' heq rfl).2
    cases hlast
    rw [he] at ho
    cases ho
  · -- It would lie between that one and `f`, where nothing is resolved.
    have heq' : xs ++ [e] = (start ++ o :: between) ++ [x] := by
      simpa using heq
    have hlast := (List.append_inj' heq' rfl).2
    cases hlast
    exact hbetween e (by simp) he

/-- The lag is back to normal. -/
def healthyCheck : CheckInput :=
  { laggingCheck with collectors := {} }

def CheckInput.at (input : CheckInput) (now : Time) : CheckInput :=
  { input with clock := fun _ => now }

/-- The lag exceeds its limit in two checks, and is normal after each of them. -/
def flappingChecks : List CheckInput :=
  [laggingCheck.at 1, healthyCheck.at 2, laggingCheck.at 3, healthyCheck.at 4]

theorem resolved_twice_in_cooldown :
    ¬ ∀ inputs : List CheckInput, (∀ input ∈ inputs, Monotone input.clock) →
      (inputs.Pairwise fun x y => ∀ m n, x.clock m ≤ y.clock n) →
        EventsAlternate {} (inputs.flatMap (checkCalls true)) := by
  intro hall
  have hclock : ∀ input ∈ flappingChecks, Monotone input.clock := by
    intro input hinput
    simp only [flappingChecks, List.mem_cons, List.not_mem_nil, or_false] at hinput
    rcases hinput with rfl | rfl | rfl | rfl <;> exact monotone_const
  have horder : flappingChecks.Pairwise fun x y => ∀ m n, x.clock m ≤ y.clock n := by
    simp [flappingChecks, CheckInput.at]
  have hevents : (eventsOf lagKey
      (Alerter.run {} (flappingChecks.flatMap (checkCalls true))).2).map AlertEvent.status =
        [.opened, .resolved, .resolved] := by
    decide +kernel
  have halternate := (hall flappingChecks hclock horder lagKey).1
  rcases List.map_eq_cons_iff.1 hevents with ⟨e₁, rest, heq, _, hrest⟩
  rcases List.map_eq_cons_iff.1 hrest with ⟨e₂, rest, rfl, he₂, hrest⟩
  rcases List.map_eq_cons_iff.1 hrest with ⟨e₃, rest, rfl, he₃, hrest⟩
  rw [heq] at halternate
  exact not_alternates [e₁] he₂ he₃ halternate

end Service
end Pgaio
