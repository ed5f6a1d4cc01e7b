import Pgaio.Service.AlertKeys
import Mathlib.Data.List.Induction

/-!
# AlertEpisodes — what an alert says about its own times

An `Episode` says of one key what the calls alone determine: since when the alert has been open, and
when it has been resolved last.  The alerter keeps one record per key for all episodes.  It writes
`OpenedAt` when the record is made and never again, and it clears `ResolvedAt` only after the early
return for the cooldown; so the record of a reopened alert tells of an earlier episode
(`reopened_alert_incoherent`).  `alerts_coherent_iff` says that all other records are right.
-/

namespace Pgaio
namespace Service

open Go

/-! ## Episodes -/

structure Episode where
  /-- The first firing after the last resolution, or the first of all. -/
  openSince : Option Time := none
  /-- The last resolution. -/
  resolvedAt : Option Time := none
  deriving DecidableEq, Repr

/-- A firing opens what is not open; a check that misses the key resolves what is open. -/
def Episode.after (key : String) (e : Episode) : AlertCall → Episode
  | .fire _ now f =>
      if f.key = key then { e with openSince := some (e.openSince.getD now) } else e
  | .resolveMissing now seen _ =>
      if e.openSince.isSome ∧ key ∉ seen then { openSince := none, resolvedAt := some now } else e

def episodeOf (key : String) (calls : List AlertCall) : Episode :=
  calls.foldl (Episode.after key) {}

theorem episodeOf_snoc (key : String) (calls : List AlertCall) (call : AlertCall) :
    episodeOf key (calls ++ [call]) = (episodeOf key calls).after key call := by
  simp [episodeOf]

/-- The record tells the times of the current episode. -/
def AlertState.Coherent (state : AlertState) (e : Episode) : Prop :=
  match state.status with
  | .opened => state.resolvedAt = none ∧ e.openSince = some state.openedAt
  | .resolved => ∃ t, e.resolvedAt = some t ∧ state.resolvedAt = some t

def AlertsCoherent (hasWalG : Bool) (calls : List AlertCall) : Prop :=
  ∀ key state, (Alerter.run { hasWalG := hasWalG } calls).1.active.lookup key = some state →
    state.Coherent (episodeOf key calls)

/-- No key that has been resolved is fired again and left open. -/
def NoneReopened (calls : List AlertCall) : Prop :=
  ∀ key, (episodeOf key calls).openSince = none ∨ (episodeOf key calls).resolvedAt = none

/-! ## Records and episodes -/

/-- What the record of a key and its episode have to do with each other; `times` are those of the calls
so far. -/
structure AlertState.Agrees (state : AlertState) (times : List Time) (e : Episode) : Prop where
  open_iff : state.status = .opened ↔ e.openSince.isSome = true
  resolvedAt_eq : state.status = .resolved → state.resolvedAt = e.resolvedAt
  first : e.resolvedAt = none → state.resolvedAt = none ∧ e.openSince = some state.openedAt
  openedAt_mem : state.openedAt ∈ times
  resolved_mem : ∀ r, e.resolvedAt = some r → r ∈ times
  opened_lt : ∀ r, e.resolvedAt = some r → state.openedAt < r
  resolved_lt : ∀ r t, e.resolvedAt = some r → e.openSince = some t → r < t

/-- A key without a record has no episode. -/
def RecordAgrees (state? : Option AlertState) (times : List Time) (e : Episode) : Prop :=
  match state? with
  | none => e = {}
  | some state => state.Agrees times e

variable {times : List Time} {now : Time} {e : Episode} {key : String}

theorem AlertState.Agrees.later {state : AlertState} (h : state.Agrees times e) :
    state.Agrees (times ++ [now]) e :=
  { h with
    openedAt_mem := List.mem_append_left _ h.openedAt_mem
    resolved_mem := fun r hr => List.mem_append_left _ (h.resolved_mem r hr) }

theorem RecordAgrees.later {state? : Option AlertState} (h : RecordAgrees state? times e) :
    RecordAgrees state? (times ++ [now]) e := by
  cases state? with
  | none => exact h
  | some state => exact AlertState.Agrees.later h

/-- The fields of the record after a firing that matter here. -/
theorem agrees_fired {state' : AlertState} {state? : Option AlertState}
    (h : RecordAgrees state? times e) (hnow : ∀ t ∈ times, t < now)
    (hstatus : state'.status = .opened)
    (hopened : state'.openedAt = (state?.map AlertState.openedAt).getD now)
    (hresolved : state'.resolvedAt = none ∨ state'.resolvedAt = state?.bind AlertState.resolvedAt) :
    state'.Agrees (times ++ [now]) { e with openSince := some (e.openSince.getD now) } := by
  cases state? with
  | none =>
      -- The first firing of the key.
      have he : e = {} := h
      subst he
      have hnone : state'.resolvedAt = none := by
        simpa using hresolved
      exact
        { open_iff := iff_of_true hstatus rfl
          resolvedAt_eq := fun hr => by rw [hstatus] at hr; cases hr
          first := fun _ => ⟨hnone, congrArg some hopened.symm⟩
          openedAt_mem := by
            rw [hopened]
            exact List.mem_append_right _ List.mem_cons_self
          resolved_mem := fun r hr => by cases hr
          opened_lt := fun r hr => by cases hr
          resolved_lt := fun r t hr => by cases hr }
  | some state =>
      have hagrees : state.Agrees times e := h
      have hopenedAt : state'.openedAt = state.openedAt := hopened
      have hresolvedAt : e.resolvedAt = none → state'.resolvedAt = none := by
        intro hnone
        rcases hresolved with hr | hr
        · exact hr
        · exact hr.trans (hagrees.first hnone).1
      exact
        { open_iff := iff_of_true hstatus rfl
          resolvedAt_eq := fun hr => by rw [hstatus] at hr; cases hr
          first := fun hnone => by
            refine ⟨hresolvedAt hnone, ?_⟩
            rw [(hagrees.first hnone).2, hopenedAt]
            rfl
          openedAt_mem := by
            rw [hopenedAt]
            exact List.mem_append_left _ hagrees.openedAt_mem
          resolved_mem := fun r hr => List.mem_append_left _ (hagrees.resolved_mem r hr)
          opened_lt := fun r hr => by
            rw [hopenedAt]
            exact hagrees.opened_lt r hr
          resolved_lt := fun r t hr ht => by
            -- The firing opens a new episode, or the one that it belongs to is open already.
            cases hsince : e.openSince with
            | none =>
                rw [hsince] at ht
                cases ht
                exact hnow r (hagrees.resolved_mem r hr)
            | some since =>
                rw [hsince] at ht
                cases ht
                exact hagrees.resolved_lt r since hr hsince }

theorem agrees_resolved {state : AlertState} (h : state.Agrees times e)
    (hnow : ∀ t ∈ times, t < now) :
    (state.resolve now).Agrees (times ++ [now]) { openSince := none, resolvedAt := some now } where
  open_iff := iff_of_false (fun h => by cases h) (fun h => by cases h)
  resolvedAt_eq := fun _ => rfl
  first := fun hnone => by cases hnone
  openedAt_mem := List.mem_append_left _ h.openedAt_mem
  resolved_mem := fun r hr => by
    cases hr
    exact List.mem_append_right _ List.mem_cons_self
  opened_lt := fun r hr => by
    cases hr
    exact hnow _ h.openedAt_mem
  resolved_lt := fun r t _ ht => by cases ht

/-- One call keeps record and episode of a key in step. -/
theorem recordAgrees_step {state? : Option AlertState} (call : AlertCall)
    (h : RecordAgrees state? times e) (hnow : ∀ t ∈ times, t < call.time) :
    RecordAgrees (call.stateAfter key state?) (times ++ [call.time]) (e.after key call) := by
  cases call with
  | fire cfg now f =>
      simp only [AlertCall.stateAfter, Episode.after]
      by_cases hkey : f.key = key
      · rw [if_pos hkey, if_pos hkey]
        -- A firing keeps the time of opening, whether it is announced or not.
        have hopened (state : AlertState)
            (hstate : state = touch state? now f ∨ state = (touch state? now f).announced now) :
            state.openedAt = (state?.map AlertState.openedAt).getD now := by
          rcases hstate with rfl | rfl <;> cases state? <;> rfl
        show (if _ then _ else _ : AlertState).Agrees _ _
        split
        · apply agrees_fired h hnow rfl (hopened _ (Or.inl rfl))
          right
          cases state? <;> rfl
        · exact agrees_fired h hnow rfl (hopened _ (Or.inr rfl)) (Or.inl rfl)
      · rw [if_neg hkey, if_neg hkey]
        exact h.later
  | resolveMissing now seen order =>
      cases state? with
      | none =>
          have he : e = {} := h
          subst he
          rfl
      | some state =>
          have hagrees : state.Agrees times e := h
          -- The call resolves the record exactly if the episode is open and its key was not seen.
          have hmissing : missing seen key state = true ↔ e.openSince.isSome = true ∧ key ∉ seen := by
            rw [← hagrees.open_iff]
            simp [missing]
          simp only [AlertCall.stateAfter, resolvedState, Option.map_some, Episode.after]
          by_cases hopen : e.openSince.isSome = true ∧ key ∉ seen
          · rw [if_pos (hmissing.2 hopen), if_pos hopen]
            exact agrees_resolved hagrees hnow
          · rw [if_neg (fun hm => hopen (hmissing.1 hm)), if_neg hopen]
            exact hagrees.later

/-- After every run at increasing times record and episode of each key are in step. -/
theorem run_recordAgrees (hasWalG : Bool) (key : String) {calls : List AlertCall}
    (htimes : (calls.map AlertCall.time).Pairwise (· < ·)) :
    RecordAgrees ((Alerter.run { hasWalG := hasWalG } calls).1.active.lookup key)
      (calls.map AlertCall.time) (episodeOf key calls) := by
  induction calls using List.reverseRecOn with
  | nil => rfl
  | append_singleton calls call ih =>
      rw [List.map_append, List.map_singleton] at htimes ⊢
      obtain ⟨hbefore, -, hlast⟩ := List.pairwise_append.1 htimes
      rw [Alerter.run_snoc, episodeOf_snoc, Alerter.lookup_exec]
      exact recordAgrees_step call (ih hbefore) fun t ht => hlast t ht _ List.mem_cons_self

/-- A record in step with its episode is coherent unless it has been reopened. -/
theorem AlertState.Agrees.coherent_iff {state : AlertState} (h : state.Agrees times e) :
    state.Coherent e ↔ e.openSince = none ∨ e.resolvedAt = none := by
  unfold AlertState.Coherent
  cases hstatus : state.status with
  | opened =>
      obtain ⟨t, ht⟩ := Option.isSome_iff_exists.1 (h.open_iff.1 hstatus)
      constructor
      · rintro ⟨-, hsince⟩
        -- The first firing lies before the resolution and the current episode after it.
        right
        cases hr : e.resolvedAt with
        | none => rfl
        | some r =>
            have hbefore := h.opened_lt r hr
            have hafter := h.resolved_lt r _ hr hsince
            exact absurd (Int.lt_trans hbefore hafter) (Int.lt_irrefl _)
      · rintro (hnone | hnone)
        · rw [ht] at hnone
          cases hnone
        · exact h.first hnone
  | resolved =>
      have hclosed : e.openSince = none := by
        rw [← Option.not_isSome_iff_eq_none, ← h.open_iff, hstatus]
        exact fun heq => by cases heq
      refine iff_of_true ?_ (Or.inl hclosed)
      cases hr : e.resolvedAt with
      | none =>
          have hsince := (h.first hr).2
          rw [hclosed] at hsince
          cases hsince
      | some r => exact ⟨r, rfl, (h.resolvedAt_eq hstatus).trans hr⟩

/-- For every sequence of calls at increasing times: all records are coherent exactly when no key that
has been resolved is open again. -/
theorem alerts_coherent_iff (hasWalG : Bool) (calls : List AlertCall)
    (htimes : (calls.map AlertCall.time).Pairwise (· < ·)) :
    AlertsCoherent hasWalG calls ↔ NoneReopened calls := by
  constructor
  · intro hcoherent key
    have hagrees := run_recordAgrees hasWalG key htimes
    cases hlook : (Alerter.run { hasWalG := hasWalG } calls).1.active.lookup key with
    | none =>
        rw [hlook] at hagrees
        exact Or.inl (congrArg Episode.openSince hagrees)
    | some state =>
        rw [hlook] at hagrees
        exact (AlertState.Agrees.coherent_iff hagrees).1 (hcoherent key state hlook)
  · intro hnone key state hlook
    have hagrees := run_recordAgrees hasWalG key htimes
    rw [hlook] at hagrees
    exact (AlertState.Agrees.coherent_iff hagrees).2 (hnone key)

def diskFull : Firing where
  key := "disk"
  level := .critical
  metric := "disk_usage"
  message := "Disk usage 91.0% exceeds 90%"
  value := "91.0%"

/-- The disk is full at 1 and no more at 2. -/
def fullOnce : List AlertCall :=
  [.fire { cooldownMinutes := 15 } 1 diskFull, .resolveMissing 2 [] .same]

/-- An alert that has been resolved. -/
theorem alerts_coherent_once : AlertsCoherent true fullOnce := by
  refine (alerts_coherent_iff true fullOnce (by decide)).2 fun key => Or.inl ?_
  by_cases hkey : "disk" = key
  · subst hkey
    decide
  · simp [episodeOf, fullOnce, diskFull, Episode.after, hkey]

/-- The disk is full again at 3, within the cooldown: the alert is open, and its record says that it was
resolved at 2 and opened at 1. -/
theorem reopened_alert_incoherent :
    ¬∀ (hasWalG : Bool) (calls : List AlertCall),
      (calls.map AlertCall.time).Pairwise (· < ·) → AlertsCoherent hasWalG calls := by
  intro h
  let calls := fullOnce ++ [.fire { cooldownMinutes := 15 } 3 diskFull]
  have hlook : ((Alerter.run {} calls).1.active.lookup "disk").map
      (fun state => (state.status, state.resolvedAt)) = some (.opened, some 2) := by
    decide +kernel
  obtain ⟨state, hstate, hfields⟩ := Option.map_eq_some_iff.1 hlook
  obtain ⟨hstatus, hresolvedAt⟩ := Prod.mk.inj hfields
  have hcoherent := h true calls (by decide) "disk" state hstate
  unfold AlertState.Coherent at hcoherent
  rw [hstatus] at hcoherent
  rw [hcoherent.1] at hresolvedAt
  cases hresolvedAt

end Service
end Pgaio
