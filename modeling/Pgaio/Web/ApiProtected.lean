import Pgaio.Transition.Run

/-!
# ApiProtected — calls that may ask for the password

`apiProtected` and `showLoginModal` of `web/static/js/app.js`.  A call returns a promise and sends a
request; an answer 401 opens the login dialog, and a login sends the request again.  There is one
dialog for the whole page: opening it removes the one that was open, together with its callbacks, and
these are the only way to settle the promise that was waiting for it.

`protected_calls_settle` is about the runs in which no dialog is removed that a promise waits for.
-/

namespace Pgaio
namespace Web

open Transition

variable {D : Type}

/-- How a promise has been settled. -/
inductive Settlement (D : Type) where
  | resolved (data : D)
  | rejected (message : String)
  deriving DecidableEq, Repr

/-- A login dialog.  `owner` is the call behind its callbacks; other code has dialogs of its own. -/
structure Dialog where
  id : Nat
  owner : Option Nat
  deriving DecidableEq, Repr

/-- What `fetch` and the handlers of its promise see in the end. -/
inductive Reply (D : Type) where
  /-- Status 401. -/
  | unauthorized
  /-- Another error status, a network error or a body that is no JSON. -/
  | failed (message : String)
  /-- A body that counts as false: `null`, `false`, `0` or the empty string. -/
  | falsy
  | data (d : D)
  deriving DecidableEq, Repr

structure App (D : Type) where
  /-- The entry `pgaio_session` of the session storage. -/
  session : Option String := none
  /-- The promises by number. -/
  calls : List (Option (Settlement D)) := []
  /-- Requests in flight, by the call they belong to. -/
  requests : List Nat := []
  /-- The dialog that is in the document. -/
  dialog : Option Dialog := none
  /-- Logins in flight, by the dialog they were sent from. -/
  logins : List Dialog := []
  nextDialog : Nat := 0
  deriving DecidableEq, Repr

inductive AppLabel (D : Type) where
  /-- `apiProtected` is called. -/
  | call
  /-- An answer to one of the requests in flight. -/
  | reply (i : Nat) (r : Reply D)
  /-- The user enters a password. -/
  | submit
  /-- An answer to one of the logins in flight, with the new session if it is accepted. -/
  | loginReply (i : Nat) (sid : Option String)
  /-- The button or the escape key. -/
  | cancel
  /-- Other code calls `showLoginModal`. -/
  | otherLogin
  /-- Other code removes the session. -/
  | forget
  deriving DecidableEq, Repr

namespace App

/-- `sessionId` counts as true. -/
def hasSession (s : App D) : Bool :=
  s.session.any (· ≠ "")

def showLoginModal (s : App D) (owner : Option Nat) : App D :=
  { s with
    dialog := some { id := s.nextDialog, owner := owner }
    nextDialog := s.nextDialog + 1 }

def tryRequest (s : App D) (c : Nat) : App D :=
  { s with requests := s.requests ++ [c] }

/-- Only the first `resolve` or `reject` of a promise counts. -/
def settle (s : App D) (c : Nat) (x : Settlement D) : App D :=
  { s with calls := s.calls.modify c (·.or (some x)) }

def apiProtected (s : App D) : App D :=
  let c := s.calls.length
  let s := { s with calls := s.calls ++ [none] }
  -- Without a session nothing is sent before the login.
  if s.hasSession then s.tryRequest c else s.showLoginModal (some c)

/-- The handlers of the promise that `fetch` returns. -/
def handleReply (s : App D) (c : Nat) : Reply D → App D
  -- The session is dropped; after the login the dialog's callback sends the request again.
  | .unauthorized => { s with session := none }.showLoginModal (some c)
  | .failed message => s.settle c (.rejected message)
  -- `if (data) resolve(data)` has no other branch.
  | .falsy => s
  | .data d => s.settle c (.resolved d)

/-- `onSuccess`. -/
def loggedIn (s : App D) (owner : Option Nat) : App D :=
  owner.elim s s.tryRequest

/-- `onCancel`. -/
def cancelled (s : App D) (owner : Option Nat) : App D :=
  owner.elim s fun c => s.settle c (.rejected "cancelled")

def step (s : App D) : AppLabel D → Option (App D)
  | .call => some s.apiProtected
  | .reply i r =>
      s.requests[i]?.map fun c =>
        { s with requests := s.requests.eraseIdx i }.handleReply c r
  | .submit => s.dialog.map fun d => { s with logins := s.logins ++ [d] }
  | .loginReply i sid =>
      s.logins[i]?.map fun d =>
        let s := { s with logins := s.logins.eraseIdx i }
        match sid with
        -- The dialog stays and shows the error.
        | none => s
        | some sid =>
            -- `modal.remove()` does nothing to a dialog that has been removed before.
            { s with
              session := some sid
              dialog := if s.dialog = some d then none else s.dialog }.loggedIn d.owner
  | .cancel => s.dialog.map fun d => { s with dialog := none }.cancelled d.owner
  | .otherLogin => some (s.showLoginModal none)
  | .forget => some { s with session := none }

/-! ## Promises that wait -/

def Waits (s : App D) (c : Nat) : Prop :=
  s.calls[c]? = some none

instance (s : App D) (c : Nat) : Decidable (s.Waits c) :=
  match h : s.calls[c]? with
  | none => isFalse (by simp [Waits, h])
  | some (some _) => isFalse (by simp [Waits, h])
  | some none => isTrue h

/-- When nothing is open and nothing in flight, every promise has been settled. -/
def Settled (s : App D) : Prop :=
  s.dialog = none → s.requests = [] → s.logins = [] → ∀ x ∈ s.calls, x.isSome = true

instance (s : App D) : Decidable s.Settled :=
  if h : s.dialog = none ∧ s.requests = [] ∧ s.logins = [] then
    if hall : ∀ x ∈ s.calls, x.isSome = true then isTrue fun _ _ _ => hall
    else isFalse fun hs => hall (hs h.1 h.2.1 h.2.2)
  else isTrue fun hd hr hl => absurd ⟨hd, hr, hl⟩ h

/-- A dialog for `owner` replaces none that another waiting promise depends on. -/
def sparesDialog (s : App D) (owner : Option Nat) : Bool :=
  match s.dialog.bind Dialog.owner with
  | none => true
  | some c => owner = some c || !decide (s.Waits c)

/-- No step removes a dialog that a promise waits for, and the answer to a waiting call has a body that
counts as true. -/
def sparesDialogs (s : App D) : AppLabel D → Bool
  | .call => s.hasSession || s.sparesDialog none
  | .reply i .unauthorized => s.sparesDialog s.requests[i]?
  | .reply i .falsy => s.requests[i]?.all fun c => !decide (s.Waits c)
  | .otherLogin => s.sparesDialog none
  | _ => true

/-- Each waiting promise has a request in flight or the open dialog. -/
def Attended (s : App D) : Prop :=
  ∀ c, s.Waits c → c ∈ s.requests ∨ ∃ d, s.dialog = some d ∧ d.owner = some c

variable {s t : App D}

theorem Attended.settled (h : s.Attended) : s.Settled := by
  intro hdialog hrequests _ x hx
  obtain ⟨c, hc⟩ := List.getElem?_of_mem hx
  cases x with
  | some x => rfl
  | none =>
      rcases h c hc with hmem | ⟨d, hd, -⟩
      · rw [hrequests] at hmem
        exact absurd hmem List.not_mem_nil
      · rw [hdialog] at hd
        cases hd

/-! ## What the operations do to waiting promises -/

theorem waits_settle {c c' : Nat} {x : Settlement D} (h : (s.settle c x).Waits c') :
    s.Waits c' ∧ c' ≠ c := by
  unfold Waits settle at h
  rw [List.getElem?_modify] at h
  cases hold : s.calls[c']? with
  | none => simp [hold] at h
  | some old =>
      rw [hold] at h
      by_cases hc : c = c'
      · simp [hc] at h
      · have hnone : old = none := by
          simpa [hc] using h
        exact ⟨hold.trans (congrArg some hnone), fun heq => hc heq.symm⟩

/-- Settling the promise `c` leaves the others to their requests and dialogs. -/
theorem Attended.settle {c : Nat} {x : Settlement D}
    (h : ∀ c', s.Waits c' → c' ≠ c → c' ∈ s.requests ∨ ∃ d, s.dialog = some d ∧ d.owner = some c') :
    (s.settle c x).Attended := by
  intro c' hwaits
  obtain ⟨hbefore, hne⟩ := waits_settle hwaits
  exact h c' hbefore hne

/-- The new dialog attends to its own promise and takes nothing from the others. -/
theorem Attended.showLoginModal {owner : Option Nat}
    (h : ∀ c, s.Waits c → some c ≠ owner → c ∈ s.requests ∨ ∃ d, s.dialog = some d ∧ d.owner = some c)
    (hspares : s.sparesDialog owner = true) : (s.showLoginModal owner).Attended := by
  intro c hwaits
  by_cases howner : some c = owner
  · exact Or.inr ⟨_, rfl, howner.symm⟩
  · rcases h c hwaits howner with hmem | ⟨d, hd, hdowner⟩
    · exact Or.inl hmem
    · -- The old dialog belongs to `c`, which waits and is not `owner`.
      have hwaits' : s.Waits c := hwaits
      simp [sparesDialog, hd, hdowner, hwaits', Ne.symm howner] at hspares

theorem Attended.tryRequest {c : Nat}
    (h : ∀ c', s.Waits c' → c' ≠ c → c' ∈ s.requests ∨ ∃ d, s.dialog = some d ∧ d.owner = some c') :
    (s.tryRequest c).Attended := by
  intro c' hwaits
  by_cases hc : c' = c
  · exact Or.inl (hc ▸ List.mem_append_right _ List.mem_cons_self)
  · exact (h c' hwaits hc).imp (List.mem_append_left _) id

/-- A call adds one promise that waits. -/
theorem waits_of_append {c : Nat} (h : ({ s with calls := s.calls ++ [none] } : App D).Waits c) :
    s.Waits c ∨ c = s.calls.length := by
  have hlt : c < s.calls.length + 1 := by
    simpa using (List.getElem?_eq_some_iff.1 h).1
  rcases Nat.lt_or_eq_of_le (Nat.le_of_lt_succ hlt) with hlt | heq
  · exact Or.inl ((List.getElem?_append_left hlt).symm.trans h)
  · exact Or.inr heq

/-- A request that has been answered attended to its own call only. -/
theorem mem_eraseIdx_of_ne {requests : List Nat} {i c c' : Nat} (hi : requests[i]? = some c)
    (hmem : c' ∈ requests) (hne : c' ≠ c) : c' ∈ requests.eraseIdx i := by
  obtain ⟨j, hj⟩ := List.getElem?_of_mem hmem
  apply List.mem_eraseIdx_iff_getElem?.2
  refine ⟨j, fun heq => hne ?_, hj⟩
  subst heq
  exact Option.some.inj (hj.symm.trans hi)

/-! ## Steps and runs -/

theorem attended_call (h : s.Attended) (hspares : s.sparesDialogs .call = true) :
    s.apiProtected.Attended := by
  have hothers : ∀ c, ({ s with calls := s.calls ++ [none] } : App D).Waits c →
      c ≠ s.calls.length → c ∈ s.requests ∨ ∃ d, s.dialog = some d ∧ d.owner = some c := by
    intro c hwaits hne
    exact h c ((waits_of_append hwaits).resolve_right hne)
  unfold apiProtected
  dsimp only
  split
  · exact Attended.tryRequest hothers
  · rename_i hsession
    have hno : s.hasSession = false := Bool.eq_false_iff.2 hsession
    apply Attended.showLoginModal
    · intro c hwaits hne
      exact hothers c hwaits fun heq => hne (congrArg some heq)
    · -- The owner of the open dialog waits after the call only if it did before.
      have hbefore : s.sparesDialog none = true := by
        simpa [sparesDialogs, hno] using hspares
      unfold sparesDialog at hbefore ⊢
      split
      · rfl
      · rename_i c hc
        dsimp only at hc
        rw [hc] at hbefore
        by_cases heq : c = s.calls.length
        · simp [heq]
        · have hnot : ¬s.Waits c := by
            simpa using hbefore
          have hnot' : ¬({ s with calls := s.calls ++ [none] } : App D).Waits c := fun hwaits =>
            hnot ((waits_of_append hwaits).resolve_right heq)
          simp [hnot']

theorem attended_reply {i c : Nat} {r : Reply D} (h : s.Attended) (hi : s.requests[i]? = some c)
    (hspares : s.sparesDialogs (.reply i r) = true) :
    ({ s with requests := s.requests.eraseIdx i }.handleReply c r).Attended := by
  have hothers : ∀ c', s.Waits c' → c' ≠ c →
      c' ∈ s.requests.eraseIdx i ∨ ∃ d, s.dialog = some d ∧ d.owner = some c' := by
    intro c' hwaits hne
    exact (h c' hwaits).imp (fun hmem => mem_eraseIdx_of_ne hi hmem hne) id
  cases r with
  | unauthorized =>
      apply Attended.showLoginModal
      · intro c' hwaits hne
        exact hothers c' hwaits fun heq => hne (congrArg some heq)
      · have hspares' : s.sparesDialog s.requests[i]? = true := hspares
        rw [hi] at hspares'
        exact hspares'
  | failed message =>
      exact Attended.settle hothers
  | data d =>
      exact Attended.settle hothers
  | falsy =>
      -- Nobody waits for this answer.
      have hnot : ¬s.Waits c := by
        simpa [sparesDialogs, hi] using hspares
      intro c' hwaits
      exact hothers c' hwaits fun heq => hnot (heq ▸ hwaits)

theorem attended_loginReply {d : Dialog} {sid : String} {logins : List Dialog} (h : s.Attended) :
    ({ s with
        logins := logins
        session := some sid
        dialog := if s.dialog = some d then none else s.dialog }.loggedIn d.owner).Attended := by
  have hothers : ∀ c, s.Waits c → some c ≠ d.owner →
      c ∈ s.requests ∨
        ∃ d', (if s.dialog = some d then none else s.dialog) = some d' ∧ d'.owner = some c := by
    intro c hwaits hne
    rcases h c hwaits with hmem | ⟨d', hd', howner⟩
    · exact Or.inl hmem
    · -- The dialog that is removed is `d`, and `c` is not its call.
      have hother : s.dialog ≠ some d := by
        intro heq
        cases heq.symm.trans hd'
        exact hne howner.symm
      exact Or.inr ⟨d', (if_neg hother).trans hd', howner⟩
  unfold loggedIn
  cases howner : d.owner with
  | none =>
      intro c hwaits
      exact hothers c hwaits (by simp [howner])
  | some c =>
      apply Attended.tryRequest
      intro c' hwaits hne
      apply hothers c' hwaits
      rw [howner]
      exact fun heq => hne (Option.some.inj heq)

theorem attended_cancel {d : Dialog} (h : s.Attended) (hd : s.dialog = some d) :
    ({ s with dialog := none }.cancelled d.owner).Attended := by
  have hothers : ∀ c, s.Waits c → some c ≠ d.owner → c ∈ s.requests := by
    intro c hwaits hne
    rcases h c hwaits with hmem | ⟨d', hd', howner⟩
    · exact hmem
    · cases hd.symm.trans hd'
      exact absurd howner.symm hne
  unfold cancelled
  cases howner : d.owner with
  | none =>
      intro c hwaits
      exact Or.inl (hothers c hwaits (by simp [howner]))
  | some c =>
      apply Attended.settle
      intro c' hwaits hne
      apply Or.inl
      apply hothers c' hwaits
      rw [howner]
      exact fun heq => hne (Option.some.inj heq)

theorem step_attended (l : AppLabel D) (h : s.Attended) (hspares : s.sparesDialogs l = true)
    (hstep : s.step l = some t) : t.Attended := by
  cases l with
  | call =>
      cases hstep
      exact attended_call h hspares
  | reply i r =>
      obtain ⟨c, hi, rfl⟩ := Option.map_eq_some_iff.1 hstep
      exact attended_reply h hi hspares
  | submit =>
      obtain ⟨d, -, rfl⟩ := Option.map_eq_some_iff.1 hstep
      exact h
  | loginReply i sid =>
      obtain ⟨d, -, rfl⟩ := Option.map_eq_some_iff.1 hstep
      cases sid with
      | none => exact h
      | some sid => exact attended_loginReply h
  | cancel =>
      obtain ⟨d, hd, rfl⟩ := Option.map_eq_some_iff.1 hstep
      exact attended_cancel h hd
  | otherLogin =>
      cases hstep
      exact Attended.showLoginModal (fun c hwaits _ => h c hwaits) hspares
  | forget =>
      cases hstep
      exact h

end App

/-- Every promise is settled once nothing is open and nothing in flight, in every run in which no
dialog is removed that a promise waits for and answers to waiting calls have a body that counts as
true. -/
theorem protected_calls_settle {t : App D}
    (h : Within App.step (fun s l => s.sparesDialogs l = true) {} t) : t.Settled := by
  have hstart : ({} : App D).Attended := by
    intro c hc
    cases hc
  exact (h.invariant (fun s l t hs hok hstep => App.step_attended l hs hok hstep) hstart).settled

/-- Two calls in turn, the first after a login. -/
theorem protected_calls_settle_two :
    ∃ t : App Nat, t.calls = [some (.resolved 7), some (.rejected "cancelled")] ∧ t.Settled := by
  let labels : List (AppLabel Nat) :=
    [.call, .submit, .loginReply 0 (some "s1"), .reply 0 (.data 7), .call, .reply 0 .unauthorized,
      .cancel]
  have hmeets : runMeets App.step App.sparesDialogs {} labels = true := by decide
  have hrun : (run App.step {} labels).any (fun t =>
      decide (t.calls = [some (.resolved 7), some (.rejected "cancelled")])) = true := by decide
  obtain ⟨t, hwithin, htest⟩ := exists_within_of_run hmeets hrun
  exact ⟨t, of_decide_eq_true htest, protected_calls_settle hwithin⟩

/-- Two calls with an expired session are both answered 401; the dialog of the second removes that of
the first, and the first promise is never settled. -/
theorem replaced_dialog_loses_call : ¬∀ t : App Nat, Reach App.step {} t → t.Settled := by
  intro h
  let labels : List (AppLabel Nat) :=
    [.otherLogin, .submit, .loginReply 0 (some "s1"), .call, .call, .reply 0 .unauthorized,
      .reply 0 .unauthorized, .cancel]
  have hrun : (run App.step {} labels).any (fun t => !decide t.Settled) = true := by decide
  obtain ⟨t, hreach, htest⟩ := exists_reach_of_run hrun
  have hnot : ¬t.Settled := by
    simpa using htest
  exact hnot (h t hreach)

end Web
end Pgaio
