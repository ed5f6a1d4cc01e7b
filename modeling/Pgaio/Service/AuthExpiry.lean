import Pgaio.Service.Auth
import Mathlib.Data.List.Induction

/-!
# AuthExpiry — sessions expire a fixed time after their last use

The map of sessions is compared with the history of the calls.  `MatchesHistory` is the invariant
for one session ID: what is stored for it is the latest activity plus `sessionTTL`, and what has been
deleted had expired.  It survives both places where entries are deleted, the validation of an expired
session and the clean-up that every login performs on all sessions.
-/

namespace Pgaio
namespace Service

open Go

/-- A session ID is never empty. -/
theorem hexEncode_ne_empty (bytes : Vector UInt8 32) : hexEncode bytes.toList ≠ "" := by
  intro hempty
  have hlength : (hexEncode bytes.toList).toList.length = 0 := by rw [hempty]; rfl
  rw [hexEncode, String.toList_ofList, List.length_flatMap] at hlength
  simp at hlength

namespace PasswordAuth

/-! ## The clean-up -/

theorem lookup_deleteExpired (now : Time) (m : AList fun _ : String => Time) (key id : String) :
    (deleteExpired now m key).lookup id =
      if id = key then (m.lookup id).filter fun expiry => !now.after expiry else m.lookup id := by
  unfold deleteExpired
  by_cases hid : id = key
  · subst hid
    cases hlookup : m.lookup id with
    | none => simp [hlookup]
    | some expiry =>
        by_cases hexpired : now.after expiry = true
        · simp [hexpired, AList.lookup_erase, Option.filter]
        · simp [hexpired, hlookup, Option.filter]
  · cases m.lookup key with
    | none => simp [hid]
    | some expiry =>
        by_cases hexpired : now.after expiry = true
        · simp [hexpired, hid, AList.lookup_erase_ne hid]
        · simp [hexpired, hid]

/-- What is left of an entry after some rounds of the clean-up. -/
theorem lookup_foldl_deleteExpired (now : Time) (keys : List String)
    (m : AList fun _ : String => Time) (id : String) :
    (keys.foldl (deleteExpired now) m).lookup id =
      if id ∈ keys then (m.lookup id).filter fun expiry => !now.after expiry
      else m.lookup id := by
  induction keys generalizing m with
  | nil => simp
  | cons key keys ih =>
      rw [List.foldl_cons, ih, lookup_deleteExpired]
      by_cases hid : id = key
      · -- A second round for the same key finds nothing more to delete.
        simp [hid, Option.filter_filter]
      · simp [hid]

theorem lookup_cleanup (now : Time) (m : AList fun _ : String => Time) (id : String) :
    (m.keys.foldl (deleteExpired now) m).lookup id =
      (m.lookup id).filter fun expiry => !now.after expiry := by
  rw [lookup_foldl_deleteExpired]
  split
  · rfl
  · rename_i hid
    rw [AList.lookup_eq_none.2 hid]
    rfl

/-! ## What a call can do -/

theorem login_cases (a : PasswordAuth) (password : String) (b : Option (Vector UInt8 32))
    (now later : Time) :
    (∃ result, (∀ id, result ≠ .session id) ∧ a.login password b now later = (result, a)) ∨
    ∃ bytes : Vector UInt8 32,
      let sessions := a.sessions.insert (hexEncode bytes.toList) (now + sessionTTL)
      a.login password b now later = (.session (hexEncode bytes.toList),
        { a with sessions := sessions.keys.foldl (deleteExpired later) sessions }) := by
  unfold login
  split
  · exact Or.inl ⟨_, by simp, rfl⟩
  · cases b with
    | none => exact Or.inl ⟨_, by simp, rfl⟩
    | some bytes => exact Or.inr ⟨bytes, rfl⟩

theorem validateSession_cases (a : PasswordAuth) (sessionID : String) (now later : Time) :
    ((sessionID = "" ∨ a.sessions.lookup sessionID = none) ∧
      a.validateSession sessionID now later = (false, a)) ∨
    (∃ expiry, a.sessions.lookup sessionID = some expiry ∧ expiry < now ∧
      a.validateSession sessionID now later =
        (false, { a with sessions := a.sessions.erase sessionID })) ∨
    ∃ expiry, sessionID ≠ "" ∧ a.sessions.lookup sessionID = some expiry ∧ now ≤ expiry ∧
      a.validateSession sessionID now later =
        (true, { a with sessions := a.sessions.insert sessionID (later + sessionTTL) }) := by
  unfold validateSession
  split
  · rename_i hempty
    exact Or.inl ⟨Or.inl hempty, rfl⟩
  · rename_i hempty
    cases hlookup : a.sessions.lookup sessionID with
    | none => exact Or.inl ⟨Or.inr rfl, rfl⟩
    | some expiry =>
        by_cases hexpired : now.after expiry = true
        · have hlt : expiry < now := by simpa [Time.after] using hexpired
          exact Or.inr (Or.inl ⟨expiry, rfl, hlt, if_pos hexpired⟩)
        · have hle : now ≤ expiry := by simpa [Time.after] using hexpired
          exact Or.inr (Or.inr ⟨expiry, hempty, rfl, hle, if_neg hexpired⟩)

end PasswordAuth

namespace AuthCall

/-- The last reading of the clock. -/
def ended : AuthCall → Time
  | .login _ _ _ later => later
  | .validateSession _ _ later => later
  | .checkSession _ now => now

theorem le_ended {call : AuthCall} {t : Time} (hordered : call.readings.Pairwise (· ≤ ·))
    (ht : t ∈ call.readings) : t ≤ call.ended := by
  cases call with
  | login password b now later =>
      have hle : now ≤ later := by simpa [readings] using hordered
      rcases List.mem_pair.1 ht with rfl | rfl
      · exact hle
      · exact Int.le_refl _
  | validateSession sessionID now later =>
      have hle : now ≤ later := by simpa [readings] using hordered
      rcases List.mem_pair.1 ht with rfl | rfl
      · exact hle
      · exact Int.le_refl _
  | checkSession sessionID now =>
      rcases List.mem_singleton.1 ht with rfl
      exact Int.le_refl _

theorem ended_mem (call : AuthCall) : call.ended ∈ call.readings := by
  cases call <;> simp [ended, readings]

theorem readings_eq_cons (call : AuthCall) :
    ∃ first others, call.readings = first :: others := by
  cases call <;> exact ⟨_, _, rfl⟩

/-- The entry that a call would leave if nothing expired. -/
def expected (a : PasswordAuth) (call : AuthCall) (id : String) : Option Time :=
  ((AuthHistory.activeAt id (call, (call.exec a).1)).map (· + sessionTTL)).or (a.sessions.lookup id)

/-- An entry is what is expected, or it had expired by the end of the call. -/
def Leaves (call : AuthCall) (expected left : Option Time) : Prop :=
  left = expected ∨ left = none ∧ ∃ expiry, expected = some expiry ∧ expiry < call.ended

theorem leaves_filter {call : AuthCall} {expected : Option Time} :
    call.Leaves expected (expected.filter fun expiry => !call.ended.after expiry) := by
  cases expected with
  | none => exact Or.inl rfl
  | some expiry =>
      by_cases hexpired : call.ended.after expiry = true
      · refine Or.inr ⟨?_, expiry, rfl, ?_⟩
        · simp [Option.filter, hexpired]
        · simpa [Time.after] using hexpired
      · exact Or.inl (by simp [Option.filter, hexpired])

theorem leaves_login (a : PasswordAuth) (password : String) (b : Option (Vector UInt8 32))
    (now later : Time) (id : String) :
    let call := AuthCall.login password b now later
    call.Leaves (call.expected a id) ((call.exec a).2.sessions.lookup id) := by
  intro call
  rcases a.login_cases password b now later with ⟨result, hresult, hlogin⟩ | ⟨bytes, hlogin⟩
  · refine Or.inl ?_
    cases result with
    | session sessionID => exact absurd rfl (hresult sessionID)
    | refused error => simp [call, exec, expected, hlogin, AuthHistory.activeAt]
    | panicked => simp [call, exec, expected, hlogin, AuthHistory.activeAt]
  · -- The clean-up runs over the map that holds the new session already.
    have hexpected : call.expected a id =
        (a.sessions.insert (hexEncode bytes.toList) (now + sessionTTL)).lookup id := by
      by_cases hid : hexEncode bytes.toList = id
      · simp [call, exec, expected, hlogin, AuthHistory.activeAt, hid]
      · simp [call, exec, expected, hlogin, AuthHistory.activeAt, hid,
          AList.lookup_insert_ne (Ne.symm hid)]
    have hleft : (call.exec a).2.sessions.lookup id =
        (call.expected a id).filter fun expiry => !call.ended.after expiry := by
      rw [hexpected, ← PasswordAuth.lookup_cleanup]
      simp [call, exec, hlogin, ended]
    exact hleft ▸ leaves_filter

theorem leaves_validateSession (a : PasswordAuth) (sessionID : String) {now later : Time}
    (hle : now ≤ later) (id : String) :
    let call := AuthCall.validateSession sessionID now later
    call.Leaves (call.expected a id) ((call.exec a).2.sessions.lookup id) := by
  intro call
  rcases a.validateSession_cases sessionID now later with
    ⟨_, hvalid⟩ | ⟨expiry, hlookup, hlt, hvalid⟩ | ⟨expiry, _, hlookup, _, hvalid⟩
  · exact Or.inl (by simp [call, exec, expected, hvalid, AuthHistory.activeAt])
  · by_cases hid : id = sessionID
    · -- The one entry that a validation deletes had expired at its first reading.
      subst hid
      refine Or.inr ⟨?_, expiry, ?_, Int.lt_of_lt_of_le hlt hle⟩
      · simp [call, exec, hvalid]
      · simp [call, exec, expected, hvalid, AuthHistory.activeAt, hlookup]
    · exact Or.inl (by simp [call, exec, expected, hvalid, AuthHistory.activeAt,
        AList.lookup_erase_ne hid])
  · by_cases hid : id = sessionID
    · subst hid
      exact Or.inl (by simp [call, exec, expected, hvalid, AuthHistory.activeAt])
    · exact Or.inl (by simp [call, exec, expected, hvalid, AuthHistory.activeAt, Ne.symm hid,
        AList.lookup_insert_ne hid])

/-- What a call leaves of one entry. -/
theorem leaves_exec (a : PasswordAuth) {call : AuthCall}
    (hordered : call.readings.Pairwise (· ≤ ·)) (id : String) :
    call.Leaves (call.expected a id) ((call.exec a).2.sessions.lookup id) := by
  cases call with
  | login password b now later => exact leaves_login a password b now later id
  | validateSession sessionID now later =>
      exact leaves_validateSession a sessionID (by simpa [readings] using hordered) id
  | checkSession sessionID now => exact Or.inl rfl

/-- A call that stores a session either returns it from a login or finds it stored. -/
theorem known_exec {a : PasswordAuth} {call : AuthCall} {id : String}
    (h : (call.exec a).2.sessions.lookup id ≠ none) :
    (call.exec a).1 = .login (.session id) ∨ a.sessions.lookup id ≠ none := by
  cases call with
  | login password b now later =>
      rcases a.login_cases password b now later with ⟨result, _, hlogin⟩ | ⟨bytes, hlogin⟩
      · exact Or.inr (by simpa [exec, hlogin] using h)
      · by_cases hid : id = hexEncode bytes.toList
        · exact Or.inl (by simp [exec, hlogin, hid])
        · -- The clean-up stores nothing.
          refine Or.inr fun hnone => h ?_
          simp only [exec, hlogin, PasswordAuth.lookup_cleanup, AList.lookup_insert_ne hid, hnone]
          rfl
  | validateSession sessionID now later =>
      refine Or.inr fun hnone => h ?_
      rcases a.validateSession_cases sessionID now later with
        ⟨_, hvalid⟩ | ⟨expiry, _, _, hvalid⟩ | ⟨expiry, _, hlookup, _, hvalid⟩
      · simpa [exec, hvalid] using hnone
      · by_cases hid : id = sessionID
        · subst hid
          simp [exec, hvalid]
        · simpa [exec, hvalid, AList.lookup_erase_ne hid] using hnone
      · -- A validation extends an entry that it has found.
        have hid : id ≠ sessionID := by
          rintro rfl
          cases hlookup.symm.trans hnone
        simpa [exec, hvalid, AList.lookup_insert_ne hid] using hnone
  | checkSession sessionID now => exact Or.inr h

theorem sessionID_ne_empty {a : PasswordAuth} {call : AuthCall} {id : String}
    (h : (call.exec a).1 = .login (.session id)) : id ≠ "" := by
  cases call with
  | login password b now later =>
      rcases a.login_cases password b now later with ⟨result, hresult, hlogin⟩ | ⟨bytes, hlogin⟩
      · have hsession : result = .session id := by simpa [exec, hlogin] using h
        exact absurd hsession (hresult id)
      · have hid : hexEncode bytes.toList = id := by simpa [exec, hlogin] using h
        exact hid ▸ hexEncode_ne_empty bytes
  | validateSession sessionID now later => cases h
  | checkSession sessionID now => cases h

theorem activeAt_mem {call : AuthCall} {answer : AuthAnswer} {id : String} {t : Time}
    (h : AuthHistory.activeAt id (call, answer) = some t) : t ∈ call.readings := by
  unfold AuthHistory.activeAt at h
  split at h
  · have ht := (Option.ite_none_right_eq_some.1 h).2
    simp_all [readings]
  · have ht := (Option.ite_none_right_eq_some.1 h).2
    simp_all [readings]
  · cases h

end AuthCall

/-! ## The invariant -/

namespace PasswordAuth

theorem after_append (a : PasswordAuth) (calls more : List AuthCall) :
    a.after (calls ++ more) = (a.after calls).after more :=
  List.foldl_append

theorem after_cons (a : PasswordAuth) (call : AuthCall) (calls : List AuthCall) :
    a.after (call :: calls) = (call.exec a).2.after calls := rfl

theorem history_append (a : PasswordAuth) (calls more : List AuthCall) :
    a.history (calls ++ more) = a.history calls ++ (a.after calls).history more := by
  induction calls generalizing a with
  | nil => rfl
  | cons call calls ih =>
      rw [List.cons_append, history, history, ih, List.cons_append, after_cons]

end PasswordAuth

theorem AuthHistory.activeTimes_concat (h : AuthHistory) (entry : AuthCall × AuthAnswer)
    (id : String) :
    AuthHistory.activeTimes (h ++ [entry]) id =
      h.activeTimes id ++ (AuthHistory.activeAt id entry).toList := by
  unfold activeTimes
  rw [List.filterMap_append]
  cases hactive : activeAt id entry with
  | none => simp [hactive]
  | some t => simp [hactive]

/-- How what is stored under an ID is related to the history, at a time `clock`. -/
structure MatchesHistory (h : AuthHistory) (clock : Time) (a : PasswordAuth) (id : String) :
    Prop where
  past : ∀ t ∈ h.activeTimes id, t ≤ clock
  stored : ∀ expiry, a.sessions.lookup id = some expiry →
    ∃ last, IsLatest last (h.activeTimes id) ∧ expiry = last + sessionTTL
  gone : a.sessions.lookup id = none → ∀ t ∈ h.activeTimes id, t + sessionTTL < clock
  known : a.sessions.lookup id ≠ none → h.LoggedIn id

namespace MatchesHistory

variable {h : AuthHistory} {clock clock' : Time} {a : PasswordAuth} {id : String}

theorem new (password : String) : MatchesHistory [] clock (newPasswordAuth password) id where
  past := by simp [AuthHistory.activeTimes]
  stored := by simp [newPasswordAuth]
  gone := by simp [AuthHistory.activeTimes]
  known := by simp [newPasswordAuth]

theorem later (hmatches : MatchesHistory h clock a id) (hle : clock ≤ clock') :
    MatchesHistory h clock' a id where
  past := fun t ht => Int.le_trans (hmatches.past t ht) hle
  stored := hmatches.stored
  gone := fun hnone t ht => Int.lt_of_lt_of_le (hmatches.gone hnone t ht) hle
  known := hmatches.known

/-- A call in which the session is used. -/
theorem exec_active (hmatches : MatchesHistory h clock a id) {call : AuthCall} {t : Time}
    (hclock : ∀ t ∈ call.readings, clock ≤ t) (hordered : call.readings.Pairwise (· ≤ ·))
    (hactive : AuthHistory.activeAt id (call, (call.exec a).1) = some t)
    (hknown : (call.exec a).2.sessions.lookup id ≠ none →
      AuthHistory.LoggedIn (h ++ [(call, (call.exec a).1)]) id) :
    MatchesHistory (h ++ [(call, (call.exec a).1)]) call.ended (call.exec a).2 id := by
  have hmem := AuthCall.activeAt_mem hactive
  have htimes : AuthHistory.activeTimes (h ++ [(call, (call.exec a).1)]) id =
      h.activeTimes id ++ [t] := by
    rw [AuthHistory.activeTimes_concat, hactive]
    rfl
  have hlatest : IsLatest t (h.activeTimes id ++ [t]) := by
    refine ⟨by simp, fun t' ht' => ?_⟩
    rcases List.mem_append.1 ht' with hold | hnew
    · calc t' ≤ clock := hmatches.past t' hold
        _ ≤ t := hclock t hmem
    · exact Int.le_of_eq (List.mem_singleton.1 hnew)
  have hexpected : call.expected a id = some (t + sessionTTL) := by
    simp [AuthCall.expected, hactive]
  have hleaves := AuthCall.leaves_exec a hordered id
  rw [hexpected] at hleaves
  constructor
  · intro t' ht'
    rw [htimes] at ht'
    calc t' ≤ t := hlatest.2 t' ht'
      _ ≤ call.ended := AuthCall.le_ended hordered hmem
  · intro expiry hexpiry
    rcases hleaves with hkept | ⟨hdeleted, _⟩
    · rw [htimes]
      exact ⟨t, hlatest, Option.some.inj (hexpiry.symm.trans hkept)⟩
    · cases hexpiry.symm.trans hdeleted
  · intro hnone t' ht'
    rw [htimes] at ht'
    rcases hleaves with hkept | ⟨_, expiry, hexpiry, hlt⟩
    · cases hnone.symm.trans hkept
    · -- The call itself has deleted the entry, so even its latest time is too long ago.
      cases hexpiry
      calc t' + sessionTTL ≤ t + sessionTTL := Int.add_le_add_right (hlatest.2 t' ht') _
        _ < call.ended := hlt
  · exact hknown

/-- A call in which the session is not used. -/
theorem exec_idle (hmatches : MatchesHistory h clock a id) {call : AuthCall}
    (hclock : ∀ t ∈ call.readings, clock ≤ t) (hordered : call.readings.Pairwise (· ≤ ·))
    (hidle : AuthHistory.activeAt id (call, (call.exec a).1) = none)
    (hknown : (call.exec a).2.sessions.lookup id ≠ none →
      AuthHistory.LoggedIn (h ++ [(call, (call.exec a).1)]) id) :
    MatchesHistory (h ++ [(call, (call.exec a).1)]) call.ended (call.exec a).2 id := by
  have htimes : AuthHistory.activeTimes (h ++ [(call, (call.exec a).1)]) id =
      h.activeTimes id := by
    rw [AuthHistory.activeTimes_concat, hidle]
    exact List.append_nil _
  have hexpected : call.expected a id = a.sessions.lookup id := by
    simp [AuthCall.expected, hidle]
  have hended : clock ≤ call.ended := hclock _ call.ended_mem
  have hleaves := AuthCall.leaves_exec a hordered id
  rw [hexpected] at hleaves
  constructor
  · intro t ht
    rw [htimes] at ht
    calc t ≤ clock := hmatches.past t ht
      _ ≤ call.ended := hended
  · intro expiry hexpiry
    rw [htimes]
    rcases hleaves with hkept | ⟨hdeleted, _⟩
    · exact hmatches.stored expiry (hkept.symm.trans hexpiry)
    · cases hexpiry.symm.trans hdeleted
  · intro hnone t ht
    rw [htimes] at ht
    rcases hleaves with hkept | ⟨_, expiry, hexpiry, hlt⟩
    · -- The entry was gone before the call.
      calc t + sessionTTL < clock := hmatches.gone (hkept.symm.trans hnone) t ht
        _ ≤ call.ended := hended
    · -- The call has deleted the entry.
      rcases hmatches.stored expiry hexpiry with ⟨last, hlast, rfl⟩
      calc t + sessionTTL ≤ last + sessionTTL := Int.add_le_add_right (hlast.2 t ht) _
        _ < call.ended := hlt
  · exact hknown

theorem exec (hmatches : MatchesHistory h clock a id) {call : AuthCall}
    (hclock : ∀ t ∈ call.readings, clock ≤ t) (hordered : call.readings.Pairwise (· ≤ ·)) :
    MatchesHistory (h ++ [(call, (call.exec a).1)]) call.ended (call.exec a).2 id := by
  have hknown : (call.exec a).2.sessions.lookup id ≠ none →
      AuthHistory.LoggedIn (h ++ [(call, (call.exec a).1)]) id := by
    intro hstored
    rcases AuthCall.known_exec hstored with hlogin | hbefore
    · exact ⟨call, by simp [hlogin]⟩
    · rcases hmatches.known hbefore with ⟨login, hmem⟩
      exact ⟨login, List.mem_append_left _ hmem⟩
  cases hactive : AuthHistory.activeAt id (call, (call.exec a).1) with
  | some t => exact hmatches.exec_active hclock hordered hactive hknown
  | none => exact hmatches.exec_idle hclock hordered hactive hknown

end MatchesHistory

/-- The invariant holds after any sequence of calls at times that do not go back. -/
theorem matches_after (password : String) {calls : List AuthCall} {clock : Time}
    (htimely : (calls.flatMap AuthCall.readings ++ [clock]).Pairwise (· ≤ ·)) (id : String) :
    MatchesHistory ((newPasswordAuth password).history calls) clock
      ((newPasswordAuth password).after calls) id := by
  -- The induction is on the last call: the invariant holds when it begins and is carried to its end.
  induction calls using List.reverseRecOn generalizing clock with
  | nil => exact MatchesHistory.new password
  | append_singleton calls call ih =>
      rw [List.flatMap_append, List.append_assoc] at htimely
      simp only [List.flatMap_singleton] at htimely
      rcases List.pairwise_append.1 htimely with ⟨hbefore, hrest, hcross⟩
      rcases List.pairwise_append.1 hrest with ⟨hordered, _, hclock⟩
      rcases call.readings_eq_cons with ⟨first, others, hreadings⟩
      have hfirst : MatchesHistory ((newPasswordAuth password).history calls) first
          ((newPasswordAuth password).after calls) id := by
        refine ih (List.pairwise_append.2 ⟨hbefore, List.pairwise_singleton _ _, ?_⟩)
        intro t ht t' ht'
        exact hcross t ht t' (by simp_all)
      have hfrom : ∀ t ∈ call.readings, first ≤ t := by
        intro t ht
        rw [hreadings] at ht hordered
        rcases List.mem_cons.1 ht with rfl | hother
        · exact Int.le_refl _
        · exact (List.pairwise_cons.1 hordered).1 t hother
      have hcall := hfirst.exec hfrom hordered
      rw [PasswordAuth.history_append, PasswordAuth.after_append]
      exact hcall.later (hclock _ call.ended_mem clock (List.mem_singleton.2 rfl))

/-! ## Sliding expiry -/

/-- What a sequence of calls to a new service shows of its sessions. -/
structure SlidingExpiry (password : String) (calls : List AuthCall) : Prop where
  /-- A session is valid up to `sessionTTL` after its login or its latest successful validation. -/
  valid_iff : ∀ before sessionID now later rest,
    calls = before ++ .validateSession sessionID now later :: rest →
      ((((newPasswordAuth password).after before).validateSession sessionID now later).1 = true ↔
        ((newPasswordAuth password).history before).LoggedIn sessionID ∧
          ∃ last,
            IsLatest last (((newPasswordAuth password).history before).activeTimes sessionID) ∧
              now ≤ last + sessionTTL)
  /-- A session that was rejected once is rejected for ever. -/
  rejected_forever : ∀ before sessionID now later between now' later' rest,
    calls = before ++ .validateSession sessionID now later ::
        (between ++ .validateSession sessionID now' later' :: rest) →
      (((newPasswordAuth password).after before).validateSession sessionID now later).1 = false →
        (((newPasswordAuth password).after
            (before ++ .validateSession sessionID now later :: between)).validateSession
              sessionID now' later').1 = false
  /-- A check extends nothing: without it, all calls after it go as they did. -/
  check_keeps : ∀ before sessionID now rest, calls = before ++ .checkSession sessionID now :: rest →
    (newPasswordAuth password).after calls = (newPasswordAuth password).after (before ++ rest)
  /-- The clean-up of a login keeps every session that has not expired. -/
  cleanup_keeps : ∀ before pw b now later rest sessionID last,
    calls = before ++ .login pw b now later :: rest →
      IsLatest last (((newPasswordAuth password).history before).activeTimes sessionID) →
        later ≤ last + sessionTTL →
          (((newPasswordAuth password).after before).login pw b now later).2.sessions.lookup
            sessionID = some (last + sessionTTL)

theorem IsLatest.unique {last last' : Time} {times : List Time} (h : IsLatest last times)
    (h' : IsLatest last' times) : last = last' :=
  Int.le_antisymm (h'.2 last h.1) (h.2 last' h'.1)

section Run

variable {password : String} {before rest : List AuthCall} {call : AuthCall} {id : String}

/-- The invariant holds when a call begins. -/
theorem matches_before (password id : String) {first : Time} {others : List Time}
    (htimely : Timely (before ++ call :: rest)) (hreadings : call.readings = first :: others) :
    MatchesHistory ((newPasswordAuth password).history before) first
      ((newPasswordAuth password).after before) id := by
  refine matches_after password ?_ id
  rw [Timely, List.flatMap_append, List.flatMap_cons, hreadings, List.cons_append] at htimely
  refine htimely.sublist (List.Sublist.append_left ?_ _)
  exact (List.nil_sublist _).cons_cons first

/-- A session that was returned by a login has an ID. -/
theorem loggedIn_ne_empty {a : PasswordAuth} {calls : List AuthCall}
    (h : (a.history calls).LoggedIn id) : id ≠ "" := by
  rcases h with ⟨call, hmem⟩
  induction calls generalizing a with
  | nil => cases hmem
  | cons head calls ih =>
      rcases List.mem_cons.1 hmem with heq | htail
      · have hanswer := congrArg Prod.snd heq
        exact AuthCall.sessionID_ne_empty hanswer.symm
      · exact ih htail

theorem validateSession_iff {now later : Time}
    (htimely : Timely (before ++ .validateSession id now later :: rest)) :
    (((newPasswordAuth password).after before).validateSession id now later).1 = true ↔
      ((newPasswordAuth password).history before).LoggedIn id ∧
        ∃ last, IsLatest last (((newPasswordAuth password).history before).activeTimes id) ∧
          now ≤ last + sessionTTL := by
  have hmatches := matches_before password id htimely rfl
  rcases ((newPasswordAuth password).after before).validateSession_cases id now later with
    ⟨hmissing, hvalid⟩ | ⟨expiry, hlookup, hlt, hvalid⟩ | ⟨expiry, _, hlookup, hle, hvalid⟩
  · -- Nothing is stored: the ID was never returned, or all its times are too long ago.
    refine iff_of_false (by simp [hvalid]) ?_
    rintro ⟨hlogin, last, hlast, hle⟩
    rcases hmissing with hempty | hnone
    · exact loggedIn_ne_empty hlogin hempty
    · exact absurd hle (Int.not_le.2 (hmatches.gone hnone last hlast.1))
  · -- The stored expiry has passed.
    refine iff_of_false (by simp [hvalid]) ?_
    rintro ⟨_, last, hlast, hle⟩
    rcases hmatches.stored expiry hlookup with ⟨last', hlast', rfl⟩
    rw [hlast.unique hlast'] at hle
    exact absurd hle (Int.not_le.2 hlt)
  · refine iff_of_true (by simp [hvalid]) ⟨hmatches.known (by simp [hlookup]), ?_⟩
    rcases hmatches.stored expiry hlookup with ⟨last, hlast, rfl⟩
    exact ⟨last, hlast, hle⟩

/-- An ID that is not stored stays so until a login returns it. -/
theorem lookup_after_none {a : PasswordAuth} {calls : List AuthCall}
    (hnone : a.sessions.lookup id = none)
    (hlogin : ∀ before call rest, calls = before ++ call :: rest →
      (call.exec (a.after before)).1 ≠ .login (.session id)) :
    (a.after calls).sessions.lookup id = none := by
  induction calls using List.reverseRecOn with
  | nil => exact hnone
  | append_singleton calls call ih =>
      have hbefore : (a.after calls).sessions.lookup id = none := by
        refine ih fun before call' rest hsplit => hlogin before call' (rest ++ [call]) ?_
        rw [hsplit, List.append_assoc, List.cons_append]
      rw [PasswordAuth.after_append]
      by_contra hstored
      have hknown : (call.exec (a.after calls)).1 = .login (.session id) ∨
          (a.after calls).sessions.lookup id ≠ none := AuthCall.known_exec hstored
      rcases hknown with hsession | hsome
      · exact hlogin calls call [] rfl hsession
      · exact hsome hbefore

/-- A rejected session is not stored, and an empty ID never is valid. -/
theorem rejected_cases {a : PasswordAuth} {now later : Time}
    (h : (a.validateSession id now later).1 = false) :
    id = "" ∨ (a.validateSession id now later).2.sessions.lookup id = none := by
  rcases a.validateSession_cases id now later with
    ⟨hempty | hnone, hvalid⟩ | ⟨expiry, _, _, hvalid⟩ | ⟨expiry, _, _, _, hvalid⟩
  · exact Or.inl hempty
  · exact Or.inr (by simpa [hvalid] using hnone)
  · exact Or.inr (by simp [hvalid])
  · simp [hvalid] at h

theorem rejected_of_missing {a : PasswordAuth} {now later : Time}
    (h : id = "" ∨ a.sessions.lookup id = none) : (a.validateSession id now later).1 = false := by
  rcases a.validateSession_cases id now later with
    ⟨_, hvalid⟩ | ⟨expiry, _, _, hvalid⟩ | ⟨expiry, hid, hlookup, _, hvalid⟩
  · simp [hvalid]
  · simp [hvalid]
  · rcases h with hempty | hnone
    · exact absurd hempty hid
    · cases hlookup.symm.trans hnone

/-- An entry that is stored and not expired is kept by a login of another session. -/
theorem lookup_login {a : PasswordAuth} {pw : String} {b : Option (Vector UInt8 32)}
    {now later expiry : Time} (hother : (a.login pw b now later).1 ≠ .session id)
    (hlookup : a.sessions.lookup id = some expiry) (hle : later ≤ expiry) :
    (a.login pw b now later).2.sessions.lookup id = some expiry := by
  let call := AuthCall.login pw b now later
  have hidle : AuthHistory.activeAt id (call, (call.exec a).1) = none := by
    cases hresult : (a.login pw b now later).1 with
    | session sessionID =>
        have hne : sessionID ≠ id := fun heq => hother (heq ▸ hresult)
        simp [call, AuthCall.exec, hresult, AuthHistory.activeAt, hne]
    | refused error => simp [call, AuthCall.exec, hresult, AuthHistory.activeAt]
    | panicked => simp [call, AuthCall.exec, hresult, AuthHistory.activeAt]
  have hexpected : call.expected a id = some expiry := by
    simpa [AuthCall.expected, hidle] using hlookup
  rcases AuthCall.leaves_login a pw b now later id with hkept | ⟨_, expiry', hexpiry', hlt⟩
  · exact hkept.trans hexpected
  · cases hexpected.symm.trans hexpiry'
    exact absurd hle (Int.not_le.2 hlt)

/-- A session ID that a caller passed before is returned by no login afterwards. -/
theorem not_session_of_passed {calls later : List AuthCall} {other : AuthCall}
    (hfresh : FreshIDs (newPasswordAuth password) (before ++ call :: (calls ++ other :: later)))
    (hpassed : call.sessionID? = some id) :
    (other.exec (((newPasswordAuth password).after (before ++ call :: calls)))).1 ≠
      .login (.session id) := by
  intro hsession
  refine hfresh (before ++ call :: calls) later other id (by simp) hsession (Or.inr ?_)
  refine ⟨(call, (call.exec ((newPasswordAuth password).after before)).1), ?_, hpassed⟩
  rw [PasswordAuth.history_append]
  exact List.mem_append_right _ (List.mem_cons_self)

end Run

/-- Session validity is sliding expiry, for every sequence of calls at times that do not go back and
with fresh session IDs. -/
theorem sliding_expiry (password : String) {calls : List AuthCall} (htimely : Timely calls)
    (hfresh : FreshIDs (newPasswordAuth password) calls) : SlidingExpiry password calls where
  valid_iff := by
    intro before id now later rest hcalls
    exact validateSession_iff (hcalls ▸ htimely)
  rejected_forever := by
    intro before id now later between now' later' rest hcalls hrejected
    subst hcalls
    refine rejected_of_missing ?_
    rcases rejected_cases hrejected with hempty | hnone
    · exact Or.inl hempty
    · -- The entry is gone, and no login in between returns this ID again.
      refine Or.inr ?_
      rw [PasswordAuth.after_append, PasswordAuth.after_cons]
      refine lookup_after_none hnone fun mid call rest' hbetween => ?_
      subst hbetween
      rw [List.append_assoc, List.cons_append] at hfresh
      have hother := not_session_of_passed hfresh rfl
      rwa [PasswordAuth.after_append, PasswordAuth.after_cons] at hother
  check_keeps := by
    intro before id now rest hcalls
    rw [hcalls, PasswordAuth.after_append, PasswordAuth.after_append, PasswordAuth.after_cons]
    rfl
  cleanup_keeps := by
    intro before pw b now later rest id last hcalls hlast hlive
    subst hcalls
    have hmatches := matches_before password id htimely rfl
    have hordered : now ≤ later := by
      rw [Timely, List.flatMap_append, List.flatMap_cons] at htimely
      have hreadings := (List.pairwise_append.1 (List.pairwise_append.1 htimely).2.1).1
      simpa [AuthCall.readings] using hreadings
    cases hlookup : ((newPasswordAuth password).after before).sessions.lookup id with
    | none =>
        -- A session that is alive at the second reading was stored at the first one.
        have hlt := hmatches.gone hlookup last hlast.1
        exact absurd (Int.le_trans hordered hlive) (Int.not_le.2 hlt)
    | some expiry =>
        rcases hmatches.stored expiry hlookup with ⟨last', hlast', rfl⟩
        rw [hlast.unique hlast'] at hlive ⊢
        refine lookup_login (fun hsession => ?_) hlookup hlive
        have hlogin := hmatches.known (by simp [hlookup])
        refine hfresh before rest _ id rfl ?_ (Or.inl hlogin)
        exact congrArg AuthAnswer.login hsession

/-- The ID of the session in the example. -/
def exampleID : String := hexEncode (Vector.replicate 32 (0x5e : UInt8)).toList

/-- A login, and a validation fifteen minutes later. -/
theorem sliding_expiry_atLimit : SlidingExpiry "pw"
    [.login "pw" (some (Vector.replicate 32 0x5e)) 0 0,
      .validateSession exampleID sessionTTL sessionTTL] := by
  refine sliding_expiry "pw" (by decide) ?_
  intro before rest call id hcalls hsession
  rcases before with _ | ⟨first, before⟩
  · simp [AuthHistory.Mentions, AuthHistory.LoggedIn, PasswordAuth.history]
  · -- The second call is no login.
    rcases before with _ | ⟨second, before⟩
    · cases hcalls
      cases hsession
    · simp at hcalls

end Service
end Pgaio
