import Pgaio.Concurrency.Threads
import Pgaio.Server.Gate
import Pgaio.Service.AuthExpiry

/-!
# Access — what a request has to show for itself

The gate in front of the API with the sessions behind it: any number of requests are served at once, `Login`
of `handler/auth.go` is what the route of the login runs, and each call of the service is one atomic step.
`Earned` says how a caller comes by a session that is alive.  `access_earned` says that this is the only way
to the handlers under `/api/`, and that nobody who went it is turned away.
-/

namespace Pgaio
namespace Server

open Go Concurrency Service Transition

/-- A request, and the password that `Decode` finds in its body; `none` if it fails. -/
structure Incoming where
  request : Request
  password : Option String

inductive AccessAct where
  | gate (a : GateAct)
  | login (password : String)

@[reducible] def AccessAct.Resp : AccessAct → Type
  | .gate a => a.Resp
  | .login _ => LoginResult

inductive Reply where
  | gate (answer : Answer)
  | badRequest (error : String)
  | loggedIn (sessionID : String)
  | refused (error : String)
  | panicked
  deriving DecidableEq, Repr

abbrev AccessProgram := Program AccessAct AccessAct.Resp Reply

abbrev AccessTrace := List (Event AccessAct AccessAct.Resp)

/-- `Login` of the handler. -/
def loginHandler (password : Option String) : AccessProgram :=
  match password with
  | none => pure (.badRequest "invalid request")
  | some password => do
      let result : LoginResult ← Program.perform (AccessAct.login password)
      match result with
      | .session sessionID => pure (.loggedIn sessionID)
      | .refused error => pure (.refused error)
      | .panicked => pure .panicked

/-- The gate in front of the handlers. -/
def behindGate (password : Option String) : GateProgram → AccessProgram
  | .done answer => .done (.gate answer)
  | .act a next => .act (.gate a) fun r =>
      if a = .runHandler login then loginHandler password else behindGate password (next r)

/-- What a call of the service draws: random bytes, and two readings of the clock. -/
structure Draw where
  b : Option (Vector UInt8 32) := none
  now : Time
  later : Time

/-- The service, the last reading of the clock, and the calls made so far. -/
structure AccessWorld where
  auth : PasswordAuth
  clock : Time
  calls : List AuthCall

namespace AccessWorld

def new (password : String) (clock : Time) : AccessWorld :=
  { auth := newPasswordAuth password
    clock := clock
    calls := [] }

def after (w : AccessWorld) (call : AuthCall) : AccessWorld :=
  { auth := (call.exec w.auth).2
    clock := call.ended
    calls := w.calls ++ [call] }

/-- The clock does not go back. -/
def Shows (w : AccessWorld) (d : Draw) : Prop :=
  w.clock ≤ d.now ∧ d.now ≤ d.later

instance (w : AccessWorld) (d : Draw) : Decidable (w.Shows d) :=
  inferInstanceAs (Decidable (_ ∧ _))

def exec (w : AccessWorld) (a : AccessAct) (d : Draw) : Option (a.Resp × AccessWorld) :=
  match a with
  | .gate (.validateSession sessionID) =>
      if w.Shows d then
        some ((w.auth.validateSession sessionID d.now d.later).1,
          w.after (.validateSession sessionID d.now d.later))
      else none
  | .gate (.runHandler _) => some ((), w)
  | .login password =>
      if w.Shows d then
        some ((w.auth.login password d.b d.now d.later).1, w.after (.login password d.b d.now d.later))
      else none

end AccessWorld

def accessSystem : System AccessWorld AccessAct AccessAct.Resp Draw Empty Incoming Reply where
  body := fun i => behindGate i.password (serveHTTP i.request)
  external := fun _ => true
  exec := fun w _ a d => w.exec a d
  forks := fun _ => none
  env := fun _ x => x.elim

/-! ## How a session is earned -/

/-- Somebody logged in with the password and got this session, or used it within `sessionTTL` of such a time;
`t` is when. -/
inductive Earned (password : String) : List AuthCall → String → Time → Prop where
  | login {before rest : List AuthCall} {b : Option (Vector UInt8 32)} {now later : Time} {id : String} :
      (((newPasswordAuth password).after before).login password b now later).1 = .session id →
        Earned password (before ++ .login password b now later :: rest) id now
  | used {before rest : List AuthCall} {t now later : Time} {id : String} :
      Earned password before id t → now ≤ t + sessionTTL →
        Earned password (before ++ .validateSession id now later :: rest) id later

variable {password : String} {calls before rest : List AuthCall} {id : String} {t now later : Time}

theorem Earned.append (h : Earned password calls id t) (more : List AuthCall) :
    Earned password (calls ++ more) id t := by
  cases h with
  | login hlogin =>
      rw [List.append_assoc, List.cons_append]
      exact .login hlogin
  | used hearned hle =>
      rw [List.append_assoc, List.cons_append]
      exact .used hearned hle

theorem password_exec (a : PasswordAuth) (call : AuthCall) : (call.exec a).2.password = a.password := by
  cases call with
  | login password b now later =>
      rcases a.login_cases password b now later with ⟨result, _, hlogin⟩ | ⟨bytes, hlogin⟩ <;>
        simp [AuthCall.exec, hlogin]
  | validateSession sessionID now later =>
      rcases a.validateSession_cases sessionID now later with
        ⟨_, hvalid⟩ | ⟨_, _, _, hvalid⟩ | ⟨_, _, _, _, hvalid⟩ <;> simp [AuthCall.exec, hvalid]
  | checkSession sessionID now => rfl

theorem password_after (a : PasswordAuth) (calls : List AuthCall) : (a.after calls).password = a.password := by
  induction calls generalizing a with
  | nil => rfl
  | cons call calls ih => rw [PasswordAuth.after_cons, ih, password_exec]

/-- Only the password opens a session. -/
theorem password_of_session {a : PasswordAuth} {attempt : String} {b : Option (Vector UInt8 32)}
    (h : (a.login attempt b now later).1 = .session id) : attempt = a.password := by
  by_contra hne
  rw [PasswordAuth.login, if_pos hne] at h
  cases h

/-- A call makes a session active by a login that returns it or by a validation that succeeds. -/
theorem active_cases {a : PasswordAuth} {call : AuthCall}
    (h : AuthHistory.activeAt id (call, (call.exec a).1) = some t) :
    (∃ attempt b later, call = .login attempt b t later ∧ (a.login attempt b t later).1 = .session id) ∨
      ∃ now, call = .validateSession id now t ∧ (a.validateSession id now t).1 = true := by
  cases call with
  | login attempt b now later =>
      simp only [AuthCall.exec] at h
      cases hresult : (a.login attempt b now later).1 with
      | refused error =>
          rw [hresult] at h
          cases h
      | panicked =>
          rw [hresult] at h
          cases h
      | session sessionID =>
          rw [hresult] at h
          obtain ⟨rfl, htime⟩ := Option.ite_none_right_eq_some.1 h
          cases htime
          exact Or.inl ⟨attempt, b, later, rfl, hresult⟩
  | validateSession sessionID now later =>
      simp only [AuthCall.exec] at h
      cases hresult : (a.validateSession sessionID now later).1 with
      | false =>
          rw [hresult] at h
          cases h
      | true =>
          rw [hresult] at h
          obtain ⟨rfl, htime⟩ := Option.ite_none_right_eq_some.1 h
          cases htime
          exact Or.inr ⟨now, rfl, hresult⟩
  | checkSession sessionID now => cases h

theorem timely_left (h : Timely (calls ++ rest)) : Timely calls := by
  unfold Timely at h ⊢
  rw [List.flatMap_append] at h
  exact (List.pairwise_append.1 h).1

theorem mem_activeTimes_concat {call : AuthCall} :
    t ∈ ((newPasswordAuth password).history (calls ++ [call])).activeTimes id ↔
      t ∈ ((newPasswordAuth password).history calls).activeTimes id ∨
        AuthHistory.activeAt id (call, (call.exec ((newPasswordAuth password).after calls)).1) = some t := by
  rw [PasswordAuth.history_append]
  simp only [PasswordAuth.history, AuthHistory.activeTimes_concat, List.mem_append, Option.mem_toList]

/-- Every time at which the service takes a session to be active was earned. -/
theorem earned_of_active (htimely : Timely calls)
    (h : t ∈ ((newPasswordAuth password).history calls).activeTimes id) : Earned password calls id t := by
  induction calls using List.reverseRecOn generalizing t with
  | nil => cases h
  | append_singleton calls call ih =>
      rcases mem_activeTimes_concat.1 h with hold | hnew
      · exact (ih (timely_left htimely) hold).append [call]
      · rcases active_cases hnew with ⟨attempt, b, later, rfl, hsession⟩ | ⟨now, rfl, hvalid⟩
        · have hpassword := password_of_session hsession
          rw [password_after] at hpassword
          subst hpassword
          exact .login hsession
        · -- The time that the session was alive by is an earlier one.
          obtain ⟨-, last, hlast, hle⟩ := (validateSession_iff htimely).1 hvalid
          exact .used (ih (timely_left htimely) hlast.1) hle

theorem loggedIn_append (h : ((newPasswordAuth password).history calls).LoggedIn id) (more : List AuthCall) :
    ((newPasswordAuth password).history (calls ++ more)).LoggedIn id := by
  obtain ⟨call, hmem⟩ := h
  rw [PasswordAuth.history_append]
  exact ⟨call, List.mem_append_left _ hmem⟩

theorem active_append (h : t ∈ ((newPasswordAuth password).history calls).activeTimes id)
    (more : List AuthCall) : t ∈ ((newPasswordAuth password).history (calls ++ more)).activeTimes id := by
  rw [PasswordAuth.history_append, AuthHistory.activeTimes, List.filterMap_append]
  exact List.mem_append_left _ h

/-- A validation succeeds if the session was active at most `sessionTTL` ago. -/
theorem valid_of_active (htimely : Timely (before ++ .validateSession id now later :: rest))
    (h : t ∈ ((newPasswordAuth password).history before).activeTimes id)
    (hlogin : ((newPasswordAuth password).history before).LoggedIn id) (hle : now ≤ t + sessionTTL) :
    (((newPasswordAuth password).after before).validateSession id now later).1 = true := by
  refine (validateSession_iff htimely).2 ⟨hlogin, ?_⟩
  have hmatches := matches_before password id htimely rfl
  cases hlookup : ((newPasswordAuth password).after before).sessions.lookup id with
  | none => exact absurd hle (Int.not_le.2 (hmatches.gone hlookup t h))
  | some expiry =>
      obtain ⟨last, hlast, -⟩ := hmatches.stored expiry hlookup
      exact ⟨last, hlast, Int.le_trans hle (Int.add_le_add_right (hlast.2 t h) _)⟩

/-- The service takes a session that was earned to be active then. -/
theorem active_of_earned (htimely : Timely calls) (h : Earned password calls id t) :
    t ∈ ((newPasswordAuth password).history calls).activeTimes id ∧
      ((newPasswordAuth password).history calls).LoggedIn id := by
  induction h with
  | @login before rest b now later id hsession =>
      have hmem : AuthHistory.activeAt id (.login password b now later,
          ((AuthCall.login password b now later).exec ((newPasswordAuth password).after before)).1) =
            some now := by
        simp [AuthCall.exec, hsession, AuthHistory.activeAt]
      rw [List.append_cons]
      refine ⟨active_append (mem_activeTimes_concat.2 (Or.inr hmem)) rest, loggedIn_append ?_ rest⟩
      rw [PasswordAuth.history_append]
      refine ⟨.login password b now later, List.mem_append_right _ ?_⟩
      simp [PasswordAuth.history, AuthCall.exec, hsession]
  | @used before rest t now later id _ hle ih =>
      obtain ⟨hactive, hlogin⟩ := ih (timely_left htimely)
      have hvalid := valid_of_active htimely hactive hlogin hle
      have hmem : AuthHistory.activeAt id (.validateSession id now later,
          ((AuthCall.validateSession id now later).exec ((newPasswordAuth password).after before)).1) =
            some later := by
        simp [AuthCall.exec, hvalid, AuthHistory.activeAt]
      rw [List.append_cons]
      refine ⟨active_append (mem_activeTimes_concat.2 (Or.inr hmem)) rest, loggedIn_append ?_ rest⟩
      exact loggedIn_append hlogin _

/-- The service validates what was earned and not left alone for longer than `sessionTTL`. -/
theorem validated_iff (htimely : Timely (before ++ .validateSession id now later :: rest)) :
    (((newPasswordAuth password).after before).validateSession id now later).1 = true ↔
      ∃ t, Earned password before id t ∧ now ≤ t + sessionTTL := by
  constructor
  · intro hvalid
    obtain ⟨-, last, hlast, hle⟩ := (validateSession_iff htimely).1 hvalid
    exact ⟨last, earned_of_active (timely_left htimely) hlast.1, hle⟩
  · rintro ⟨t, hearned, hle⟩
    obtain ⟨hactive, hlogin⟩ := active_of_earned (timely_left htimely) hearned
    exact valid_of_active htimely hactive hlogin hle

/-! ## Behind the gate -/

/-- What the gate has done so far. -/
def gateEvents (past : AccessTrace) : GateTrace :=
  past.filterMap fun
    | ⟨.gate a, r⟩ => some ⟨a, r⟩
    | ⟨.login _, _⟩ => none

theorem gateEvents_concat (past : AccessTrace) (a : GateAct) (r : a.Resp) :
    gateEvents (past ++ [⟨.gate a, r⟩]) = gateEvents past ++ [⟨a, r⟩] := by
  simp [gateEvents]

theorem mem_of_gateEvents {past : AccessTrace} {a : GateAct} {r : a.Resp}
    (h : (⟨a, r⟩ : Event GateAct GateAct.Resp) ∈ gateEvents past) :
    (⟨.gate a, r⟩ : Event AccessAct AccessAct.Resp) ∈ past := by
  obtain ⟨⟨act, resp⟩, hmem, heq⟩ := List.mem_filterMap.1 h
  cases act with
  | login attempt => cases heq
  | gate b =>
      cases heq
      exact hmem

/-- The rule of the gate; what the login does is not subject to it. -/
def AdmittedBehind (r : Request) (past : AccessTrace) : AccessAct → Prop
  | .gate a => Admitted r (gateEvents past) a
  | .login _ => True

theorem wp_loginHandler {r : Request} (attempt : Option String) (past : AccessTrace) :
    (loginHandler attempt).wp (AdmittedBehind r) (fun _ _ => True) past := by
  cases attempt with
  | none => exact trivial
  | some attempt =>
      refine Program.wp_perform trivial fun result => ?_
      cases result <;> exact trivial

theorem wp_behindGate {r : Request} {attempt : Option String} {p : GateProgram} {past : AccessTrace}
    (h : p.wp (Admitted r) (fun _ _ => True) (gateEvents past)) :
    (behindGate attempt p).wp (AdmittedBehind r) (fun _ _ => True) past := by
  induction p generalizing past with
  | done answer => exact trivial
  | act a next ih =>
      refine ⟨h.1, fun resp => ?_⟩
      dsimp only
      split
      · exact wp_loginHandler attempt _
      · refine ih resp ?_
        rw [gateEvents_concat]
        exact h.2 resp

/-! ## Any number of requests -/

abbrev AccessConfig := Config accessSystem

/-- Such a validation was made, and its answer was that of the sessions that are earned. -/
def Validated (password : String) (calls : List AuthCall) (id : String) (ok : Bool) : Prop :=
  ∃ before now later rest, calls = before ++ .validateSession id now later :: rest ∧
    (ok = true ↔ ∃ t, Earned password before id t ∧ now ≤ t + sessionTTL)

theorem Validated.append {ok : Bool} (h : Validated password calls id ok) (more : List AuthCall) :
    Validated password (calls ++ more) id ok := by
  obtain ⟨before, now, later, rest, rfl, hok⟩ := h
  exact ⟨before, now, later, rest ++ more, by simp, hok⟩

/-- What lies behind an event. -/
def Backed (password : String) (ev : Event AccessAct AccessAct.Resp) (w : AccessWorld) : Prop :=
  match ev with
  | ⟨.gate (.validateSession id), ok⟩ => Validated password w.calls id ok
  | ⟨.gate (.runHandler _), _⟩ => True
  | ⟨.login attempt, result⟩ => ∀ id, result = LoginResult.session id → attempt = password

/-- The service has got these calls, in the order of time. -/
structure AccessWorld.Sound (password : String) (w : AccessWorld) : Prop where
  auth : w.auth = (newPasswordAuth password).after w.calls
  timely : (w.calls.flatMap AuthCall.readings ++ [w.clock]).Pairwise (· ≤ ·)

theorem AccessWorld.Sound.after {w : AccessWorld} (h : w.Sound password) {call : AuthCall}
    (hclock : ∀ t ∈ call.readings, w.clock ≤ t) (hordered : call.readings.Pairwise (· ≤ ·)) :
    (w.after call).Sound password := by
  constructor
  · simp only [AccessWorld.after, PasswordAuth.after_append, h.auth]
    rfl
  · obtain ⟨hcalls, -, hcross⟩ := List.pairwise_append.1 h.timely
    have hpast : ∀ t ∈ w.calls.flatMap AuthCall.readings, t ≤ w.clock :=
      fun t ht => hcross t ht _ (List.mem_singleton.2 rfl)
    have hended : call.ended ∈ call.readings := call.ended_mem
    simp only [AccessWorld.after, List.flatMap_append, List.flatMap_singleton, List.append_assoc]
    refine List.pairwise_append.2 ⟨hcalls, ?_, ?_⟩
    · refine List.pairwise_append.2 ⟨hordered, List.pairwise_singleton _ _, fun t ht t' ht' => ?_⟩
      rw [List.mem_singleton.1 ht']
      exact AuthCall.le_ended hordered ht
    · intro t ht t' ht'
      rcases List.mem_append.1 ht' with hreading | hlast
      · exact Int.le_trans (hpast t ht) (hclock t' hreading)
      · rw [List.mem_singleton.1 hlast]
        exact Int.le_trans (hpast t ht) (hclock _ hended)

/-- The calls whose readings come next. -/
theorem AccessWorld.Sound.draw {w : AccessWorld} (h : w.Sound password) {d : Draw} (hshows : w.Shows d)
    (call : AuthCall) (hreadings : call.readings = [d.now, d.later]) : (w.after call).Sound password := by
  refine h.after (fun t ht => ?_) ?_
  · rw [hreadings] at ht
    rcases List.mem_pair.1 ht with rfl | rfl
    · exact hshows.1
    · exact Int.le_trans hshows.1 hshows.2
  · rw [hreadings]
    exact List.pairwise_pair.2 hshows.2

/-- One action: the calls grow, and what it answers is backed by them. -/
theorem AccessWorld.Sound.exec {w w' : AccessWorld} (h : w.Sound password) {a : AccessAct} {d : Draw}
    {r : a.Resp} (hexec : w.exec a d = some (r, w')) :
    w'.Sound password ∧ w.calls <+: w'.calls ∧ Backed password ⟨a, r⟩ w' := by
  cases a with
  | gate g =>
      cases g with
      | runHandler route =>
          cases hexec
          exact ⟨h, List.prefix_refl _, trivial⟩
      | validateSession id =>
          obtain ⟨hshows, heq⟩ := Option.ite_none_right_eq_some.1 hexec
          cases heq
          have hsound := h.draw hshows (.validateSession id d.now d.later) rfl
          refine ⟨hsound, List.prefix_append _ _, w.calls, d.now, d.later, [], rfl, ?_⟩
          have htimely : Timely (w.calls ++ [.validateSession id d.now d.later]) :=
            (List.pairwise_append.1 hsound.timely).1
          rw [h.auth]
          exact validated_iff htimely
  | login attempt =>
      obtain ⟨hshows, heq⟩ := Option.ite_none_right_eq_some.1 hexec
      cases heq
      refine ⟨h.draw hshows (.login attempt d.b d.now d.later) rfl, List.prefix_append _ _, ?_⟩
      intro id hsession
      have hpassword := password_of_session hsession
      rw [h.auth, password_after] at hpassword
      exact hpassword

theorem Backed.mono {ev : Event AccessAct AccessAct.Resp} {w w' : AccessWorld} (h : Backed password ev w)
    (hcalls : w.calls <+: w'.calls) : Backed password ev w' := by
  obtain ⟨⟨⟩ | ⟨⟩, r⟩ := ev
  · rename_i g
    cases g with
    | runHandler route => trivial
    | validateSession id =>
        obtain ⟨more, hmore⟩ := hcalls
        unfold Backed
        rw [← hmore]
        exact Validated.append h more
  · exact h

structure AccessInv (password : String) (c : AccessConfig) : Prop where
  sound : c.world.Sound password
  backed : Config.AfterEvents (fun _ => Backed password) c

theorem accessInv_initial (password : String) (clock : Time) :
    AccessInv password (Config.initial accessSystem (AccessWorld.new password clock)) where
  sound := ⟨rfl, by simp [AccessWorld.new]⟩
  backed := Config.afterEvents_initial

theorem AccessInv.step {c c' : AccessConfig} {l : Label Draw Empty Incoming} (h : AccessInv password c)
    (hstep : c.step l = some c') : AccessInv password c' := by
  have hworld : c'.world.Sound password ∧ c.world.calls <+: c'.world.calls := by
    cases Config.moves_of_step hstep with
    | arrive _ => exact ⟨h.sound, List.prefix_refl _⟩
    | @env x _ _ => exact x.elim
    | act ht hrest hexec =>
        obtain ⟨hsound, hcalls, -⟩ := h.sound.exec hexec
        exact ⟨hsound, hcalls⟩
  refine ⟨hworld.1, Config.afterEvents_step h.backed hstep ?_ ?_⟩
  · exact fun _ ev hbacked => hbacked.mono hworld.2
  · intro i d t a next r _ _ _ hexec
    exact (h.sound.exec hexec).2.2

/-- What holds of a request, in whatever order all of them take their steps. -/
structure Accessed (password : String) (i : Incoming) (past : AccessTrace) (calls : List AuthCall) : Prop where
  /-- Behind an API handler other than the login there is a session that was earned and not left alone. -/
  ran : ∀ route, ⟨.gate (.runHandler route), ()⟩ ∈ past → route.underAPI = true → route ≠ login →
    ∃ before now later rest t, calls = before ++ .validateSession i.request.sessionID now later :: rest ∧
      Earned password before i.request.sessionID t ∧ now ≤ t + sessionTTL
  /-- Whoever is turned away with a session had not earned it or had left it alone. -/
  turnedAway : ∀ id, ⟨.gate (.validateSession id), false⟩ ∈ past →
    ∃ before now later rest, calls = before ++ .validateSession id now later :: rest ∧
      ∀ t, Earned password before id t → t + sessionTTL < now
  /-- A session is given out for the password only. -/
  given : ∀ attempt id, ⟨.login attempt, .session id⟩ ∈ past → attempt = password

/-- In every run the API is open to those who have earned their session, and to nobody else. -/
theorem access_earned (password : String) (clock : Time) {c : AccessConfig} {t : Thread accessSystem}
    (h : Reach Config.step (Config.initial accessSystem (AccessWorld.new password clock)) c)
    (ht : t ∈ c.threads) : Accessed password t.entry t.past c.world.calls := by
  have hinv : AccessInv password c :=
    h.invariant (fun _ _ _ hI _ hstep => hI.step hstep) (accessInv_initial password clock)
  constructor
  · intro route hran hapi hlogin
    have hgate : (accessSystem.body t.entry).wp (AdmittedBehind t.entry.request) (fun _ _ => True) [] :=
      wp_behindGate (wp_serveHTTP t.entry.request)
    obtain ⟨before, hbefore, hadmitted⟩ := Thread.inv_of_mem hgate hran
    have hevent := hbefore.subset (mem_of_gateEvents (hadmitted hapi hlogin))
    obtain ⟨before, now, later, rest, hcalls, hok⟩ := hinv.backed t ht _ hevent
    obtain ⟨s, hearned, hle⟩ := hok.1 rfl
    exact ⟨before, now, later, rest, s, hcalls, hearned, hle⟩
  · intro id hrefused
    obtain ⟨before, now, later, rest, hcalls, hok⟩ := hinv.backed t ht _ hrefused
    refine ⟨before, now, later, rest, hcalls, fun s hearned => ?_⟩
    by_contra hlate
    have hvalid := hok.2 ⟨s, hearned, Int.not_lt.1 hlate⟩
    cases hvalid
  · intro attempt id hgiven
    exact hinv.backed t ht _ hgiven id rfl

def loginIncoming : Incoming where
  request :=
    { method := "POST"
      url := { escaped := loginPath, path := loginPath, unescaped := by decide +kernel } }
  password := some "pw"

def jobsIncoming : Incoming where
  request := { jobsRequest with header := [("X-Session-Id", exampleID)] }
  password := none

/-- A login, and a listing of the jobs fifteen minutes later. -/
def loginAndJobs : List (Label Draw Empty Incoming) :=
  [.arrive loginIncoming, .step 0 { now := 0, later := 0 },
    .step 0 { b := some (Vector.replicate 32 0x5e), now := 0, later := 0 }, .arrive jobsIncoming,
    .step 1 { now := sessionTTL, later := sessionTTL }, .step 1 { now := 0, later := 0 }]

def listsJobs (ev : Event AccessAct AccessAct.Resp) : Bool :=
  match ev with
  | ⟨.gate (.runHandler route), _⟩ => route == jobsRoute
  | _ => false

theorem access_earned_jobs :
    ∃ (c : AccessConfig) (before : List AuthCall) (t now : Time),
      before <+: c.world.calls ∧ Earned "pw" before exampleID t ∧ now ≤ t + sessionTTL := by
  have hend : (run Config.step (Config.initial accessSystem (AccessWorld.new "pw" 0)) loginAndJobs).any
      (fun c => c.threads.any fun t =>
        t.entry.request.sessionID == exampleID && t.past.any listsJobs) = true := by
    decide +kernel
  obtain ⟨c, hreach, htest⟩ := exists_reach_of_run hend
  obtain ⟨t, ht, htest⟩ := List.any_eq_true.1 htest
  obtain ⟨hid, hany⟩ := Bool.and_eq_true_iff.1 htest
  obtain ⟨⟨a, r⟩, hmem, hlists⟩ := List.any_eq_true.1 hany
  have haccess := access_earned "pw" 0 hreach ht
  have hran : ⟨.gate (.runHandler jobsRoute), ()⟩ ∈ t.past := by
    unfold listsJobs at hlists
    split at hlists
    · rename_i route _ heq
      cases heq
      rw [beq_iff_eq.1 hlists] at hmem
      exact hmem
    · cases hlists
  obtain ⟨before, now, later, rest, s, hcalls, hearned, hle⟩ :=
    haccess.ran _ hran (by decide +kernel) (by decide)
  rw [beq_iff_eq.1 hid] at hearned
  exact ⟨c, before, s, now, hcalls ▸ List.prefix_append _ _, hearned, hle⟩

end Server
end Pgaio
