import Pgaio.Browser.Timers
import Pgaio.Browser.WebSocket
import Pgaio.Transition.Run

/-!
# DashboardSocket — the connection behind the dashboard

`connectWebSocket`, `scheduleReconnect`, `disconnectWebSocket` and `navigate` of `web/static/js/app.js`.
The dashboard is fed by a socket; when it is closed, a timer connects again after three seconds, and every
other page does without it.

`dashboard_never_stuck` holds of every run.  That there is one socket only, and none on other pages, needs
that no connection is made while the last one is on its way (`dashboard_one_socket`): `connectWebSocket`
returns early for an open socket and replaces one that is still connecting, whose handlers go on.
-/

namespace Pgaio
namespace Web

open Browser Transition

/-- The keys of `pages`. -/
def pages : List String :=
  ["dashboard", "backups", "jobs", "planner", "profiles", "drift", "s3", "database", "logs", "config",
    "server", "sql", "pgbouncer", "queries", "vacuum", "locks", "roles", "indexes", "extensions", "alerts",
    "tuner", "auth"]

/-- What every object has besides its own keys; none of it has a `render`. -/
def inherited : List String :=
  ["constructor", "hasOwnProperty", "isPrototypeOf", "propertyIsEnumerable", "toLocaleString", "toString",
    "valueOf", "__proto__", "__defineGetter__", "__defineSetter__", "__lookupGetter__", "__lookupSetter__"]

/-- The page that `navigate` shows for a hash without its sign; `page.render` is no function for the
inherited names. -/
def pageOf (hash : String) : Option String :=
  if pages.contains hash then some hash
  else if inherited.contains hash then none
  else some "dashboard"

/-- `page.ws`. -/
def usesWs (page : String) : Bool :=
  page = "dashboard"

structure WsState where
  /-- The page that is shown, if any. -/
  page : Option String := none
  sockets : List Socket := []
  ws : Option Nat := none
  timers : Timers := {}
  wsReconnectTimer : Option Nat := none
  /-- What the indicator shows. -/
  online : Bool := false
  deriving DecidableEq, Repr

/-- `constructs` says whether `new WebSocket` returns. -/
inductive WsLabel where
  | navigate (hash : String) (constructs : Bool)
  | timeout (handle : Nat) (constructs : Bool)
  | event (i : Nat) (e : SocketEvent)
  deriving DecidableEq, Repr

namespace WsState

/-- `ws.readyState`. -/
def readyState? (s : WsState) : Option ReadyState :=
  (s.ws.bind fun i => s.sockets[i]?).map Socket.readyState

def scheduleReconnect (s : WsState) : WsState :=
  if s.wsReconnectTimer.isSome then s
  else
    { s with
      wsReconnectTimer := some s.timers.next
      timers := s.timers.set }

def connectWebSocket (s : WsState) (constructs : Bool) : WsState :=
  if s.readyState? = some .opened then s
  else if constructs then
    { s with
      ws := some s.sockets.length
      sockets := s.sockets ++ [{}] }
  else s.scheduleReconnect

def clearReconnect (s : WsState) : WsState :=
  { s with
    timers := s.timers.clearHandle s.wsReconnectTimer
    wsReconnectTimer := none }

def disconnectWebSocket (s : WsState) : WsState :=
  { s.clearReconnect with
    sockets := s.ws.elim s.sockets fun i => s.sockets.modify i Socket.drop
    ws := none
    online := false }

def onopen (s : WsState) : WsState :=
  { s with online := true }.clearReconnect

def onclose (s : WsState) : WsState :=
  { s with online := false }.scheduleReconnect

/-- `ws.close()` on whatever `ws` is by then; nothing but an exception if it is `null`. -/
def onerror (s : WsState) : WsState :=
  { s with sockets := s.ws.elim s.sockets (closeAt s.sockets) }

/-- Without a page an exception leaves the content empty and the socket as it is. -/
def navigate (s : WsState) (hash : String) (constructs : Bool) : WsState :=
  let s := { s with page := pageOf hash }
  match pageOf hash with
  | none => s
  | some page => if usesWs page then s.connectWebSocket constructs else s.disconnectWebSocket

/-- The handlers of a socket for what has happened to it. -/
def handle (s : WsState) (hasOnclose : Bool) : SocketEvent → WsState
  | .opened => s.onopen
  | .closing => s
  | .closed failed =>
      let s := if failed then s.onerror else s
      if hasOnclose then s.onclose else s

def step (s : WsState) : WsLabel → Option WsState
  | .navigate hash constructs => some (s.navigate hash constructs)
  | .timeout handle constructs =>
      if handle ∈ s.timers.active then
        some ({ s with
          timers := s.timers.clear handle
          wsReconnectTimer := none }.connectWebSocket constructs)
      else none
  | .event i e =>
      s.sockets[i]?.bind fun socket => (socket.after e).map fun socket' =>
        { s with sockets := s.sockets.set i socket' }.handle socket.onclose e

/-- `ws` is neither connecting nor closing. -/
def idle (s : WsState) : Bool :=
  s.readyState? ≠ some .connecting && s.readyState? ≠ some .closing

/-- No connection is made while `ws` is connecting or closing. -/
def connectsIdle (s : WsState) : WsLabel → Bool
  | .navigate hash _ => !(pageOf hash).any usesWs || s.idle
  | .timeout _ _ => s.idle
  | .event _ _ => true

/-! ## What holds in every run -/

/-- The variables and handlers belong together. -/
structure Wired (s : WsState) : Prop where
  timer : s.timers.HeldBy s.wsReconnectTimer
  handlers : ∀ (i : Nat) (socket : Socket),
    s.sockets[i]? = some socket → socket.live = true → socket.onclose = true
  stored : ∀ (i : Nat), s.ws = some i → ∃ socket : Socket, s.sockets[i]? = some socket ∧ socket.onclose = true

/-- A connection that reports its end, or a timer that will connect. -/
def Attended (s : WsState) : Prop :=
  s.wsReconnectTimer.isSome = true ∨
    ∃ (i : Nat) (socket : Socket),
      s.sockets[i]? = some socket ∧ socket.readyState ≠ .closed ∧ socket.onclose = true

structure KeepsUp (s : WsState) : Prop extends Wired s where
  attended : s.page = some "dashboard" → s.Attended

variable {s t : WsState}

theorem wired_initial : Wired {} where
  timer := rfl
  handlers := by
    intro i socket hs
    cases hs
  stored := by
    intro i hi
    cases hi

theorem Wired.clearReconnect (h : s.Wired) : s.clearReconnect.Wired :=
  ⟨h.timer.clearHandle, h.handlers, h.stored⟩

/-- A timer is active afterwards, the new one or an earlier one. -/
theorem isSome_scheduleReconnect : s.scheduleReconnect.wsReconnectTimer.isSome = true := by
  unfold WsState.scheduleReconnect
  split
  · assumption
  · rfl

theorem Wired.scheduleReconnect (h : s.Wired) : s.scheduleReconnect.Wired := by
  unfold WsState.scheduleReconnect
  split
  · exact h
  · rename_i hnone
    have htimer := h.timer
    rw [Option.not_isSome_iff_eq_none.1 hnone] at htimer
    exact ⟨htimer.set, h.handlers, h.stored⟩

theorem readyState?_eq_some {r : ReadyState} :
    s.readyState? = some r ↔
      ∃ (i : Nat) (socket : Socket), s.ws = some i ∧ s.sockets[i]? = some socket ∧ socket.readyState = r := by
  unfold readyState?
  cases s.ws with
  | none => simp
  | some i => simp [Option.map_eq_some_iff]

theorem Wired.connectWebSocket (h : s.Wired) (constructs : Bool) :
    (s.connectWebSocket constructs).KeepsUp := by
  unfold WsState.connectWebSocket
  split
  · rename_i hopened
    obtain ⟨i, socket, hws, hsocket, hstate⟩ := readyState?_eq_some.1 hopened
    have honclose := h.handlers i socket hsocket (by simp [Socket.live, hstate])
    exact ⟨h, fun _ => .inr ⟨i, socket, hsocket, by simp [hstate], honclose⟩⟩
  · split
    · -- The new socket has all its handlers.
      refine ⟨⟨h.timer, ?_, ?_⟩, fun _ => .inr ⟨s.sockets.length, {}, by simp, by decide, rfl⟩⟩
      · intro i socket hsocket hlive
        rcases List.mem_append.1 (List.mem_of_getElem? hsocket) with hold | hnew
        · obtain ⟨j, hj⟩ := List.mem_iff_getElem?.1 hold
          exact h.handlers j socket hj hlive
        · rw [List.mem_singleton.1 hnew]
      · intro i hi
        obtain rfl := Option.some.inj hi
        exact ⟨{}, by simp, rfl⟩
    · exact ⟨h.scheduleReconnect, fun _ => .inl isSome_scheduleReconnect⟩

theorem Wired.disconnectWebSocket (h : s.Wired) : s.disconnectWebSocket.Wired where
  timer := h.timer.clearHandle
  handlers := by
    intro i socket' hsocket hlive
    unfold WsState.disconnectWebSocket at hsocket
    cases hws : s.ws with
    | none =>
        rw [hws] at hsocket
        exact h.handlers i socket' hsocket hlive
    | some j =>
        rw [hws] at hsocket
        have hmodify : (s.sockets.modify j Socket.drop)[i]? = some socket' := hsocket
        rw [List.getElem?_modify] at hmodify
        obtain ⟨socket, hold, rfl⟩ := Option.map_eq_some_iff.1 hmodify
        by_cases hij : j = i
        · rw [if_pos hij, socket.spent_drop.not_live] at hlive
          cases hlive
        · rw [if_neg hij] at hlive ⊢
          exact h.handlers i socket hold hlive
  stored := by
    intro i hi
    cases hi

theorem Wired.onerror (h : s.Wired) : s.onerror.Wired := by
  cases hws : s.ws with
  | none =>
      have heq : s.onerror.sockets = s.sockets := by simp [WsState.onerror, hws]
      exact ⟨h.timer, by rw [heq]; exact h.handlers, by rw [heq]; exact h.stored⟩
  | some j =>
      have heq : s.onerror = { s with sockets := s.sockets.modify j Socket.close } := by
        simp [WsState.onerror, closeAt, hws]
      rw [heq]
      refine ⟨h.timer, ?_, ?_⟩
      · intro i socket' hsocket hlive
        have hmodify : (s.sockets.modify j Socket.close)[i]? = some socket' := hsocket
        rw [List.getElem?_modify] at hmodify
        obtain ⟨socket, hold, rfl⟩ := Option.map_eq_some_iff.1 hmodify
        split at hlive
        · rename_i hij
          rw [if_pos hij, Socket.onclose_close]
          exact h.handlers i socket hold (Socket.live_of_close hlive)
        · rename_i hij
          rw [if_neg hij]
          exact h.handlers i socket hold hlive
      · intro i hi
        obtain ⟨socket, hold, hset⟩ := h.stored i hi
        have hmodify : (s.sockets.modify j Socket.close)[i]? =
            some (if j = i then socket.close else socket) := by
          simp [List.getElem?_modify, hold]
        refine ⟨_, hmodify, ?_⟩
        split
        · rw [Socket.onclose_close, hset]
        · exact hset

theorem Attended.onerror (h : s.Attended) : s.onerror.Attended := by
  rcases h with htimer | ⟨i, socket, hsocket, hstate, honclose⟩
  · exact .inl htimer
  · cases hws : s.ws with
    | none => exact .inr ⟨i, socket, by simpa [WsState.onerror, hws] using hsocket, hstate, honclose⟩
    | some j =>
        have hmodify : s.onerror.sockets[i]? = some (if j = i then socket.close else socket) := by
          simp [WsState.onerror, closeAt, hws, List.getElem?_modify, hsocket]
        refine .inr ⟨i, _, hmodify, ?_⟩
        split
        · exact ⟨Socket.not_closed_close hstate, by rw [Socket.onclose_close, honclose]⟩
        · exact ⟨hstate, honclose⟩

section Event

variable {i : Nat} {socket socket' : Socket} {e : SocketEvent}

theorem Wired.after (h : s.Wired) (hs : s.sockets[i]? = some socket)
    (he : socket.after e = some socket') : { s with sockets := s.sockets.set i socket' }.Wired := by
  have hlt := (List.getElem?_eq_some_iff.1 hs).1
  refine ⟨h.timer, ?_, ?_⟩
  · intro j other hother hlive
    have hset : (s.sockets.set i socket')[j]? = some other := hother
    by_cases hij : i = j
    · subst hij
      rw [List.getElem?_set_self hlt] at hset
      obtain rfl := Option.some.inj hset
      rw [Socket.onclose_of_after he]
      exact h.handlers i socket hs (Socket.live_of_after he hlive)
    · rw [List.getElem?_set_ne hij] at hset
      exact h.handlers j other hset hlive
  · intro j hj
    obtain ⟨other, hother, honclose⟩ := h.stored j hj
    by_cases hij : i = j
    · subst hij
      obtain rfl := Option.some.inj (hs.symm.trans hother)
      exact ⟨socket', List.getElem?_set_self hlt, (Socket.onclose_of_after he).trans honclose⟩
    · exact ⟨other, (List.getElem?_set_ne hij).trans hother, honclose⟩

/-- Only the end of a connection with its handler leaves nothing behind. -/
theorem Attended.after (h : s.Attended) (hs : s.sockets[i]? = some socket)
    (he : socket.after e = some socket')
    (hend : socket'.readyState = .closed → socket.onclose = false) :
    { s with sockets := s.sockets.set i socket' }.Attended := by
  rcases h with htimer | ⟨j, other, hother, hstate, honclose⟩
  · exact .inl htimer
  · by_cases hij : i = j
    · subst hij
      obtain rfl := Option.some.inj (hs.symm.trans hother)
      have hlt := (List.getElem?_eq_some_iff.1 hs).1
      refine .inr ⟨i, socket', List.getElem?_set_self hlt, fun hclosed => ?_,
        (Socket.onclose_of_after he).trans honclose⟩
      rw [hend hclosed] at honclose
      cases honclose
    · exact .inr ⟨j, other, (List.getElem?_set_ne hij).trans hother, hstate, honclose⟩

theorem Wired.handle (h : s.Wired) (hasOnclose : Bool) (e : SocketEvent) :
    (s.handle hasOnclose e).Wired := by
  cases e with
  | opened => exact Wired.clearReconnect ⟨h.timer, h.handlers, h.stored⟩
  | closing => exact h
  | closed failed =>
      have herror : (if failed then s.onerror else s).Wired := by
        split
        · exact h.onerror
        · exact h
      simp only [WsState.handle]
      split
      · have hoffline : ({ (if failed then s.onerror else s) with online := false } : WsState).Wired :=
          ⟨herror.timer, herror.handlers, herror.stored⟩
        exact hoffline.scheduleReconnect
      · exact herror

theorem KeepsUp.event (h : s.KeepsUp) (hs : s.sockets[i]? = some socket)
    (he : socket.after e = some socket') :
    ({ s with sockets := s.sockets.set i socket' }.handle socket.onclose e).KeepsUp := by
  have hwired := h.toWired.after hs he
  refine ⟨hwired.handle socket.onclose e, fun hpage => ?_⟩
  cases e with
  | opened =>
      -- The timer is given up, but the socket itself is open.
      simp only [Socket.after, Option.ite_none_right_eq_some, Option.some.injEq] at he
      obtain ⟨hconnecting, rfl⟩ := he
      have hlt := (List.getElem?_eq_some_iff.1 hs).1
      have honclose := h.handlers i socket hs (by simp [Socket.live, hconnecting])
      exact .inr ⟨i, _, List.getElem?_set_self hlt, by simp, honclose⟩
  | closing =>
      refine (h.attended hpage).after hs he fun hclosed => ?_
      simp only [Socket.after, Option.ite_none_right_eq_some, Option.some.injEq] at he
      obtain ⟨-, rfl⟩ := he
      cases hclosed
  | closed failed =>
      cases honclose : socket.onclose with
      | true =>
          refine .inl ?_
          simp only [WsState.handle, if_true]
          exact isSome_scheduleReconnect
      | false =>
          -- Another socket, or a timer, is what attends to the dashboard.
          have hpage' : s.page = some "dashboard" := by
            cases failed <;> simpa [WsState.handle, honclose, WsState.onerror] using hpage
          have hattended := (h.attended hpage').after hs he fun _ => honclose
          cases failed with
          | true => exact hattended.onerror
          | false => exact hattended

end Event

theorem KeepsUp.navigate (h : s.KeepsUp) (hash : String) (constructs : Bool) :
    (s.navigate hash constructs).KeepsUp := by
  have hwired : { s with page := pageOf hash }.Wired := ⟨h.timer, h.handlers, h.stored⟩
  simp only [WsState.navigate]
  cases hpage : pageOf hash with
  | none =>
      rw [hpage] at hwired
      exact ⟨hwired, fun hdashboard => by cases hdashboard⟩
  | some page =>
      rw [hpage] at hwired
      by_cases hws : usesWs page = true
      · simp only [hws, if_true]
        exact hwired.connectWebSocket constructs
      · simp only [hws]
        refine ⟨hwired.disconnectWebSocket, fun hdashboard => absurd ?_ hws⟩
        obtain rfl := Option.some.inj hdashboard
        rfl

theorem KeepsUp.step (h : s.KeepsUp) {l : WsLabel} (hstep : s.step l = some t) : t.KeepsUp := by
  cases l with
  | navigate hash constructs =>
      obtain rfl := Option.some.inj hstep
      exact h.navigate hash constructs
  | timeout handle constructs =>
      simp only [WsState.step, Option.ite_none_right_eq_some, Option.some.injEq] at hstep
      obtain ⟨hmem, rfl⟩ := hstep
      -- The timer that fires is the one in the variable.
      have htimer : (s.timers.clear handle).HeldBy none :=
        Timers.HeldBy.clear (h.timer.eq_of_mem hmem ▸ h.timer)
      have hwired : ({ s with
          timers := s.timers.clear handle
          wsReconnectTimer := none } : WsState).Wired := ⟨htimer, h.handlers, h.stored⟩
      exact hwired.connectWebSocket constructs
  | event i e =>
      simp only [WsState.step, Option.bind_eq_some_iff, Option.map_eq_some_iff] at hstep
      obtain ⟨socket, hs, socket', he, rfl⟩ := hstep
      exact h.event hs he

/-- Whatever happens, at most one timer is active and `wsReconnectTimer` is its handle; and while the
dashboard is shown, it is active or there is a connection whose end will set it. -/
theorem dashboard_never_stuck (hrun : Reach step {} s) :
    s.timers.active = s.wsReconnectTimer.toList ∧
      (s.page = some "dashboard" →
        s.timers.active ≠ [] ∨
          ∃ (i : Nat) (socket : Socket), s.sockets[i]? = some socket ∧
            socket.readyState ≠ .closed ∧ socket.onclose = true) := by
  have hkeeps : s.KeepsUp := hrun.invariant (fun _ _ _ h _ hstep => h.step hstep)
    ⟨wired_initial, fun hpage => by cases hpage⟩
  refine ⟨hkeeps.timer, fun hpage => ?_⟩
  rcases hkeeps.attended hpage with htimer | hsocket
  · obtain ⟨handle, hhandle⟩ := Option.isSome_iff_exists.1 htimer
    refine .inl ?_
    rw [hkeeps.timer, hhandle]
    simp
  · exact .inr hsocket

/-- A connection is lost, and the next one fails: there is a timer. -/
theorem dashboard_never_stuck_offline :
    ∃ s : WsState, s.sockets.map Socket.readyState = [.closed, .closed] ∧ s.timers.active ≠ [] := by
  let labels : List WsLabel :=
    [.navigate "" true, .event 0 .opened, .event 0 (.closed false), .timeout 1 true,
      .event 1 (.closed true)]
  have hrun : (run step {} labels).any (fun s =>
      decide (s.page = some "dashboard" ∧ s.sockets.map Socket.readyState = [.closed, .closed])) =
      true := by
    decide
  obtain ⟨s, hreach, htest⟩ := exists_reach_of_run hrun
  obtain ⟨hpage, hclosed⟩ := of_decide_eq_true htest
  refine ⟨s, hclosed, ?_⟩
  rcases (dashboard_never_stuck hreach).2 hpage with htimer | ⟨i, socket, hs, hopen, -⟩
  · exact htimer
  · have hmem := List.mem_map_of_mem (f := Socket.readyState) (List.mem_of_getElem? hs)
    rw [hclosed] at hmem
    simp [hopen] at hmem

/-! ## One socket -/

/-- There is one connection, the indicator shows it, and other pages than the dashboard have none. -/
structure Tidy (s : WsState) : Prop extends Wired s where
  sole : Sole s.sockets s.ws
  away : ∀ page, s.page = some page → usesWs page = false → s.ws = none ∧ s.wsReconnectTimer = none
  online_of_opened : s.readyState? = some .opened → s.online = true
  of_online : s.online = true → s.readyState? = some .opened ∨ s.readyState? = some .closing

theorem idle_iff : s.idle = true ↔
    s.readyState? ≠ some .connecting ∧ s.readyState? ≠ some .closing := by
  simp [idle]

@[simp] theorem page_scheduleReconnect : s.scheduleReconnect.page = s.page := by
  unfold WsState.scheduleReconnect
  split <;> rfl

@[simp] theorem ws_scheduleReconnect : s.scheduleReconnect.ws = s.ws := by
  unfold WsState.scheduleReconnect
  split <;> rfl

@[simp] theorem sockets_scheduleReconnect : s.scheduleReconnect.sockets = s.sockets := by
  unfold WsState.scheduleReconnect
  split <;> rfl

@[simp] theorem online_scheduleReconnect : s.scheduleReconnect.online = s.online := by
  unfold WsState.scheduleReconnect
  split <;> rfl

@[simp] theorem readyState?_scheduleReconnect :
    s.scheduleReconnect.readyState? = s.readyState? := by
  simp [readyState?]

theorem readyState?_eq {i : Nat} {socket : Socket} (hws : s.ws = some i)
    (hs : s.sockets[i]? = some socket) : s.readyState? = some socket.readyState :=
  readyState?_eq_some.2 ⟨i, socket, hws, hs, rfl⟩

theorem readyState?_of_ws (hws : s.ws = none) : s.readyState? = none := by
  simp [readyState?, hws]

/-- The socket that is replaced has been closed, so it is spent. -/
theorem Tidy.connectWebSocket (h : s.Tidy) (hidle : s.idle = true)
    (hpage : ∀ page, s.page = some page → usesWs page = true) (constructs : Bool) :
    (s.connectWebSocket constructs).Tidy := by
  have hwired := (h.toWired.connectWebSocket constructs).toWired
  obtain ⟨hconnecting, hclosing⟩ := idle_iff.1 hidle
  have haway (page : String) (hp : s.page = some page) (hws : usesWs page = false) : False := by
    rw [hpage page hp] at hws
    cases hws
  by_cases hopened : s.readyState? = some .opened
  · have heq : s.connectWebSocket constructs = s := if_pos hopened
    rwa [heq]
  · have hoffline : s.online = false := by
      by_contra honline
      rcases h.of_online (Bool.not_eq_false _ ▸ honline) with hst | hst
      · exact hopened hst
      · exact hclosing hst
    cases constructs with
    | false =>
        have heq : s.connectWebSocket false = s.scheduleReconnect := by
          simp [WsState.connectWebSocket, hopened]
        rw [heq] at hwired ⊢
        exact
          { hwired with
            sole := by simpa using h.sole
            away := fun page hp hws => (haway page (by simpa using hp) hws).elim
            online_of_opened := fun hst => absurd (by simpa using hst) hopened
            of_online := fun honline => by simp [hoffline] at honline }
    | true =>
        have heq : s.connectWebSocket true =
            { s with ws := some s.sockets.length, sockets := s.sockets ++ [{}] } := by
          simp [WsState.connectWebSocket, hopened]
        rw [heq] at hwired ⊢
        have hspent (i : Nat) (socket : Socket) (hws : s.ws = some i)
            (hs : s.sockets[i]? = some socket) : socket.Spent := by
          rw [readyState?_eq hws hs] at hconnecting hclosing hopened
          refine .inl ?_
          cases hst : socket.readyState <;> simp [hst] at hconnecting hclosing hopened ⊢
        have hstate : ({ s with
            ws := some s.sockets.length, sockets := s.sockets ++ [{}] } : WsState).readyState? =
            some .connecting :=
          by simp [readyState?]
        exact
          { hwired with
            sole := h.sole.append hspent {}
            away := fun page hp hws => (haway page hp hws).elim
            online_of_opened := fun hst => by
              rw [hstate] at hst
              cases hst
            of_online := fun honline => by
              have honline' : s.online = true := honline
              rw [hoffline] at honline'
              cases honline' }

theorem Wired.tidy_disconnectWebSocket (h : s.Wired) (hsole : Sole s.sockets s.ws) :
    s.disconnectWebSocket.Tidy where
  toWired := h.disconnectWebSocket
  sole := by
    cases hws : s.ws with
    | none =>
        rw [hws] at hsole
        simpa [WsState.disconnectWebSocket, hws] using hsole
    | some i =>
        rw [hws] at hsole
        simpa [WsState.disconnectWebSocket, hws] using hsole.drop
  away := fun _ _ _ => ⟨rfl, rfl⟩
  online_of_opened := by
    intro hst
    rw [readyState?_of_ws (s := s.disconnectWebSocket) rfl] at hst
    cases hst
  of_online := by
    intro honline
    cases honline

theorem readyState?_onerror :
    s.onerror.readyState? =
      s.readyState?.map fun r => if r = .connecting ∨ r = .opened then .closing else r := by
  cases hws : s.ws with
  | none => simp [readyState?, WsState.onerror, hws]
  | some i =>
      cases hs : s.sockets[i]? with
      | none => simp [readyState?, WsState.onerror, closeAt, hws, hs]
      | some socket =>
          have hclose : socket.close.readyState =
              if socket.readyState = .connecting ∨ socket.readyState = .opened then .closing
              else socket.readyState := by
            cases hst : socket.readyState <;> simp [Socket.close, Socket.live, hst]
          simp [readyState?, WsState.onerror, closeAt, hws, hs, hclose]

/-- `ws.close()` finds the socket closed. -/
theorem onerror_of_closed (hclosed : s.readyState? = some .closed) : s.onerror = s := by
  obtain ⟨i, socket, hws, hs, hstate⟩ := readyState?_eq_some.1 hclosed
  have hclose : closeAt s.sockets i = s.sockets := by
    refine List.ext_getElem? fun j => ?_
    by_cases hij : i = j
    · subst hij
      simp [closeAt, hs, Socket.close, Socket.live, hstate]
    · simp [closeAt, hij]
  calc
    s.onerror = { s with sockets := closeAt s.sockets i } := by
      simp only [WsState.onerror, hws, Option.elim_some]
    _ = s := by rw [hclose]

theorem handle_closed (failed : Bool) (hclosed : s.readyState? = some .closed) :
    s.handle true (.closed failed) = s.onclose := by
  cases failed with
  | true => exact congrArg WsState.onclose (onerror_of_closed hclosed)
  | false => rfl

/-- A late error of an earlier socket closes the current one, which then reports its end. -/
theorem Tidy.onerror (h : s.Tidy) : s.onerror.Tidy where
  toWired := h.toWired.onerror
  sole := by
    cases hws : s.ws with
    | none =>
        have hsole := h.sole
        rw [hws] at hsole
        simpa [WsState.onerror, hws] using hsole
    | some i =>
        have hsole := h.sole
        rw [hws] at hsole
        simpa [WsState.onerror, closeAt, hws] using hsole.modify fun _ hspent => hspent.close
  away := h.away
  online_of_opened := by
    intro hst
    rw [readyState?_onerror] at hst
    cases hr : s.readyState? with
    | none => simp [hr] at hst
    | some r => cases r <;> simp [hr] at hst
  of_online := by
    intro honline
    rw [readyState?_onerror]
    rcases h.of_online honline with hr | hr <;> simp [hr]

section Event

variable {i : Nat} {socket socket' : Socket} {e : SocketEvent}

/-- A spent socket can only be closed, and without a handler. -/
theorem Tidy.closed_of_spent (h : s.Tidy) (hs : s.sockets[i]? = some socket) (hne : s.ws ≠ some i)
    (he : socket.after e = some socket') :
    (∃ failed, e = .closed failed) ∧ socket.onclose = false ∧
      { s with sockets := s.sockets.set i socket' }.Tidy := by
  have hspent := h.sole i socket hs hne
  have hdropped : socket.readyState = .closing ∧ socket.onclose = false := by
    rcases hspent with hclosed | hdropped
    · cases e <;> simp [Socket.after, hclosed] at he
    · exact hdropped
  obtain ⟨failed, rfl⟩ : ∃ failed, e = .closed failed := by
    cases e with
    | opened => simp [Socket.after, hdropped] at he
    | closing => simp [Socket.after, hdropped] at he
    | closed failed => exact ⟨failed, rfl⟩
  have hstate : ({ s with sockets := s.sockets.set i socket' } : WsState).readyState? =
      s.readyState? := by
    cases hws : s.ws with
    | none => simp [readyState?, hws]
    | some j =>
        have hij : i ≠ j := fun heq => hne (heq ▸ hws)
        simp [readyState?, hws, List.getElem?_set_ne hij]
  refine ⟨⟨failed, rfl⟩, hdropped.2, ?_⟩
  exact
    { toWired := h.toWired.after hs he
      sole := h.sole.set hs he
      away := h.away
      online_of_opened := fun hst => h.online_of_opened (hstate ▸ hst)
      of_online := fun honline => by
        rw [hstate]
        exact h.of_online honline }

theorem Tidy.event (h : s.Tidy) (hs : s.sockets[i]? = some socket)
    (he : socket.after e = some socket') :
    ({ s with sockets := s.sockets.set i socket' }.handle socket.onclose e).Tidy := by
  have hwired := (h.toWired.after hs he).handle socket.onclose e
  have hlt := (List.getElem?_eq_some_iff.1 hs).1
  have hsole := h.sole.set hs he
  by_cases hws : s.ws = some i
  · have haway (page : String) (hpage : s.page = some page) (hno : usesWs page = false) : False := by
      have hnone := (h.away page hpage hno).1
      rw [hws] at hnone
      cases hnone
    have hbefore := readyState?_eq hws hs
    have hafter : ({ s with sockets := s.sockets.set i socket' } : WsState).readyState? =
        some socket'.readyState :=
      readyState?_eq hws (List.getElem?_set_self hlt)
    cases e with
    | opened =>
        simp only [Socket.after, Option.ite_none_right_eq_some, Option.some.injEq] at he
        obtain ⟨-, rfl⟩ := he
        exact
          { hwired with
            sole := hsole
            away := fun page hpage hno => (haway page hpage hno).elim
            online_of_opened := fun _ => rfl
            of_online := fun _ => .inl hafter }
    | closing =>
        simp only [Socket.after, Option.ite_none_right_eq_some, Option.some.injEq] at he
        obtain ⟨-, rfl⟩ := he
        exact
          { hwired with
            sole := hsole
            away := fun page hpage hno => (haway page hpage hno).elim
            online_of_opened := fun hst => by
              have hst' := hafter.symm.trans hst
              cases hst'
            of_online := fun _ => .inr hafter }
    | closed failed =>
        have honclose : socket.onclose = true := by
          obtain ⟨other, hother, hset⟩ := h.stored i hws
          obtain rfl := Option.some.inj (hs.symm.trans hother)
          exact hset
        simp only [Socket.after, Option.ite_none_left_eq_some, Option.some.injEq] at he
        obtain ⟨-, rfl⟩ := he
        have hhandle := handle_closed failed hafter
        rw [← honclose] at hhandle
        rw [hhandle] at hwired ⊢
        exact
          { hwired with
            sole := by simpa [WsState.onclose] using hsole
            away := fun page hpage hno =>
              (haway page (by simpa [WsState.onclose] using hpage) hno).elim
            online_of_opened := fun hst => by
              have hst' := readyState?_scheduleReconnect.symm.trans hst
              cases hafter.symm.trans hst'
            of_online := fun honline => by simp [WsState.onclose] at honline }
  · obtain ⟨⟨failed, rfl⟩, hdropped, htidy⟩ := h.closed_of_spent hs hws he
    rw [hdropped]
    cases failed with
    | true => exact htidy.onerror
    | false => exact htidy

end Event

theorem Tidy.navigate (h : s.Tidy) {hash : String} {constructs : Bool}
    (hok : s.connectsIdle (.navigate hash constructs) = true) :
    (s.navigate hash constructs).Tidy := by
  cases hpage : pageOf hash with
  | none =>
      simp only [WsState.navigate, hpage]
      exact
        { timer := h.timer
          handlers := h.handlers
          stored := h.stored
          sole := h.sole
          away := fun page hp _ => by cases hp
          online_of_opened := h.online_of_opened
          of_online := h.of_online }
  | some page =>
      simp only [WsState.navigate, hpage]
      have hwired : ({ s with page := some page } : WsState).Wired := ⟨h.timer, h.handlers, h.stored⟩
      cases hws : usesWs page with
      | true =>
          have hshown (page' : String) (hp : some page = some page') : usesWs page' = true := by
            rwa [← Option.some.inj hp]
          have htidy : ({ s with page := some page } : WsState).Tidy :=
            { hwired with
              sole := h.sole
              away := fun page' hp hno => by
                rw [hshown page' hp] at hno
                cases hno
              online_of_opened := h.online_of_opened
              of_online := h.of_online }
          have hidle : s.idle = true := by simpa [connectsIdle, hpage, hws] using hok
          exact htidy.connectWebSocket hidle hshown constructs
      | false => exact hwired.tidy_disconnectWebSocket h.sole

theorem Tidy.timeout (h : s.Tidy) {handle : Nat} {constructs : Bool}
    (hmem : handle ∈ s.timers.active) (hidle : s.idle = true) :
    ({ s with
      timers := s.timers.clear handle
      wsReconnectTimer := none }.connectWebSocket constructs).Tidy := by
  have hset := h.timer.eq_of_mem hmem
  have htidy : ({ s with
      timers := s.timers.clear handle
      wsReconnectTimer := none } : WsState).Tidy :=
    { timer := Timers.HeldBy.clear (hset ▸ h.timer)
      handlers := h.handlers
      stored := h.stored
      sole := h.sole
      away := fun page hpage hno => ⟨(h.away page hpage hno).1, rfl⟩
      online_of_opened := h.online_of_opened
      of_online := h.of_online }
  refine htidy.connectWebSocket hidle (fun page hpage => ?_) constructs
  -- There would be no timer on another page.
  by_contra hno
  have hnone := (h.away page hpage (Bool.not_eq_true _ ▸ hno)).2
  rw [hset] at hnone
  cases hnone

theorem Tidy.step (h : s.Tidy) {l : WsLabel} (hok : s.connectsIdle l = true)
    (hstep : s.step l = some t) : t.Tidy := by
  cases l with
  | navigate hash constructs =>
      obtain rfl := Option.some.inj hstep
      exact h.navigate hok
  | timeout handle constructs =>
      simp only [WsState.step, Option.ite_none_right_eq_some, Option.some.injEq] at hstep
      obtain ⟨hmem, rfl⟩ := hstep
      exact h.timeout hmem hok
  | event i e =>
      simp only [WsState.step, Option.bind_eq_some_iff, Option.map_eq_some_iff] at hstep
      obtain ⟨socket, hs, socket', he, rfl⟩ := hstep
      exact h.event hs he

theorem tidy_initial : Tidy {} where
  toWired := wired_initial
  sole := Sole.nil none
  away := fun _ _ _ => ⟨rfl, rfl⟩
  online_of_opened := by
    intro hst
    cases hst
  of_online := by
    intro honline
    cases honline

/-- In a run that makes no connection while the last one is on its way, only `ws` can deliver; the
indicator says whether it does; and once another page is shown there is no timer, and every socket is
closed or will be without a word. -/
theorem dashboard_one_socket (hrun : Within step (fun s l => s.connectsIdle l = true) {} s) :
    (∀ (i : Nat) (socket : Socket), s.sockets[i]? = some socket → socket.live = true → s.ws = some i) ∧
      (s.readyState? = some .opened → s.online = true) ∧
      (s.online = true → s.readyState? = some .opened ∨ s.readyState? = some .closing) ∧
      ∀ page, s.page = some page → page ≠ "dashboard" →
        s.timers.active = [] ∧ s.online = false ∧ ∀ socket ∈ s.sockets, socket.Spent := by
  have htidy : s.Tidy := hrun.invariant (fun _ _ _ h hok hstep => h.step hok hstep) tidy_initial
  refine ⟨fun i socket hs hlive => htidy.sole.eq_of_live hs hlive, htidy.online_of_opened,
    htidy.of_online, fun page hpage hother => ?_⟩
  obtain ⟨hws, htimer⟩ := htidy.away page hpage (by simp [usesWs, hother])
  refine ⟨?_, ?_, ?_⟩
  · rw [htidy.timer, htimer]
    rfl
  · by_contra honline
    have hnone := readyState?_of_ws hws
    rcases htidy.of_online (Bool.not_eq_false _ ▸ honline) with hst | hst <;>
    · rw [hnone] at hst
      cases hst
  · intro socket hsocket
    obtain ⟨i, hi⟩ := List.mem_iff_getElem?.1 hsocket
    exact htidy.sole i socket hi (by simp [hws])

/-- Away from the dashboard and back, the first socket still closing. -/
theorem dashboard_one_socket_returned :
    ∃ s : WsState, s.sockets.map Socket.readyState = [.closing, .opened] ∧ s.ws = some 1 ∧
      s.online = true := by
  let labels : List WsLabel :=
    [.navigate "dashboard" true, .event 0 .opened, .navigate "jobs" true, .navigate "dashboard" true,
      .event 1 .opened]
  have hmeets : runMeets step connectsIdle {} labels = true := by decide
  have hrun : (run step {} labels).any (fun s =>
      decide (s.readyState? = some .opened ∧ s.sockets = [⟨.closing, false⟩, ⟨.opened, true⟩])) =
      true := by
    decide
  obtain ⟨s, hwithin, htest⟩ := exists_within_of_run hmeets hrun
  obtain ⟨hopened, hsockets⟩ := of_decide_eq_true htest
  obtain ⟨hone, honline, -⟩ := dashboard_one_socket hwithin
  exact ⟨s, by rw [hsockets]; rfl, hone 1 _ (by rw [hsockets]; rfl) rfl, honline hopened⟩

/-- Showing the dashboard once more while it connects makes a second socket beside the first. -/
example : (run step {} [.navigate "dashboard" true, .navigate "dashboard" true, .event 0 .opened,
    .event 1 .opened]).any (fun s => s.sockets.all Socket.live) = true := by
  decide

end WsState
end Web
end Pgaio
