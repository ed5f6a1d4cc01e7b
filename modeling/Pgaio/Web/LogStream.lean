import Pgaio.Web.DashboardSocket
import Mathlib.Data.List.DropRight

/-!
# LogStream — the page that follows the server log

`web/static/js/logs.js`: a visit of the page first loads recent lines, and when they have come, or failed to
come, it connects a socket whose messages are appended.  The output keeps 2000 nodes of the document, and
every line is two of them.

`one_log_stream` needs that the lines of an earlier visit do not arrive later: they would connect once more,
and the socket that is replaced then resets `_ws` when it is closed, so that nobody closes the new one.
-/

namespace Pgaio
namespace Web

open Browser Transition

/-! ## The output -/

/-- A child of the element `log-output`. -/
inductive LogNode where
  | span (line : String)
  | text (s : String)
  deriving DecidableEq, Repr

/-- What the text made by `colorize` is parsed to; the class of the span is left out. -/
def colorize (line : String) : List LogNode :=
  [.span line, .text "\n"]

/-- The most recent nodes. -/
def logWindow : Nat := 2000

/-- The loop that removes nodes from the front, for an output of `n` nodes too many. -/
def removeFirst : Nat → List LogNode → List LogNode
  | 0, nodes => nodes
  | n + 1, nodes => removeFirst n nodes.tail

def appendLine (nodes : List LogNode) (line : String) : List LogNode :=
  let nodes := nodes ++ colorize line
  removeFirst (nodes.length - logWindow) nodes

/-- `el.innerHTML = lines.map(…).join('') || 'no logs'`. -/
def renderRecent (lines : List String) : List LogNode :=
  if lines = [] then [.text "no logs"] else lines.flatMap colorize

theorem removeFirst_eq (n : Nat) (nodes : List LogNode) : removeFirst n nodes = nodes.drop n := by
  induction n generalizing nodes with
  | zero => rfl
  | succ n ih => rw [removeFirst, ih, List.drop_tail]

theorem appendLine_eq (nodes : List LogNode) (line : String) :
    appendLine nodes line = (nodes ++ colorize line).rtake logWindow := by
  rw [appendLine, removeFirst_eq, List.rtake]

/-- The end of a list whose end was kept already. -/
theorem rtake_append_of_rtake {α : Type} (n : Nat) (xs ys : List α) :
    (xs.rtake n ++ ys).rtake n = (xs ++ ys).rtake n := by
  simp only [List.rtake_eq_reverse_take_reverse, List.reverse_append, List.reverse_reverse,
    List.take_append, List.take_take, List.length_reverse]
  have hmin : min (n - ys.length) n = n - ys.length := by omega
  rw [hmin]

theorem foldl_appendLine (lines : List String) (nodes : List LogNode) (h : nodes.length ≤ logWindow) :
    lines.foldl appendLine nodes = (nodes ++ lines.flatMap colorize).rtake logWindow := by
  induction lines using List.reverseRecOn with
  | nil =>
      have hdrop : nodes.length - logWindow = 0 := by omega
      simp [List.rtake, hdrop]
  | append_singleton lines line ih =>
      rw [List.foldl_append, List.foldl_cons, List.foldl_nil, ih, appendLine_eq, rtake_append_of_rtake]
      simp

/-- Whole lines are kept, half as many as nodes. -/
theorem rtake_flatMap_colorize (n : Nat) (lines : List String) :
    (lines.flatMap colorize).rtake (2 * n) = (lines.rtake n).flatMap colorize := by
  have hlength : (lines.flatMap colorize).length = 2 * lines.length := by
    simp [List.length_flatMap, colorize, Nat.mul_comm]
  have hdrop : ∀ (k : Nat) (lines : List String),
      (lines.flatMap colorize).drop (2 * k) = (lines.drop k).flatMap colorize := by
    intro k
    induction k with
    | zero => simp
    | succ k ih =>
        intro lines
        cases lines with
        | nil => simp
        | cons line lines =>
            rw [Nat.mul_succ, List.flatMap_cons, List.drop_succ_cons, ← ih]
            rfl
  have hsub : 2 * lines.length - 2 * n = 2 * (lines.length - n) := by omega
  rw [List.rtake, hlength, hsub, hdrop, List.rtake]

/-- After recent lines and any number of messages the output shows the last 1000 of all of them.  The
text that stands for no recent lines is a node like any other, and stays until enough lines follow. -/
theorem log_window (recent messages : List String) (hshort : recent.length ≤ 1000) :
    messages.foldl appendLine (renderRecent recent) =
      if recent = [] then (.text "no logs" :: messages.flatMap colorize).rtake 2000
      else ((recent ++ messages).rtake 1000).flatMap colorize := by
  unfold renderRecent
  by_cases hrecent : recent = []
  · rw [if_pos hrecent, if_pos hrecent]
    exact foldl_appendLine messages _ (by decide)
  · have hlength : (recent.flatMap colorize).length ≤ logWindow := by
      simp [List.length_flatMap, colorize, logWindow]
      omega
    rw [if_neg hrecent, if_neg hrecent, foldl_appendLine messages _ hlength, ← List.flatMap_append]
    exact rtake_flatMap_colorize 1000 _

theorem log_window_three :
    ["b", "c"].foldl appendLine (renderRecent ["a"]) = ["a", "b", "c"].flatMap colorize :=
  (log_window ["a"] ["b", "c"] (by decide)).trans (by decide)

/-! ## The socket -/

structure LogState where
  page : Option String := none
  /-- The children of `log-output`, if the document has it. -/
  output : Option (List LogNode) := none
  sockets : List Socket := []
  /-- The field `_ws`. -/
  ws : Option Nat := none
  /-- How often `render` has been called. -/
  visits : Nat := 0
  /-- The calls of `render` that still wait for `loadRecent`. -/
  loading : List Nat := []
  deriving DecidableEq, Repr

/-- `answer` is what `loadRecent` gets, an error for an exception; `constructs` says whether
`new WebSocket` returns. -/
inductive LogLabel where
  | navigate (hash : String)
  | loaded (visit : Nat) (answer : Except String (List String)) (constructs : Bool)
  | event (i : Nat) (e : SocketEvent)
  | message (i : Nat) (line : String)
  | clear

namespace LogState

def destroy (s : LogState) : LogState :=
  { s with
    sockets := s.ws.elim s.sockets fun i => s.sockets.modify i Socket.drop
    ws := none }

def render (s : LogState) : LogState :=
  { s with
    output := some [.text "loading..."]
    loading := s.loading ++ [s.visits + 1]
    visits := s.visits + 1 }

def navigate (s : LogState) (hash : String) : LogState :=
  let s := { s.destroy with
    page := pageOf hash
    output := none }
  if pageOf hash = some "logs" then s.render else s

/-- `loadRecent` after its `await`, on the element of that time. -/
def showRecent (s : LogState) : Except String (List String) → LogState
  | .ok lines => { s with output := s.output.map fun _ => renderRecent lines }
  | .error message => { s with output := s.output.map fun _ => [.text ("error loading logs: " ++ message)] }

/-- The socket that is replaced keeps its `onclose`. -/
def connectWs (s : LogState) (constructs : Bool) : LogState :=
  let s := { s with
    sockets := s.ws.elim s.sockets (closeAt s.sockets)
    ws := none }
  if constructs then
    { s with
      ws := some s.sockets.length
      sockets := s.sockets ++ [{}] }
  else s

def onmessage (s : LogState) (line : String) : LogState :=
  if line = "" then s else { s with output := s.output.map fun nodes => appendLine nodes line }

/-- `this._ws = null`, whichever socket `_ws` is by then. -/
def onclose (s : LogState) : LogState :=
  { s with ws := none }

def handle (s : LogState) (hasOnclose : Bool) : SocketEvent → LogState
  | .closed _ => if hasOnclose then s.onclose else s
  | _ => s

def step (s : LogState) : LogLabel → Option LogState
  | .navigate hash => some (s.navigate hash)
  | .loaded visit answer constructs =>
      if visit ∈ s.loading then
        some (({ s with loading := s.loading.erase visit }.showRecent answer).connectWs constructs)
      else none
  | .event i e =>
      s.sockets[i]?.bind fun socket => (socket.after e).map fun socket' =>
        { s with sockets := s.sockets.set i socket' }.handle socket.onclose e
  | .message i line =>
      s.sockets[i]?.bind fun socket =>
        if socket.readyState = .opened then some (s.onmessage line) else none
  | .clear => some { s with output := s.output.map fun _ => [] }

/-- Lines arrive for the visit that is going on only. -/
def loadsCurrent (s : LogState) : LogLabel → Bool
  | .loaded visit _ _ => s.page = some "logs" && visit = s.visits
  | _ => true

/-- One connection, and only while the page is shown and after its lines have come. -/
structure Tidy (s : LogState) : Prop where
  sole : Sole s.sockets s.ws
  shown : s.ws ≠ none → s.page = some "logs"
  waiting : s.page = some "logs" → s.visits ∈ s.loading → s.ws = none
  once : s.loading.Nodup
  numbered : ∀ visit ∈ s.loading, visit ≤ s.visits

variable {s t : LogState}

theorem tidy_initial : Tidy {} where
  sole := Sole.nil none
  shown := fun h => absurd rfl h
  waiting := fun _ h => by cases h
  once := List.nodup_nil
  numbered := fun _ h => by cases h

theorem sole_destroy (h : Sole s.sockets s.ws) : Sole s.destroy.sockets none := by
  cases hws : s.ws with
  | none =>
      rw [hws] at h
      simpa [LogState.destroy, hws] using h
  | some i =>
      rw [hws] at h
      simpa [LogState.destroy, hws] using h.drop

theorem Tidy.navigate (h : s.Tidy) (hash : String) : (s.navigate hash).Tidy := by
  have hsole := sole_destroy h.sole
  unfold LogState.navigate
  split
  · rename_i hlogs
    have hnew : s.visits + 1 ∉ s.loading := by
      intro hmem
      have hle := h.numbered _ hmem
      omega
    refine ⟨hsole, fun hws => absurd rfl hws, fun _ _ => rfl, ?_, ?_⟩
    · exact List.nodup_append.2 ⟨h.once, List.pairwise_singleton _ _, by
        intro a ha b hb heq
        obtain rfl := List.mem_singleton.1 hb
        exact hnew (heq ▸ ha)⟩
    · intro visit hvisit
      rcases List.mem_append.1 hvisit with hold | hlast
      · exact Nat.le_succ_of_le (h.numbered visit hold)
      · exact (List.mem_singleton.1 hlast).le
  · rename_i hother
    exact ⟨hsole, fun hws => absurd rfl hws, fun hpage => absurd hpage hother, h.once, h.numbered⟩

/-- There is no earlier socket to be replaced. -/
theorem Tidy.loaded (h : s.Tidy) {answer : Except String (List String)} {constructs : Bool}
    (hpage : s.page = some "logs") (hmem : s.visits ∈ s.loading) :
    (({ s with loading := s.loading.erase s.visits }.showRecent answer).connectWs constructs).Tidy := by
  have hws := h.waiting hpage hmem
  have hsole := h.sole
  rw [hws] at hsole
  have hgone : s.visits ∉ s.loading.erase s.visits := h.once.not_mem_erase
  have honce := h.once.erase s.visits
  have hnumbered (visit : Nat) (hvisit : visit ∈ s.loading.erase s.visits) : visit ≤ s.visits :=
    h.numbered visit (List.mem_of_mem_erase hvisit)
  cases constructs with
  | false =>
      cases answer <;>
      · simp only [LogState.showRecent, LogState.connectWs, hws]
        exact ⟨hsole, fun hne => absurd rfl hne, fun _ _ => rfl, honce, hnumbered⟩
  | true =>
      have hnew := hsole.append (fun _ _ hnone => by cases hnone) {}
      cases answer <;>
      · simp only [LogState.showRecent, LogState.connectWs, hws]
        exact ⟨hnew, fun _ => hpage, fun _ hvisit => absurd hvisit hgone, honce, hnumbered⟩

theorem Tidy.event (h : s.Tidy) {i : Nat} {socket socket' : Socket} {e : SocketEvent}
    (hs : s.sockets[i]? = some socket) (he : socket.after e = some socket') :
    ({ s with sockets := s.sockets.set i socket' }.handle socket.onclose e).Tidy := by
  have hset : ({ s with sockets := s.sockets.set i socket' } : LogState).Tidy :=
    ⟨h.sole.set hs he, h.shown, h.waiting, h.once, h.numbered⟩
  cases e with
  | opened => exact hset
  | closing => exact hset
  | closed failed =>
      cases honclose : socket.onclose with
      | false => exact hset
      | true =>
          -- A handler is left only to the current socket, which is closed now.
          have hopen : socket.readyState ≠ .closed ∧ socket'.Spent := by
            simp only [Socket.after, Option.ite_none_left_eq_some, Option.some.injEq] at he
            obtain ⟨hopen, rfl⟩ := he
            exact ⟨hopen, .inl rfl⟩
          have hws : s.ws = some i := by
            by_contra hne
            rcases h.sole i socket hs hne with hclosed | ⟨-, hdropped⟩
            · exact hopen.1 hclosed
            · rw [honclose] at hdropped
              cases hdropped
          refine ⟨fun j other hother _ => ?_, fun hne => absurd rfl hne, fun _ _ => rfl, h.once,
            h.numbered⟩
          by_cases hij : i = j
          · subst hij
            have hlt := (List.getElem?_eq_some_iff.1 hs).1
            have hself : (s.sockets.set i socket')[i]? = some other := hother
            rw [List.getElem?_set_self hlt] at hself
            obtain rfl := Option.some.inj hself
            exact hopen.2
          · have hold : (s.sockets.set i socket')[j]? = some other := hother
            rw [List.getElem?_set_ne hij] at hold
            refine h.sole j other hold fun heq => hij ?_
            rw [hws] at heq
            exact Option.some.inj heq

theorem Tidy.step (h : s.Tidy) {l : LogLabel} (hok : s.loadsCurrent l = true)
    (hstep : s.step l = some t) : t.Tidy := by
  cases l with
  | navigate hash =>
      obtain rfl := Option.some.inj hstep
      exact h.navigate hash
  | loaded visit answer constructs =>
      simp only [loadsCurrent, Bool.and_eq_true, decide_eq_true_eq] at hok
      obtain ⟨hpage, rfl⟩ := hok
      simp only [LogState.step, Option.ite_none_right_eq_some, Option.some.injEq] at hstep
      obtain ⟨hmem, rfl⟩ := hstep
      exact h.loaded hpage hmem
  | event i e =>
      simp only [LogState.step, Option.bind_eq_some_iff, Option.map_eq_some_iff] at hstep
      obtain ⟨socket, hs, socket', he, rfl⟩ := hstep
      exact h.event hs he
  | message i line =>
      simp only [LogState.step, Option.bind_eq_some_iff, Option.ite_none_right_eq_some,
        Option.some.injEq] at hstep
      obtain ⟨socket, -, -, rfl⟩ := hstep
      unfold LogState.onmessage
      split
      · exact h
      · exact ⟨h.sole, h.shown, h.waiting, h.once, h.numbered⟩
  | clear =>
      obtain rfl := Option.some.inj hstep
      exact ⟨h.sole, h.shown, h.waiting, h.once, h.numbered⟩

/-- Lines of the first visit that arrive after those of the second: in the end two sockets deliver on
another page. -/
example : (run step {} [.navigate "logs", .navigate "logs", .loaded 2 (.ok []) true, .loaded 1 (.ok []) true,
    .event 0 (.closed true), .navigate "jobs", .event 1 .opened]).any (fun s =>
      decide (s.page = some "jobs" ∧ s.sockets = [⟨.closed, true⟩, ⟨.opened, true⟩])) = true := by
  decide

end LogState
end Web
end Pgaio
