import Mathlib.Data.List.Basic

/-!
# WebSocket — the life of sockets in a browser

A socket goes from connecting to opened, closing and closed.  `close()` only starts the closing; the event
`close` comes later, and its handler may have been replaced by `null` in the meantime.  Sockets are kept in
the order of their creation and named by their place.

Code that keeps one socket in a variable relies on `Sole`: every other socket is spent, which is to say that
it delivers nothing more and that nothing happens when it is closed at last.
-/

namespace Pgaio
namespace Browser

inductive ReadyState where
  | connecting
  | opened
  | closing
  | closed
  deriving DecidableEq, Repr

structure Socket where
  readyState : ReadyState := .connecting
  /-- The handler `onclose` is not `null`. -/
  onclose : Bool := true
  deriving DecidableEq, Repr

/-- What happens to a socket from outside. -/
inductive SocketEvent where
  | opened
  /-- The other side starts the closing handshake. -/
  | closing
  /-- The socket is closed for good; if the connection has failed, an event `error` comes first. -/
  | closed (failed : Bool)
  deriving DecidableEq, Repr

namespace Socket

/-- Messages arrive or may still arrive. -/
def live (s : Socket) : Bool :=
  s.readyState = .connecting || s.readyState = .opened

def close (s : Socket) : Socket :=
  if s.live then { s with readyState := .closing } else s

/-- `s.onclose = null; s.close()`. -/
def drop (s : Socket) : Socket :=
  { s with onclose := false }.close

def after (s : Socket) : SocketEvent → Option Socket
  | .opened => if s.readyState = .connecting then some { s with readyState := .opened } else none
  | .closing => if s.readyState = .opened then some { s with readyState := .closing } else none
  | .closed _ => if s.readyState = .closed then none else some { s with readyState := .closed }

/-- Nothing that happens to the socket matters any more. -/
def Spent (s : Socket) : Prop :=
  s.readyState = .closed ∨ (s.readyState = .closing ∧ s.onclose = false)

variable {s s' : Socket}

theorem onclose_of_after {e : SocketEvent} (he : s.after e = some s') : s'.onclose = s.onclose := by
  cases e <;>
  · simp only [Socket.after] at he
    split at he <;> cases he
    rfl

theorem live_of_after {e : SocketEvent} (he : s.after e = some s') (hlive : s'.live = true) :
    s.live = true := by
  cases e with
  | opened =>
      simp only [Socket.after] at he
      split at he
      · rename_i hs
        simp [live, hs]
      · cases he
  | closing =>
      simp only [Socket.after] at he
      split at he <;> cases he
      cases hlive
  | closed failed =>
      simp only [Socket.after] at he
      split at he <;> cases he
      cases hlive

@[simp] theorem onclose_close (s : Socket) : s.close.onclose = s.onclose := by
  unfold Socket.close
  split <;> rfl

/-- `close()` itself never ends a socket. -/
theorem not_closed_close (h : s.readyState ≠ .closed) : s.close.readyState ≠ .closed := by
  unfold Socket.close
  split
  · simp
  · exact h

theorem live_of_close (hlive : s.close.live = true) : s.live = true := by
  unfold Socket.close at hlive
  split at hlive
  · assumption
  · exact hlive

theorem Spent.not_live (h : s.Spent) : s.live = false := by
  rcases h with h | ⟨h, -⟩ <;> simp [live, h]

theorem Spent.close (h : s.Spent) : s.close.Spent := by
  unfold Socket.close
  rw [h.not_live]
  exact h

theorem Spent.after {e : SocketEvent} (h : s.Spent) (he : s.after e = some s') : s'.Spent := by
  cases e with
  | opened => rcases h with h | ⟨h, -⟩ <;> simp [Socket.after, h] at he
  | closing => rcases h with h | ⟨h, -⟩ <;> simp [Socket.after, h] at he
  | closed failed =>
      simp only [Socket.after] at he
      split at he
      · cases he
      · obtain rfl := Option.some.inj he
        exact .inl rfl

theorem spent_drop (s : Socket) : s.drop.Spent := by
  unfold drop close live Spent
  cases s.readyState <;> simp

end Socket

/-- `sockets[i].close()`. -/
def closeAt (sockets : List Socket) (i : Nat) : List Socket :=
  sockets.modify i Socket.close

/-- All sockets but the current one are spent. -/
def Sole (sockets : List Socket) (current : Option Nat) : Prop :=
  ∀ i s, sockets[i]? = some s → current ≠ some i → s.Spent

namespace Sole

variable {sockets : List Socket} {current : Option Nat} {i : Nat} {s : Socket}

theorem nil (current : Option Nat) : Sole [] current := by
  intro i s hs
  cases hs

/-- A live socket is the current one. -/
theorem eq_of_live (h : Sole sockets current) (hs : sockets[i]? = some s) (hlive : s.live = true) :
    current = some i := by
  by_contra hne
  rw [(h i s hs hne).not_live] at hlive
  cases hlive

theorem modify {f : Socket → Socket} (h : Sole sockets current) (hf : ∀ s, s.Spent → (f s).Spent) :
    Sole (sockets.modify i f) current := by
  intro j s' hs' hne
  rw [List.getElem?_modify] at hs'
  obtain ⟨s, hs, rfl⟩ := Option.map_eq_some_iff.1 hs'
  have hspent := h j s hs hne
  split
  · exact hf s hspent
  · exact hspent

theorem set {s' : Socket} {e : SocketEvent} (h : Sole sockets current) (hs : sockets[i]? = some s)
    (he : s.after e = some s') : Sole (sockets.set i s') current := by
  intro j t ht hne
  rw [List.getElem?_set] at ht
  split at ht
  · rename_i hij
    subst hij
    split at ht
    · obtain rfl := Option.some.inj ht
      exact (h i s hs hne).after he
    · cases ht
  · exact h j t ht hne

/-- The current socket is given up. -/
theorem drop (h : Sole sockets (some i)) : Sole (sockets.modify i Socket.drop) none := by
  intro j s' hs' _
  rw [List.getElem?_modify] at hs'
  obtain ⟨s, hs, rfl⟩ := Option.map_eq_some_iff.1 hs'
  by_cases hij : i = j
  · rw [if_pos hij]
    exact s.spent_drop
  · rw [if_neg hij]
    exact h j s hs (fun heq => hij (Option.some.inj heq))

/-- A new socket takes the place of one that is spent. -/
theorem append (h : Sole sockets current)
    (hcurrent : ∀ i s, current = some i → sockets[i]? = some s → s.Spent) (new : Socket) :
    Sole (sockets ++ [new]) (some sockets.length) := by
  intro i s hs hne
  have hlt : i < sockets.length := by
    have hlt := (List.getElem?_eq_some_iff.1 hs).1
    rw [List.length_append, List.length_singleton] at hlt
    have hne' : i ≠ sockets.length := fun heq => hne (congrArg some heq.symm)
    omega
  rw [List.getElem?_append_left hlt] at hs
  by_cases heq : current = some i
  · exact hcurrent i s heq hs
  · exact h i s hs heq

end Sole

end Browser
end Pgaio
