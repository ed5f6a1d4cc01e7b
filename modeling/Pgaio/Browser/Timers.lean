import Mathlib.Data.List.Basic

/-!
# Timers — `setTimeout`, `setInterval` and their handles

A timer that has been set stays active until it is cleared; a timeout that fires is cleared by that, an
interval goes on.  Code keeps the handle of a timer in a variable, and `HeldBy` says that the variable
knows of every timer there is.
-/

namespace Pgaio
namespace Browser

/-- Handles are positive, so they count as true. -/
structure Timers where
  active : List Nat := []
  next : Nat := 1
  deriving DecidableEq, Repr

namespace Timers

variable {t : Timers} {v : Option Nat} {handle : Nat}

/-- The handle of the new timer is `t.next`. -/
def set (t : Timers) : Timers :=
  { active := t.active ++ [t.next]
    next := t.next + 1 }

def clear (t : Timers) (handle : Nat) : Timers :=
  { t with active := t.active.erase handle }

/-- `if (v) clear(v)`. -/
def clearHandle (t : Timers) (v : Option Nat) : Timers :=
  v.elim t t.clear

/-- The variable holds the handle of the only active timer. -/
def HeldBy (t : Timers) (v : Option Nat) : Prop :=
  t.active = v.toList

theorem HeldBy.set (h : t.HeldBy none) : t.set.HeldBy (some t.next) := by
  unfold HeldBy at h
  simp [HeldBy, Timers.set, h]

theorem HeldBy.clear (h : t.HeldBy (some handle)) : (t.clear handle).HeldBy none := by
  unfold HeldBy at h
  simp [HeldBy, Timers.clear, h]

theorem HeldBy.clearHandle (h : t.HeldBy v) : (t.clearHandle v).HeldBy none := by
  cases v with
  | none => exact h
  | some handle => exact h.clear

/-- A timer that fires is the one whose handle is held. -/
theorem HeldBy.eq_of_mem (h : t.HeldBy v) (hmem : handle ∈ t.active) : v = some handle := by
  unfold HeldBy at h
  rw [h] at hmem
  exact Option.mem_toList.1 hmem

end Timers
end Browser
end Pgaio
