import Pgaio.Go.Slices
import Pgaio.Go.Time
import Pgaio.Store.Recency

/-!
# PlanStore — the saved query plans

`service/plan_store.go`.  As in the store of jobs, every exported method runs under the mutex of the
store, and the clock reading of `Save` is its argument `now`.
-/

namespace Pgaio
namespace Service

open Go

/-- The two numbers of a plan ID. -/
structure PlanID where
  unix : Int
  seq : Nat
  deriving DecidableEq, Repr

/-- `fmt.Sprintf("plan-%d-%06d", …)`. -/
def PlanID.text (id : PlanID) : String :=
  "plan-" ++ itoa id.unix ++ "-" ++ padLeft 6 id.seq

structure SavedPlan where
  id : PlanID
  name : String
  query : String
  database : String
  profile : String
  mode : String
  createdAt : Time
  plan : List UInt8
  deriving DecidableEq, Repr

structure PlanStore where
  plans : AList (fun _ : PlanID => SavedPlan) := ∅
  order : List PlanID := []
  limit : Nat := 100
  seq : Nat := 0

namespace PlanStore

/-- The loop of `Save` that drops the oldest plans; each round shortens the order by one. -/
def trimRounds : Nat → PlanStore → PlanStore
  | 0, s => s
  | n + 1, s =>
      match s.order.getLast? with
      | none => s
      | some last =>
          trimRounds n { s with plans := s.plans.erase last, order := s.order.dropLast }

/-- The entry that `Save` creates at `now`. -/
def newPlan (s : PlanStore) (now : Time) (name query database profile mode : String)
    (plan : List UInt8) : SavedPlan :=
  { id := { unix := now.unix, seq := s.seq + 1 }
    name := name
    query := query
    database := database
    profile := profile
    mode := mode
    createdAt := now
    plan := plan }

/-- The store with the new entry, before the oldest ones are dropped. -/
def add (s : PlanStore) (entry : SavedPlan) : PlanStore :=
  { s with
    plans := s.plans.insert entry.id entry
    order := entry.id :: s.order
    seq := s.seq + 1 }

def save (s : PlanStore) (now : Time) (name query database profile mode : String)
    (plan : List UInt8) : SavedPlan × PlanStore :=
  let entry := s.newPlan now name query database profile mode plan
  let added := s.add entry
  (entry, trimRounds (added.order.length - added.limit) added)

def get (s : PlanStore) (id : PlanID) : Option SavedPlan :=
  s.plans.lookup id

def list (s : PlanStore) (limit : Int) : List SavedPlan :=
  let limit := if limit ≤ 0 ∨ limit > s.limit then 50 else limit.toNat
  sortSliceStable (fun a b => a.createdAt.after b.createdAt)
    (Store.collect s.get (fun _ => true) limit [] s.order)

end PlanStore

/-! ## Calls -/

inductive PlanCall where
  | save (name query database profile mode : String) (plan : List UInt8)
  | get (id : PlanID)
  | list (limit : Int)
  deriving DecidableEq, Repr

@[reducible] def PlanCall.Resp : PlanCall → Type
  | .save _ _ _ _ _ _ => SavedPlan
  | .get _ => Option SavedPlan
  | .list _ => List SavedPlan

/-- The effect of one call on the store. -/
def PlanCall.exec (s : PlanStore) (now : Time) : (c : PlanCall) → c.Resp × PlanStore
  | .save name query database profile mode plan =>
      s.save now name query database profile mode plan
  | .get id => (s.get id, s)
  | .list limit => (s.list limit, s)

end Service
end Pgaio
