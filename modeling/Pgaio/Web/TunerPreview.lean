import Pgaio.Browser.Numbers
import Pgaio.Service.ConnectionPlan

/-!
# TunerPreview — the connection plan that the browser shows

`previewConnections` of `web/static/js/tuner.js`.  While the operator enters the number of expected
connections, the browser shows the plan for it without asking the backend, whose formulas it repeats.
It does not repeat what the backend does about a number that is not positive, and it reads and writes
the digits of a large number as JavaScript does.

`connection_plan_iff` says when both show the same plan.
-/

namespace Pgaio
namespace Web

open Browser Go Service

/-- `x || y` for a number that may be missing; zero counts as missing. -/
def numberOr (x : Option Int) (y : Int) : Int :=
  match x with
  | none => y
  | some x => if x = 0 then y else x

/-- The seven numbers of a connection plan, in the order of the page. -/
structure PlanNumbers where
  maxConnections : Int
  reserved : Int
  maxClientConn : Int
  defaultPoolSize : Int
  minPoolSize : Int
  reservePoolSize : Int
  maxDbConnections : Int
  deriving DecidableEq, Repr

structure ConnPreview where
  numbers : PlanNumbers
  /-- The multiplexing ratio. -/
  ratio : Int
  deriving DecidableEq, Repr

/-- `entered` is the integer whose digits `parseInt` reads, `cpuCores` the one of the system information.
Numbers are doubled and halved exactly, and the other operations are on numbers up to 500. -/
def previewConnections (entered cpuCores : Option Int) : ConnPreview :=
  let conn := numberOr (entered.map number) 200
  let cpu := numberOr (cpuCores.map number) 4
  let pgConn := cpu * 4
  let pgConn := if pgConn < 50 then 50 else pgConn
  let cap := conn / 2
  let cap := if cap < 50 then 50 else cap
  let cap := if 500 < cap then 500 else cap
  let pgConn := if cap < pgConn then cap else pgConn
  let reserved := 3
  let poolSize := max 5 ((pgConn - reserved) / 2)
  { numbers :=
      { maxConnections := pgConn
        reserved := reserved
        maxClientConn := shown conn
        defaultPoolSize := poolSize
        minPoolSize := max 2 (poolSize / 4)
        reservePoolSize := max 2 (poolSize / 4)
        maxDbConnections := pgConn - reserved }
    ratio := shown ⌊rounded (conn / pgConn)⌋ }

/-- The numbers of the backend, as the result of the analysis shows them. -/
def planNumbers (plan : ConnectionCalcResult) : PlanNumbers where
  maxConnections := plan.pg.maxConnections
  reserved := plan.pg.superuserReservedConnections
  maxClientConn := plan.pgBouncer.maxClientConn
  defaultPoolSize := plan.pgBouncer.defaultPoolSize
  minPoolSize := plan.pgBouncer.minPoolSize
  reservePoolSize := plan.pgBouncer.reservePoolSize
  maxDbConnections := plan.pgBouncer.maxDbConnections

variable (sys : SystemInfo) (req : TuneRequest) (cur : CurrentSettings)

/-- The plan is coherent, and the browser shows its numbers for the same machine and request. -/
def MirroredPlan : Prop :=
  CoherentPlan (calculate sys req cur) (calculateConnections sys req) ∧
    (previewConnections (some req.expectedConnections) (some sys.cpuCores)).numbers =
      planNumbers (calculateConnections sys req)

/-! ## The condition -/

/-- Half of the expected connections, from 50 to 500. -/
def connectionCap : Int :=
  min 500 (max 50 (req.expectedConnections / 2))

/-- Four connections for each core are no `int` any more, and what is left of them misses the cap. -/
def CoresOverflow : Prop :=
  maxInt64 < sys.cpuCores * 4 ∧ max 50 (wrapInt64 (sys.cpuCores * 4)) < connectionCap req

instance : Decidable (CoresOverflow sys req) :=
  inferInstanceAs (Decidable (_ ∧ _))

/-- An integer whose digits a number of JavaScript keeps. -/
def KeepsDigits (n : Int) : Prop :=
  shown (number n) = n

instance (n : Int) : Decidable (KeepsDigits n) :=
  inferInstanceAs (Decidable (_ = _))

theorem keepsDigits_of_lt {n : Int} (h : n.natAbs < 2 ^ 53) : KeepsDigits n :=
  shown_number_of_lt h

/-! ## Comparing the formulas -/

/-- What the browser makes of cores and expected connections. -/
theorem numbers_previewConnections {conn cores : Int} (hconn : conn ≠ 0) (hcores : 1 ≤ cores) :
    (previewConnections (some conn) (some cores)).numbers =
      let pgConn := min (min 500 (max 50 (number conn / 2))) (max 50 (number cores * 4))
      { maxConnections := pgConn
        reserved := 3
        maxClientConn := shown (number conn)
        defaultPoolSize := (pgConn - 3) / 2
        minPoolSize := (pgConn - 3) / 2 / 4
        reservePoolSize := (pgConn - 3) / 2 / 4
        maxDbConnections := pgConn - 3 } := by
  have hcores' : number cores ≠ 0 := (number_pos (by omega)).ne'
  have hconn' : number conn ≠ 0 := by
    rcases lt_or_gt_of_ne hconn with hneg | hpos
    · exact (number_neg hneg).ne
    · exact (number_pos hpos).ne'
  have hcap : (if 500 < (if number conn / 2 < 50 then 50 else number conn / 2) then 500
      else (if number conn / 2 < 50 then 50 else number conn / 2)) =
        min 500 (max 50 (number conn / 2)) := by
    split_ifs <;> omega
  have hpgConn : (if min 500 (max 50 (number conn / 2)) <
        (if number cores * 4 < 50 then 50 else number cores * 4) then
      min 500 (max 50 (number conn / 2)) else (if number cores * 4 < 50 then 50 else number cores * 4)) =
        min (min 500 (max 50 (number conn / 2))) (max 50 (number cores * 4)) := by
    split_ifs <;> omega
  simp only [previewConnections, Option.map_some, numberOr, if_neg hconn', if_neg hcores', hcap, hpgConn]
  -- 50 connections leave 23 to a pool, more than either minimum.
  generalize hc : min (min 500 (max 50 (number conn / 2))) (max 50 (number cores * 4)) = c
  have hlow : 50 ≤ c := by omega
  have hpool : max 5 ((c - 3) / 2) = (c - 3) / 2 := by omega
  have hquarter : max 2 ((c - 3) / 2 / 4) = (c - 3) / 2 / 4 := by omega
  rw [hpool, hquarter]

/-- The cap is the same for the number that the page has: both are cut off at 500. -/
theorem min_number_half {n : Int} (h : 0 < n) : min 500 (max 50 (number n / 2)) = min 500 (max 50 (n / 2)) := by
  rcases lt_or_ge n (2 ^ 53) with hlt | hge
  · rw [number_of_lt (by omega)]
  · have hlarge := le_number hge
    omega

theorem min_number_cores {cap n : Int} (hcap : cap ≤ 500) (h : 1 ≤ n) :
    min cap (max 50 (number n * 4)) = min cap (max 50 (n * 4)) := by
  rcases lt_or_ge n (2 ^ 53) with hlt | hge
  · rw [number_of_lt (by omega)]
  · have hlarge := le_number hge
    omega

/-- What the backend makes of a positive number of expected connections. -/
theorem pgMaxConn_of_pos (h : 0 < req.expectedConnections) :
    pgMaxConn sys req = min (connectionCap req) (max 50 (wrapInt64 (sys.cpuCores * 4))) := by
  have hhalf : req.expectedConnections.tdiv 2 = req.expectedConnections / 2 :=
    Int.tdiv_eq_ediv_of_nonneg (by omega)
  unfold pgMaxConn connectionCap
  dsimp only
  rw [if_neg (Int.not_le.2 h)]
  unfold calculatePGMaxConn
  rw [hhalf]
  generalize wrapInt64 (sys.cpuCores * 4) = quadruple
  dsimp only
  split_ifs <;> omega

/-- For a positive number the plans agree when their first numbers do and the page shows the number. -/
theorem mirrored_iff (hcores : 1 ≤ sys.cpuCores) (h : 0 < req.expectedConnections) :
    (previewConnections (some req.expectedConnections) (some sys.cpuCores)).numbers =
        planNumbers (calculateConnections sys req) ↔
      KeepsDigits req.expectedConnections ∧
        min (connectionCap req) (max 50 (sys.cpuCores * 4)) = pgMaxConn sys req := by
  have hcap : min 500 (max 50 (req.expectedConnections / 2)) ≤ 500 := min_le_left _ _
  rw [numbers_previewConnections (by omega) hcores, min_number_half h, min_number_cores hcap hcores]
  unfold planNumbers
  rw [pgBouncer_plan, maxConnections_plan, if_neg (by omega)]
  constructor
  · intro heq
    exact ⟨congrArg PlanNumbers.maxClientConn heq, congrArg PlanNumbers.maxConnections heq⟩
  · rintro ⟨hdigits, heq⟩
    rw [connectionCap] at heq
    rw [heq, hdigits]
    rfl

theorem min_cap_iff {cap quadruple wrapped : Int} (hcap : 50 ≤ cap ∧ cap ≤ 500)
    (hwrapped : wrapped = quadruple ∨ 500 < quadruple) :
    min cap (max 50 quadruple) = min cap (max 50 wrapped) ↔
      ¬(wrapped ≠ quadruple ∧ max 50 wrapped < cap) := by
  omega

/-- The browser shows the plan of the backend exactly for a positive number of connections whose digits
it keeps, as long as the cores do not overflow. -/
theorem connection_plan_iff (hcores : 1 ≤ sys.cpuCores) (hconn : req.expectedConnections ≠ 0) :
    MirroredPlan sys req cur ↔
      0 < req.expectedConnections ∧ KeepsDigits req.expectedConnections ∧ ¬CoresOverflow sys req := by
  unfold MirroredPlan
  rw [and_iff_right (coherentPlan_calculate sys req cur)]
  by_cases hpos : 0 < req.expectedConnections
  · rw [and_iff_right hpos, mirrored_iff sys req hcores hpos, pgMaxConn_of_pos sys req hpos]
    refine and_congr_right fun _ => ?_
    have hcap : 50 ≤ connectionCap req ∧ connectionCap req ≤ 500 := by
      unfold connectionCap
      omega
    have hoverflow : wrapInt64 (sys.cpuCores * 4) ≠ sys.cpuCores * 4 ↔
        maxInt64 < sys.cpuCores * 4 := by
      rw [Ne, wrapInt64_eq_iff]
      unfold IsInt64 minInt64 maxInt64
      omega
    rw [min_cap_iff hcap, hoverflow]
    · rfl
    · -- Cores that overflow are more than enough for the cap.
      by_cases heq : wrapInt64 (sys.cpuCores * 4) = sys.cpuCores * 4
      · exact Or.inl heq
      · have hlarge := hoverflow.1 heq
        unfold maxInt64 at hlarge
        exact Or.inr (by omega)
  · refine iff_of_false ?_ fun h => hpos h.1
    -- The backend plans for 100 connections, the browser for the number itself.
    intro heq
    rw [numbers_previewConnections hconn hcores] at heq
    have hclient : shown (number req.expectedConnections) =
        (planNumbers (calculateConnections sys req)).maxClientConn := congrArg PlanNumbers.maxClientConn heq
    have hshown := shown_nonpos (number_neg (show req.expectedConnections < 0 by omega)).le
    unfold planNumbers at hclient
    rw [pgBouncer_plan, if_pos (by omega)] at hclient
    dsimp only at hclient
    omega

theorem connection_plan_iff_smallMachine : MirroredPlan smallMachine webRequest ∅ :=
  (connection_plan_iff smallMachine webRequest ∅ (by decide) (by decide)).2
    ⟨by decide, keepsDigits_of_lt (by decide), by decide⟩

def negativeRequest : TuneRequest where
  profile := profileWeb
  expectedConnections := -5
  expectedConnections_isInt64 := by decide

/-- The browser shows `-5` where the backend plans for 100 connections. -/
theorem negative_not_mirrored :
    ¬ ∀ (sys : SystemInfo) (req : TuneRequest) (cur : CurrentSettings), 1 ≤ sys.cpuCores →
      req.expectedConnections ≠ 0 → MirroredPlan sys req cur := by
  intro hall
  have hmirrored := (hall smallMachine negativeRequest ∅ (by decide) (by decide)).2
  rw [numbers_previewConnections (by decide) (by decide)] at hmirrored
  have hclient := congrArg PlanNumbers.maxClientConn hmirrored
  exact absurd hclient (by decide +kernel)

end Web
end Pgaio
