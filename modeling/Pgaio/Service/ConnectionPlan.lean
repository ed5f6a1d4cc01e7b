import Pgaio.Service.TunerBudget

/-!
# ConnectionPlan — connections for PostgreSQL and the pool in front of it

`calculateConnections` of `service/tuner.go`.  With PgBouncer in front, PostgreSQL needs fewer
connections than the application opens; the plan divides them among the pools.
-/

namespace Pgaio
namespace Service

open Go

structure PGConnectionConfig where
  maxConnections : Int
  superuserReservedConnections : Int
  deriving DecidableEq, Repr

structure PgBouncerConnectionConfig where
  maxClientConn : Int
  defaultPoolSize : Int
  minPoolSize : Int
  reservePoolSize : Int
  maxDbConnections : Int
  deriving DecidableEq, Repr

structure ConnectionCalcResult where
  pg : PGConnectionConfig
  pgBouncer : PgBouncerConnectionConfig
  summary : String
  deriving DecidableEq, Repr

def connectionSummary (expectedConn pgMaxConn defaultPoolSize : Int) : String :=
  "With " ++ itoa expectedConn ++ " expected app connections, PgBouncer will multiplex them into " ++
    itoa pgMaxConn ++ " PostgreSQL connections (pool_size=" ++ itoa defaultPoolSize ++
      " per database). This gives a " ++ itoa (expectedConn.tdiv pgMaxConn) ++
        "x multiplexing ratio, significantly reducing PostgreSQL resource usage."

def calculateConnections (sys : SystemInfo) (req : TuneRequest) : ConnectionCalcResult :=
  let expectedConn := if req.expectedConnections ≤ 0 then 100 else req.expectedConnections
  let pgMaxConn := calculatePGMaxConn expectedConn sys.cpuCores
  let superuserReserved := 3
  let defaultPoolSize := (pgMaxConn - superuserReserved).tdiv 2
  let defaultPoolSize := if defaultPoolSize < 5 then 5 else defaultPoolSize
  let minPoolSize := defaultPoolSize.tdiv 4
  let minPoolSize := if minPoolSize < 2 then 2 else minPoolSize
  let reservePoolSize := defaultPoolSize.tdiv 4
  let reservePoolSize := if reservePoolSize < 2 then 2 else reservePoolSize
  { pg :=
      { maxConnections := pgMaxConn
        superuserReservedConnections := superuserReserved }
    pgBouncer :=
      { maxClientConn := expectedConn
        defaultPoolSize := defaultPoolSize
        minPoolSize := minPoolSize
        reservePoolSize := reservePoolSize
        maxDbConnections := pgMaxConn - superuserReserved }
    summary := connectionSummary expectedConn pgMaxConn defaultPoolSize }

/-- The parts of the plan fit together, and into the settings that are recommended with it. -/
structure CoherentPlan (recs : List ConfigRecommendation) (plan : ConnectionCalcResult) : Prop where
  atLeast : 50 ≤ plan.pg.maxConnections
  atMost : plan.pg.maxConnections ≤ 500
  minimum : plan.pgBouncer.minPoolSize ≤ plan.pgBouncer.defaultPoolSize
  reserve : plan.pgBouncer.defaultPoolSize + plan.pgBouncer.reservePoolSize ≤
    plan.pgBouncer.maxDbConnections
  superuser : plan.pgBouncer.maxDbConnections + plan.pg.superuserReservedConnections =
    plan.pg.maxConnections
  recommended : recommendedNumber recs "max_connections" = some plan.pg.maxConnections

variable (sys : SystemInfo) (req : TuneRequest) (cur : CurrentSettings)

theorem maxConnections_plan :
    (calculateConnections sys req).pg.maxConnections = pgMaxConn sys req :=
  rfl

/-- Half of 47 to 497 connections and a quarter of the half are never below the minima. -/
theorem pgBouncer_plan :
    (calculateConnections sys req).pgBouncer =
      { maxClientConn := if req.expectedConnections ≤ 0 then 100 else req.expectedConnections
        defaultPoolSize := (pgMaxConn sys req - 3) / 2
        minPoolSize := (pgMaxConn sys req - 3) / 2 / 4
        reservePoolSize := (pgMaxConn sys req - 3) / 2 / 4
        maxDbConnections := pgMaxConn sys req - 3 } := by
  have hrange : 50 ≤ pgMaxConn sys req ∧ pgMaxConn sys req ≤ 500 :=
    calculatePGMaxConn_range _ _
  have hhalf : (pgMaxConn sys req - 3).tdiv 2 = (pgMaxConn sys req - 3) / 2 :=
    Int.tdiv_eq_ediv_of_nonneg (by omega)
  have hquarter : ((pgMaxConn sys req - 3) / 2).tdiv 4 = (pgMaxConn sys req - 3) / 2 / 4 :=
    Int.tdiv_eq_ediv_of_nonneg (by omega)
  have hdefault : ¬(pgMaxConn sys req - 3) / 2 < 5 := by omega
  have hmin : ¬(pgMaxConn sys req - 3) / 2 / 4 < 2 := by omega
  unfold pgMaxConn at hhalf hquarter hdefault hmin
  simp only [calculateConnections, hhalf, hquarter, if_neg hdefault, if_neg hmin, pgMaxConn]

theorem coherentPlan_calculate :
    CoherentPlan (calculate sys req cur) (calculateConnections sys req) := by
  have hrange : 50 ≤ pgMaxConn sys req ∧ pgMaxConn sys req ≤ 500 :=
    calculatePGMaxConn_range _ _
  constructor
  · exact hrange.1
  · exact hrange.2
  · rw [pgBouncer_plan]
    dsimp only
    omega
  · rw [pgBouncer_plan]
    dsimp only
    omega
  · rw [pgBouncer_plan, maxConnections_plan]
    exact Int.sub_add_cancel _ _
  · exact recommended_maxConnections sys req cur

end Service
end Pgaio
