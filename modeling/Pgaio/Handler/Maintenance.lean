import Pgaio.Database.Rows
import Pgaio.Go.Strings
import Pgaio.Model.Types
import Mathlib.Algebra.Order.Field.Basic
import Mathlib.Algebra.Order.Ring.Rat
import Mathlib.Tactic.Linarith

/-!
# Maintenance — the plan of what to vacuum, drop and index

`GetPlan` of `handler/maintenance.go`: three queries, a recommendation for each of their rows, and with
each a text for the SQL editor.
-/

namespace Pgaio
namespace Handler

open Database Go Model

structure Recommendation where
  category : String
  priority : String
  object : String
  action : String
  reason : String
  sql : String
  deriving DecidableEq, Repr

structure VacuumRow where
  schema : String
  table : String
  live : Int
  dead : Int
  totalBytes : Int
  deriving DecidableEq, Repr

structure UnusedIndexRow where
  schema : String
  table : String
  index : String
  scans : Int
  size : Int
  deriving DecidableEq, Repr

structure SeqRow where
  schema : String
  table : String
  seqScan : Int
  idxScan : Int
  size : Int
  deriving DecidableEq, Repr

def quoteIdent (s : String) : String :=
  "\"" ++ replaceAll s '"' "\"\"" ++ "\""

/-- `schema.name` with both names quoted. -/
def quotedName (schema name : String) : String :=
  quoteIdent schema ++ "." ++ quoteIdent name

/-- The percentage, taken as an exact number. -/
def deadPct (live dead : Int) : ℚ :=
  if 0 < live then dead / live * 100 else 0

/-- The table is given the high priority. -/
def IsHigh (r : VacuumRow) : Prop :=
  20 ≤ deadPct r.live r.dead ∧ 100 * 1024 * 1024 ≤ r.totalBytes

instance (r : VacuumRow) : Decidable (IsHigh r) :=
  inferInstanceAs (Decidable (_ ∧ _))

def vacuumRecommendation (r : VacuumRow) : Recommendation :=
  { category := "table"
    priority := if IsHigh r then "high" else "medium"
    object := r.schema ++ "." ++ r.table
    action := if IsHigh r then "pg_repack or VACUUM FULL" else "VACUUM ANALYZE"
    reason := "dead tuples and table size suggest reclaimable space"
    sql := "VACUUM ANALYZE " ++ quotedName r.schema r.table ++ ";" }

def indexRecommendation (r : UnusedIndexRow) : Recommendation :=
  { category := "index"
    priority := "medium"
    object := r.schema ++ "." ++ r.index
    action := "review unused index"
    reason := "index has zero scans and consumes meaningful storage"
    sql := "DROP INDEX CONCURRENTLY " ++ quotedName r.schema r.index ++ ";" }

def seqRecommendation (r : SeqRow) : Recommendation :=
  { category := "query"
    priority := "medium"
    object := r.schema ++ "." ++ r.table
    action := "review missing index"
    reason := "sequential scans dominate on a larger table"
    sql := "-- inspect predicates and create a selective index for " ++ quotedName r.schema r.table }

/-- What the three queries answer. -/
structure PlanPool where
  vacuumRows : Except String (RowStream VacuumRow)
  indexRows : Except String (RowStream UnusedIndexRow)
  seqRows : Except String (RowStream SeqRow)

/-- The rows that a loop over an answer goes through; a query that failed is passed over. -/
def rowsOf {α : Type} : Except String (RowStream α) → List α
  | .error _ => []
  | .ok stream => stream.readable

structure PlanData where
  database : String
  profile : String
  recommendations : List Recommendation
  deriving DecidableEq, Repr

/-- The recommendations, in the order of the three loops. -/
def recommendations (pool : PlanPool) : List Recommendation :=
  (rowsOf pool.vacuumRows).map vacuumRecommendation ++ (rowsOf pool.indexRows).map indexRecommendation ++
    (rowsOf pool.seqRows).map seqRecommendation

def getPlan (getPool : String → String → Except String PlanPool) (db profile : String) :
    Response PlanData :=
  match getPool db profile with
  | .error err => .failure statusInternalServerError ("failed to connect to database: " ++ err)
  | .ok pool =>
      .success statusOK
        { database := db
          profile := profile
          recommendations := recommendations pool }

/-! ## Priorities -/

theorem priority_high_iff (r : VacuumRow) : (vacuumRecommendation r).priority = "high" ↔ IsHigh r := by
  unfold vacuumRecommendation
  dsimp only
  split <;> simp_all

/-- The second table has no fewer dead rows, no more live ones, and is no smaller. -/
structure MoreBloated (r r' : VacuumRow) : Prop where
  live : r'.live ≤ r.live
  dead : r.dead ≤ r'.dead
  totalBytes : r.totalBytes ≤ r'.totalBytes

theorem isHigh_iff (r : VacuumRow) :
    IsHigh r ↔ 0 < r.live ∧ 20 * r.live ≤ 100 * r.dead ∧ 100 * 1024 * 1024 ≤ r.totalBytes := by
  unfold IsHigh deadPct
  by_cases hlive : 0 < r.live
  · have hpos : (0 : ℚ) < r.live := by exact_mod_cast hlive
    have hratio : (20 : ℚ) ≤ r.dead / r.live * 100 ↔ 20 * r.live ≤ 100 * r.dead := by
      rw [div_mul_eq_mul_div, le_div_iff₀ hpos]
      constructor
      · intro h
        exact_mod_cast (by linarith : (20 : ℚ) * r.live ≤ 100 * r.dead)
      · intro h
        have hcast : (20 : ℚ) * r.live ≤ 100 * r.dead := by exact_mod_cast h
        linarith
    simp only [hlive, if_true, hratio, true_and]
  · simp [hlive]

/-- Where a table is left without live rows, the guard of the division takes its bloat for none. -/
theorem high_priority_monotone_iff (r r' : VacuumRow) (h : MoreBloated r r') :
    ((vacuumRecommendation r).priority = "high" → (vacuumRecommendation r').priority = "high") ↔
      0 < r'.live ∨ r.live ≤ 0 ∨ 100 * r.dead < 20 * r.live ∨ r.totalBytes < 100 * 1024 * 1024 := by
  obtain ⟨hlive, hdead, hbytes⟩ := h
  rw [priority_high_iff, priority_high_iff, isHigh_iff, isHigh_iff]
  constructor
  · intro hmono
    by_contra hcases
    simp only [not_or, Int.not_lt, Int.not_le] at hcases
    obtain ⟨hempty, hr⟩ := hcases
    exact absurd (hmono hr).1 (Int.not_lt.2 hempty)
  · rintro hcases ⟨hpos, hratio, hsize⟩
    have hpos' : 0 < r'.live := by omega
    exact ⟨hpos', by omega, by omega⟩

/-- A table that grows its dead rows. -/
theorem high_priority_monotone_iff_grown :
    ((vacuumRecommendation ⟨"public", "orders", 5000, 2000, 209715200⟩).priority = "high" →
        (vacuumRecommendation ⟨"public", "orders", 4000, 3000, 209715200⟩).priority = "high") ↔
      (0 : Int) < 4000 ∨ (5000 : Int) ≤ 0 ∨ (100 * 2000 : Int) < 20 * 5000 ∨
        (209715200 : Int) < 100 * 1024 * 1024 :=
  high_priority_monotone_iff ⟨"public", "orders", 5000, 2000, 209715200⟩
    ⟨"public", "orders", 4000, 3000, 209715200⟩
    { live := by decide, dead := by decide, totalBytes := by decide }

/-- All rows of the second table are dead, and it has the lower priority. -/
theorem emptied_table_not_high :
    ¬ ∀ r r' : VacuumRow, 0 ≤ r'.live → 1000 < r.dead → MoreBloated r r' →
      (vacuumRecommendation r).priority = "high" → (vacuumRecommendation r').priority = "high" := by
  intro hall
  have hhigh := hall ⟨"public", "orders", 5000, 2000, 209715200⟩ ⟨"public", "orders", 0, 7000, 209715200⟩
    (by decide) (by decide) { live := by decide, dead := by decide, totalBytes := by decide }
  rw [priority_high_iff, priority_high_iff, isHigh_iff, isHigh_iff] at hhigh
  exact absurd (hhigh (by decide)) (by decide)

end Handler
end Pgaio
