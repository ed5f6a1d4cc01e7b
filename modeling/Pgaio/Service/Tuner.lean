import Mathlib.Data.List.AList
import Pgaio.Go.Uint64
import Pgaio.Postgres.Memory

/-!
# Tuner — the settings recommended for a machine and a workload

`service/tuner.go`: `calculate` and the functions that it calls.  A number of bytes is a `uint64`, so
its arithmetic is modulo `2 ^ 64`; a number of cores or connections is an `int`.

A size is printed in the largest unit of which it is a multiple, within one percent
(`formatPGMem_eq`), and PostgreSQL reads back what is printed (`readSize_formatPGMem`).
-/

namespace Pgaio
namespace Service

open Go Postgres

/-! ## Machines and workloads -/

-- The profiles of the dashboard; a request can name anything else.
def profileWeb : String := "web"
def profileOLAP : String := "olap"
def profileMixed : String := "mixed"
def profileDesktop : String := "desktop"

/-- What `calculate` reads of the machine. -/
structure SystemInfo where
  totalRAM : UInt64
  cpuCores : Int
  diskType : String
  cpuCores_isInt64 : IsInt64 cpuCores

structure TuneRequest where
  profile : String
  expectedConnections : Int
  expectedConnections_isInt64 : IsInt64 expectedConnections

structure ConfigRecommendation where
  name : String
  currentValue : String := ""
  currentUnit : String := ""
  newValue : String
  category : String
  description : String
  needRestart : Bool
  context : String
  deriving DecidableEq, Repr

/-- A row of `pg_settings`. -/
structure PgSetting where
  value : String
  unit : String
  deriving DecidableEq, Repr

abbrev CurrentSettings := AList fun _ : String => PgSetting

/-! ## Texts -/

/-- The constant `0.01` as a `float64`. -/
def hundredth : ℚ :=
  5764607523034235 / 2 ^ 59

/-- The divisors are powers of two, so the quotients are exact, and `math.Mod(x, 1)` always is. -/
def formatPGMem (bytes : UInt64) : String :=
  let gb := float64 bytes / (1024 * 1024 * 1024)
  let mb := float64 bytes / (1024 * 1024)
  let kb := float64 bytes / 1024
  if 1 ≤ gb ∧ Int.fract gb < hundredth then itoa ⌊gb⌋ ++ "GB"
  else if 1 ≤ mb ∧ Int.fract mb < hundredth then itoa ⌊mb⌋ ++ "MB"
  else itoa ⌊kb⌋ ++ "kB"

/-- `uint64(n) * unit`, printed. -/
def formatUnits (value : String) (unit : UInt64) : Option String :=
  (strconvAtoi value).map fun n => formatPGMem (UInt64.ofInt n * unit)

def formatCurrentSetting (value unit : String) : String :=
  if unit = "" then value
  else if unit = "8kB" then (formatUnits value (8 * 1024)).getD value
  else if unit = "kB" then (formatUnits value 1024).getD value
  else if unit = "MB" then (formatUnits value (1024 * 1024)).getD value
  else if unit = "min" ∨ unit = "s" ∨ unit = "ms" then value ++ unit
  else value

def makeRec (name : String) (cur : CurrentSettings)
    (newVal category desc settingContext : String) : ConfigRecommendation :=
  let recommendation : ConfigRecommendation :=
    { name := name
      newValue := newVal
      category := category
      description := desc
      context := settingContext
      needRestart := settingContext = "postmaster" }
  match cur.lookup name with
  -- PostgreSQL did not list the setting.
  | none => recommendation
  | some s => { recommendation with
      currentValue := formatCurrentSetting s.value s.unit
      currentUnit := s.unit }

/-! ## Connections -/

/-- Four connections for each core, but at least 50 and at most half of the expected ones, which
count as 100 to 1000. -/
def calculatePGMaxConn (expectedConn cpuCores : Int) : Int :=
  -- The product of a great many cores wraps around.
  let pgConn := wrapInt64 (cpuCores * 4)
  let pgConn := if pgConn < 50 then 50 else pgConn
  let cap := expectedConn.tdiv 2
  let cap := if cap < 50 then 50 else cap
  let cap := if 500 < cap then 500 else cap
  if cap < pgConn then cap else pgConn

/-- The number of connections that `calculate` recommends. -/
def pgMaxConn (sys : SystemInfo) (req : TuneRequest) : Int :=
  let maxConn := if req.expectedConnections ≤ 0 then 100 else req.expectedConnections
  calculatePGMaxConn maxConn sys.cpuCores

/-! ## Memory -/

section

variable (ramBytes : UInt64) (profile : String)

def sharedBuffers : UInt64 :=
  if profile = profileDesktop then ramBytes / 16 else ramBytes / 4

def effectiveCache : UInt64 :=
  if profile = profileDesktop then ramBytes / 4 else ramBytes * 3 / 4

/-- `workMem` before the minimum is applied. -/
def workMemShare (pgMaxConn : Int) : UInt64 :=
  let workMem := (ramBytes - sharedBuffers ramBytes profile) / UInt64.ofInt (pgMaxConn * 3)
  if profile = profileOLAP then workMem * 2
  -- A desktop does not divide what the shared buffers leave.
  else if profile = profileDesktop then ramBytes / 16 / UInt64.ofInt pgMaxConn
  else workMem

def workMemMinimum : UInt64 := 4 * 1024 * 1024

def workMem (pgMaxConn : Int) : UInt64 :=
  if workMemShare ramBytes profile pgMaxConn < workMemMinimum then workMemMinimum
  else workMemShare ramBytes profile pgMaxConn

def maintWorkMem : UInt64 :=
  let maxMaintMem : UInt64 := 2 * 1024 * 1024 * 1024
  let maintWorkMem := ramBytes / 16
  let maintWorkMem := if maxMaintMem < maintWorkMem then maxMaintMem else maintWorkMem
  if profile = profileDesktop then
    -- The smaller limit is applied to the sixteenth once more.
    let maintWorkMem := ramBytes / 16
    if 512 * 1024 * 1024 < maintWorkMem then 512 * 1024 * 1024 else maintWorkMem
  else maintWorkMem

/-- Three percent of the shared buffers, in whole megabytes from 1 to 64. -/
def walBuffers : UInt64 :=
  let walBuffers := sharedBuffers ramBytes profile * 3 / 100
  let walBuffers := if walBuffers < 64 * 1024 then 64 * 1024 else walBuffers
  let walBuffers := if 64 * 1024 * 1024 < walBuffers then 64 * 1024 * 1024 else walBuffers
  -- What is less than a megabyte becomes zero here and a megabyte in the last line.
  let walBuffers := walBuffers / (1024 * 1024) * 1024 * 1024
  if walBuffers < 1024 * 1024 then 1024 * 1024 else walBuffers

end

/-- `minWalSize` and `maxWalSize`; any other profile leaves both empty. -/
def walSizes (profile : String) : String × String :=
  if profile = profileWeb then ("1GB", "4GB")
  else if profile = profileOLAP then ("4GB", "16GB")
  else if profile = profileMixed then ("2GB", "8GB")
  else if profile = profileDesktop then ("100MB", "2GB")
  else ("", "")

/-! ## Parallelism -/

section

variable (cpuCores : Int) (profile : String)

/-- Half of the cores, from 1 to 4, and 1 on a desktop. -/
def parallelShare : Int :=
  let share := cpuCores.tdiv 2
  let share := if share < 1 then 1 else share
  let share := if profile = profileDesktop then 1 else share
  if 4 < share then 4 else share

def parallelGather : Int :=
  parallelShare cpuCores profile

def maintParallel : Int :=
  parallelShare cpuCores profile

def maxParallel : Int :=
  -- The cores of a desktop are not looked at.
  if profile = profileDesktop then 2 else cpuCores

end

/-! ## The recommendations -/

section

variable (sys : SystemInfo) (req : TuneRequest) (profile : String) (cur : CurrentSettings)

def memorySettings : List ConfigRecommendation :=
  [makeRec "shared_buffers" cur (formatPGMem (sharedBuffers sys.totalRAM profile))
     "Resource Usage / Memory" "Main shared memory area for caching data" "postmaster",
   makeRec "effective_cache_size" cur (formatPGMem (effectiveCache sys.totalRAM profile))
     "Query Tuning / Planner" "Estimate of OS cache available for a single query" "user",
   makeRec "work_mem" cur (formatPGMem (workMem sys.totalRAM profile (pgMaxConn sys req)))
     "Resource Usage / Memory" "Memory used for sort operations and hash tables per operation"
     "user",
   makeRec "maintenance_work_mem" cur (formatPGMem (maintWorkMem sys.totalRAM profile))
     "Resource Usage / Memory" "Memory for maintenance operations (VACUUM, CREATE INDEX)" "user"]

def walSettings : List ConfigRecommendation :=
  [makeRec "wal_buffers" cur (formatPGMem (walBuffers sys.totalRAM profile))
     "WAL / Settings" "Shared memory for WAL data not yet written to disk" "postmaster",
   makeRec "min_wal_size" cur (walSizes profile).1
     "WAL / Checkpoints" "Minimum size of WAL files" "sighup",
   makeRec "max_wal_size" cur (walSizes profile).2
     "WAL / Checkpoints" "Maximum size of WAL files before checkpoint" "sighup"]

def checkpointSettings : List ConfigRecommendation :=
  makeRec "checkpoint_completion_target" cur "0.9"
    "WAL / Checkpoints" "Target for checkpoint completion as fraction of interval" "sighup" ::
  if profile = profileOLAP ∨ profile = profileMixed then
    [makeRec "checkpoint_timeout" cur "15min"
      "WAL / Checkpoints" "Maximum time between automatic WAL checkpoints" "sighup"]
  else []

def parallelSettings : List ConfigRecommendation :=
  [makeRec "max_worker_processes" cur (itoa sys.cpuCores)
     "Resource Usage / Asynchronous" "Maximum number of concurrent worker processes" "postmaster",
   makeRec "max_parallel_workers_per_gather" cur (itoa (parallelGather sys.cpuCores profile))
     "Resource Usage / Asynchronous" "Max workers that can be started by a single Gather" "user",
   makeRec "max_parallel_workers" cur (itoa (maxParallel sys.cpuCores profile))
     "Resource Usage / Asynchronous" "Max workers for parallel operations" "user",
   makeRec "max_parallel_maintenance_workers" cur (itoa (maintParallel sys.cpuCores profile))
     "Resource Usage / Asynchronous"
     "Max workers for parallel maintenance (VACUUM, CREATE INDEX)" "user"]

def diskSettings : List ConfigRecommendation :=
  (if sys.diskType = "ssd" then
    [makeRec "random_page_cost" cur "1.1" "Query Tuning / Planner Cost"
       "Estimated cost of a non-sequential disk page fetch (SSD optimized)" "user",
     makeRec "effective_io_concurrency" cur "200" "Resource Usage / Asynchronous"
       "Number of concurrent disk I/O operations (SSD optimized)" "user"]
  else
    [makeRec "random_page_cost" cur "4.0" "Query Tuning / Planner Cost"
       "Estimated cost of a non-sequential disk page fetch" "user",
     makeRec "effective_io_concurrency" cur "2" "Resource Usage / Asynchronous"
       "Number of concurrent disk I/O operations" "user"]) ++
  [if 32 * 1024 * 1024 * 1024 < sys.totalRAM then
    makeRec "huge_pages" cur "try" "Resource Usage / Memory"
      "Use huge pages when available (recommended for >32GB RAM)" "postmaster"
  else
    makeRec "huge_pages" cur "off" "Resource Usage / Memory"
      "Huge pages disabled (RAM <= 32GB)" "postmaster"]

def connectionSettings : List ConfigRecommendation :=
  [makeRec "max_connections" cur (itoa (pgMaxConn sys req)) "Connections / Authentication"
    "Maximum concurrent connections (optimized for PgBouncer)" "postmaster"]

def statisticsSettings : List ConfigRecommendation :=
  [makeRec "default_statistics_target" cur (if profile = profileOLAP then "500" else "100")
    "Query Tuning / Other"
    "Default statistics target for ANALYZE (higher = better plans, slower ANALYZE)" "user"]

/-- An empty profile counts as web. -/
def TuneRequest.workload : String :=
  if req.profile = "" then profileWeb else req.profile

def calculate : List ConfigRecommendation :=
  memorySettings sys req req.workload cur ++ walSettings sys req.workload cur ++
    checkpointSettings req.workload cur ++ parallelSettings sys req.workload cur ++
      diskSettings sys cur ++ connectionSettings sys req cur ++ statisticsSettings req.workload cur

end

/-! ## Sizes are read back -/

/-- Less than a hundredth of a unit of `2 ^ k` bytes, in whole bytes. -/
theorem fract_lt_hundredth_iff (f : Nat) {k : Nat} (hk : k ≤ 59) :
    Int.fract ((f : ℚ) / (2 ^ k : Nat)) < hundredth ↔
      f % 2 ^ k ≤ 5764607523034234 / 2 ^ (59 - k) := by
  have hpos : (0 : ℚ) < (2 ^ k : Nat) := by positivity
  have hpow : (2 : ℚ) ^ 59 = (2 ^ k : Nat) * (2 ^ (59 - k) : Nat) := by
    push_cast
    rw [← pow_add, Nat.add_sub_cancel' hk]
  have hpos' : (0 : ℚ) < (2 ^ (59 - k) : Nat) := by positivity
  -- The fraction is the remainder over `2 ^ k`, the constant an integer over `2 ^ k * 2 ^ (59 - k)`.
  rw [Int.fract_div_natCast_eq_div_natCast_mod, hundredth, hpow, ← div_div, div_right_comm,
    div_lt_div_iff_of_pos_right hpos, lt_div_iff₀ hpos', Nat.le_div_iff_mul_le (Nat.two_pow_pos _)]
  rw [show (5764607523034235 : ℚ) = ((5764607523034235 : Nat) : ℚ) by norm_num]
  rw [← Nat.cast_mul, Nat.cast_lt]
  omega

/-- The bytes are a multiple of a unit of `2 ^ k` bytes, within one percent. -/
def FitsUnit (f k : Nat) : Prop :=
  2 ^ k ≤ f ∧ f % 2 ^ k ≤ 5764607523034234 / 2 ^ (59 - k)

instance (f k : Nat) : Decidable (FitsUnit f k) :=
  inferInstanceAs (Decidable (_ ∧ _))

theorem fitsUnit_iff (f : Nat) {k : Nat} (hk : k ≤ 59) :
    1 ≤ (f : ℚ) / (2 ^ k : Nat) ∧ Int.fract ((f : ℚ) / (2 ^ k : Nat)) < hundredth ↔
      FitsUnit f k := by
  have hpos : (0 : ℚ) < (2 ^ k : Nat) := by positivity
  rw [one_le_div hpos, Nat.cast_le, fract_lt_hundredth_iff f hk]
  rfl

/-- The number of units of `2 ^ k` bytes. -/
theorem itoa_quotient (f k : Nat) : itoa ⌊(f : ℚ) / (2 ^ k : Nat)⌋ = itoa (f / 2 ^ k : Nat) :=
  congrArg itoa (Rat.floor_natCast_div_natCast f (2 ^ k))

theorem formatPGMem_eq (bytes : UInt64) :
    formatPGMem bytes =
      let f := roundSignificant bytes.toNat
      if FitsUnit f 30 then itoa (f / 2 ^ 30 : Nat) ++ "GB"
      else if FitsUnit f 20 then itoa (f / 2 ^ 20 : Nat) ++ "MB"
      else itoa (f / 2 ^ 10 : Nat) ++ "kB" := by
  have hgb : (1024 * 1024 * 1024 : ℚ) = (2 ^ 30 : Nat) := by norm_num
  have hmb : (1024 * 1024 : ℚ) = (2 ^ 20 : Nat) := by norm_num
  have hkb : (1024 : ℚ) = (2 ^ 10 : Nat) := by norm_num
  unfold formatPGMem float64
  dsimp only
  rw [hgb, hmb, hkb, itoa_quotient, itoa_quotient, itoa_quotient]
  simp only [fitsUnit_iff _ (show 30 ≤ 59 by decide), fitsUnit_iff _ (show 20 ≤ 59 by decide)]

/-- The bytes that the printed size stands for. -/
def shownSize (bytes : UInt64) : Nat :=
  let f := roundSignificant bytes.toNat
  if FitsUnit f 30 then f / 2 ^ 30 * 2 ^ 30
  else if FitsUnit f 20 then f / 2 ^ 20 * 2 ^ 20
  else f / 2 ^ 10 * 2 ^ 10

theorem readSize_formatPGMem (bytes : UInt64) :
    readSize (formatPGMem bytes) = some (shownSize bytes) := by
  rw [formatPGMem_eq]
  unfold shownSize
  dsimp only
  split
  · exact readSize_itoa _ rfl
  · split
    · exact readSize_itoa _ rfl
    · exact readSize_itoa _ rfl

theorem shownSize_le (bytes : UInt64) : shownSize bytes ≤ roundSignificant bytes.toNat := by
  unfold shownSize
  dsimp only
  split
  · exact Nat.div_mul_le_self _ _
  · split
    · exact Nat.div_mul_le_self _ _
    · exact Nat.div_mul_le_self _ _

/-- What a unit of `2 ^ k` bytes cuts off is less than a hundredth of the number. -/
theorem mod_lt_hundredth {f k : Nat} (hunit : 5764607523034234 / 2 ^ (59 - k) * 100 < 2 ^ k)
    (h : FitsUnit f k) : f % 2 ^ k * 100 < f := by
  calc f % 2 ^ k * 100 ≤ 5764607523034234 / 2 ^ (59 - k) * 100 := Nat.mul_le_mul_right 100 h.2
    _ < 2 ^ k := hunit
    _ ≤ f := h.1

/-- Where the number is exact as a `float64`, less than a kilobyte or a hundredth is cut off. -/
theorem sub_shownSize {bytes : UInt64} (h : bytes.toNat < 2 ^ 53) :
    shownSize bytes ≤ bytes.toNat ∧
      (bytes.toNat - shownSize bytes < 1024 ∨
        (bytes.toNat - shownSize bytes) * 100 < bytes.toNat) := by
  unfold shownSize
  rw [roundSignificant_of_lt h]
  dsimp only
  have hmod (k : Nat) : bytes.toNat - bytes.toNat / 2 ^ k * 2 ^ k = bytes.toNat % 2 ^ k := by
    have hdiv := Nat.div_add_mod' bytes.toNat (2 ^ k)
    omega
  split
  · rename_i hgb
    rw [hmod]
    exact ⟨Nat.div_mul_le_self _ _, Or.inr (mod_lt_hundredth (by decide) hgb)⟩
  · split
    · rename_i hmb
      rw [hmod]
      exact ⟨Nat.div_mul_le_self _ _, Or.inr (mod_lt_hundredth (by decide) hmb)⟩
    · rw [hmod]
      exact ⟨Nat.div_mul_le_self _ _, Or.inl (Nat.mod_lt _ (by decide))⟩

theorem formatPGMem_loses_little {bytes : UInt64} (h : bytes.toNat < 2 ^ 53) :
    ∃ v, readSize (formatPGMem bytes) = some v ∧ v ≤ bytes.toNat ∧
      (bytes.toNat : ℚ) - v < max 1024 ((bytes.toNat : ℚ) / 100) := by
  obtain ⟨hle, hcut⟩ := sub_shownSize h
  refine ⟨shownSize bytes, readSize_formatPGMem bytes, hle, ?_⟩
  rw [← Nat.cast_sub hle, lt_max_iff, lt_div_iff₀ (by norm_num)]
  exact_mod_cast hcut

theorem formatPGMem_loses_little_threshold :
    ∃ v, readSize (formatPGMem 1084479242) = some v ∧ v ≤ 1084479242 ∧
      (1084479242 : ℚ) - v < max 1024 (1084479242 / 100) :=
  @formatPGMem_loses_little 1084479242 (by decide)

theorem formatPGMem_ne_empty (bytes : UInt64) : formatPGMem bytes ≠ "" := by
  intro h
  have hread := readSize_formatPGMem bytes
  rw [h] at hread
  cases hread

/-! ## The values by name -/

section

variable (name : String) (cur : CurrentSettings)
variable (newVal category desc settingContext : String)

@[simp] theorem makeRec_name :
    (makeRec name cur newVal category desc settingContext).name = name := by
  unfold makeRec
  dsimp only
  split <;> rfl

@[simp] theorem makeRec_newValue :
    (makeRec name cur newVal category desc settingContext).newValue = newVal := by
  unfold makeRec
  dsimp only
  split <;> rfl

end

/-- The name of a setting and its new value. -/
def ConfigRecommendation.assignment (r : ConfigRecommendation) : String × String :=
  (r.name, r.newValue)

@[simp] theorem makeRec_assignment (name : String) (cur : CurrentSettings)
    (newVal category desc settingContext : String) :
    (makeRec name cur newVal category desc settingContext).assignment = (name, newVal) := by
  simp [ConfigRecommendation.assignment]

def newValue? (recs : List ConfigRecommendation) (name : String) : Option String :=
  (recs.find? fun r => r.name = name).map ConfigRecommendation.newValue

def recommendedSize (recs : List ConfigRecommendation) (name : String) : Option Nat :=
  (newValue? recs name).bind readSize

def recommendedNumber (recs : List ConfigRecommendation) (name : String) : Option Int :=
  (newValue? recs name).bind strconvAtoi

theorem newValue?_of_mem {recs : List ConfigRecommendation} {r : ConfigRecommendation}
    (hnames : (recs.map ConfigRecommendation.name).Nodup) (h : r ∈ recs) :
    newValue? recs r.name = some r.newValue := by
  induction recs with
  | nil => cases h
  | cons first recs ih =>
      rw [List.map_cons, List.nodup_cons] at hnames
      unfold newValue?
      rcases List.mem_cons.1 h with rfl | hrest
      · simp
      · -- An earlier recommendation has another name.
        have hne : first.name ≠ r.name := by
          intro heq
          exact hnames.1 (heq ▸ List.mem_map_of_mem hrest)
        rw [List.find?_cons_of_neg (by simpa using hne)]
        exact ih hnames.2 hrest

section

variable (sys : SystemInfo) (req : TuneRequest) (cur : CurrentSettings)

theorem names_calculate :
    (calculate sys req cur).map ConfigRecommendation.name =
      ["shared_buffers", "effective_cache_size", "work_mem", "maintenance_work_mem",
        "wal_buffers", "min_wal_size", "max_wal_size", "checkpoint_completion_target"] ++
      (if req.workload = profileOLAP ∨ req.workload = profileMixed then ["checkpoint_timeout"]
        else []) ++
      ["max_worker_processes", "max_parallel_workers_per_gather", "max_parallel_workers",
        "max_parallel_maintenance_workers", "random_page_cost", "effective_io_concurrency",
        "huge_pages", "max_connections", "default_statistics_target"] := by
  simp only [calculate, memorySettings, walSettings, checkpointSettings, parallelSettings,
    diskSettings, connectionSettings, statisticsSettings]
  -- The disk and the size of the RAM change values, but no names.
  split
  · split <;> split <;> simp
  · split <;> split <;> simp

/-- No setting is recommended twice. -/
theorem names_nodup : ((calculate sys req cur).map ConfigRecommendation.name).Nodup := by
  rw [names_calculate]
  split <;> decide

variable {sys req cur}

theorem newValue?_calculate {name value : String}
    (h : (name, value) ∈ (calculate sys req cur).map ConfigRecommendation.assignment) :
    newValue? (calculate sys req cur) name = some value := by
  rcases List.mem_map.1 h with ⟨r, hr, hassignment⟩
  rcases Prod.mk.inj hassignment with ⟨rfl, rfl⟩
  exact newValue?_of_mem (names_nodup sys req cur) hr

theorem recommendedSize_calculate {name value : String} {bytes : Nat}
    (h : (name, value) ∈ (calculate sys req cur).map ConfigRecommendation.assignment)
    (hread : readSize value = some bytes) :
    recommendedSize (calculate sys req cur) name = some bytes := by
  rw [recommendedSize, newValue?_calculate h, Option.bind_some, hread]

theorem recommendedNumber_calculate {name : String} {n : Int}
    (h : (name, itoa n) ∈ (calculate sys req cur).map ConfigRecommendation.assignment)
    (hlow : 0 ≤ n) (hrange : IsInt64 n) :
    recommendedNumber (calculate sys req cur) name = some n := by
  rcases Int.eq_ofNat_of_zero_le hlow with ⟨k, rfl⟩
  have hhigh : (k : Int) ≤ maxInt64 := hrange.2
  unfold maxInt64 at hhigh
  rw [recommendedNumber, newValue?_calculate h, Option.bind_some]
  exact strconvAtoi_itoa (by omega)

end

end Service
end Pgaio
