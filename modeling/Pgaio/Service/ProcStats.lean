import Pgaio.Go.Bufio
import Pgaio.Go.Numbers
import Pgaio.Go.Uint64
import Mathlib.Data.List.AList

/-!
# ProcStats — the load of the system from /proc

`collectSystemStatsLocked` and `readCPUTimes` of `service/monitor.go`.  The CPU usage comes from what
two readings of the CPU counters differ by, the memory usage from the memory that is left.  All these
are unsigned, and a difference of unsigned numbers is never negative: when the idle time goes back, or
more memory is left than there is, it wraps around.

`percentages_iff` says when the numbers that are published are percentages.
-/

namespace Pgaio
namespace Service
namespace Proc

open Go

/-! ## The files -/

structure Statfs where
  blocks : UInt64
  bavail : UInt64
  bsize : UInt64
  deriving DecidableEq, Repr

/-- What the collector reads; `none` where that fails. -/
structure ProcFiles where
  stat : Option String
  meminfo : Option String
  statfs : Option Statfs
  loadavg : Option String
  uptime : Option String
  deriving DecidableEq, Repr

structure SystemStats where
  cpuUsage : ℚ := 0
  memTotal : UInt64 := 0
  memUsed : UInt64 := 0
  memFree : UInt64 := 0
  memUsage : ℚ := 0
  diskTotal : UInt64 := 0
  diskUsed : UInt64 := 0
  diskFree : UInt64 := 0
  diskUsage : ℚ := 0
  loadAvg1 : ℚ := 0
  loadAvg5 : ℚ := 0
  loadAvg15 : ℚ := 0
  uptime : String := ""
  deriving DecidableEq, Repr

/-- `val, _ := strconv.ParseUint(num, 10, 64)`: a number too large counts as the largest one. -/
def uintOf (num : String) : UInt64 :=
  match parseUint 10 (2 ^ 64 - 1) num with
  | .ok n => UInt64.ofNat n
  | .error (.errSyntax _) => 0
  | .error (.errRange _) => UInt64.ofNat (2 ^ 64 - 1)

/-- `float64(part) / float64(whole) * 100`. -/
def percentage (part whole : UInt64) : ℚ :=
  float64 part / float64 whole * 100

/-! ## The CPU -/

structure CpuTimes where
  user : UInt64 := 0
  nice : UInt64 := 0
  system : UInt64 := 0
  idle : UInt64 := 0
  iowait : UInt64 := 0
  irq : UInt64 := 0
  softirq : UInt64 := 0
  steal : UInt64 := 0
  total : UInt64 := 0
  idleTotal : UInt64 := 0
  deriving DecidableEq, Repr

def CpuTimes.ofFields (fields : List String) : CpuTimes :=
  let field (i : Nat) : UInt64 := uintOf (fields.getD i "")
  let steal := if 9 ≤ fields.length then field 8 else 0
  { user := field 1
    nice := field 2
    system := field 3
    idle := field 4
    iowait := field 5
    irq := field 6
    softirq := field 7
    steal := steal
    total := field 1 + field 2 + field 3 + field 4 + field 5 + field 6 + field 7 + steal
    idleTotal := field 4 + field 5 }

/-- `readCPUTimes` on the text of `/proc/stat`. -/
def readCPUTimes (stat : String) : CpuTimes :=
  match ((stat.toList.splitOn '\n').map String.ofList).find? (hasPrefix · "cpu ") with
  | none => {}
  | some line =>
      -- A line that is too short leaves everything zero.
      if 8 ≤ (fields line).length then CpuTimes.ofFields (fields line) else {}

/-- Here the two differences wrap around. -/
def cpuUsage (prev cur : CpuTimes) : ℚ :=
  let totalDelta := float64 (cur.total - prev.total)
  let idleDelta := float64 (cur.idleTotal - prev.idleTotal)
  if 0 < totalDelta then (1 - idleDelta / totalDelta) * 100 else 0

/-! ## The memory -/

abbrev MemInfo := AList fun _ : String => UInt64

/-- One line of `/proc/meminfo`; a later line replaces an earlier one of the same key. -/
def addMemLine (mem : MemInfo) (line : String) : MemInfo :=
  match fields line with
  | key :: value :: _ => mem.insert (trimSuffix key ":") (uintOf value * 1024)
  | _ => mem

def readMemInfo (meminfo : String) : MemInfo :=
  ((charLines.scannedLines maxScanTokenSize meminfo.toList).map String.ofList).foldl addMemLine ∅

namespace MemInfo

variable (mem : MemInfo)

/-- `mem[key]`. -/
def get (key : String) : UInt64 :=
  (mem.lookup key).getD 0

def total : UInt64 :=
  mem.get "MemTotal"

def free : UInt64 :=
  if mem.get "MemAvailable" = 0 then mem.get "MemFree" else mem.get "MemAvailable"

end MemInfo

/-! ## The collector -/

section

-- `strconv.ParseFloat`, the error ignored.
variable (parseFloat : String → ℚ)

/-- `int(sec)`. -/
def truncate (sec : ℚ) : Int :=
  if sec < 0 then -⌊-sec⌋ else ⌊sec⌋

def uptimeText (sec : ℚ) : String :=
  let hours := (truncate sec).tdiv 3600
  let mins := ((truncate sec).tmod 3600).tdiv 60
  itoa (hours.tdiv 24) ++ "d " ++ itoa (hours.tmod 24) ++ "h " ++ itoa mins ++ "m"

def addCpu (prevCPU : CpuTimes) (stat : Option String) (s : SystemStats) :
    SystemStats × CpuTimes :=
  match stat with
  | none => (s, prevCPU)
  | some stat =>
      let cur := readCPUTimes stat
      ({ s with cpuUsage := cpuUsage prevCPU cur }, cur)

def addMemory (meminfo : Option String) (s : SystemStats) : SystemStats :=
  match meminfo with
  | none => s
  | some meminfo =>
      let mem := readMemInfo meminfo
      let memUsed := mem.total - mem.free
      { s with
        memTotal := mem.total
        memFree := mem.free
        memUsed := memUsed
        memUsage := if 0 < mem.total then percentage memUsed mem.total else 0 }

def addDisk (statfs : Option Statfs) (s : SystemStats) : SystemStats :=
  match statfs with
  | none => s
  | some stat =>
      let diskTotal := stat.blocks * stat.bsize
      let diskFree := stat.bavail * stat.bsize
      { s with
        diskTotal := diskTotal
        diskFree := diskFree
        diskUsed := diskTotal - diskFree
        diskUsage := if 0 < diskTotal then percentage (diskTotal - diskFree) diskTotal else 0 }

def addLoad (loadavg : Option String) (s : SystemStats) : SystemStats :=
  match loadavg.map fields with
  | some (one :: five :: fifteen :: _) =>
      { s with
        loadAvg1 := parseFloat one
        loadAvg5 := parseFloat five
        loadAvg15 := parseFloat fifteen }
  | _ => s

def addUptime (uptime : Option String) (s : SystemStats) : SystemStats :=
  match uptime.map fields with
  | some (sec :: _) => { s with uptime := uptimeText (parseFloat sec) }
  | _ => s

/-- The statistics, and the CPU counters that the next collection starts from. -/
def collectSystemStatsLocked (prevCPU : CpuTimes) (files : ProcFiles) : SystemStats × CpuTimes :=
  let (s, cur) := addCpu prevCPU files.stat {}
  let s := addDisk files.statfs (addMemory files.meminfo s)
  (addUptime parseFloat files.uptime (addLoad parseFloat files.loadavg s), cur)

end

/-! ## The statement -/

structure PercentagesInRange (s : SystemStats) : Prop where
  cpu : 0 ≤ s.cpuUsage ∧ s.cpuUsage ≤ 100
  used : s.memUsed ≤ s.memTotal
  memory : 0 ≤ s.memUsage ∧ s.memUsage ≤ 100

/-! ## The condition -/

/-- From one reading to the next the idle time advances, modulo `2 ^ 64`, by no more than the whole
time does, or the whole time stands still. -/
def IdleWithinTotal (prev cur : CpuTimes) : Prop :=
  cur.total = prev.total ∨
    float64 (cur.idleTotal - prev.idleTotal) ≤ float64 (cur.total - prev.total)

instance (prev cur : CpuTimes) : Decidable (IdleWithinTotal prev cur) :=
  inferInstanceAs (Decidable (_ ∨ _))

def CpuInOrder (before : String) (files : ProcFiles) : Prop :=
  ∀ now, files.stat = some now → IdleWithinTotal (readCPUTimes before) (readCPUTimes now)

/-- No more memory is left than there is. -/
def MemoryInOrder (files : ProcFiles) : Prop :=
  ∀ content, files.meminfo = some content →
    (readMemInfo content).free ≤ (readMemInfo content).total

/-! ## The percentages -/

theorem float64_nonneg (n : UInt64) : 0 ≤ float64 n := by
  unfold float64
  exact Nat.cast_nonneg _

theorem cpuUsage_range_iff (prev cur : CpuTimes) :
    0 ≤ cpuUsage prev cur ∧ cpuUsage prev cur ≤ 100 ↔ IdleWithinTotal prev cur := by
  unfold cpuUsage IdleWithinTotal
  dsimp only
  have hidle := float64_nonneg (cur.idleTotal - prev.idleTotal)
  by_cases hstill : cur.total = prev.total
  · rw [hstill, UInt64.sub_self, float64_zero, if_neg (lt_irrefl 0)]
    exact iff_of_true ⟨le_refl 0, by norm_num⟩ (Or.inl rfl)
  · have hdelta : cur.total - prev.total ≠ 0 := fun h => hstill (by
      rw [← UInt64.sub_add_cancel cur.total prev.total, h, UInt64.zero_add])
    have hpos := float64_pos hdelta
    rw [if_pos hpos, or_iff_right hstill, ← div_le_one hpos]
    have hratio := div_nonneg hidle hpos.le
    constructor
    · rintro ⟨hlow, -⟩
      linarith
    · intro hle
      exact ⟨by linarith, by linarith⟩

/-- A difference of unsigned numbers stays below the first one unless it wraps around. -/
theorem sub_le_iff (whole part : UInt64) : whole - part ≤ whole ↔ part ≤ whole := by
  rw [UInt64.le_iff_toNat_le, UInt64.le_iff_toNat_le]
  have hwhole := whole.toNat_lt
  have hpart := part.toNat_lt
  constructor
  · intro h
    rw [UInt64.toNat_sub] at h
    omega
  · intro h
    rw [UInt64.toNat_sub_of_le _ _ (UInt64.le_iff_toNat_le.2 h)]
    exact Nat.sub_le _ _

theorem percentage_range {part whole : UInt64} (h : part ≤ whole) (hpos : 0 < whole) :
    0 ≤ percentage part whole ∧ percentage part whole ≤ 100 := by
  have hwhole : 0 < float64 whole := float64_pos (UInt64.pos_iff_ne_zero.1 hpos)
  have hratio : float64 part / float64 whole ≤ 1 := (div_le_one hwhole).2 (float64_mono h)
  have hnonneg := div_nonneg (float64_nonneg part) hwhole.le
  unfold percentage
  exact ⟨by linarith, by linarith⟩

/-! ## What is published -/

section

variable {s : SystemStats}

/-- The disk, the load and the uptime leave the other numbers alone. -/
theorem inRange_addDisk (statfs : Option Statfs) :
    PercentagesInRange (addDisk statfs s) ↔ PercentagesInRange s := by
  cases statfs <;> exact ⟨fun h => ⟨h.cpu, h.used, h.memory⟩, fun h => ⟨h.cpu, h.used, h.memory⟩⟩

variable (parseFloat : String → ℚ)

theorem inRange_addLoad (loadavg : Option String) :
    PercentagesInRange (addLoad parseFloat loadavg s) ↔ PercentagesInRange s := by
  unfold addLoad
  split <;> exact ⟨fun h => ⟨h.cpu, h.used, h.memory⟩, fun h => ⟨h.cpu, h.used, h.memory⟩⟩

theorem inRange_addUptime (uptime : Option String) :
    PercentagesInRange (addUptime parseFloat uptime s) ↔ PercentagesInRange s := by
  unfold addUptime
  split <;> exact ⟨fun h => ⟨h.cpu, h.used, h.memory⟩, fun h => ⟨h.cpu, h.used, h.memory⟩⟩

end

theorem inRange_addMemory {s : SystemStats} (hs : s.memUsed ≤ s.memTotal)
    (husage : 0 ≤ s.memUsage ∧ s.memUsage ≤ 100) (meminfo : Option String) :
    PercentagesInRange (addMemory meminfo s) ↔
      (0 ≤ s.cpuUsage ∧ s.cpuUsage ≤ 100) ∧
        ∀ content, meminfo = some content →
          (readMemInfo content).free ≤ (readMemInfo content).total := by
  cases meminfo with
  | none =>
      constructor
      · exact fun h => ⟨h.cpu, fun content hcontent => by cases hcontent⟩
      · exact fun h => ⟨h.1, hs, husage⟩
  | some content =>
      simp only [addMemory, Option.some.injEq, forall_eq']
      -- What the text says does not matter from here on.
      generalize readMemInfo content = mem
      constructor
      · intro h
        exact ⟨h.cpu, (sub_le_iff _ _).1 h.used⟩
      · rintro ⟨hcpu, hfree⟩
        have hused : mem.total - mem.free ≤ mem.total := (sub_le_iff _ _).2 hfree
        refine ⟨hcpu, hused, ?_⟩
        dsimp only
        split
        · exact percentage_range hused ‹_›
        · exact ⟨le_refl 0, by norm_num⟩

/-- The percentages are in range exactly if the idle time advances within the whole time and no more
memory is left than there is. -/
theorem percentages_iff (parseFloat : String → ℚ) (before : String) (files : ProcFiles) :
    PercentagesInRange (collectSystemStatsLocked parseFloat (readCPUTimes before) files).1 ↔
      CpuInOrder before files ∧ MemoryInOrder files := by
  unfold collectSystemStatsLocked CpuInOrder MemoryInOrder
  dsimp only
  rw [inRange_addUptime, inRange_addLoad, inRange_addDisk]
  cases hstat : files.stat with
  | none =>
      rw [addCpu, inRange_addMemory (UInt64.le_refl 0) ⟨le_refl 0, by norm_num⟩]
      apply and_congr_left'
      exact iff_of_true ⟨le_refl 0, by norm_num⟩ fun now hnow => by cases hnow
  | some now =>
      rw [addCpu, inRange_addMemory (UInt64.le_refl 0) ⟨le_refl 0, by norm_num⟩, cpuUsage_range_iff]
      simp

/-- Two readings between which the `iowait` counter goes back by ten. -/
def statBefore : String :=
  "cpu  100 0 0 1000 50 0 0 0\ncpu0 100 0 0 1000 50 0 0 0\n"

def statAfter : String :=
  "cpu  200 0 0 1000 40 0 0 0\ncpu0 200 0 0 1000 40 0 0 0\n"

/-- The idle time seems to have advanced by almost `2 ^ 64`, and the usage is far below zero. -/
theorem iowait_decrease_negative :
    ¬ ∀ (parseFloat : String → ℚ) (before : String) (files : ProcFiles),
      PercentagesInRange
        (collectSystemStatsLocked parseFloat (readCPUTimes before) files).1 := by
  intro hall
  let files : ProcFiles :=
    { stat := some statAfter, meminfo := none, statfs := none, loadavg := none, uptime := none }
  have hcpu : 0 ≤ cpuUsage (readCPUTimes statBefore) (readCPUTimes statAfter) ∧
      cpuUsage (readCPUTimes statBefore) (readCPUTimes statAfter) ≤ 100 :=
    (hall (fun _ => 0) statBefore files).cpu
  exact absurd ((cpuUsage_range_iff _ _).1 hcpu) (by decide +kernel)

end Proc
end Service
end Pgaio
