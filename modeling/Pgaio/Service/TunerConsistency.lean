import Pgaio.Service.TunerBudget

/-!
# TunerConsistency — do the recommendations go together?

The names are distinct whatever is asked for (`names_nodup`), but two branches of `calculate` miss a
case.  The WAL sizes are set for the four profiles only, so any other text leaves them empty, and the
parallel workers of a desktop are two even where a single core allows one worker process
(`desktop_single_core`).  In all other cases the recommendations are consistent (`consistent_iff`).
-/

namespace Pgaio
namespace Service

open Go Postgres

/-- The number for the first setting is at most the one for the second. -/
def AtMost (recs : List ConfigRecommendation) (name other : String) : Prop :=
  ∃ m n, recommendedNumber recs name = some m ∧ recommendedNumber recs other = some n ∧ m ≤ n

structure Consistent (recs : List ConfigRecommendation) : Prop where
  distinct : (recs.map ConfigRecommendation.name).Nodup
  nonEmpty : ∀ r ∈ recs, r.newValue ≠ ""
  walSizes : ∃ low high, recommendedSize recs "min_wal_size" = some low ∧
    recommendedSize recs "max_wal_size" = some high ∧ low ≤ high
  gather : AtMost recs "max_parallel_workers_per_gather" "max_parallel_workers"
  maintenance : AtMost recs "max_parallel_maintenance_workers" "max_parallel_workers"
  workers : AtMost recs "max_parallel_workers" "max_worker_processes"

variable (sys : SystemInfo) (req : TuneRequest) (cur : CurrentSettings)

/-- A profile that `calculate` knows; an empty one counts as web. -/
def TuneRequest.KnownProfile : Prop :=
  req.profile ∈ ["", profileWeb, profileOLAP, profileMixed, profileDesktop]

/-- There is a core for each of the two parallel workers of a desktop. -/
def CoresForDesktop : Prop :=
  req.profile = profileDesktop → 2 ≤ sys.cpuCores

/-! ## The WAL sizes -/

theorem walSizes_of_known {profile : String}
    (h : profile ∈ [profileWeb, profileOLAP, profileMixed, profileDesktop]) :
    ∃ low high, readSize (walSizes profile).1 = some low ∧
      readSize (walSizes profile).2 = some high ∧ low ≤ high := by
  simp only [List.mem_cons, List.not_mem_nil, or_false] at h
  rcases h with rfl | rfl | rfl | rfl
  · exact ⟨1024 ^ 3, 4 * 1024 ^ 3, by decide +kernel⟩
  · exact ⟨4 * 1024 ^ 3, 16 * 1024 ^ 3, by decide +kernel⟩
  · exact ⟨2 * 1024 ^ 3, 8 * 1024 ^ 3, by decide +kernel⟩
  · exact ⟨100 * 1024 ^ 2, 2 * 1024 ^ 3, by decide +kernel⟩

theorem known_of_walSizes {profile : String} (h : (walSizes profile).1 ≠ "") :
    profile ∈ [profileWeb, profileOLAP, profileMixed, profileDesktop] := by
  unfold walSizes at h
  -- Every branch but the last one names its profile.
  split at h
  · simp [*]
  · split at h
    · simp [*]
    · split at h
      · simp [*]
      · split at h
        · simp [*]
        · exact absurd rfl h

theorem workload_known_iff {req : TuneRequest} :
    req.workload ∈ [profileWeb, profileOLAP, profileMixed, profileDesktop] ↔ req.KnownProfile := by
  unfold TuneRequest.workload TuneRequest.KnownProfile
  by_cases hempty : req.profile = ""
  · rw [if_pos hempty, hempty]
    decide
  · rw [if_neg hempty]
    simp [hempty]

theorem workload_desktop_iff {req : TuneRequest} :
    req.workload = profileDesktop ↔ req.profile = profileDesktop := by
  unfold TuneRequest.workload
  by_cases hempty : req.profile = ""
  · rw [if_pos hempty, hempty]
    decide
  · rw [if_neg hempty]

/-! ## The parallel workers -/

section

variable {cpuCores : Int} {profile : String}

theorem parallelShare_range (h : 1 ≤ cpuCores) :
    1 ≤ parallelShare cpuCores profile ∧ parallelShare cpuCores profile ≤ 4 ∧
      parallelShare cpuCores profile ≤ cpuCores := by
  have hhalf : cpuCores.tdiv 2 = cpuCores / 2 := Int.tdiv_eq_ediv_of_nonneg (by omega)
  unfold parallelShare
  rw [hhalf]
  dsimp only
  split_ifs <;> omega

/-- One worker is allowed on a desktop, and two are there. -/
theorem parallelShare_le_maxParallel (h : 1 ≤ cpuCores) :
    parallelShare cpuCores profile ≤ maxParallel cpuCores profile := by
  unfold maxParallel
  by_cases hdesktop : profile = profileDesktop
  · rw [if_pos hdesktop]
    -- A gather on a desktop starts one worker.
    unfold parallelShare
    simp [hdesktop]
  · rw [if_neg hdesktop]
    exact (parallelShare_range h).2.2

theorem maxParallel_range (h : 1 ≤ cpuCores) : 1 ≤ maxParallel cpuCores profile := by
  unfold maxParallel
  split <;> omega

theorem isInt64_maxParallel (h : IsInt64 cpuCores) : IsInt64 (maxParallel cpuCores profile) := by
  unfold maxParallel
  split
  · decide
  · exact h

end

/-- The numbers for the parallel settings. -/
theorem recommended_parallel (hcores : 1 ≤ sys.cpuCores) :
    recommendedNumber (calculate sys req cur) "max_worker_processes" = some sys.cpuCores ∧
      recommendedNumber (calculate sys req cur) "max_parallel_workers_per_gather" =
        some (parallelGather sys.cpuCores req.workload) ∧
      recommendedNumber (calculate sys req cur) "max_parallel_workers" =
        some (maxParallel sys.cpuCores req.workload) ∧
      recommendedNumber (calculate sys req cur) "max_parallel_maintenance_workers" =
        some (maintParallel sys.cpuCores req.workload) := by
  have hshare : 1 ≤ parallelShare sys.cpuCores req.workload ∧
      parallelShare sys.cpuCores req.workload ≤ 4 ∧
        parallelShare sys.cpuCores req.workload ≤ sys.cpuCores := parallelShare_range hcores
  have hrange : IsInt64 (parallelShare sys.cpuCores req.workload) := by
    unfold IsInt64 minInt64 maxInt64
    omega
  have hmax : 1 ≤ maxParallel sys.cpuCores req.workload := maxParallel_range hcores
  refine ⟨?_, ?_, ?_, ?_⟩
  · exact recommendedNumber_calculate (by simp [calculate, parallelSettings]) (by omega)
      sys.cpuCores_isInt64
  · exact recommendedNumber_calculate (by simp [calculate, parallelSettings])
      (Int.le_trans (by decide) hshare.1) hrange
  · exact recommendedNumber_calculate (by simp [calculate, parallelSettings]) (by omega)
      (isInt64_maxParallel sys.cpuCores_isInt64)
  · exact recommendedNumber_calculate (by simp [calculate, parallelSettings])
      (Int.le_trans (by decide) hshare.1) hrange

/-- The parallel workers of the whole server are the ones that can be too many. -/
theorem maxParallel_le_iff :
    maxParallel sys.cpuCores req.workload ≤ sys.cpuCores ↔ CoresForDesktop sys req := by
  simp only [maxParallel, CoresForDesktop, workload_desktop_iff]
  by_cases hdesktop : req.profile = profileDesktop
  · simp [hdesktop]
  · simp [hdesktop]

/-! ## The whole set -/

theorem readSize_empty : readSize "" = none := by decide

/-- Only the WAL sizes can be left out. -/
theorem nonEmpty_calculate_iff :
    (∀ r ∈ calculate sys req cur, r.newValue ≠ "") ↔
      (walSizes req.workload).1 ≠ "" ∧ (walSizes req.workload).2 ≠ "" := by
  -- One section of the settings after the other.
  have hmemory : ∀ r ∈ memorySettings sys req req.workload cur, r.newValue ≠ "" := by
    simp [memorySettings, formatPGMem_ne_empty]
  have hwal : (∀ r ∈ walSettings sys req.workload cur, r.newValue ≠ "") ↔
      (walSizes req.workload).1 ≠ "" ∧ (walSizes req.workload).2 ≠ "" := by
    simp [walSettings, formatPGMem_ne_empty]
  have hcheckpoint : ∀ r ∈ checkpointSettings req.workload cur, r.newValue ≠ "" := by
    unfold checkpointSettings
    split <;> simp
  have hparallel : ∀ r ∈ parallelSettings sys req.workload cur, r.newValue ≠ "" := by
    simp [parallelSettings, itoa_ne_empty]
  have hdisk : ∀ r ∈ diskSettings sys cur, r.newValue ≠ "" := by
    unfold diskSettings
    split <;> split <;> simp
  have hconnection : ∀ r ∈ connectionSettings sys req cur, r.newValue ≠ "" := by
    simp [connectionSettings, itoa_ne_empty]
  have hstatistics : ∀ r ∈ statisticsSettings req.workload cur, r.newValue ≠ "" := by
    unfold statisticsSettings
    split <;> simp
  rw [← hwal]
  unfold calculate
  simp only [List.forall_mem_append]
  constructor
  · intro h
    exact h.1.1.1.1.1.2
  · intro h
    exact ⟨⟨⟨⟨⟨⟨hmemory, h⟩, hcheckpoint⟩, hparallel⟩, hdisk⟩, hconnection⟩, hstatistics⟩

/-- For a machine with a core: the recommendations are consistent exactly for the profiles that
`calculate` knows, the desktop having a second core. -/
theorem consistent_iff (hcores : 1 ≤ sys.cpuCores) :
    Consistent (calculate sys req cur) ↔ req.KnownProfile ∧ CoresForDesktop sys req := by
  rcases recommended_parallel sys req cur hcores with ⟨hprocesses, hgather, hparallel, hmaint⟩
  constructor
  · intro h
    -- Each of the two slips breaks one of the fields.
    refine ⟨?_, ?_⟩
    · have hsizes := (nonEmpty_calculate_iff sys req cur).1 h.nonEmpty
      exact workload_known_iff.1 (known_of_walSizes hsizes.1)
    · rcases h.workers with ⟨m, n, hm, hn, hle⟩
      rw [hparallel] at hm
      rw [hprocesses] at hn
      cases hm
      cases hn
      exact (maxParallel_le_iff sys req).1 hle
  · rintro ⟨hknown, hdesktop⟩
    have hshare : parallelShare sys.cpuCores req.workload ≤ maxParallel sys.cpuCores req.workload :=
      parallelShare_le_maxParallel hcores
    rcases walSizes_of_known (workload_known_iff.2 hknown) with ⟨low, high, hlow, hhigh, hle⟩
    -- A size that is read is no empty text.
    have hlow' : (walSizes req.workload).1 ≠ "" := by
      intro heq
      rw [heq, readSize_empty] at hlow
      cases hlow
    have hhigh' : (walSizes req.workload).2 ≠ "" := by
      intro heq
      rw [heq, readSize_empty] at hhigh
      cases hhigh
    exact
      { distinct := names_nodup sys req cur
        nonEmpty := (nonEmpty_calculate_iff sys req cur).2 ⟨hlow', hhigh'⟩
        walSizes := ⟨low, high,
          recommendedSize_calculate (by simp [calculate, walSettings]) hlow,
          recommendedSize_calculate (by simp [calculate, walSettings]) hhigh, hle⟩
        gather := ⟨_, _, hgather, hparallel, hshare⟩
        maintenance := ⟨_, _, hmaint, hparallel, hshare⟩
        workers := ⟨_, _, hparallel, hprocesses, (maxParallel_le_iff sys req).2 hdesktop⟩ }

theorem consistent_iff_smallMachine :
    Consistent (calculate smallMachine webRequest ∅) ↔
      webRequest.KnownProfile ∧ CoresForDesktop smallMachine webRequest :=
  consistent_iff smallMachine webRequest ∅ (by decide)

def desktopRequest : TuneRequest where
  profile := profileDesktop
  expectedConnections := 20
  expectedConnections_isInt64 := by decide

/-- Two parallel workers, and room for one worker process. -/
theorem desktop_single_core :
    ¬ ∀ (sys : SystemInfo) (req : TuneRequest) (cur : CurrentSettings), 1 ≤ sys.cpuCores →
      Consistent (calculate sys req cur) := by
  intro hall
  rcases (hall smallMachine desktopRequest ∅ (by decide)).workers with ⟨m, n, hm, hn, hle⟩
  rcases recommended_parallel smallMachine desktopRequest ∅ (by decide) with
    ⟨hprocesses, _, hparallel, _⟩
  rw [hparallel] at hm
  rw [hprocesses] at hn
  cases hm
  cases hn
  exact absurd hle (by decide +kernel)

end Service
end Pgaio
