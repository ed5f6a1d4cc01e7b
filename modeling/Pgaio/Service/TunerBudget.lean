import Pgaio.Service.Tuner

/-!
# TunerBudget — does the recommended memory fit the machine?

The shared buffers and one `work_mem` for every connection are to fit the RAM together.  What the
formulas give for `work_mem` leaves a quarter of the RAM free, whatever the profile, the cores and the
expected connections are (`share_le`).  But `work_mem` has a minimum of 4 MB, and on a small machine
the minimum for every connection can be too much (`small_machine_overcommitted`).
-/

namespace Pgaio
namespace Service

open Go Postgres

/-- The shared buffers and a `work_mem` for every connection fit the RAM, as PostgreSQL reads them. -/
def FitsMachine (sys : SystemInfo) (recs : List ConfigRecommendation) : Prop :=
  ∃ shared conn work, recommendedSize recs "shared_buffers" = some shared ∧
    recommendedNumber recs "max_connections" = some conn ∧
    recommendedSize recs "work_mem" = some work ∧
    (shared : Int) + conn * work ≤ sys.totalRAM.toNat

variable (sys : SystemInfo) (req : TuneRequest) (cur : CurrentSettings)

/-! ## The connections -/

theorem calculatePGMaxConn_range (expectedConn cpuCores : Int) :
    50 ≤ calculatePGMaxConn expectedConn cpuCores ∧
      calculatePGMaxConn expectedConn cpuCores ≤ 500 := by
  unfold calculatePGMaxConn
  generalize wrapInt64 (cpuCores * 4) = pgConn
  generalize expectedConn.tdiv 2 = cap
  dsimp only
  split_ifs <;> omega

/-- The connections as a natural number. -/
theorem exists_pgMaxConn : ∃ c : Nat, pgMaxConn sys req = c ∧ 50 ≤ c ∧ c ≤ 500 := by
  have hrange : 50 ≤ pgMaxConn sys req ∧ pgMaxConn sys req ≤ 500 :=
    calculatePGMaxConn_range _ _
  refine ⟨(pgMaxConn sys req).toNat, ?_, ?_, ?_⟩
  · omega
  · omega
  · omega

theorem toNat_ofInt {n : Nat} (h : n < 2 ^ 64) : (UInt64.ofInt n).toNat = n := by
  unfold UInt64.ofInt
  rw [UInt64.toNat_ofNat']
  omega

/-! ## What the formulas give -/

section

variable (ramBytes : UInt64) (profile : String)

theorem sharedBuffers_le : 4 * (sharedBuffers ramBytes profile).toNat ≤ ramBytes.toNat := by
  unfold sharedBuffers
  split
  · have hdiv : (ramBytes / 16).toNat = ramBytes.toNat / 16 := UInt64.toNat_div _ _
    omega
  · have hdiv : (ramBytes / 4).toNat = ramBytes.toNat / 4 := UInt64.toNat_div _ _
    omega

/-- A third of what the shared buffers leave, for each connection. -/
theorem third_le {c : Nat} (hlow : 50 ≤ c) (hhigh : c ≤ 500) :
    3 * (c * ((ramBytes - sharedBuffers ramBytes profile) / UInt64.ofInt (c * 3)).toNat) +
      (sharedBuffers ramBytes profile).toNat ≤ ramBytes.toNat := by
  have hshared := sharedBuffers_le ramBytes profile
  have hsub : (ramBytes - sharedBuffers ramBytes profile).toNat =
      ramBytes.toNat - (sharedBuffers ramBytes profile).toNat :=
    UInt64.toNat_sub_of_le _ _ (by rw [UInt64.le_iff_toNat_le]; omega)
  -- Nothing wraps around from here on.
  have hcast : ((c : Int) * 3) = ((c * 3 : Nat) : Int) := by push_cast; rfl
  rw [UInt64.toNat_div, hsub, hcast, toNat_ofInt (by omega)]
  have hmul :=
    Nat.div_mul_le_self (ramBytes.toNat - (sharedBuffers ramBytes profile).toNat) (c * 3)
  have hsum := Nat.sub_add_cancel (show (sharedBuffers ramBytes profile).toNat ≤ ramBytes.toNat by
    omega)
  linarith

/-- A sixteenth of the RAM, for each connection. -/
theorem sixteenth_le {c : Nat} (hhigh : c ≤ 500) :
    16 * (c * (ramBytes / 16 / UInt64.ofInt c).toNat) ≤ ramBytes.toNat := by
  have hdiv : (ramBytes / 16).toNat = ramBytes.toNat / 16 := UInt64.toNat_div _ _
  rw [UInt64.toNat_div, hdiv, toNat_ofInt (by omega)]
  have hmul := Nat.mul_div_le (ramBytes.toNat / 16) c
  omega

/-- What the formulas give to all connections leaves a quarter of the RAM free. -/
theorem share_le {c : Nat} (hlow : 50 ≤ c) (hhigh : c ≤ 500) :
    4 * ((sharedBuffers ramBytes profile).toNat + c * (workMemShare ramBytes profile c).toNat) ≤
      3 * ramBytes.toNat := by
  have hshared := sharedBuffers_le ramBytes profile
  have hthird := third_le ramBytes profile hlow hhigh
  unfold workMemShare
  dsimp only
  generalize (ramBytes - sharedBuffers ramBytes profile) / UInt64.ofInt (c * 3) = third at hthird ⊢
  split
  · -- OLAP takes two of the three parts; twice a part is still a `uint64`.
    have hlt : third.toNat * 2 < 2 ^ 64 := by
      have hram := ramBytes.toNat_lt
      nlinarith
    have hdouble : (third * 2).toNat = third.toNat * 2 := by
      rw [UInt64.toNat_mul]
      exact Nat.mod_eq_of_lt hlt
    rw [hdouble]
    linarith
  · split
    · have hsixteenth := sixteenth_le ramBytes hhigh
      linarith
    · linarith

end

/-! ## What is read -/

/-- A size that is printed and read back is too large by one part in `2 ^ 53` at most. -/
theorem shownSize_le_mul (bytes : UInt64) :
    2 ^ 53 * shownSize bytes ≤ (2 ^ 53 + 1) * bytes.toNat :=
  (Nat.mul_le_mul_left _ (shownSize_le bytes)).trans (roundSignificant_le bytes.toNat)

theorem shown_share_le (ramBytes : UInt64) (profile : String) {c : Nat} (hlow : 50 ≤ c)
    (hhigh : c ≤ 500) :
    shownSize (sharedBuffers ramBytes profile) +
      c * shownSize (workMemShare ramBytes profile c) ≤ ramBytes.toNat := by
  have hshare := share_le ramBytes profile hlow hhigh
  have hshared := shownSize_le_mul (sharedBuffers ramBytes profile)
  have hwork := Nat.mul_le_mul_left c (shownSize_le_mul (workMemShare ramBytes profile c))
  -- One part in `2 ^ 53` more than three quarters is less than the whole.
  nlinarith

theorem recommended_sharedBuffers :
    recommendedSize (calculate sys req cur) "shared_buffers" =
      some (shownSize (sharedBuffers sys.totalRAM req.workload)) :=
  recommendedSize_calculate (by simp [calculate, memorySettings]) (readSize_formatPGMem _)

theorem recommended_workMem :
    recommendedSize (calculate sys req cur) "work_mem" =
      some (shownSize (workMem sys.totalRAM req.workload (pgMaxConn sys req))) :=
  recommendedSize_calculate (by simp [calculate, memorySettings]) (readSize_formatPGMem _)

theorem recommended_maxConnections :
    recommendedNumber (calculate sys req cur) "max_connections" = some (pgMaxConn sys req) := by
  rcases exists_pgMaxConn sys req with ⟨c, hc, hlow, hhigh⟩
  have hrange : IsInt64 (pgMaxConn sys req) := by
    unfold IsInt64 minInt64 maxInt64
    omega
  exact recommendedNumber_calculate (by simp [calculate, connectionSettings]) (by omega) hrange

/-! ## The budget -/

theorem fitsMachine_values :
    FitsMachine sys (calculate sys req cur) ↔
      (shownSize (sharedBuffers sys.totalRAM req.workload) : Int) +
        pgMaxConn sys req * shownSize (workMem sys.totalRAM req.workload (pgMaxConn sys req)) ≤
          sys.totalRAM.toNat := by
  unfold FitsMachine
  rw [recommended_sharedBuffers, recommended_workMem, recommended_maxConnections]
  simp

/-- The formula of the workload gives `work_mem` at least its minimum. -/
def MeetsMinimum : Prop :=
  workMemMinimum ≤ workMemShare sys.totalRAM req.workload (pgMaxConn sys req)

/-- There is room for the minimum for every connection. -/
def MinimumFits : Prop :=
  (shownSize (sharedBuffers sys.totalRAM req.workload) : Int) +
    pgMaxConn sys req * shownSize workMemMinimum ≤ sys.totalRAM.toNat

/-- The recommended memory fits the machine unless `work_mem` is at its minimum, and then exactly when
the minimum fits. -/
theorem fitsMachine_iff :
    FitsMachine sys (calculate sys req cur) ↔ MeetsMinimum sys req ∨ MinimumFits sys req := by
  rw [fitsMachine_values]
  -- The minimum replaces the share exactly when the share is smaller.
  unfold workMem MeetsMinimum MinimumFits
  by_cases hminimum :
      workMemShare sys.totalRAM req.workload (pgMaxConn sys req) < workMemMinimum
  · rw [if_pos hminimum]
    exact (or_iff_right (UInt64.not_le.2 hminimum)).symm
  · rw [if_neg hminimum]
    refine iff_of_true ?_ (Or.inl (UInt64.not_lt.1 hminimum))
    rcases exists_pgMaxConn sys req with ⟨c, hc, hlow, hhigh⟩
    rw [hc]
    exact_mod_cast shown_share_le sys.totalRAM req.workload hlow hhigh

/-- A machine with 100 MB, for which 25 MB of shared buffers and 50 times 4 MB are recommended. -/
def smallMachine : SystemInfo where
  totalRAM := 104857600
  cpuCores := 1
  diskType := "ssd"
  cpuCores_isInt64 := by decide

def webRequest : TuneRequest where
  profile := profileWeb
  expectedConnections := 100
  expectedConnections_isInt64 := by decide

theorem small_machine_overcommitted :
    ¬ ∀ (sys : SystemInfo) (req : TuneRequest) (cur : CurrentSettings),
      0 < sys.totalRAM → 1 ≤ sys.cpuCores →
        req.profile ∈ [profileWeb, profileOLAP, profileMixed, profileDesktop] →
          FitsMachine sys (calculate sys req cur) := by
  intro hall
  have hfits := hall smallMachine webRequest ∅ (by decide) (by decide) (by decide)
  rw [fitsMachine_values] at hfits
  exact absurd hfits (by decide +kernel)

end Service
end Pgaio
