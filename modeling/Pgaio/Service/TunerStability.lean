import Pgaio.Service.TunerBudget

/-!
# TunerStability — is a recommendation that has been applied reported again?

PostgreSQL keeps a memory setting in units of 1 kB or 8 kB.  The next analysis prints what is kept in
the way in which the recommendation was printed, and the browser reports a change when the two texts
differ.  A recommendation in whole gigabytes or megabytes comes back as it was; one in kilobytes can
come back as another number, or in megabytes.

`applied_stable_iff` says for which sizes the texts agree.
-/

namespace Pgaio
namespace Service

open Go Postgres

/-! ## The statement -/

/-- The bytes of a unit of `pg_settings`. -/
def unitSize (unit : String) : Nat :=
  if unit = "8kB" then 8 * 1024 else 1024

section

variable (sys : SystemInfo) (req : TuneRequest)

/-- The memory settings: name, unit in `pg_settings` and the bytes that the formulas give. -/
def memoryParameters : List (String × String × UInt64) :=
  [("shared_buffers", "8kB", sharedBuffers sys.totalRAM req.workload),
   ("effective_cache_size", "8kB", effectiveCache sys.totalRAM req.workload),
   ("work_mem", "kB", workMem sys.totalRAM req.workload (pgMaxConn sys req)),
   ("maintenance_work_mem", "kB", maintWorkMem sys.totalRAM req.workload),
   ("wal_buffers", "8kB", walBuffers sys.totalRAM req.workload)]

/-- Whatever was set before, and whatever else is set by then: once PostgreSQL has stored the
recommended value, the next analysis shows it as the current one. -/
def AppliedStable (name unit : String) : Prop :=
  ∀ (cur next : CurrentSettings) (newValue : String) (n : Nat),
    newValue? (calculate sys req cur) name = some newValue →
      storedUnits newValue (unitSize unit) = some n →
        next.lookup name = some { value := itoa n, unit := unit } →
          ∀ r ∈ calculate sys req next, r.name = name → r.currentValue = r.newValue

end

/-! ## The condition -/

/-- The size is printed in gigabytes or megabytes, or the kilobytes that are printed are whole units
and are not printed in megabytes or gigabytes themselves. -/
def Settles (unit : Nat) (bytes : UInt64) : Prop :=
  let f := roundSignificant bytes.toNat
  FitsUnit f 30 ∨ FitsUnit f 20 ∨
    (unit ∣ f / 1024 * 1024 ∧ ¬FitsUnit (f / 1024 * 1024) 30 ∧ ¬FitsUnit (f / 1024 * 1024) 20)

instance (unit : Nat) (bytes : UInt64) : Decidable (Settles unit bytes) :=
  inferInstanceAs (Decidable (_ ∨ _ ∨ _))

/-! ## Printed sizes -/

/-- The unit in which a size is printed, as a power of two. -/
def printedUnit (f : Nat) : Nat :=
  if FitsUnit f 30 then 30 else if FitsUnit f 20 then 20 else 10

def unitName (k : Nat) : String :=
  if k = 30 then "GB" else if k = 20 then "MB" else "kB"

theorem formatPGMem_printed (bytes : UInt64) :
    formatPGMem bytes =
      let f := roundSignificant bytes.toNat
      itoa (f / 2 ^ printedUnit f : Nat) ++ unitName (printedUnit f) := by
  rw [formatPGMem_eq]
  unfold printedUnit
  dsimp only
  split
  · rfl
  · split <;> rfl

theorem shownSize_printed (bytes : UInt64) :
    shownSize bytes =
      let f := roundSignificant bytes.toNat
      f / 2 ^ printedUnit f * 2 ^ printedUnit f := by
  unfold shownSize printedUnit
  dsimp only
  split
  · rfl
  · split <;> rfl

theorem printedUnit_cases (f : Nat) :
    printedUnit f = 30 ∨ printedUnit f = 20 ∨ printedUnit f = 10 := by
  unfold printedUnit
  split
  · exact Or.inl rfl
  · split
    · exact Or.inr (Or.inl rfl)
    · exact Or.inr (Or.inr rfl)

theorem unitName_inj {f g : Nat} (h : unitName (printedUnit f) = unitName (printedUnit g)) :
    printedUnit f = printedUnit g := by
  rcases printedUnit_cases f with hf | hf | hf <;> rcases printedUnit_cases g with hg | hg | hg <;>
    rw [hf, hg] at h ⊢ <;> exact absurd h (by decide)

/-- Two sizes are printed alike when they are shown in one unit and as one size. -/
theorem formatPGMem_eq_iff (a b : UInt64) :
    formatPGMem a = formatPGMem b ↔
      printedUnit (roundSignificant a.toNat) = printedUnit (roundSignificant b.toNat) ∧
        shownSize a = shownSize b := by
  constructor
  · intro h
    have hsize : some (shownSize a) = some (shownSize b) := by
      rw [← readSize_formatPGMem, ← readSize_formatPGMem, h]
    refine ⟨?_, Option.some.inj hsize⟩
    -- All names of units have two letters.
    rw [formatPGMem_printed, formatPGMem_printed] at h
    have htext := congrArg String.toList h
    rw [String.toList_append, String.toList_append] at htext
    have hlength (f : Nat) : (unitName (printedUnit f)).toList.length = 2 := by
      rcases printedUnit_cases f with hf | hf | hf <;> rw [hf] <;> decide
    have hname := (List.append_inj' htext (by rw [hlength, hlength])).2
    exact unitName_inj (String.toList_inj.1 hname)
  · rintro ⟨hunit, hsize⟩
    rw [shownSize_printed, shownSize_printed] at hsize
    dsimp only at hsize
    rw [hunit] at hsize
    have hquotient := Nat.eq_of_mul_eq_mul_right (Nat.two_pow_pos _) hsize
    rw [formatPGMem_printed, formatPGMem_printed]
    dsimp only
    rw [hunit, hquotient]

/-! ## What is stored -/

theorem two_pow_dvd_shownSize (bytes : UInt64) :
    2 ^ printedUnit (roundSignificant bytes.toNat) ∣ shownSize bytes := by
  rw [shownSize_printed]
  exact Nat.dvd_mul_left _ _

theorem printedUnit_eq_ten_iff {f : Nat} :
    printedUnit f = 10 ↔ ¬FitsUnit f 30 ∧ ¬FitsUnit f 20 := by
  unfold printedUnit
  split_ifs with hgb hmb
  · simp [hgb]
  · simp [hmb]
  · simp [hgb, hmb]

/-- What is printed in gigabytes or megabytes is a whole number of them, and printed so again. -/
theorem printedUnit_shown {f : Nat} (h : printedUnit f ≠ 10) :
    printedUnit (f / 2 ^ printedUnit f * 2 ^ printedUnit f) = printedUnit f := by
  by_cases hgb : FitsUnit f 30
  · have hunit : printedUnit f = 30 := if_pos hgb
    have hfits : FitsUnit (f / 2 ^ 30 * 2 ^ 30) 30 := by
      unfold FitsUnit at hgb ⊢
      omega
    rw [hunit]
    exact if_pos hfits
  · by_cases hmb : FitsUnit f 20
    · have hunit : printedUnit f = 20 := by
        unfold printedUnit
        rw [if_neg hgb, if_pos hmb]
      -- What is dropped is less than what kept the size from being gigabytes.
      have hnot : ¬FitsUnit (f / 2 ^ 20 * 2 ^ 20) 30 := by
        unfold FitsUnit at hgb hmb ⊢
        omega
      have hfits : FitsUnit (f / 2 ^ 20 * 2 ^ 20) 20 := by
        unfold FitsUnit at hmb ⊢
        omega
      rw [hunit]
      unfold printedUnit
      rw [if_neg hnot, if_pos hfits]
    · exact absurd (printedUnit_eq_ten_iff.2 ⟨hgb, hmb⟩) h

/-- The units of `pg_settings` divide a megabyte. -/
theorem unit_dvd_shownSize {unit : Nat} (hunit : unit ∣ 2 ^ 20) {bytes : UInt64}
    (h : printedUnit (roundSignificant bytes.toNat) ≠ 10) : unit ∣ shownSize bytes := by
  have hmegabytes : 2 ^ 20 ∣ 2 ^ printedUnit (roundSignificant bytes.toNat) := by
    apply Nat.pow_dvd_pow
    rcases printedUnit_cases (roundSignificant bytes.toNat) with h' | h' | h' <;> omega
  exact (hunit.trans hmegabytes).trans (two_pow_dvd_shownSize bytes)

theorem settles_iff {unit : Nat} (hunit : unit ∣ 2 ^ 20) (bytes : UInt64) :
    Settles unit bytes ↔
      unit ∣ shownSize bytes ∧
        printedUnit (shownSize bytes) = printedUnit (roundSignificant bytes.toNat) := by
  by_cases hten : printedUnit (roundSignificant bytes.toNat) = 10
  · obtain ⟨hgb, hmb⟩ := printedUnit_eq_ten_iff.1 hten
    have hshown : shownSize bytes = roundSignificant bytes.toNat / 1024 * 1024 := by
      rw [shownSize_printed]
      dsimp only
      rw [hten]
      rfl
    rw [hten, printedUnit_eq_ten_iff, hshown]
    exact (or_iff_right hgb).trans (or_iff_right hmb)
  · refine iff_of_true ?_ ⟨unit_dvd_shownSize hunit hten, ?_⟩
    · rw [printedUnit_eq_ten_iff, not_and_or, not_not, not_not] at hten
      rcases hten with hgb | hmb
      · exact Or.inl hgb
      · exact Or.inr (Or.inl hmb)
    · rw [shownSize_printed]
      exact printedUnit_shown hten

/-- The nearest whole number of units is printed like the size that was to be stored exactly if the
size settles. -/
theorem printed_alike_iff {bytes stored : UInt64} {unit : Nat} (hkilobytes : 1024 ∣ unit)
    (hunit : unit ∣ 2 ^ 20)
    (hstored : stored.toNat = roundHalfEven (shownSize bytes) unit * unit)
    (hlt : stored.toNat < 2 ^ 63) :
    formatPGMem stored = formatPGMem bytes ↔ Settles unit bytes := by
  have hpos : 0 < unit := Nat.pos_of_dvd_of_pos hunit (Nat.two_pow_pos 20)
  have hmultiple : unit ∣ stored.toNat := hstored ▸ Nat.dvd_mul_left unit _
  have hwhole : 2 ^ 10 ∣ stored.toNat := hkilobytes.trans hmultiple
  have hround : roundSignificant stored.toNat = stored.toNat :=
    roundSignificant_of_dvd (k := 10) hlt hwhole
  have hexact (h : unit ∣ shownSize bytes) : stored.toNat = shownSize bytes := by
    rw [hstored, roundHalfEven_of_dvd hpos h, Nat.div_mul_cancel h]
  rw [formatPGMem_eq_iff, settles_iff hunit, hround, shownSize_printed stored, hround]
  dsimp only
  constructor
  · rintro ⟨hprinted, hshown⟩
    have hsame : stored.toNat = shownSize bytes := by
      by_cases hten : printedUnit (roundSignificant bytes.toNat) = 10
      · -- Kilobytes are shown in full.
        rwa [hprinted, hten, Nat.div_mul_cancel hwhole] at hshown
      · exact hexact (unit_dvd_shownSize hunit hten)
    exact ⟨hsame ▸ hmultiple, hsame ▸ hprinted⟩
  · rintro ⟨hdvd, hprinted⟩
    rw [hexact hdvd]
    refine ⟨hprinted, ?_⟩
    rw [hprinted, Nat.div_mul_cancel (two_pow_dvd_shownSize bytes)]

/-! ## The formulas -/

section

variable (sys : SystemInfo) (req : TuneRequest) (ramBytes : UInt64) (profile : String)

theorem sharedBuffers_lt : (sharedBuffers ramBytes profile).toNat < 2 ^ 62 := by
  have hquarter := sharedBuffers_le ramBytes profile
  have hram := ramBytes.toNat_lt
  omega

theorem effectiveCache_lt : (effectiveCache ramBytes profile).toNat < 2 ^ 62 := by
  have hquarter (n : UInt64) : (n / 4).toNat < 2 ^ 62 := by
    have hdiv : (n / 4).toNat = n.toNat / 4 := UInt64.toNat_div _ _
    have hn := n.toNat_lt
    omega
  unfold effectiveCache
  split
  · exact hquarter _
  · exact hquarter _

theorem workMem_lt : (workMem sys.totalRAM profile (pgMaxConn sys req)).toNat < 2 ^ 62 := by
  rcases exists_pgMaxConn sys req with ⟨c, hc, hlow, hhigh⟩
  have hshare := share_le sys.totalRAM profile hlow hhigh
  have hram := sys.totalRAM.toNat_lt
  have hmul : 50 * (workMemShare sys.totalRAM profile c).toNat ≤
      c * (workMemShare sys.totalRAM profile c).toNat := Nat.mul_le_mul_right _ hlow
  rw [hc]
  unfold workMem
  split
  · decide
  · omega

theorem maintWorkMem_lt : (maintWorkMem ramBytes profile).toNat < 2 ^ 62 := by
  have hsixteenth : (ramBytes / 16).toNat < 2 ^ 62 := by
    have hdiv : (ramBytes / 16).toNat = ramBytes.toNat / 16 := UInt64.toNat_div _ _
    have hram := ramBytes.toNat_lt
    omega
  unfold maintWorkMem
  dsimp only
  split_ifs
  · decide
  · exact hsixteenth
  · decide
  · exact hsixteenth

theorem walBuffers_lt : (walBuffers ramBytes profile).toNat < 2 ^ 62 := by
  -- At most 64 whole megabytes.
  have hmegabytes (w : UInt64) (hw : w ≤ 64 * 1024 * 1024) :
      (w / (1024 * 1024) * 1024 * 1024).toNat < 2 ^ 62 := by
    have hle : w.toNat ≤ 64 * 1024 * 1024 := UInt64.le_iff_toNat_le.1 hw
    have hdiv : (w / (1024 * 1024)).toNat = w.toNat / (1024 * 1024) := UInt64.toNat_div _ _
    rw [UInt64.toNat_mul, UInt64.toNat_mul, hdiv]
    change w.toNat / (1024 * 1024) * 1024 % 2 ^ 64 * 1024 % 2 ^ 64 < 2 ^ 62
    omega
  have hclamp (w : UInt64) :
      (if 64 * 1024 * 1024 < w then 64 * 1024 * 1024 else w) ≤ 64 * 1024 * 1024 := by
    split
    · exact UInt64.le_refl _
    · exact UInt64.not_lt.1 ‹_›
  unfold walBuffers
  dsimp only
  generalize (if sharedBuffers ramBytes profile * 3 / 100 < 64 * 1024 then 64 * 1024
    else sharedBuffers ramBytes profile * 3 / 100) = w
  have hw := hclamp w
  generalize (if 64 * 1024 * 1024 < w then 64 * 1024 * 1024 else w) = v at hw ⊢
  split
  · decide
  · exact hmegabytes v hw

/-- No formula gives more than a quarter of the largest `uint64`. -/
theorem memoryParameters_lt {p : String × String × UInt64} (h : p ∈ memoryParameters sys req) :
    p.2.2.toNat < 2 ^ 62 := by
  simp only [memoryParameters, List.mem_cons, List.not_mem_nil, or_false] at h
  rcases h with rfl | rfl | rfl | rfl | rfl
  · exact sharedBuffers_lt _ _
  · exact effectiveCache_lt _ _
  · exact workMem_lt sys req _
  · exact maintWorkMem_lt _ _
  · exact walBuffers_lt _ _

theorem unit_of_memoryParameters {p : String × String × UInt64}
    (h : p ∈ memoryParameters sys req) : p.2.1 = "8kB" ∨ p.2.1 = "kB" := by
  simp only [memoryParameters, List.mem_cons, List.not_mem_nil, or_false] at h
  rcases h with rfl | rfl | rfl | rfl | rfl <;> simp

end

/-! ## What the analysis shows -/

/-- The text for a current setting. -/
def currentText (cur : CurrentSettings) (name : String) : String :=
  ((cur.lookup name).map fun s => formatCurrentSetting s.value s.unit).getD ""

section

variable (name : String) (cur : CurrentSettings)
variable (newVal category desc settingContext : String)

@[simp] theorem makeRec_currentValue :
    (makeRec name cur newVal category desc settingContext).currentValue =
      currentText cur name := by
  unfold makeRec currentText
  dsimp only
  cases cur.lookup name <;> rfl

end

theorem currentValue_of_mem {sys : SystemInfo} {req : TuneRequest} {cur : CurrentSettings}
    {r : ConfigRecommendation} (h : r ∈ calculate sys req cur) :
    r.currentValue = currentText cur r.name := by
  revert r
  simp only [calculate, List.forall_mem_append]
  refine ⟨⟨⟨⟨⟨⟨?_, ?_⟩, ?_⟩, ?_⟩, ?_⟩, ?_⟩, ?_⟩
  · simp [memorySettings]
  · simp [walSettings]
  · unfold checkpointSettings
    split <;> simp
  · simp [parallelSettings]
  · unfold diskSettings
    split <;> split <;> simp
  · simp [connectionSettings]
  · simp [statisticsSettings]

section

variable {sys : SystemInfo} {req : TuneRequest} {name unit : String} {bytes : UInt64}

theorem newValue?_of_memoryParameters (cur : CurrentSettings)
    (h : (name, unit, bytes) ∈ memoryParameters sys req) :
    newValue? (calculate sys req cur) name = some (formatPGMem bytes) := by
  apply newValue?_calculate
  simp only [memoryParameters, List.mem_cons, List.not_mem_nil, or_false, Prod.mk.injEq] at h
  rcases h with ⟨rfl, rfl, rfl⟩ | ⟨rfl, rfl, rfl⟩ | ⟨rfl, rfl, rfl⟩ | ⟨rfl, rfl, rfl⟩ |
    ⟨rfl, rfl, rfl⟩ <;> simp [calculate, memorySettings, walSettings]

/-- Whole units are shown as the size that they are. -/
theorem formatCurrentSetting_units {n : Nat} (hunit : unit = "8kB" ∨ unit = "kB")
    (hn : n ≤ 9223372036854775807) :
    formatCurrentSetting (itoa n) unit =
      formatPGMem (UInt64.ofInt n * UInt64.ofNat (unitSize unit)) := by
  unfold formatCurrentSetting formatUnits
  rcases hunit with rfl | rfl
  · simp [strconvAtoi_itoa hn, unitSize]
  · simp [strconvAtoi_itoa hn, unitSize]

/-- What PostgreSQL has stored of a recommendation is shown like it exactly if its size settles. -/
theorem stored_shown_iff {n : Nat} (h : (name, unit, bytes) ∈ memoryParameters sys req)
    (hn : storedUnits (formatPGMem bytes) (unitSize unit) = some n) :
    formatCurrentSetting (itoa n) unit = formatPGMem bytes ↔ Settles (unitSize unit) bytes := by
  have hname := unit_of_memoryParameters sys req h
  have hlt : bytes.toNat < 2 ^ 62 := memoryParameters_lt sys req h
  have hsize : unitSize unit = 1024 ∨ unitSize unit = 8192 := by
    rcases hname with rfl | rfl
    · exact Or.inr rfl
    · exact Or.inl rfl
  have hkilobytes : 1024 ∣ unitSize unit := by
    rcases hsize with hsize | hsize <;> rw [hsize]
    exact ⟨8, rfl⟩
  have hmegabyte : unitSize unit ∣ 2 ^ 20 := by
    rcases hsize with hsize | hsize <;> rw [hsize]
    · exact ⟨1024, rfl⟩
    · exact ⟨128, rfl⟩
  rw [storedUnits, readSize_formatPGMem, Option.map_some, Option.some.injEq] at hn
  -- Neither printing nor storing adds so much that anything wraps around.
  have hbound : 2 * (n * unitSize unit) ≤ 2 * shownSize bytes + unitSize unit :=
    hn ▸ roundHalfEven_le (shownSize bytes) (by omega)
  have hshown := shownSize_le_mul bytes
  have hsmall : n * unitSize unit < 2 ^ 63 := by omega
  have hunits : n ≤ n * unitSize unit := Nat.le_mul_of_pos_right n (by omega)
  have hstored : (UInt64.ofInt n * UInt64.ofNat (unitSize unit)).toNat = n * unitSize unit := by
    rw [UInt64.toNat_mul, toNat_ofInt (by omega), UInt64.toNat_ofNat',
      Nat.mod_eq_of_lt (show unitSize unit < 2 ^ 64 by omega)]
    exact Nat.mod_eq_of_lt (by omega)
  rw [formatCurrentSetting_units hname (by omega)]
  exact printed_alike_iff hkilobytes hmegabyte (by rw [hstored, hn]) (by rw [hstored]; exact hsmall)

/-- What the next analysis shows depends on the stored number alone. -/
theorem appliedStable_iff_shown {n : Nat} (h : (name, unit, bytes) ∈ memoryParameters sys req)
    (hn : storedUnits (formatPGMem bytes) (unitSize unit) = some n) :
    AppliedStable sys req name unit ↔
      formatCurrentSetting (itoa n) unit = formatPGMem bytes := by
  constructor
  · intro hstable
    -- Any earlier settings will do, and settings that hold nothing but the stored value.
    let next : CurrentSettings := AList.insert name { value := itoa n, unit := unit } ∅
    have hlookup : next.lookup name = some { value := itoa n, unit := unit } := by
      exact AList.lookup_insert _
    obtain ⟨r, hfind, hvalue⟩ := Option.map_eq_some_iff.1 (newValue?_of_memoryParameters next h)
    have hr : r ∈ calculate sys req next := List.mem_of_find?_eq_some hfind
    have hname : r.name = name := by simpa using List.find?_some hfind
    have hcurrent := hstable ∅ next _ n (newValue?_of_memoryParameters ∅ h) hn hlookup r hr hname
    rwa [currentValue_of_mem hr, hname, currentText, hlookup, hvalue] at hcurrent
  · intro hshown cur next newValue m hvalue hm hlookup r hr hname
    cases Option.some.inj ((newValue?_of_memoryParameters cur h).symm.trans hvalue)
    cases Option.some.inj (hn.symm.trans hm)
    have hnew : r.newValue = formatPGMem bytes := by
      have hvalue' := newValue?_of_mem (names_nodup sys req next) hr
      rw [hname, newValue?_of_memoryParameters next h] at hvalue'
      exact (Option.some.inj hvalue').symm
    rw [currentValue_of_mem hr, hname, currentText, hlookup, hnew]
    exact hshown

theorem exists_storedUnits (bytes : UInt64) (unit : Nat) :
    ∃ n, storedUnits (formatPGMem bytes) unit = some n := by
  rw [storedUnits, readSize_formatPGMem]
  exact ⟨_, rfl⟩

/-- An applied recommendation is shown as it was given exactly if its size settles. -/
theorem applied_stable_iff (h : (name, unit, bytes) ∈ memoryParameters sys req) :
    AppliedStable sys req name unit ↔ Settles (unitSize unit) bytes := by
  obtain ⟨n, hn⟩ := exists_storedUnits bytes (unitSize unit)
  rw [appliedStable_iff_shown h hn, stored_shown_iff h hn]

end

/-- A machine with 16330012 kB, for which a quarter of them is recommended as shared buffers. -/
def unevenMachine : SystemInfo where
  totalRAM := 16330012 * 1024
  cpuCores := 4
  diskType := "ssd"
  cpuCores_isInt64 := by decide

theorem applied_stable_iff_unevenMachine :
    AppliedStable unevenMachine webRequest "shared_buffers" "8kB" ↔
      Settles (unitSize "8kB") (sharedBuffers unevenMachine.totalRAM webRequest.workload) :=
  applied_stable_iff (by simp [memoryParameters])

/-- The recommendation of 4082503 kB is no whole number of blocks of 8 kB. -/
theorem uneven_machine_unstable :
    ¬ ∀ (sys : SystemInfo) (req : TuneRequest) (name unit : String) (bytes : UInt64),
      (name, unit, bytes) ∈ memoryParameters sys req → AppliedStable sys req name unit := by
  intro hall
  have hmem : ("shared_buffers", "8kB", sharedBuffers unevenMachine.totalRAM webRequest.workload) ∈
      memoryParameters unevenMachine webRequest := by
    simp [memoryParameters]
  obtain ⟨n, hn⟩ := exists_storedUnits (sharedBuffers unevenMachine.totalRAM webRequest.workload)
    (unitSize "8kB")
  have hshown := (appliedStable_iff_shown hmem hn).1 (hall _ _ _ _ _ hmem)
  exact absurd ((stored_shown_iff hmem hn).1 hshown) (by decide +kernel)

end Service
end Pgaio
