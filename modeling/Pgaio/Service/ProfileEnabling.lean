import Pgaio.Service.ConfigRoundTrip
import Pgaio.Service.PoolManager

/-!
# ProfileEnabling — can a connection profile be disabled?

Every update completes the profiles, and completing a profile with a name enables it.  So the profiles
in use are enabled whenever they have a name, and `resolveProfileConfig` never answers that one is
disabled: no update disables a profile (`never_disabled`).
-/

namespace Pgaio
namespace Service

open Go

/-- The profiles that the pool manager looks at. -/
def ConfigStore.profiles (cs : ConfigStore) : List ConnectionProfile :=
  cs.getConnections.profiles.getD []

theorem profiles_update (env : ConnEnv) (cs : ConfigStore) (cfg : AppConfig)
    (outcome : WriteOutcome) :
    (cs.update env cfg outcome).1.profiles =
      env.applyConnectionDefaults (cfg.connections.profiles.getD []) := by
  unfold ConfigStore.profiles ConfigStore.getConnections
  rw [update_config]
  rfl

section

variable {D : Driver} (pm : PoolManager D)

/-- The error text for a disabled profile. -/
def disabledError (profileName : String) : String :=
  "connection profile disabled: " ++ profileName

/-- Texts that begin differently are different. -/
theorem ne_of_take_ne {stem stem' : String} {n : Nat} (hlen : n ≤ stem.toList.length)
    (hlen' : n ≤ stem'.toList.length) (h : stem.toList.take n ≠ stem'.toList.take n)
    (rest rest' : String) : stem ++ rest ≠ stem' ++ rest' := by
  intro heq
  apply h
  calc stem.toList.take n
      = (stem ++ rest).toList.take n := by
        rw [String.toList_append, List.take_append_of_le_length hlen]
    _ = (stem' ++ rest').toList.take n := by rw [heq]
    _ = stem'.toList.take n := by
        rw [String.toList_append, List.take_append_of_le_length hlen']

theorem notFound_ne_disabled (profileName : String) :
    "connection profile not found: " ++ profileName ≠ disabledError profileName :=
  ne_of_take_ne (n := 20) (by decide) (by decide) (by decide) _ _

theorem parseError_ne_disabled (profileName rest : String) :
    "failed to parse connection profile " ++ rest ≠ disabledError profileName :=
  ne_of_take_ne (n := 1) (by decide) (by decide) (by decide) _ _

/-- Only a profile that is not enabled is answered with the error. -/
theorem resolve_ne_disabled {profiles : List ConnectionProfile} {profileName : String}
    (h : ∀ profile ∈ profiles, profile.name = profileName → profile.enabled = true) :
    pm.resolveProfileConfig profiles profileName ≠ .error (disabledError profileName) := by
  unfold PoolManager.resolveProfileConfig
  split
  · simp
  · cases hlookup : lookupProfile profiles profileName with
    | none =>
        simp only [ne_eq, Except.error.injEq]
        exact notFound_ne_disabled profileName
    | some profile =>
        have hname : profile.name = profileName := by
          simpa using List.find?_some hlookup
        have henabled := h profile (List.mem_of_find?_eq_some hlookup) hname
        simp only [henabled, Bool.true_eq_false, if_false]
        cases D.parseConfig (pm.profileText profile) with
        | ok config => simp
        | error err =>
            simp only [ne_eq, Except.error.injEq, String.append_assoc]
            exact parseError_ne_disabled profileName _

/-- The profile is disabled for its users: `GetConnections` says so, and it is not resolved. -/
structure IsDisabled (cs : ConfigStore) (profileName : String) : Prop where
  reported : ∃ profile ∈ cs.profiles, profile.name = profileName ∧ profile.enabled = false
  refused : pm.resolveProfileConfig cs.profiles profileName = .error (disabledError profileName)

/-- After an update every profile with a name is enabled, whatever the update says about it and
whether or not the file could be written. -/
theorem enabled_of_update {cs : ConfigStore} {cfg : AppConfig} {outcome : WriteOutcome}
    {profileName : String} (hname : profileName ≠ "") :
    ∀ profile ∈ (cs.update pm.env cfg outcome).1.profiles, profile.name = profileName →
      profile.enabled = true := by
  intro profile hprofile hsame
  rw [profiles_update] at hprofile
  exact (complete_of_mem hprofile).2.2 (hsame ▸ hname)

/-- So no update disables a profile, in particular not the one that contains it disabled. -/
theorem never_disabled (cs : ConfigStore) (cfg : AppConfig) (outcome : WriteOutcome)
    (profileName : String) (hname : profileName ≠ "") :
    ¬IsDisabled pm (cs.update pm.env cfg outcome).1 profileName := by
  intro h
  exact resolve_ne_disabled pm (enabled_of_update pm hname) h.refused

end

/-! ## A concrete update -/

/-- An update that disables its one profile. -/
def disablingSettings : AppConfig where
  connections := { profiles := some [{ name := "reports", host := "db2", enabled := false }] }

theorem never_disabled_reports :
    ¬IsDisabled PoolManager.exampleManager
      (ConfigStore.update {} { config := {}, file := .error "" } disablingSettings .written).1
      "reports" :=
  never_disabled PoolManager.exampleManager _ disablingSettings .written "reports" (by decide)

theorem disabled_profile_enabled :
    ¬∀ (D : Driver) (pm : PoolManager D) (cs : ConfigStore) (cfg : AppConfig)
        (outcome : WriteOutcome) (profile : ConnectionProfile),
      profile ∈ cfg.connections.profiles.getD [] → profile.name ≠ "" → profile.enabled = false →
        IsDisabled pm (cs.update pm.env cfg outcome).1 profile.name := by
  intro hall
  have h := hall PoolManager.exampleDriver PoolManager.exampleManager
    { config := {}, file := .error "" } disablingSettings .written
    { name := "reports", host := "db2", enabled := false } (by decide) (by decide) rfl
  obtain ⟨profile, hprofile, -, hdisabled⟩ := h.reported
  rw [profiles_update] at hprofile
  -- There is one profile, and completing it has enabled it.
  have henabled : ∀ profile ∈ ConnEnv.applyConnectionDefaults {}
      (disablingSettings.connections.profiles.getD []), profile.enabled = true := by decide
  rw [henabled profile hprofile] at hdisabled
  cases hdisabled

end Service
end Pgaio
