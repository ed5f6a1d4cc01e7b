import Pgaio.Service.AppConfig

/-!
# ConfigRoundTrip — the settings in memory and the settings in the file

Whatever `update` has written, a later process reads back as it was (`settings_survive_restart`).
Reading works over the default settings, but a document of the settings names every field, and
completed settings have a route for every feature, so nothing of the defaults is left.

`update` changes the settings in memory before it writes the file, and does not change them back when
that fails.  So it is all or nothing exactly when the file is written or there is nothing to change
(`update_allOrNothing_iff`).
-/

namespace Pgaio
namespace Service

open Go

/-! ## Documents are read back -/

theorem backup_restores (base : BackupConfig) {x : BackupConfig} (hx : x.InRange) :
    backupCodec.Restores base x := by
  apply Codec.struct_restores (by decide)
  refine .next (Field.of_restores rfl) ?_
  refine .next (Field.of_restores (Codec.int_restores _ hx.intervalHours)) ?_
  refine .next (Field.of_restores (Codec.int_restores _ hx.incrementalIntervalHours)) ?_
  refine .next (Field.of_restores (Codec.int_restores _ hx.fullWeekday)) ?_
  refine .next (Field.of_restores (Codec.int_restores _ hx.fullHour)) ?_
  refine .next (Field.of_restores (Codec.int_restores _ hx.retainCount)) ?_
  exact .next (Field.of_restores rfl) (.done (by simp only [Field.of]))

theorem telegram_restores (base x : TelegramConfig) : telegramCodec.Restores base x := by
  apply Codec.struct_restores (by decide)
  refine .next (Field.of_restores rfl) ?_
  exact .next (Field.of_restores rfl) (.done (by simp only [Field.of]))

theorem thresholds_restores (base : AlertThresholds) {x : AlertConfig} (hx : x.InRange) :
    thresholdsCodec.Restores base x.thresholds := by
  apply Codec.struct_restores (by decide)
  refine .next (Field.of_restores (Codec.int_restores _ hx.diskUsagePct)) ?_
  refine .next (Field.of_restores (Codec.int_restores _ hx.connectionsPct)) ?_
  refine .next (Field.of_restores (Codec.int_restores _ hx.replicationLagSec)) ?_
  exact .next (Field.of_restores (Codec.int_restores _ hx.backupMaxAgeHours))
    (.done (by simp only [Field.of]))

theorem alerts_restores (base : AlertConfig) {x : AlertConfig} (hx : x.InRange) :
    alertCodec.Restores base x := by
  apply Codec.struct_restores (by decide)
  refine .next (Field.of_restores rfl) ?_
  refine .next (Field.of_restores (telegram_restores _ _)) ?_
  refine .next (Field.of_restores (thresholds_restores _ hx)) ?_
  exact .next (Field.of_restores (Codec.int_restores _ hx.cooldownMinutes))
    (.done (by simp only [Field.of]))

theorem profile_restores (base : ConnectionProfile) {x : ConnectionProfile}
    (hport : IsInt64 x.port) : profileCodec.Restores base x := by
  apply Codec.struct_restores (by decide)
  refine .next (Field.of_restores rfl) ?_
  refine .next (Field.of_restores rfl) ?_
  refine .next (Field.of_restores rfl) ?_
  refine .next (Field.of_restores rfl) ?_
  refine .next (Field.of_restores (Codec.int_restores _ hport)) ?_
  refine .next (Field.of_restores rfl) ?_
  refine .next (Field.of_restores rfl) ?_
  refine .next (Field.of_restores rfl) ?_
  exact .next (Field.of_restores rfl) (.done (by simp only [Field.of]))

/-- Every feature with a route before has one in the new settings, or these have no routes at all. -/
def CoversRoutes (base x : ConnectionSettings) : Prop :=
  ∀ routes, x.featureRoutes = some routes → ∀ key, key ∈ base.featureRoutes.getD ∅ → key ∈ routes

theorem connections_restores {base x : ConnectionSettings}
    (hports : ∀ profile ∈ x.profiles.getD [], IsInt64 profile.port) (hroutes : CoversRoutes base x) :
    connectionCodec.Restores base x := by
  have hprofiles : (Codec.slice profileCodec).Restores base.profiles x.profiles := by
    apply Codec.slice_restores
    intro profile hprofile base
    exact profile_restores base (hports profile hprofile)
  have hmap : (Codec.mapOf Codec.string).Restores base.featureRoutes x.featureRoutes :=
    Codec.mapOf_restores (fun _ => rfl) hroutes
  apply Codec.struct_restores (by decide)
  refine .next (Field.of_restores hprofiles) ?_
  exact .next (Field.of_restores hmap) (.done (by simp only [Field.of]))

theorem app_restores {base x : AppConfig} (hx : x.InRange)
    (hroutes : CoversRoutes base.connections x.connections) : appCodec.Restores base x := by
  apply Codec.struct_restores (by decide)
  refine .next (Field.of_restores (backup_restores _ hx.backup)) ?_
  refine .next (Field.of_restores (alerts_restores _ hx.alerts)) ?_
  exact .next (Field.of_restores (connections_restores hx.ports hroutes))
    (.done (by simp only [Field.of]))

theorem coversRoutes_zero (x : ConnectionSettings) : CoversRoutes {} x :=
  fun _ _ _ hkey => absurd hkey Finmap.notMem_empty

/-! ## Completed settings -/

/-- The feature has a route that is not blank. -/
def Routed (routes : StringMap String) (key : String) : Prop :=
  trimSpace ((routes.lookup key).getD "") ≠ ""

theorem Routed.mem {routes : StringMap String} {key : String} (h : Routed routes key) :
    key ∈ routes := by
  by_contra habsent
  apply h
  rw [Finmap.lookup_eq_none.2 habsent]
  decide

theorem fillRoute_of_routed {routes : StringMap String} {key : String} (h : Routed routes key) :
    fillRoute routes key = routes :=
  if_neg h

theorem routed_fillRoute_self (routes : StringMap String) (key : String) :
    Routed (fillRoute routes key) key := by
  by_cases h : Routed routes key
  · rw [fillRoute_of_routed h]
    exact h
  · have hfill : fillRoute routes key = routes.insert key "direct-postgres" :=
      if_pos (not_not.1 h)
    rw [hfill, Routed, Finmap.lookup_insert]
    decide

theorem Routed.fillRoute {routes : StringMap String} {key : String} (h : Routed routes key)
    (other : String) : Routed (fillRoute routes other) key := by
  by_cases hkey : key = other
  · rw [hkey]
    exact routed_fillRoute_self routes other
  · unfold Service.fillRoute
    split
    · rw [Routed, Finmap.lookup_insert_of_ne _ hkey]
      exact h
    · exact h

theorem Routed.foldl {routes : StringMap String} {key : String} (h : Routed routes key)
    (keys : List String) : Routed (keys.foldl Service.fillRoute routes) key := by
  induction keys generalizing routes with
  | nil => exact h
  | cons other keys ih =>
      rw [List.foldl_cons]
      exact ih (h.fillRoute other)

theorem routed_foldl {keys : List String} {key : String} (hkey : key ∈ keys)
    (routes : StringMap String) : Routed (keys.foldl fillRoute routes) key := by
  induction keys generalizing routes with
  | nil => cases hkey
  | cons other keys ih =>
      rw [List.foldl_cons]
      rcases List.mem_cons.1 hkey with rfl | hrest
      · exact (routed_fillRoute_self routes key).foldl keys
      · exact ih hrest (fillRoute routes other)

theorem foldl_fillRoute_of_routed {keys : List String} {routes : StringMap String}
    (h : ∀ key ∈ keys, Routed routes key) : keys.foldl fillRoute routes = routes := by
  induction keys with
  | nil => rfl
  | cons key keys ih =>
      rw [List.foldl_cons, fillRoute_of_routed (h key List.mem_cons_self)]
      exact ih fun other hother => h other (List.mem_cons_of_mem key hother)

theorem fillRoutes_idem (routes : StringMap String) :
    fillRoutes (fillRoutes routes) = fillRoutes routes :=
  foldl_fillRoute_of_routed fun _ hkey => routed_foldl hkey routes

theorem mem_defaultRoutes {key : String} (h : key ∈ defaultRoutes) : key ∈ featureNames := by
  simp only [defaultRoutes, featureNames, List.foldl_cons, List.foldl_nil, Finmap.mem_insert] at h
  simp only [featureNames, List.mem_cons]
  rcases h with h | h | h | h | h
  · simp [h]
  · simp [h]
  · simp [h]
  · simp [h]
  · exact absurd h Finmap.notMem_empty

variable (env : ConnEnv)

/-- Completing the settings twice changes nothing. -/
theorem applyConnectionDefaultsLocked_idem (cfg : AppConfig) :
    env.applyConnectionDefaultsLocked (env.applyConnectionDefaultsLocked cfg) =
      env.applyConnectionDefaultsLocked cfg := by
  simp only [ConnEnv.applyConnectionDefaultsLocked, Option.getD_some,
    applyConnectionDefaults_idem, fillRoutes_idem]
  by_cases hcooldown : cfg.alerts.cooldownMinutes ≤ 0
  · simp [hcooldown]
  · simp [hcooldown]

theorem isInt64_defaultPort (value : String) {default : Int} (h : IsInt64 default) :
    IsInt64 (getConfigEnvInt value default) := by
  unfold getConfigEnvInt
  simp only
  split
  · exact h
  · cases hread : strconvAtoi (trimSpace value) with
    | none => exact h
    | some n => exact isInt64_of_strconvAtoi hread

theorem isInt64_splitHostPort (addr defHost : String) {defPort : Int} (h : IsInt64 defPort) :
    IsInt64 (splitHostPort addr defHost defPort).2 := by
  unfold splitHostPort
  simp only
  split
  · exact h
  · split
    · rename_i host port _
      cases hread : strconvAtoi (String.ofList port) with
      | none => exact h
      | some n => exact isInt64_of_strconvAtoi hread
    · exact h

/-- Both default profiles have a port in range. -/
theorem isInt64_port_default {profile : ConnectionProfile} (h : profile ∈ env.defaultConnections) :
    IsInt64 profile.port := by
  unfold ConnEnv.defaultConnections at h
  rcases List.mem_cons.1 h with rfl | hsecond
  · simp only [ConnEnv.directPostgres]
    exact isInt64_defaultPort env.pgPort (by decide)
  · rw [List.mem_singleton.1 hsecond]
    simp only [ConnEnv.pgbouncerTransaction]
    exact isInt64_splitHostPort _ _ (by decide)

theorem inRange_applyConnectionDefaultsLocked {cfg : AppConfig} (h : cfg.InRange) :
    (env.applyConnectionDefaultsLocked cfg).InRange where
  backup := h.backup
  alerts :=
    { h.alerts with
      cooldownMinutes := by
        simp only [ConnEnv.applyConnectionDefaultsLocked]
        split
        · decide
        · exact h.alerts.cooldownMinutes }
  ports := by
    have hdirect : IsInt64 env.directPostgres.port :=
      isInt64_port_default env List.mem_cons_self
    -- Without profiles in the file those of the environment are taken.
    have hgiven : ∀ profile ∈ (if cfg.connections.profiles.getD [] = [] then env.defaultConnections
        else cfg.connections.profiles.getD []), IsInt64 profile.port := by
      intro profile hprofile
      split at hprofile
      · exact isInt64_port_default env hprofile
      · exact h.ports profile hprofile
    intro profile hprofile
    obtain ⟨given, hmem, rfl⟩ := List.mem_map.1 hprofile
    simp only [ConnEnv.applyDefaults]
    split
    · exact hdirect
    · exact hgiven given hmem

/-- Completed settings have a route for every feature that the default settings have one for. -/
theorem coversRoutes_completed (cfg : AppConfig) :
    CoversRoutes env.defaultConfig.connections
      (env.applyConnectionDefaultsLocked cfg).connections := by
  intro routes hroutes key hkey
  have hfilled : fillRoutes (cfg.connections.featureRoutes.getD defaultRoutes) = routes :=
    Option.some.inj hroutes
  have hrouted : Routed (fillRoutes (cfg.connections.featureRoutes.getD defaultRoutes)) key :=
    routed_foldl (mem_defaultRoutes hkey) _
  rw [hfilled] at hrouted
  exact hrouted.mem

/-- Nothing of the default settings is left after a document of completed settings. -/
theorem completed_restores {cfg : AppConfig} (h : cfg.InRange) :
    appCodec.Restores env.defaultConfig (env.applyConnectionDefaultsLocked cfg) :=
  app_restores (inRange_applyConnectionDefaultsLocked env h) (coversRoutes_completed env cfg)

/-! ## After a restart -/

theorem written_of_update {cs after : ConfigStore} {cfg : AppConfig} {outcome : WriteOutcome}
    (h : cs.update env cfg outcome = (after, none)) :
    after.config = env.applyConnectionDefaultsLocked cfg ∧
      after.file = .ok (appCodec.encode after.config) := by
  unfold ConfigStore.update ConfigStore.save at h
  cases outcome with
  | written =>
      cases h
      exact ⟨rfl, rfl⟩
  | refused err => cases h
  | brokenOff err left => cases h

/-- A process that starts with the file of the settings completes what it reads from it. -/
theorem config_newConfigStore {file : ConfigFile} {cfg : AppConfig}
    (hfile : file = .ok (appCodec.encode cfg)) (hrestores : appCodec.Restores env.defaultConfig cfg)
    (outcome : WriteOutcome) :
    (newConfigStore env file outcome).config = env.applyConnectionDefaultsLocked cfg := by
  unfold Codec.Restores at hrestores
  simp [newConfigStore, ConfigStore.load, hfile, hrestores]

/-- The settings that `update` has written are the settings of the next process; the defaults under
the document leave no trace, and completing the settings once more changes nothing. -/
theorem settings_survive_restart (cs after : ConfigStore) (cfg : AppConfig)
    (outcome later : WriteOutcome) (hcfg : cfg.InRange)
    (h : cs.update env cfg outcome = (after, none)) :
    (newConfigStore env after.file later).config = after.get ∧
      appCodec.decode env.defaultConfig (appCodec.encode after.get) = (after.get, none) ∧
      env.applyConnectionDefaultsLocked (env.applyConnectionDefaultsLocked cfg) =
        env.applyConnectionDefaultsLocked cfg := by
  obtain ⟨hconfig, hfile⟩ := written_of_update env h
  have hidem := applyConnectionDefaultsLocked_idem env cfg
  have hrestores : appCodec.Restores env.defaultConfig after.config := by
    rw [hconfig]
    exact completed_restores env hcfg
  refine ⟨?_, hrestores, hidem⟩
  calc (newConfigStore env after.file later).config
      = env.applyConnectionDefaultsLocked after.config :=
        config_newConfigStore env hfile hrestores later
    _ = after.config := by rw [hconfig, hidem]

/-- New settings with one profile that only has a name. -/
def exampleSettings : AppConfig where
  backup := { enabled := true, incrementalIntervalHours := 6 }
  connections := { profiles := some [{ name := "reports", host := "db2" }] }

theorem exampleSettings_inRange : exampleSettings.InRange where
  backup := by constructor <;> decide
  alerts := by constructor <;> decide
  ports := by decide

theorem settings_survive_restart_oneProfile :
    (newConfigStore {}
        (.ok (appCodec.encode (ConnEnv.applyConnectionDefaultsLocked {} exampleSettings)))
        .written).config =
      ConnEnv.applyConnectionDefaultsLocked {} exampleSettings :=
  (settings_survive_restart {} { config := {}, file := .error "" } _ exampleSettings .written
    .written exampleSettings_inRange rfl).1

/-! ## All or nothing -/

/-- The readers see the same settings. -/
structure SameReadings (before after : ConfigStore) : Prop where
  get : after.get = before.get
  getBackup : after.getBackup = before.getBackup
  getAlerts : after.getAlerts = before.getAlerts
  getConnections : after.getConnections = before.getConnections

/-- The file holds the settings in memory. -/
def ConfigStore.FileDescribes (cs : ConfigStore) : Prop :=
  ∃ document, cs.file = .ok document ∧ appCodec.decode {} document = (cs.config, none)

/-- `result` is what `update` leaves and returns. -/
structure AllOrNothing (before : ConfigStore) (result : ConfigStore × Option String) : Prop where
  failed : result.2 ≠ none → SameReadings before result.1
  succeeded : result.2 = none → result.1.FileDescribes

theorem sameReadings_iff {before after : ConfigStore} :
    SameReadings before after ↔ after.config = before.config := by
  constructor
  · exact SameReadings.get
  · intro h
    exact
      { get := h
        getBackup := congrArg AppConfig.backup h
        getAlerts := congrArg AppConfig.alerts h
        getConnections := congrArg AppConfig.connections h }

theorem fileDescribes_of_restores {cs : ConfigStore}
    (hfile : cs.file = .ok (appCodec.encode cs.config))
    (h : appCodec.Restores {} cs.config) : cs.FileDescribes :=
  ⟨appCodec.encode cs.config, hfile, h⟩

theorem update_config (cs : ConfigStore) (cfg : AppConfig) (outcome : WriteOutcome) :
    (cs.update env cfg outcome).1.config = env.applyConnectionDefaultsLocked cfg := by
  unfold ConfigStore.update ConfigStore.save
  cases outcome <;> rfl

theorem update_error_iff (cs : ConfigStore) (cfg : AppConfig) (outcome : WriteOutcome) :
    (cs.update env cfg outcome).2 = none ↔ outcome = .written := by
  unfold ConfigStore.update ConfigStore.save
  cases outcome <;> simp

/-- An update is all or nothing exactly when the file is written, or when the new settings are, once
completed, the old ones. -/
theorem update_allOrNothing_iff (cs : ConfigStore) (cfg : AppConfig) (outcome : WriteOutcome)
    (hcfg : cfg.InRange) :
    AllOrNothing cs (cs.update env cfg outcome) ↔
      outcome = .written ∨ env.applyConnectionDefaultsLocked cfg = cs.config := by
  have herror := update_error_iff env cs cfg outcome
  constructor
  · intro h
    by_cases hwritten : outcome = .written
    · exact Or.inl hwritten
    · have hsame := sameReadings_iff.1 (h.failed fun hnone => hwritten (herror.1 hnone))
      rw [update_config] at hsame
      exact Or.inr hsame
  · intro h
    constructor
    · intro hfailed
      apply sameReadings_iff.2
      rw [update_config]
      exact h.resolve_left fun hwritten => hfailed (herror.2 hwritten)
    · intro hnone
      obtain ⟨hconfig, hfile⟩ := written_of_update env (Prod.ext rfl hnone)
      apply fileDescribes_of_restores hfile
      -- The document of the completed settings, decoded over nothing.
      rw [hconfig]
      exact app_restores (inRange_applyConnectionDefaultsLocked env hcfg) (coversRoutes_zero _)

theorem update_allOrNothing_iff_written :
    AllOrNothing { config := {}, file := .error "" }
      (ConfigStore.update {} { config := {}, file := .error "" } exampleSettings .written) :=
  (update_allOrNothing_iff {} _ exampleSettings .written exampleSettings_inRange).2 (Or.inl rfl)

/-- The file cannot be opened, but the new settings are in use. -/
theorem changed_in_memory :
    ¬∀ (env : ConnEnv) (cs : ConfigStore) (cfg : AppConfig) (outcome : WriteOutcome),
      cfg.InRange → AllOrNothing cs (cs.update env cfg outcome) := by
  intro hall
  have h := hall {} { config := {}, file := .error "" } exampleSettings
    (.refused "permission denied") exampleSettings_inRange
  have hsame := (h.failed (by decide)).getBackup
  exact absurd hsame (by decide)

end Service
end Pgaio
