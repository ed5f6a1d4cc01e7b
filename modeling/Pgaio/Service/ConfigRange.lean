import Pgaio.Service.ConfigRoundTrip

/-!
# ConfigRange — the settings a process can have

Every number of the settings is a 64-bit integer, whatever the file and the requests say: a number
that is none is an error, and its field stays as it is.

Settings are completed when there is no default left to fill in.  After an update they are.  After the
start they are too, unless the file could not be loaded.
-/

namespace Pgaio
namespace Service

open Go

/-! ## Decoding -/

theorem backup_keeps : backupCodec.Keeps BackupConfig.InRange := by
  apply Codec.struct_keeps
  simp only [List.forall_mem_cons]
  refine ⟨?_, ?_, ?_, ?_, ?_, ?_, ?_, ?_⟩
  · exact Field.of_keeps_free fun _ _ h => { h with fullHour := h.fullHour }
  · exact Field.of_keeps Codec.int_keeps (fun _ h => h.intervalHours)
      fun _ _ h hx => { h with intervalHours := hx }
  · exact Field.of_keeps Codec.int_keeps (fun _ h => h.incrementalIntervalHours)
      fun _ _ h hx => { h with incrementalIntervalHours := hx }
  · exact Field.of_keeps Codec.int_keeps (fun _ h => h.fullWeekday)
      fun _ _ h hx => { h with fullWeekday := hx }
  · exact Field.of_keeps Codec.int_keeps (fun _ h => h.fullHour)
      fun _ _ h hx => { h with fullHour := hx }
  · exact Field.of_keeps Codec.int_keeps (fun _ h => h.retainCount)
      fun _ _ h hx => { h with retainCount := hx }
  · exact Field.of_keeps_free fun _ _ h => { h with fullHour := h.fullHour }
  · simp

structure AlertThresholds.InRange (t : AlertThresholds) : Prop where
  diskUsagePct : IsInt64 t.diskUsagePct
  connectionsPct : IsInt64 t.connectionsPct
  replicationLagSec : IsInt64 t.replicationLagSec
  backupMaxAgeHours : IsInt64 t.backupMaxAgeHours

theorem AlertConfig.InRange.thresholds {a : AlertConfig} (h : a.InRange) : a.thresholds.InRange :=
  ⟨h.diskUsagePct, h.connectionsPct, h.replicationLagSec, h.backupMaxAgeHours⟩

theorem thresholds_keeps : thresholdsCodec.Keeps AlertThresholds.InRange := by
  apply Codec.struct_keeps
  simp only [List.forall_mem_cons]
  refine ⟨?_, ?_, ?_, ?_, ?_⟩
  · exact Field.of_keeps Codec.int_keeps (fun _ h => h.diskUsagePct)
      fun _ _ h hx => { h with diskUsagePct := hx }
  · exact Field.of_keeps Codec.int_keeps (fun _ h => h.connectionsPct)
      fun _ _ h hx => { h with connectionsPct := hx }
  · exact Field.of_keeps Codec.int_keeps (fun _ h => h.replicationLagSec)
      fun _ _ h hx => { h with replicationLagSec := hx }
  · exact Field.of_keeps Codec.int_keeps (fun _ h => h.backupMaxAgeHours)
      fun _ _ h hx => { h with backupMaxAgeHours := hx }
  · simp

theorem alerts_keeps : alertCodec.Keeps AlertConfig.InRange := by
  apply Codec.struct_keeps
  simp only [List.forall_mem_cons]
  refine ⟨?_, ?_, ?_, ?_, ?_⟩
  · exact Field.of_keeps_free fun _ _ h => { h with cooldownMinutes := h.cooldownMinutes }
  · exact Field.of_keeps_free fun _ _ h => { h with cooldownMinutes := h.cooldownMinutes }
  · refine Field.of_keeps thresholds_keeps (fun _ h => h.thresholds) ?_
    intro a t h ht
    exact ⟨ht.diskUsagePct, ht.connectionsPct, ht.replicationLagSec, ht.backupMaxAgeHours,
      h.cooldownMinutes⟩
  · exact Field.of_keeps Codec.int_keeps (fun _ h => h.cooldownMinutes)
      fun _ _ h hx => { h with cooldownMinutes := hx }
  · simp

theorem profile_keeps : profileCodec.Keeps fun profile => IsInt64 profile.port := by
  apply Codec.struct_keeps
  simp only [List.forall_mem_cons]
  refine ⟨?_, ?_, ?_, ?_, ?_, ?_, ?_, ?_, ?_, ?_⟩
  · exact Field.of_keeps_free fun _ _ h => h
  · exact Field.of_keeps_free fun _ _ h => h
  · exact Field.of_keeps_free fun _ _ h => h
  · exact Field.of_keeps_free fun _ _ h => h
  · exact Field.of_keeps Codec.int_keeps (fun _ h => h) fun _ _ _ hx => hx
  · exact Field.of_keeps_free fun _ _ h => h
  · exact Field.of_keeps_free fun _ _ h => h
  · exact Field.of_keeps_free fun _ _ h => h
  · exact Field.of_keeps_free fun _ _ h => h
  · simp

theorem connections_keeps : connectionCodec.Keeps fun connections =>
    ∀ profile ∈ connections.profiles.getD [], IsInt64 profile.port := by
  have hzero : IsInt64 profileCodec.zero.port := by decide
  apply Codec.struct_keeps
  simp only [List.forall_mem_cons]
  refine ⟨?_, ?_, ?_⟩
  · exact Field.of_keeps (Codec.slice_keeps profile_keeps hzero) (fun _ h => h) fun _ _ _ hx => hx
  · exact Field.of_keeps_free fun _ _ h => h
  · simp

theorem app_keeps : appCodec.Keeps AppConfig.InRange := by
  apply Codec.struct_keeps
  simp only [List.forall_mem_cons]
  refine ⟨?_, ?_, ?_, ?_⟩
  · exact Field.of_keeps backup_keeps (fun _ h => h.backup) fun _ _ h hx => { h with backup := hx }
  · exact Field.of_keeps alerts_keeps (fun _ h => h.alerts) fun _ _ h hx => { h with alerts := hx }
  · exact Field.of_keeps connections_keeps (fun _ h => h.ports) fun _ _ h hx => { h with ports := hx }
  · simp

/-! ## Documents that are accepted -/

theorem backup_guards : backupCodec.Guards BackupConfig.InRange := fun base x h =>
  { intervalHours :=
      Codec.struct_guards (by decide) (.tail _ (.head _)) (Field.of_guards Codec.int_guards) base x h
    incrementalIntervalHours :=
      Codec.struct_guards (by decide) (.tail _ (.tail _ (.head _))) (Field.of_guards Codec.int_guards) base x h
    fullWeekday :=
      Codec.struct_guards (by decide) (.tail _ (.tail _ (.tail _ (.head _))))
        (Field.of_guards Codec.int_guards) base x h
    fullHour :=
      Codec.struct_guards (by decide) (.tail _ (.tail _ (.tail _ (.tail _ (.head _)))))
        (Field.of_guards Codec.int_guards) base x h
    retainCount :=
      Codec.struct_guards (by decide) (.tail _ (.tail _ (.tail _ (.tail _ (.tail _ (.head _))))))
        (Field.of_guards Codec.int_guards) base x h }

theorem thresholds_guards : thresholdsCodec.Guards AlertThresholds.InRange := fun base x h =>
  { diskUsagePct := Codec.struct_guards (by decide) (.head _) (Field.of_guards Codec.int_guards) base x h
    connectionsPct :=
      Codec.struct_guards (by decide) (.tail _ (.head _)) (Field.of_guards Codec.int_guards) base x h
    replicationLagSec :=
      Codec.struct_guards (by decide) (.tail _ (.tail _ (.head _))) (Field.of_guards Codec.int_guards) base x h
    backupMaxAgeHours :=
      Codec.struct_guards (by decide) (.tail _ (.tail _ (.tail _ (.head _))))
        (Field.of_guards Codec.int_guards) base x h }

theorem alerts_guards : alertCodec.Guards AlertConfig.InRange := by
  intro base x h
  have hthresholds : x.thresholds.InRange :=
    Codec.struct_guards (by decide) (.tail _ (.tail _ (.head _))) (Field.of_guards thresholds_guards) base x h
  have hcooldown : IsInt64 x.cooldownMinutes :=
    Codec.struct_guards (by decide) (.tail _ (.tail _ (.tail _ (.head _))))
      (Field.of_guards Codec.int_guards) base x h
  exact ⟨hthresholds.diskUsagePct, hthresholds.connectionsPct, hthresholds.replicationLagSec,
    hthresholds.backupMaxAgeHours, hcooldown⟩

theorem profile_guards : profileCodec.Guards fun profile => IsInt64 profile.port := fun base x h =>
  Codec.struct_guards (by decide) (.tail _ (.tail _ (.tail _ (.tail _ (.head _)))))
    (Field.of_guards Codec.int_guards) base x h

theorem connections_guards : connectionCodec.Guards fun connections =>
    ∀ profile ∈ connections.profiles.getD [], IsInt64 profile.port := fun base x h =>
  Codec.struct_guards (by decide) (.head _) (Field.of_guards (Codec.slice_guards profile_guards)) base x h

/-- Settings whose document is decoded without an error are in range. -/
theorem app_guards : appCodec.Guards AppConfig.InRange := fun base x h =>
  { backup := Codec.struct_guards (by decide) (.head _) (Field.of_guards backup_guards) base x h
    alerts := Codec.struct_guards (by decide) (.tail _ (.head _)) (Field.of_guards alerts_guards) base x h
    ports :=
      Codec.struct_guards (by decide) (.tail _ (.tail _ (.head _))) (Field.of_guards connections_guards)
        base x h }

/-! ## The store -/

theorem inRange_zero : ({} : AppConfig).InRange where
  backup := ⟨by decide, by decide, by decide, by decide, by decide⟩
  alerts := ⟨by decide, by decide, by decide, by decide, by decide⟩
  ports := by simp

theorem inRange_defaultConfig (env : ConnEnv) : env.defaultConfig.InRange where
  backup :=
    { intervalHours := show IsInt64 1 by decide
      incrementalIntervalHours := show IsInt64 1 by decide
      fullWeekday := show IsInt64 1 by decide
      fullHour := show IsInt64 4 by decide
      retainCount := show IsInt64 7 by decide }
  alerts :=
    { diskUsagePct := show IsInt64 80 by decide
      connectionsPct := show IsInt64 80 by decide
      replicationLagSec := show IsInt64 30 by decide
      backupMaxAgeHours := show IsInt64 24 by decide
      cooldownMinutes := show IsInt64 15 by decide }
  ports := fun _ hprofile => isInt64_port_default env hprofile

/-- There is no default left to fill in. -/
def Completed (env : ConnEnv) (cfg : AppConfig) : Prop :=
  env.applyConnectionDefaultsLocked cfg = cfg

theorem completed_update (env : ConnEnv) (cs : ConfigStore) (cfg : AppConfig)
    (outcome : WriteOutcome) : Completed env (cs.update env cfg outcome).1.config := by
  rw [update_config]
  exact applyConnectionDefaultsLocked_idem env cfg

theorem inRange_update {env : ConnEnv} (cs : ConfigStore) {cfg : AppConfig} (h : cfg.InRange)
    (outcome : WriteOutcome) : (cs.update env cfg outcome).1.config.InRange := by
  rw [update_config]
  exact inRange_applyConnectionDefaultsLocked env h

theorem save_config (cs : ConfigStore) (outcome : WriteOutcome) :
    (cs.save outcome).1.config = cs.config := by
  cases outcome <;> rfl

/-- What a process starts with: the default settings, settings read in part, or completed ones. -/
theorem config_newConfigStore_cases (env : ConnEnv) (file : ConfigFile) (outcome : WriteOutcome) :
    (newConfigStore env file outcome).config = env.defaultConfig ∨
      ∃ document, file = .ok document ∧
        ((newConfigStore env file outcome).config =
            (appCodec.decode env.defaultConfig document).1 ∨
          (newConfigStore env file outcome).config = env.applyConnectionDefaultsLocked
            (appCodec.decode env.defaultConfig document).1) := by
  cases file with
  | error err =>
      refine .inl ?_
      simp only [newConfigStore, ConfigStore.load]
      exact save_config _ outcome
  | ok document =>
      refine .inr ⟨document, rfl, ?_⟩
      cases hdecode : appCodec.decode env.defaultConfig document with
      | mk cfg err =>
          cases err with
          | none => exact .inr (by simp [newConfigStore, ConfigStore.load, hdecode])
          | some e =>
              refine .inl ?_
              simp only [newConfigStore, ConfigStore.load, hdecode]
              exact save_config _ outcome

theorem inRange_newConfigStore (env : ConnEnv) (file : ConfigFile) (outcome : WriteOutcome) :
    (newConfigStore env file outcome).config.InRange := by
  rcases config_newConfigStore_cases env file outcome with hdefault | ⟨document, _, hread | hread⟩
  · rw [hdefault]
    exact inRange_defaultConfig env
  · rw [hread]
    exact app_keeps _ document (inRange_defaultConfig env)
  · rw [hread]
    exact inRange_applyConnectionDefaultsLocked env
      (app_keeps _ document (inRange_defaultConfig env))

/-- A file that is read without an error leaves completed settings. -/
theorem completed_newConfigStore {env : ConnEnv} {document : JSON} {cfg : AppConfig}
    (h : appCodec.decode env.defaultConfig document = (cfg, none)) (outcome : WriteOutcome) :
    Completed env (newConfigStore env (.ok document) outcome).config := by
  have hconfig : (newConfigStore env (.ok document) outcome).config =
      env.applyConnectionDefaultsLocked cfg := by
    simp [newConfigStore, ConfigStore.load, h]
  rw [hconfig]
  exact applyConnectionDefaultsLocked_idem env cfg

end Service
end Pgaio
