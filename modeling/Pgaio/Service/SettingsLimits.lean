import Pgaio.Service.ConfigRoundTrip
import Pgaio.Service.Scheduler

/-!
# SettingsLimits — do the durations that are made from the settings fit into 64 bits?

The settings count hours and minutes; the scheduler and the alerter multiply them into nanoseconds,
and a product that does not fit wraps around.  Nothing checks the counts, neither when settings are
accepted nor when they are loaded.  `durations_exact_iff` gives the limits, `ticker_panics` a count
beyond them.
-/

namespace Pgaio
namespace Service

open Go

/-- 292 years. -/
def maxHours : Int := 2562047

def maxMinutes : Int := 153722867

theorem times_hour_eq_iff {n : Int} (h : 0 < n) :
    Duration.times n Duration.hour = n * Duration.hour ↔ n ≤ maxHours := by
  unfold Duration.times
  rw [wrapInt64_eq_iff]
  simp only [IsInt64, minInt64, maxInt64, Duration.hour, nanosecondsPerSecond, maxHours]
  omega

theorem times_minute_eq_iff {n : Int} (h : 0 < n) :
    Duration.times n Duration.minute = n * Duration.minute ↔ n ≤ maxMinutes := by
  unfold Duration.times
  rw [wrapInt64_eq_iff]
  simp only [IsInt64, minInt64, maxInt64, Duration.minute, nanosecondsPerSecond, maxMinutes]
  omega

/-- What the scheduler and the alerter make of the settings is what the settings say. -/
structure DurationsExact (cfg : AppConfig) : Prop where
  /-- The loop that `Start` begins makes its ticker, with a period of exactly those hours. -/
  ticker : cfg.backup.schedules = true → ∀ (s : Scheduler) (now later : Time),
    ∃ l, (s.start cfg.backup now).loops[s.loops.length]? = some l ∧
      newTicker later l.incrementalInterval =
        some
          { next := later + cfg.backup.incrementalHours * Duration.hour
            period := cfg.backup.incrementalHours * Duration.hour }
  /-- The cooldown of `fire`. -/
  cooldown : Duration.times cfg.alerts.cooldownMinutes Duration.minute =
    cfg.alerts.cooldownMinutes * Duration.minute
  /-- The limit that `check` compares the age of the latest backup with, when there is one. -/
  backupAge : 0 < cfg.alerts.thresholds.backupMaxAgeHours →
    Duration.times cfg.alerts.thresholds.backupMaxAgeHours Duration.hour =
      cfg.alerts.thresholds.backupMaxAgeHours * Duration.hour

/-- The counts that fit. -/
structure WithinLimits (cfg : AppConfig) : Prop where
  interval : cfg.backup.schedules = true → cfg.backup.incrementalHours ≤ maxHours
  cooldown : cfg.alerts.cooldownMinutes ≤ maxMinutes
  backupAge : cfg.alerts.thresholds.backupMaxAgeHours ≤ maxHours

theorem durationsExact_iff {cfg : AppConfig} (hcooldown : 0 < cfg.alerts.cooldownMinutes) :
    DurationsExact cfg ↔ WithinLimits cfg := by
  constructor
  · intro h
    constructor
    · intro hschedules
      obtain ⟨l, hl, hticker⟩ := h.ticker hschedules {} 0 0
      have hloop := Scheduler.getElem?_start_new {} 0 hschedules
      rw [hloop, Option.some.injEq] at hl
      subst hl
      obtain ⟨-, hsame⟩ := newTicker_cases hticker
      -- The period of the ticker is the product, so the product is exact.
      have hperiod : cfg.backup.incrementalHours * Duration.hour = cfg.backup.incrementalInterval :=
        congrArg Ticker.period hsame
      exact (times_hour_eq_iff (BackupConfig.incrementalHours_pos hschedules)).1 hperiod.symm
    · exact (times_minute_eq_iff hcooldown).1 h.cooldown
    · by_cases hpos : 0 < cfg.alerts.thresholds.backupMaxAgeHours
      · exact (times_hour_eq_iff hpos).1 (h.backupAge hpos)
      · exact (Int.not_lt.1 hpos).trans (by decide)
  · intro h
    constructor
    · intro hschedules s now later
      have hpos := BackupConfig.incrementalHours_pos hschedules
      have hexact : cfg.backup.incrementalInterval = cfg.backup.incrementalHours * Duration.hour :=
        (times_hour_eq_iff hpos).2 (h.interval hschedules)
      refine ⟨_, s.getElem?_start_new now hschedules, ?_⟩
      have hperiod : 0 < cfg.backup.incrementalHours * Duration.hour :=
        Int.mul_pos hpos (by decide)
      simp only [newTicker, hexact]
      exact if_pos hperiod
    · exact (times_minute_eq_iff hcooldown).2 h.cooldown
    · exact fun hpos => (times_hour_eq_iff hpos).2 h.backupAge

theorem cooldown_pos (env : ConnEnv) (cfg : AppConfig) :
    0 < (env.applyConnectionDefaultsLocked cfg).alerts.cooldownMinutes := by
  simp only [ConnEnv.applyConnectionDefaultsLocked]
  split <;> omega

/-- A cooldown that is completed to a quarter of an hour fits as well. -/
theorem withinLimits_completed_iff (env : ConnEnv) (cfg : AppConfig) :
    WithinLimits (env.applyConnectionDefaultsLocked cfg) ↔ WithinLimits cfg := by
  have hcooldown : (env.applyConnectionDefaultsLocked cfg).alerts.cooldownMinutes ≤ maxMinutes ↔
      cfg.alerts.cooldownMinutes ≤ maxMinutes := by
    simp only [ConnEnv.applyConnectionDefaultsLocked, maxMinutes]
    split <;> omega
  constructor
  · intro h
    exact ⟨h.interval, hcooldown.1 h.cooldown, h.backupAge⟩
  · intro h
    exact ⟨h.interval, hcooldown.2 h.cooldown, h.backupAge⟩

/-- In this process and in the next one, which starts from the file, the durations are what the
accepted settings say exactly when the counts fit. -/
theorem durations_exact_iff (env : ConnEnv) (cs after : ConfigStore) (cfg : AppConfig)
    (outcome later : WriteOutcome) (hcfg : cfg.InRange)
    (h : cs.update env cfg outcome = (after, none)) :
    (DurationsExact after.get ∧ DurationsExact (newConfigStore env after.file later).get) ↔
      WithinLimits cfg := by
  have hconfig : after.get = env.applyConnectionDefaultsLocked cfg := (written_of_update env h).1
  have hfile : appCodec.Restores env.defaultConfig after.get := by
    rw [hconfig]
    exact completed_restores env hcfg
  have hnext : (newConfigStore env after.file later).get = after.get := by
    calc (newConfigStore env after.file later).get
        = env.applyConnectionDefaultsLocked after.get :=
          config_newConfigStore env (written_of_update env h).2 hfile later
      _ = after.get := by rw [hconfig, applyConnectionDefaultsLocked_idem]
  rw [hnext, and_self, hconfig, durationsExact_iff (cooldown_pos env cfg),
    withinLimits_completed_iff]

theorem durations_exact_iff_sixHours :
    (DurationsExact (ConnEnv.applyConnectionDefaultsLocked {} exampleSettings) ∧
        DurationsExact
          (newConfigStore {}
            (.ok (appCodec.encode (ConnEnv.applyConnectionDefaultsLocked {} exampleSettings)))
            .written).get) ↔
      WithinLimits exampleSettings :=
  durations_exact_iff {} { config := {}, file := .error "" } _ exampleSettings .written .written
    exampleSettings_inRange rfl

/-- 293 years between two incremental backups: the product is negative, and `time.NewTicker`
panics. -/
def longSettings : AppConfig where
  backup := { enabled := true, incrementalIntervalHours := 2562048 }

theorem ticker_panics :
    ¬∀ (env : ConnEnv) (cs after : ConfigStore) (cfg : AppConfig) (outcome : WriteOutcome),
      cfg.InRange → cs.update env cfg outcome = (after, none) → DurationsExact after.get := by
  intro hall
  have hrange : longSettings.InRange :=
    { backup := by constructor <;> decide
      alerts := by constructor <;> decide
      ports := by decide }
  have hexact := hall {} { config := {}, file := .error "" } _ longSettings .written hrange rfl
  obtain ⟨l, hl, hticker⟩ := hexact.ticker (by decide) {} 0 0
  have hloop : l = { incrementalInterval := -9223371273709551616
                     nextFull := BackupConfig.nextFull longSettings.backup 0 } := by
    rw [Scheduler.getElem?_start_new {} 0 (by decide), Option.some.injEq] at hl
    exact hl.symm
  rw [hloop] at hticker
  cases hticker

end Service
end Pgaio
