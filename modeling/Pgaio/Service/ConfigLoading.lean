import Pgaio.Service.ConfigRange

/-!
# ConfigLoading — the settings that a process starts with

`NewConfigStore` loads the file over the default settings and creates the file when that fails.  Two
things are lost there.  The file is decoded into the settings in use, so of a document with a value of
the wrong type everything else stays (`half_loaded`).  And whatever the failure was, the file is
written: one that is there and could not be read or decoded is replaced.

`loadsAllOrNothing_iff` says when neither happens.
-/

namespace Pgaio
namespace Service

open Go

/-! ## The file on the disk -/

def configFilePath : String :=
  "/bitnami/postgresql/.pgaio_config.json"

/-- What a file holds. -/
inductive Content where
  /-- No JSON text; `err` says what is wrong with it. -/
  | malformed (text err : String)
  | document (v : JSON)

/-- The file of the settings; `readError` says why it cannot be read, if it cannot. -/
inductive Disk where
  | missing
  | file (content : Content) (readError : Option String)

/-- How `os.WriteFile` ends. -/
inductive DiskWrite where
  | written
  /-- The file could not be opened. -/
  | refused (err : String)
  /-- Opened, and so emptied, but not written to the end. -/
  | brokenOff (err : String) (left : Content)

namespace Disk

/-- What loading sees of the file. -/
def read : Disk → ConfigFile
  | .missing => .error ("open " ++ configFilePath ++ ": no such file or directory")
  | .file _ (some err) => .error err
  | .file (.malformed _ err) none => .error err
  | .file (.document v) none => .ok v

/-- A file that is there keeps its permissions, a new one can be read. -/
def hold (content : Content) : Disk → Disk
  | .missing => .file content none
  | .file _ readError => .file content readError

def write (disk : Disk) (v : JSON) : DiskWrite → Disk
  | .written => disk.hold (.document v)
  | .refused _ => disk
  | .brokenOff _ left => disk.hold left

end Disk

/-! ## The start -/

section

variable (env : ConnEnv) (disk : Disk) (outcome : DiskWrite)

/-- The settings after `NewConfigStore`, and the file. -/
def startOn : AppConfig × Disk :=
  match ({ config := env.defaultConfig, file := disk.read } : ConfigStore).load env with
  | (cs, none) => (cs.config, disk)
  -- The error is logged only; the settings in memory are written, whatever they are now.
  | (cs, some _) => (cs.config, disk.write (appCodec.encode cs.config) outcome)

/-- The settings are those of `newConfigStore`, however its writing ends. -/
theorem config_startOn (other : WriteOutcome) :
    (startOn env disk outcome).1 = (newConfigStore env disk.read other).config := by
  unfold startOn newConfigStore
  obtain ⟨cs, err⟩ := ConfigStore.load env { config := env.defaultConfig, file := disk.read }
  cases err with
  | none => rfl
  | some err => exact (save_config _ _).symm

/-- The file is decoded without an error. -/
def Disk.Loads (cfg : AppConfig) : Prop :=
  ∃ v, disk.read = .ok v ∧ appCodec.decode env.defaultConfig v = (cfg, none)

/-- What decoding makes of the default settings, with or without an error. -/
def Disk.decoded : AppConfig :=
  match disk.read with
  | .error _ => env.defaultConfig
  | .ok v => (appCodec.decode env.defaultConfig v).1

structure LoadsAllOrNothing : Prop where
  loaded : ∀ cfg, disk.Loads env cfg →
    (startOn env disk outcome).1 = env.applyConnectionDefaultsLocked cfg
  failed : (¬ ∃ cfg, disk.Loads env cfg) → (startOn env disk outcome).1 = env.defaultConfig
  /-- A file that is there and was not loaded is left alone. -/
  kept : (¬ ∃ cfg, disk.Loads env cfg) → disk ≠ .missing → (startOn env disk outcome).2 = disk

/-- Writing the default settings does not change the file. -/
def Disk.Spared : Prop :=
  match outcome, disk with
  | .refused _, _ => True
  | .brokenOff _ left, .file content _ => content = left
  -- What cannot be read may hold the default settings.
  | .written, .file content readError =>
      readError ≠ none ∧ content = .document (appCodec.encode env.defaultConfig)
  | _, .missing => False

end

variable {env : ConnEnv} {disk : Disk} {outcome : DiskWrite}

theorem startOn_of_loads {cfg : AppConfig} (h : disk.Loads env cfg) :
    startOn env disk outcome = (env.applyConnectionDefaultsLocked cfg, disk) := by
  rcases h with ⟨v, hread, hdecode⟩
  simp [startOn, ConfigStore.load, hread, hdecode]

theorem startOn_of_not_loads (h : ¬ ∃ cfg, disk.Loads env cfg) (outcome : DiskWrite) :
    startOn env disk outcome =
      (disk.decoded env, disk.write (appCodec.encode (disk.decoded env)) outcome) := by
  unfold startOn ConfigStore.load Disk.decoded
  cases hread : disk.read with
  | error err => rfl
  | ok v =>
      cases hdecode : appCodec.decode env.defaultConfig v with
      | mk cfg err =>
          cases err with
          | none => exact absurd ⟨cfg, v, hread, hdecode⟩ h
          | some e => simp only [hdecode]

/-- The default settings are read back as they are. -/
theorem default_restores (env : ConnEnv) :
    appCodec.Restores env.defaultConfig env.defaultConfig := by
  refine app_restores (inRange_defaultConfig env) ?_
  intro routes hroutes key hkey
  rwa [hroutes] at hkey

theorem write_defaults_iff (h : ¬ ∃ cfg, disk.Loads env cfg) (hthere : disk ≠ .missing) :
    disk.write (appCodec.encode env.defaultConfig) outcome = disk ↔ disk.Spared env outcome := by
  cases disk with
  | missing => exact absurd rfl hthere
  | file content readError =>
      cases outcome with
      | refused err => exact iff_of_true rfl trivial
      | brokenOff err left =>
          simp only [Disk.write, Disk.hold, Disk.Spared, Disk.file.injEq, and_true]
          exact eq_comm
      | written =>
          simp only [Disk.write, Disk.hold, Disk.Spared, Disk.file.injEq, and_true]
          constructor
          · rintro rfl
            refine ⟨?_, rfl⟩
            rintro rfl
            -- A readable file with the default settings would have been loaded.
            exact h ⟨env.defaultConfig, _, rfl, default_restores env⟩
          · rintro ⟨_, hcontent⟩
            exact hcontent.symm

/-- Loading is all or nothing exactly when it succeeds, when there is no file, or when nothing was
decoded that differs from the defaults and the file survives being written. -/
theorem loadsAllOrNothing_iff (env : ConnEnv) (disk : Disk) (outcome : DiskWrite) :
    LoadsAllOrNothing env disk outcome ↔
      (∃ cfg, disk.Loads env cfg) ∨ disk = .missing ∨
        (disk.decoded env = env.defaultConfig ∧ disk.Spared env outcome) := by
  by_cases hloads : ∃ cfg, disk.Loads env cfg
  · refine iff_of_true ?_ (Or.inl hloads)
    refine ⟨fun cfg h => ?_, fun h => absurd hloads h, fun h => absurd hloads h⟩
    rw [startOn_of_loads h]
  · -- Without a load, what has been decoded is kept, and it is written.
    have hstart := startOn_of_not_loads hloads outcome
    by_cases hmissing : disk = .missing
    · refine iff_of_true ?_ (Or.inr (Or.inl hmissing))
      refine ⟨fun cfg h => absurd ⟨cfg, h⟩ hloads, fun _ => ?_, fun _ h => absurd hmissing h⟩
      rw [hstart, hmissing]
      rfl
    · constructor
      · intro h
        have hdecoded := h.failed hloads
        have hkept := h.kept hloads hmissing
        rw [hstart] at hdecoded hkept
        dsimp only at hdecoded hkept
        rw [hdecoded] at hkept
        exact Or.inr (Or.inr ⟨hdecoded, (write_defaults_iff hloads hmissing).1 hkept⟩)
      · intro h
        rcases (h.resolve_left hloads).resolve_left hmissing with ⟨hdecoded, hspared⟩
        refine ⟨fun cfg h => absurd ⟨cfg, h⟩ hloads, fun _ => ?_, fun _ _ => ?_⟩
        · rw [hstart]
          exact hdecoded
        · rw [hstart, hdecoded]
          exact (write_defaults_iff hloads hmissing).2 hspared

/-- Backups are switched off, and the number of backups to keep is no number. -/
def mistypedDocument : JSON :=
  .obj [("backup", .obj [("enabled", .bool false), ("retainCount", .str "seven")])]

def mistypedFile : Disk :=
  .file (.document mistypedDocument) none

theorem mistypedFile_not_loads : ¬ ∃ cfg, mistypedFile.Loads {} cfg := by
  rintro ⟨cfg, v, hread, hdecode⟩
  cases hread
  have herror : (appCodec.decode (ConnEnv.defaultConfig {}) mistypedDocument).2 ≠ none := by
    decide +kernel
  rw [hdecode] at herror
  exact herror rfl

/-- Backups are off after the start although they are on by default. -/
theorem half_loaded :
    ¬ ∀ (env : ConnEnv) (disk : Disk) (outcome : DiskWrite),
      LoadsAllOrNothing env disk outcome := by
  intro hall
  have h := (hall {} mistypedFile .written).failed mistypedFile_not_loads
  rw [startOn_of_not_loads mistypedFile_not_loads] at h
  have henabled : (mistypedFile.decoded {}).backup.enabled = true :=
    congrArg (fun cfg : AppConfig => cfg.backup.enabled) h
  have hoff : (mistypedFile.decoded {}).backup.enabled = false := by decide +kernel
  rw [hoff] at henabled
  cases henabled

end Service
end Pgaio
