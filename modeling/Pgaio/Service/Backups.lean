import Pgaio.Model.Types
import Mathlib.Data.List.AList
import Mathlib.Data.List.MinMax

/-!
# Backups — timestamps, listings and the storage of WAL-G

The pure part of `service/walg.go`: `parseWalgTime`, `latestByTime` and `LatestBackupTime`.
`Storage` is what WAL-G keeps, newest backup first; `wal-g delete retain FULL n` removes the backups
older than the n-th newest full one, and `holds_retainFull` says which backups survive it.
-/

namespace Pgaio
namespace Service

open Go Model

/-! ## Timestamps -/

/-- `2006-01-02T15:04:05`. -/
def dateTimeLayout (separator : Char) : List Chunk :=
  [.longYear, .lit '-', .zeroMonth, .lit '-', .zeroDay, .lit separator, .hour, .lit ':',
    .zeroMinute, .lit ':', .zeroSecond]

def walgFormats : List (List Chunk) :=
  [ -- time.RFC3339
    dateTimeLayout 'T' ++ [.zone],
    dateTimeLayout 'T' ++ [.lit 'Z'],
    dateTimeLayout 'T' ++ [.fracSecond0 3, .lit 'Z'],
    dateTimeLayout ' ',
    dateTimeLayout 'T' ++
      [.fracSecond9, .lit '+', .lit '0', .lit '0', .lit ':', .lit '0', .lit '0'] ]

def parseWalgTime (s : String) : Option Time :=
  walgFormats.findSome? fun f => parse f s

theorem parseWalgTime_chars {s : String} {t : Time} (h : parseWalgTime s = some t) :
    ∀ c ∈ s.toList, isTimeChar c = true := by
  have hplain : ∀ f ∈ walgFormats, f.all Chunk.plain = true := by decide
  rcases List.exists_of_findSome?_eq_some h with ⟨f, hf, hparse⟩
  exact parse_chars (hplain f hf) hparse

/-! ## Listings -/

/-- The finish time, or the start time when there is none. -/
def candidateTime (b : Backup) : Time :=
  if b.finishTime.isZero then b.startTime else b.finishTime

def latestStep (latest : String × Time) (b : Backup) : String × Time :=
  if latest.1 = "" ∨ (candidateTime b).after latest.2 then (b.name, candidateTime b) else latest

/-- The name of the most recent backup, in whatever order the backups are listed. -/
def latestByTime (backups : List Backup) : String :=
  (backups.foldl latestStep ("", 0)).1

/-- The time of the most recent backup; the zero time when there is none. -/
def latestBackupTime (backups : List Backup) : Time :=
  backups.foldl (fun latest b => if (candidateTime b).after latest then candidateTime b else latest) 0

/-! ## The most recent backup -/

/-- The first of the backups with the latest time. -/
def latestBackup (backups : List Backup) : Option Backup :=
  -- The order is named: the instance that a search finds need not compute.
  @List.argmax Backup Time Int.instLinearOrder.toPreorder Int.decLt candidateTime backups

theorem latestBackup_concat (backups : List Backup) (b : Backup) :
    latestBackup (backups ++ [b]) =
      match latestBackup backups with
      | none => some b
      | some c => if candidateTime c < candidateTime b then some b else some c := by
  rw [latestBackup, List.argmax_concat]
  unfold latestBackup
  cases List.argmax candidateTime backups with
  | none => rfl
  | some c => rfl

theorem exists_latestBackup {backups : List Backup} (hne : backups ≠ []) :
    ∃ b, latestBackup backups = some b := by
  apply Option.ne_none_iff_exists'.1
  rw [latestBackup, ne_eq, List.argmax_eq_none]
  exact hne

/-- Once a backup with a name has been seen, only a later one replaces it. -/
theorem foldl_latestStep {backups : List Backup} (hnames : ∀ b ∈ backups, b.name ≠ "") :
    backups.foldl latestStep ("", 0) =
      match latestBackup backups with
      | none => ("", 0)
      | some b => (b.name, candidateTime b) := by
  induction backups using List.reverseRecOn with
  | nil => rfl
  | append_singleton backups b ih =>
      have hprev := ih fun c hc => hnames c (List.mem_append_left _ hc)
      rw [List.foldl_append, hprev, latestBackup_concat]
      cases hlatest : latestBackup backups with
      | none => simp [latestStep]
      | some c =>
          have hmem : c ∈ backups := List.argmax_mem hlatest
          have hname : c.name ≠ "" := hnames c (List.mem_append_left _ hmem)
          by_cases hlater : candidateTime c < candidateTime b
          · simp [latestStep, Time.after, hlater]
          · simp [latestStep, Time.after, hlater, hname]

theorem latestByTime_eq {backups : List Backup} (hnames : ∀ b ∈ backups, b.name ≠ "") :
    latestByTime backups = ((latestBackup backups).map Backup.name).getD "" := by
  rw [latestByTime, foldl_latestStep hnames]
  cases latestBackup backups with
  | none => rfl
  | some b => rfl

/-- The maximum is taken from the zero time on, and no backup is older than that. -/
theorem latestBackupTime_eq {backups : List Backup} (htimes : ∀ b ∈ backups, 0 ≤ candidateTime b) :
    latestBackupTime backups = ((latestBackup backups).map candidateTime).getD 0 := by
  induction backups using List.reverseRecOn with
  | nil => rfl
  | append_singleton backups b ih =>
      have hprev := ih fun c hc => htimes c (List.mem_append_left _ hc)
      have hb := htimes b (by simp)
      unfold latestBackupTime at hprev ⊢
      rw [List.foldl_append, hprev, latestBackup_concat]
      cases latestBackup backups with
      | none =>
          by_cases hlater : 0 < candidateTime b
          · simp [Time.after, hlater]
          · have hzero : candidateTime b = 0 := le_antisymm (not_lt.1 hlater) hb
            simp [Time.after, hzero]
      | some c =>
          by_cases hlater : candidateTime c < candidateTime b
          · simp [Time.after, hlater]
          · simp [Time.after, hlater]

/-- What counts as the time of a backup: when it finished, or when it started if it has not. -/
def effectiveTime (b : Backup) : Time :=
  if b.finishTime = 0 then b.startTime else b.finishTime

theorem candidateTime_eq (b : Backup) : candidateTime b = effectiveTime b := by
  simp [candidateTime, effectiveTime, Time.isZero]

theorem zero_le_candidateTime {b : Backup} (h : 0 ≤ b.startTime ∧ 0 ≤ b.finishTime) :
    0 ≤ candidateTime b := by
  unfold candidateTime
  split
  · exact h.1
  · exact h.2

theorem latestByTime_maximal {backups : List Backup} (hne : backups ≠ [])
    (hnames : ∀ b ∈ backups, b.name ≠ "") (htimes : ∀ b ∈ backups, 0 ≤ b.startTime ∧ 0 ≤ b.finishTime) :
    ∃ chosen ∈ backups, latestBackup backups = some chosen ∧ latestByTime backups = chosen.name ∧
      (∀ b ∈ backups, effectiveTime b ≤ effectiveTime chosen) ∧
      latestBackupTime backups = effectiveTime chosen ∧
      ∀ listed : List Backup, listed.Perm backups →
        ∃ chosen', latestBackup listed = some chosen' ∧ latestByTime listed = chosen'.name ∧
          effectiveTime chosen' = effectiveTime chosen ∧
          ((∀ b ∈ backups, effectiveTime b = effectiveTime chosen → b = chosen) → chosen' = chosen) := by
  obtain ⟨chosen, hlatest⟩ := exists_latestBackup hne
  have hmem : chosen ∈ backups := List.argmax_mem hlatest
  have hmax : ∀ b ∈ backups, candidateTime b ≤ candidateTime chosen := fun b hb =>
    List.le_of_mem_argmax hb hlatest
  simp only [← candidateTime_eq]
  refine ⟨chosen, hmem, hlatest, ?_, hmax, ?_, fun listed hperm => ?_⟩
  · rw [latestByTime_eq hnames, hlatest]
    rfl
  · rw [latestBackupTime_eq fun b hb => zero_le_candidateTime (htimes b hb), hlatest]
    rfl
  · have hlisted : listed ≠ [] := by
      rintro rfl
      exact hne (List.nil_perm.1 hperm)
    obtain ⟨chosen', hlatest'⟩ := exists_latestBackup hlisted
    have hmem' : chosen' ∈ backups := hperm.subset (List.argmax_mem hlatest')
    -- Each of the two is a maximum of the same backups.
    have hsame : candidateTime chosen' = candidateTime chosen :=
      le_antisymm (hmax chosen' hmem') (List.le_of_mem_argmax (hperm.symm.subset hmem) hlatest')
    refine ⟨chosen', hlatest', ?_, hsame, fun hunique => hunique chosen' hmem' hsame⟩
    rw [latestByTime_eq fun b hb => hnames b (hperm.subset hb), hlatest']
    rfl

/-- `base_2` has not finished, but it started after `base_1` had. -/
theorem latestByTime_maximal_unfinished :
    latestByTime [⟨"base_1", 5, 8⟩, ⟨"base_2", 9, 0⟩] = "base_2" ∧
      latestBackupTime [⟨"base_1", 5, 8⟩, ⟨"base_2", 9, 0⟩] = 9 := by
  obtain ⟨chosen, hmem, -, hname, hmax, htime, -⟩ :=
    @latestByTime_maximal [⟨"base_1", 5, 8⟩, ⟨"base_2", 9, 0⟩] (by simp) (by simp) (by simp)
  have hlater := hmax ⟨"base_2", 9, 0⟩ (by simp)
  have hchosen : chosen = ⟨"base_1", 5, 8⟩ ∨ chosen = ⟨"base_2", 9, 0⟩ := by simpa using hmem
  rcases hchosen with rfl | rfl
  · exact absurd hlater (by decide)
  · exact ⟨hname, htime⟩

/-! ## Storage -/

/-- The entries of a data directory with their contents. -/
abbrev DataFiles := AList (fun _ : String => String)

/-- A backup in storage; `files` is the data directory as the backup captured it. -/
structure StoredBackup where
  info : Backup
  full : Bool
  files : DataFiles
  deriving DecidableEq

/-- Newest backup first. -/
abbrev Storage := List StoredBackup

namespace Storage

def holds (s : Storage) (name : String) : Bool :=
  s.any fun b => b.info.name == name

/-- The backup that `wal-g backup-fetch` takes for a name. -/
def source (s : Storage) (name : String) : Option StoredBackup :=
  (s.find? fun b => b.info.name == name).or (if name = "LATEST" then s.head? else none)

/-- What is left after `wal-g delete retain FULL n`. -/
def retainFull : Nat → Storage → Storage
  | _, [] => []
  | n, b :: s => if n = 0 then [] else b :: retainFull (if b.full then n - 1 else n) s

/-- What a deletion that fails half-way leaves: some of the backups to be deleted are gone. -/
def retainFullPartly (n : Nat) (gone : List String) (s : Storage) : Storage :=
  retainFull n s ++
    (s.drop (retainFull n s).length).filter fun b => !gone.contains b.info.name

/-- The number of full backups newer than the named one. -/
def newerFulls (s : Storage) (name : String) : Nat :=
  (s.takeWhile fun b => b.info.name != name).countP StoredBackup.full

/-- A backup survives exactly when fewer than `n` full backups are newer. -/
theorem holds_retainFull {n : Nat} {s : Storage} {name : String} (h : s.holds name = true) :
    (retainFull n s).holds name = true ↔ s.newerFulls name < n := by
  induction s generalizing n with
  | nil => simp [holds] at h
  | cons b s ih =>
      by_cases hn : n = 0
      · subst hn
        simp [retainFull, holds]
      · by_cases hb : b.info.name = name
        · -- The named backup is the newest one, so nothing is newer.
          have hpos : 0 < n := Nat.pos_of_ne_zero hn
          simp [retainFull, holds, newerFulls, hn, hb, hpos]
        · have hs : holds s name = true := by simpa [holds, hb] using h
          have hholds : ∀ m, holds (b :: retainFull m s) name = holds (retainFull m s) name := by
            intro m
            simp [holds, hb]
          have hnewer : newerFulls (b :: s) name =
              newerFulls s name + (if b.full then 1 else 0) := by
            simp [newerFulls, hb, List.countP_cons]
          simp only [retainFull, hn, if_false, hholds, ih hs, hnewer]
          cases b.full with
          | false => simp
          | true =>
              simp only [if_true]
              omega

theorem holds_append {s t : Storage} {name : String} :
    (s ++ t : Storage).holds name = (s.holds name || Storage.holds t name) := by
  simp only [holds, List.any_append]

end Storage

end Service
end Pgaio
