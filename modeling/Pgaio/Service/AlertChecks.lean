import Pgaio.Service.AlertKeys

/-!
# AlertChecks — alerts whose data is missing

A collector that fails leaves an empty section behind.  A check does not fire on an empty section, so
the keys of that section are not among the seen ones, and `resolveMissing` takes the absence for
recovery (`never_kept`).
-/

namespace Pgaio
namespace Service

open Go Model

/-- Whether there is an alert and it is open. -/
def opened (state? : Option AlertState) : Bool :=
  state?.any fun state => decide (state.status = .opened)

def Alerter.isOpen (a : Alerter) (key : String) : Bool :=
  opened (a.active.lookup key)

/-- The alerts that are computed from the section of a collector. -/
inductive Feeds : String → String → Prop where
  | connections : Feeds "connections" "connections"
  | replication (clientAddr : String) : Feeds "replication" (replicationKey clientAddr)

/-- The alert is still open after a check, and the check has not reported it as resolved. -/
def AlertKept (key : String) (after : Alerter × List AlertEvent) : Prop :=
  after.1.isOpen key = true ∧ ∀ e ∈ after.2, e.key = key → e.status ≠ .resolved

/-! ## The keys of a check -/

/-- The first letter tells the kinds of keys apart. -/
def initial? (key : String) : Option Char :=
  key.toList.head?

theorem initial?_replicationKey (clientAddr : String) :
    initial? (replicationKey clientAddr) = some 'r' := by
  have hhead : ("replication_lag:").toList.head? = some 'r' := by decide
  unfold initial? replicationKey
  rw [String.toList_append, List.head?_append, hhead]
  rfl

theorem initial?_disk {cfg : AlertConfig} {stats : PgStat} {f : Firing}
    (h : f ∈ diskFirings cfg stats) : initial? f.key = some 'd' := by
  unfold diskFirings at h
  dsimp only at h
  split at h
  · rw [List.mem_singleton] at h
    subst h
    exact (show initial? "disk_usage" = some 'd' by decide)
  · cases h

theorem initial?_connections {cfg : AlertConfig} {stats : PgStat} {f : Firing}
    (h : f ∈ connectionFirings cfg stats) : initial? f.key = some 'c' := by
  unfold connectionFirings at h
  dsimp only at h
  split at h
  · rw [List.mem_singleton] at h
    subst h
    exact (show initial? "connections" = some 'c' by decide)
  · cases h

theorem initial?_replication {cfg : AlertConfig} {stats : PgStat} {f : Firing}
    (h : f ∈ replicationFirings cfg stats) : initial? f.key = some 'r' := by
  unfold replicationFirings at h
  dsimp only at h
  split at h
  · rcases List.mem_filterMap.1 h with ⟨repl, _, hrepl⟩
    split at hrepl
    · cases hrepl
      exact initial?_replicationKey repl.clientAddr
    · cases hrepl
  · cases h

theorem initial?_backup {cfg : AlertConfig} {listed : Except String (List Backup)} {now : Time}
    {f : Firing} (h : f ∈ backupFirings cfg listed now) : initial? f.key = some 'b' := by
  have hkey : ∀ level message value, initial? (backupFiring level message value).key = some 'b' := by
    intro level message value
    exact (show initial? "backup_age" = some 'b' by decide)
  unfold backupFirings at h
  dsimp only at h
  split at h
  · split at h
    · rw [List.mem_singleton] at h
      subst h
      exact hkey _ _ _
    · split at h
      · rw [List.mem_singleton] at h
        subst h
        exact hkey _ _ _
      · split at h
        · rw [List.mem_singleton] at h
          subst h
          exact hkey _ _ _
        · cases h
  · cases h

/-- The section of a collector whose error was recorded fires nothing. -/
theorem no_connectionFirings {cfg : AlertConfig} {collectors : Collectors} {stats : PgStat}
    (hstats : collectStats collectors = .ok stats)
    (hfailed : "connections" ∈ stats.collectionErrors) : connectionFirings cfg stats = [] := by
  have herr := (connections_recorded hstats).1 hfailed
  cases hstats
  unfold connectionFirings
  rw [sectionOf_of_failed herr]
  exact if_neg fun h => absurd h.2.1 (Int.lt_irrefl 0)

theorem no_replicationFirings {cfg : AlertConfig} {collectors : Collectors} {stats : PgStat}
    (hstats : collectStats collectors = .ok stats)
    (hfailed : "replication" ∈ stats.collectionErrors) : replicationFirings cfg stats = [] := by
  have herr := (replication_recorded hstats).1 hfailed
  cases hstats
  unfold replicationFirings
  rw [sectionOf_of_failed herr]
  exact ite_self _

/-- So no alert that is computed from it is fired. -/
theorem not_fired {cfg : AlertConfig} {collectors : Collectors} {stats : PgStat}
    {name key : String} (hstats : collectStats collectors = .ok stats)
    (hfailed : name ∈ stats.collectionErrors) (hfeeds : Feeds name key) {f : Firing}
    (h : f ∈ statFirings cfg stats) : f.key ≠ key := by
  intro heq
  -- The keys of the three sections differ in their first letter.
  have hinitial : initial? f.key = initial? key := congrArg initial? heq
  rcases List.mem_append.1 h with h | hrepl
  · rcases List.mem_append.1 h with hdisk | hconn
    · rw [initial?_disk hdisk] at hinitial
      cases hfeeds with
      | connections => exact absurd hinitial (by decide)
      | replication addr =>
          rw [initial?_replicationKey] at hinitial
          exact absurd hinitial (by decide)
    · cases hfeeds with
      | connections =>
          -- The failed section itself fires nothing.
          rw [no_connectionFirings hstats hfailed] at hconn
          cases hconn
      | replication addr =>
          rw [initial?_connections hconn, initial?_replicationKey] at hinitial
          exact absurd hinitial (by decide)
  · cases hfeeds with
    | connections =>
        rw [initial?_replication hrepl] at hinitial
        exact absurd hinitial (by decide)
    | replication addr =>
        rw [no_replicationFirings hstats hfailed] at hrepl
        cases hrepl

theorem not_fired_backup {cfg : AlertConfig} {listed : Except String (List Backup)} {now : Time}
    {name key : String} (hfeeds : Feeds name key) {f : Firing}
    (h : f ∈ backupFirings cfg listed now) : f.key ≠ key := by
  intro heq
  have hinitial : initial? f.key = initial? key := congrArg initial? heq
  rw [initial?_backup h] at hinitial
  cases hfeeds with
  | connections => exact absurd hinitial (by decide)
  | replication addr =>
      rw [initial?_replicationKey] at hinitial
      exact absurd hinitial (by decide)

/-! ## What a check does to the alert -/

/-- Firings of other keys leave an alert as it is. -/
theorem lookup_fireCalls {a : Alerter} {input : CheckInput} {key : String} {n : Nat}
    {fs : List Firing} (h : ∀ f ∈ fs, f.key ≠ key) :
    (a.run (fireCalls input n fs)).1.active.lookup key = a.active.lookup key := by
  induction fs generalizing a n with
  | nil => rfl
  | cons f fs ih =>
      have htail := ih (a := (a.exec (.fire input.cfg (input.clock n) f)).1) (n := n + 1)
        fun g hg => h g (List.mem_cons_of_mem f hg)
      have hhead := Alerter.lookup_exec (a := a) (.fire input.cfg (input.clock n) f) key
      simp only [AlertCall.stateAfter, h f List.mem_cons_self, if_false] at hhead
      exact htail.trans hhead

theorem isOpen_iff {a : Alerter} {key : String} :
    a.isOpen key = true ↔ ∃ state, a.active.lookup key = some state ∧ state.status = .opened := by
  simp [Alerter.isOpen, opened, Option.any_eq_true]

/-- An open alert that was not seen is resolved, and an event says so. -/
theorem resolved_of_unseen {a : Alerter} {key : String} {now : Time} {seen : List String}
    {order : MapOrder} (hopen : a.isOpen key = true) (hseen : key ∉ seen) :
    (a.exec (.resolveMissing now seen order)).1.isOpen key = false ∧
      ∃ e ∈ (a.exec (.resolveMissing now seen order)).2, e.key = key ∧ e.status = .resolved := by
  rcases isOpen_iff.1 hopen with ⟨state, hlook, hstatus⟩
  have hmissing : missing seen key state = true := by
    simp [missing, hstatus, hseen]
  constructor
  · unfold Alerter.isOpen
    rw [Alerter.lookup_exec, hlook]
    simp [AlertCall.stateAfter, resolvedState, hmissing, AlertState.resolve, opened]
  · have hevents := Alerter.events_exec (a := a) (.resolveMissing now seen order) key
    simp only [hlook, AlertCall.eventsFor, resolvedEvents, hmissing, if_true] at hevents
    have hmem : resolvedEvent now key state ∈
        eventsOf key (a.exec (.resolveMissing now seen order)).2 := by
      rw [hevents]
      exact List.mem_singleton_self _
    exact ⟨_, (List.mem_filter.1 hmem).1, rfl, rfl⟩

/-- The alert of a failed collector is resolved by the check, and this is reported. -/
theorem resolved_by_check {a : Alerter} {input : CheckInput} {stats : PgStat} {name key : String}
    (hstats : collectStats input.collectors = .ok stats)
    (hfailed : name ∈ stats.collectionErrors) (hfeeds : Feeds name key)
    (hopen : a.isOpen key = true) :
    (a.check input).1.isOpen key = false ∧
      ∃ e ∈ (a.check input).2, e.key = key ∧ e.status = .resolved := by
  let first := statFirings input.cfg stats
  let last := if a.hasWalG then backupFirings input.cfg input.listed (input.clock first.length)
    else []
  have hfirst : ∀ f ∈ first, f.key ≠ key := fun f hf => not_fired hstats hfailed hfeeds hf
  have hlast : ∀ f ∈ last, f.key ≠ key := by
    intro f hf
    by_cases hwalg : a.hasWalG = true
    · simp only [last, hwalg, if_true] at hf
      exact not_fired_backup hfeeds hf
    · simp [last, hwalg] at hf
  -- The key is not among the seen ones, and its alert is still open when the loop begins.
  have hseen : key ∉ (first ++ last).map Firing.key := by
    intro hmem
    rcases List.mem_map.1 hmem with ⟨f, hf, hkey⟩
    rcases List.mem_append.1 hf with hf | hf
    · exact hfirst f hf hkey
    · exact hlast f hf hkey
  -- All firings of the check leave the alert as it is.
  let fires := fireCalls input 0 first ++ fireCalls input (first.length + 1) last
  have hopen' : (a.run fires).1.isOpen key = true := by
    unfold Alerter.isOpen
    rw [Alerter.run_append, lookup_fireCalls hlast, lookup_fireCalls hfirst]
    exact hopen
  have hcalls : checkCalls a.hasWalG input = fires ++
      [.resolveMissing (input.clock (first.length + 1 + last.length))
        ((first ++ last).map Firing.key) input.order] := by
    unfold checkCalls
    rw [hstats]
  unfold Alerter.check
  rw [hcalls, Alerter.run_snoc]
  rcases resolved_of_unseen hopen' hseen with ⟨hclosed, e, hmem, he⟩
  exact ⟨hclosed, e, List.mem_append_right _ hmem, he⟩

/-- Whenever the collector of an open alert has failed, the check does not keep the alert. -/
theorem never_kept (a : Alerter) (input : CheckInput) (stats : PgStat) (name key : String)
    (hstats : collectStats input.collectors = .ok stats)
    (hfailed : name ∈ stats.collectionErrors) (hfeeds : Feeds name key)
    (hopen : a.isOpen key = true) : ¬ AlertKept key (a.check input) := by
  rintro ⟨hstill, _⟩
  rw [(resolved_by_check hstats hfailed hfeeds hopen).1] at hstill
  cases hstill

/-! ## Concrete checks -/

/-- A standby lags behind by 100 seconds; the limit is 30. -/
def laggingCheck : CheckInput where
  cfg := { thresholds := { replicationLagSec := 30 }, cooldownMinutes := 15 }
  collectors := { replication := .ok [{ clientAddr := "10.0.0.2", replayLagSeconds := 100 }] }
  clock := fun _ => 1

/-- The replication statistics cannot be read. -/
def blindCheck : CheckInput :=
  { laggingCheck with
    collectors := { replication := .error "timeout" }
    clock := fun _ => 2 }

def lagKey : String := replicationKey "10.0.0.2"

theorem never_kept_blindCheck :
    ¬ AlertKept lagKey ((Alerter.check {} laggingCheck).1.check blindCheck) := by
  refine never_kept _ blindCheck _ "replication" lagKey rfl ?_ (Feeds.replication "10.0.0.2") ?_
  · exact (replication_recorded rfl).2 rfl
  · decide +kernel

theorem resolved_on_missing_data :
    ¬ ∀ (inputs : List CheckInput) (input : CheckInput) (stats : PgStat) (name key : String),
      let a := inputs.foldl (fun a input => (a.check input).1) ({} : Alerter)
      collectStats input.collectors = .ok stats → name ∈ stats.collectionErrors →
        Feeds name key → a.isOpen key = true → AlertKept key (a.check input) := by
  intro hall
  have hopen : (Alerter.check {} laggingCheck).1.isOpen lagKey = true := by decide +kernel
  have hfailed : ∃ stats, collectStats blindCheck.collectors = .ok stats ∧
      "replication" ∈ stats.collectionErrors :=
    ⟨_, rfl, (replication_recorded rfl).2 rfl⟩
  rcases hfailed with ⟨stats, hstats, hmem⟩
  have hfeeds : Feeds "replication" lagKey := Feeds.replication "10.0.0.2"
  rcases hall [laggingCheck] blindCheck stats "replication" lagKey hstats hmem hfeeds hopen with
    ⟨hstill, _⟩
  rw [List.foldl_cons, List.foldl_nil, (resolved_by_check hstats hmem hfeeds hopen).1] at hstill
  cases hstill

end Service
end Pgaio
