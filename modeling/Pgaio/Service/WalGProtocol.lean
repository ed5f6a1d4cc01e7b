import Pgaio.Service.WalG

/-!
# WalGProtocol — the order of the steps of a restore

What the goroutine of `RestoreBackup` does in which order, whatever its commands and its file
operations answer.  `RestoreOrder` is the condition under which it performs an action, `RestoreEnd`
describes the calls of the job store that it has made when it ends.  The specifications follow the
program from its last step to its first one.
-/

namespace Pgaio
namespace Service

open Go Model Concurrency
open Program (wp wp_perform wp_last wp_bind wp_mono)

-- The proofs run the programs symbolically; the text functions stay folded meanwhile.
attribute [local irreducible] trimSpace

abbrev WalGEvent := Event WalGAct WalGAct.Resp

/-! ## What an event log says -/

/-- Whether the response of a command or of a file operation is a success. -/
def WalGAct.succeeded : (a : WalGAct) → a.Resp → Bool
  | .command _, r => r.isOk
  | .readDir _, r => r.isOk
  | .removeAll _ _, r => r.isOk
  | .writeFile _ _ _, r => r.isOk
  | .openAppend _ _, r => r.isOk
  | .writeString _ _ _, r => r.isOk
  | _, _ => true

/-- `a` has been performed with success. -/
def Did (past : List WalGEvent) (a : WalGAct) : Prop :=
  ∃ r, (⟨a, r⟩ : WalGEvent) ∈ past ∧ a.succeeded r = true

/-- Executable view of `Did`. -/
def didBool (past : List WalGEvent) (a : WalGAct) : Bool :=
  past.any fun e => decide (e.act = a) && e.act.succeeded e.resp

theorem did_of_didBool {past : List WalGEvent} {a : WalGAct} (h : didBool past a = true) :
    Did past a := by
  rcases List.any_eq_true.1 h with ⟨⟨b, r⟩, hmem, htest⟩
  simp only [Bool.and_eq_true, decide_eq_true_eq] at htest
  rcases htest with ⟨rfl, hok⟩
  exact ⟨r, hmem, hok⟩

theorem Did.append {past : List WalGEvent} {a : WalGAct} (h : Did past a)
    (es : List WalGEvent) : Did (past ++ es) a := by
  rcases h with ⟨r, hr, hok⟩
  exact ⟨r, List.mem_append_left es hr, hok⟩

theorem did_snoc {past : List WalGEvent} {a b : WalGAct} {r : b.Resp} :
    Did (past ++ [⟨b, r⟩]) a ↔ Did past a ∨ (a = b ∧ b.succeeded r = true) := by
  constructor
  · rintro ⟨r', hmem, hok⟩
    rcases List.mem_append.1 hmem with hold | hnew
    · exact Or.inl ⟨r', hold, hok⟩
    · rw [List.mem_singleton] at hnew
      cases hnew
      exact Or.inr ⟨rfl, hok⟩
  · rintro (h | ⟨rfl, hok⟩)
    · exact h.append _
    · exact ⟨r, by simp, hok⟩

/-- The directory that an action lists or removes entries from. -/
def WalGAct.cleans : WalGAct → Option String
  | .readDir dir => some dir
  | .removeAll dir _ => some dir
  | _ => none

def jobCall? (e : WalGEvent) : Option JobCall :=
  match e.act with
  | .jobs call => some call
  | _ => none

/-- The calls of the job store, in their order. -/
def jobCalls (past : List WalGEvent) : List JobCall :=
  past.filterMap jobCall?

theorem jobCalls_snoc_call (past : List WalGEvent) (call : JobCall) (r : call.Resp) :
    jobCalls (past ++ [⟨.jobs call, r⟩]) = jobCalls past ++ [call] := by
  simp only [jobCalls, List.filterMap_append]
  rfl

theorem jobCalls_snoc_other {past : List WalGEvent} {a : WalGAct} {r : a.Resp}
    (h : jobCall? ⟨a, r⟩ = none) : jobCalls (past ++ [⟨a, r⟩]) = jobCalls past := by
  simp [jobCalls, h]

/-- No call has ended the job yet. -/
def NotEnded (past : List WalGEvent) : Prop :=
  ∀ call ∈ jobCalls past, call.ends? = none

/-- The place of an action in the sequence of a restore's steps; 0 for all other actions. -/
def WalGAct.step : WalGAct → Nat
  | .command (.pgCtlStop _) => 1
  | .readDir _ => 2
  | .removeAll _ _ => 3
  | .command (.backupFetch _ _) => 4
  | .writeFile _ _ _ => 5
  | .openAppend _ _ => 6
  | .writeString _ _ _ => 7
  | .command (.pgCtlStart _) => 8
  | _ => 0

/-- No step from the `n`-th one on has been tried yet. -/
def StepsBelow (n : Nat) (past : List WalGEvent) : Prop :=
  ∀ e ∈ past, e.act.step < n

theorem StepsBelow.snoc {m n : Nat} {past : List WalGEvent} {a : WalGAct} {r : a.Resp}
    (h : StepsBelow m past) (hmn : m ≤ n) (ha : (a.step + 1).ble n = true) :
    StepsBelow n (past ++ [⟨a, r⟩]) := by
  intro e he
  rcases List.mem_append.1 he with hold | hnew
  · exact Nat.lt_of_lt_of_le (h e hold) hmn
  · rw [List.mem_singleton] at hnew
    subst hnew
    exact Nat.le_of_ble_eq_true ha

/-! ## The protocol -/

namespace WalG

variable (w : WalG) (req : RestoreRequest) (jobID : JobID)

def stopServer : WalGAct := .command (.pgCtlStop w.dataDir)
def fetch : WalGAct := .command (.backupFetch w.dataDir req.backupName)
def writeSignal : WalGAct := .writeFile w.dataDir "recovery.signal" ""
def openConf : WalGAct := .openAppend w.dataDir "postgresql.auto.conf"

def writeSettings : WalGAct :=
  .writeString w.dataDir "postgresql.auto.conf" (recoveryLines req)

def start : WalGAct := .command (.pgCtlStart w.dataDir)

/-- When entries of a directory may be listed or removed. -/
def MayClean (past : List WalGEvent) (dir : String) : Prop :=
  Did past w.stopServer ∧ dir = trimSpace w.dataDir ∧ dir ≠ ""

/-- When the server may be started. -/
def MayStart (past : List WalGEvent) : Prop :=
  Did past (w.fetch req) ∧ Did past w.writeSignal ∧ Did past (w.writeSettings req)

/-- The condition under which a restore performs an action. -/
def RestoreOrder (past : List WalGEvent) : WalGAct → Prop
  | .jobs _ => NotEnded past
  | .command (.pgCtlStop dir) => dir = w.dataDir ∧ StepsBelow 1 past
  | .readDir dir => w.MayClean past dir ∧ StepsBelow 2 past
  | .removeAll dir _ => w.MayClean past dir ∧ StepsBelow 4 past
  | .command (.backupFetch dir name) =>
      dir = w.dataDir ∧ name = req.backupName ∧ StepsBelow 4 past
  | .writeFile dir name content =>
      .writeFile dir name content = w.writeSignal ∧ Did past (w.fetch req) ∧ StepsBelow 5 past
  | .openAppend dir name =>
      .openAppend dir name = w.openConf ∧ Did past (w.fetch req) ∧ StepsBelow 6 past
  | .writeString dir name content =>
      .writeString dir name content = w.writeSettings req ∧ Did past (w.fetch req) ∧
        StepsBelow 7 past
  | .command (.pgCtlStart dir) => dir = w.dataDir ∧ w.MayStart req past ∧ StepsBelow 8 past
  | _ => False

/-- The directory has been listed and every entry has been removed. -/
def Cleaned (past : List WalGEvent) : Prop :=
  ∃ entries, (⟨.readDir (trimSpace w.dataDir), .ok entries⟩ : WalGEvent) ∈ past ∧
    ∀ name ∈ entries, Did past (.removeAll (trimSpace w.dataDir) name)

/-- All five steps have succeeded. -/
structure AllSteps (past : List WalGEvent) : Prop where
  stopped : Did past w.stopServer
  cleaned : w.Cleaned past
  fetched : Did past (w.fetch req)
  signalled : Did past w.writeSignal
  opened : Did past w.openConf
  configured : Did past (w.writeSettings req)
  started : Did past w.start

/-- How the calls of the job store look after the restore: one call ends the job, it is the last
one, and it tells whether all steps have succeeded. -/
def RestoreEnd (past : List WalGEvent) : Prop :=
  ∃ before last, jobCalls past = before ++ [last] ∧ (∀ call ∈ before, call.ends? = none) ∧
    ((w.AllSteps req past ∧ ∃ message, last = .complete jobID message) ∨
      (¬ Did past w.start ∧ ∃ message details, last = .fail jobID message details))

variable {w req jobID}

theorem Cleaned.append {past : List WalGEvent} (h : w.Cleaned past) (es : List WalGEvent) :
    w.Cleaned (past ++ es) := by
  rcases h with ⟨entries, hmem, hall⟩
  exact ⟨entries, List.mem_append_left es hmem, fun name hname => (hall name hname).append es⟩

theorem AllSteps.append {past : List WalGEvent} (h : w.AllSteps req past)
    (es : List WalGEvent) : w.AllSteps req (past ++ es) where
  stopped := h.stopped.append es
  cleaned := h.cleaned.append es
  fetched := h.fetched.append es
  signalled := h.signalled.append es
  opened := h.opened.append es
  configured := h.configured.append es
  started := h.started.append es

/-! ## Bookkeeping along a restore -/

/-- The state of a restore that has neither ended its job nor started the server. -/
structure Underway (w : WalG) (past : List WalGEvent) : Prop where
  notEnded : NotEnded past
  notStarted : ¬ Did past w.start

namespace Underway

variable {past : List WalGEvent}

/-- An action that is neither a call nor a successful start changes nothing here. -/
theorem snoc (h : Underway w past) {a : WalGAct} {r : a.Resp}
    (hcall : jobCall? ⟨a, r⟩ = none) (hstart : w.start = a → a.succeeded r = false) :
    Underway w (past ++ [⟨a, r⟩]) where
  notEnded := by
    intro call hmem
    rw [jobCalls_snoc_other hcall] at hmem
    exact h.notEnded call hmem
  notStarted := by
    intro hdid
    rcases did_snoc.1 hdid with hold | ⟨hact, hok⟩
    · exact h.notStarted hold
    · rw [hstart hact] at hok
      cases hok

theorem update (h : Underway w past) (jobID : JobID) (message details : String) (r : Unit) :
    Underway w (past ++ [⟨.jobs (.update jobID message details), r⟩]) where
  notEnded := by
    intro call hmem
    rw [jobCalls_snoc_call, List.mem_append, List.mem_singleton] at hmem
    rcases hmem with hold | rfl
    · exact h.notEnded call hold
    · rfl
  notStarted := by
    intro hdid
    rcases did_snoc.1 hdid with hold | ⟨hact, _⟩
    · exact h.notStarted hold
    · cases hact

/-- A failing step ends the restore with one call of `Fail`. -/
theorem fail (h : Underway w past) (message details : String) :
    wp (w.RestoreOrder req) (fun past _ => w.RestoreEnd req jobID past) past
      (perform (.jobs (.fail jobID message details))) := by
  refine wp_last h.notEnded fun r => ?_
  refine ⟨jobCalls past, _, jobCalls_snoc_call _ _ _, h.notEnded, Or.inr ⟨?_, message, details, rfl⟩⟩
  intro hdid
  rcases did_snoc.1 hdid with hold | ⟨hact, _⟩
  · exact h.notStarted hold
  · cases hact

end Underway

/-! ## The steps, from the last one to the first one -/

theorem startServer_wp {past : List WalGEvent} (h : Underway w past) (hbelow : StepsBelow 8 past)
    (hstop : Did past w.stopServer) (hclean : w.Cleaned past) (hmay : w.MayStart req past)
    (hopen : Did past w.openConf) :
    wp (w.RestoreOrder req) (fun past _ => w.RestoreEnd req jobID past) past
      (w.startServer jobID) := by
  have hgo := h.update jobID "starting PostgreSQL" "" ()
  refine wp_perform h.notEnded fun _ => ?_
  refine wp_perform ⟨rfl, ⟨hmay.1.append _, hmay.2.1.append _, hmay.2.2.append _⟩,
    hbelow.snoc (by decide) rfl⟩ fun started => ?_
  cases started with
  | error out => exact (hgo.snoc rfl fun _ => rfl).fail _ _
  | ok out =>
      -- The successful start is no call, so the calls so far are those before it.
      have hended : NotEnded ((past ++ [⟨.jobs (.update jobID "starting PostgreSQL" ""), ()⟩]) ++
          [⟨.command (.pgCtlStart w.dataDir), .ok out⟩]) := by
        intro call hmem
        rw [jobCalls_snoc_other rfl] at hmem
        exact hgo.notEnded call hmem
      refine wp_last hended fun _ => ⟨_, _, jobCalls_snoc_call _ _ _, hended, Or.inl ⟨?_, _, rfl⟩⟩
      have hsteps : w.AllSteps req
          ((past ++ [⟨.jobs (.update jobID "starting PostgreSQL" ""), ()⟩]) ++
            [⟨.command (.pgCtlStart w.dataDir), .ok out⟩]) :=
        { stopped := (hstop.append _).append _
          cleaned := (hclean.append _).append _
          fetched := (hmay.1.append _).append _
          signalled := (hmay.2.1.append _).append _
          opened := (hopen.append _).append _
          configured := (hmay.2.2.append _).append _
          started := did_snoc.2 (Or.inr ⟨rfl, rfl⟩) }
      exact hsteps.append _

theorem configureRecovery_wp {past : List WalGEvent} (h : Underway w past)
    (hbelow : StepsBelow 5 past) (hstop : Did past w.stopServer) (hclean : w.Cleaned past)
    (hfetch : Did past (w.fetch req)) :
    wp (w.RestoreOrder req) (fun past _ => w.RestoreEnd req jobID past) past
      (w.configureRecovery req jobID) := by
  have hgo := h.update jobID "writing recovery configuration" "" ()
  have hbelow₁ := hbelow.snoc (a := .jobs (.update jobID "writing recovery configuration" ""))
    (r := ()) (Nat.le_refl 5) rfl
  -- A step that fails ends the restore; past one that succeeds the next may be taken.
  refine wp_perform h.notEnded fun _ => ?_
  refine wp_perform ⟨rfl, hfetch.append _, hbelow₁⟩ fun signal => ?_
  cases signal with
  | error err => exact (hgo.snoc rfl (fun h => by cases h)).fail _ _
  | ok _ =>
      have hsignal := hgo.snoc (a := w.writeSignal) (r := .ok ()) rfl (fun h => by cases h)
      have hbelow₂ := hbelow₁.snoc (a := w.writeSignal) (r := .ok ()) (by decide : 5 ≤ 6) rfl
      refine wp_perform ⟨rfl, (hfetch.append _).append _, hbelow₂⟩ fun opened => ?_
      cases opened with
      | error err => exact (hsignal.snoc rfl (fun h => by cases h)).fail _ _
      | ok _ =>
          have hopened := hsignal.snoc (a := w.openConf) (r := .ok ()) rfl (fun h => by cases h)
          have hbelow₃ := hbelow₂.snoc (a := w.openConf) (r := .ok ()) (by decide : 6 ≤ 7) rfl
          refine wp_perform ⟨rfl, ((hfetch.append _).append _).append _, hbelow₃⟩ fun written => ?_
          cases written with
          | error err => exact (hopened.snoc rfl (fun h => by cases h)).fail _ _
          | ok _ =>
              refine startServer_wp (hopened.snoc rfl (fun h => by cases h))
                (hbelow₃.snoc (by decide) rfl) ?_ ?_ ⟨?_, ?_, ?_⟩ ?_
              · exact (((hstop.append _).append _).append _).append _
              · exact (((hclean.append _).append _).append _).append _
              · exact (((hfetch.append _).append _).append _).append _
              · exact ((did_snoc.2 (Or.inr ⟨rfl, rfl⟩)).append _).append _
              · exact did_snoc.2 (Or.inr ⟨rfl, rfl⟩)
              · exact (did_snoc.2 (Or.inr ⟨rfl, rfl⟩)).append _

theorem fetchBackup_wp {past : List WalGEvent} (h : Underway w past) (hbelow : StepsBelow 4 past)
    (hstop : Did past w.stopServer) (hclean : w.Cleaned past) :
    wp (w.RestoreOrder req) (fun past _ => w.RestoreEnd req jobID past) past
      (w.fetchBackup req jobID) := by
  have hgo := h.update jobID "fetching backup from storage" "" ()
  have hbelow₁ := hbelow.snoc (a := .jobs (.update jobID "fetching backup from storage" ""))
    (r := ()) (Nat.le_refl 4) rfl
  refine wp_perform h.notEnded fun _ => wp_perform ⟨rfl, rfl, hbelow₁⟩ fun fetched => ?_
  cases fetched with
  | error out => exact (hgo.snoc rfl (fun h => by cases h)).fail _ _
  | ok out =>
      refine configureRecovery_wp (hgo.snoc rfl (fun h => by cases h))
        (hbelow₁.snoc (by decide) rfl) ?_ ?_ ?_
      · exact (hstop.append _).append _
      · exact (hclean.append _).append _
      · exact did_snoc.2 (Or.inr ⟨rfl, rfl⟩)

/-- Only entries of a directory have been listed or removed. -/
def Cleaning (es : List WalGEvent) : Prop :=
  ∀ e ∈ es, e.act.cleans.isSome = true

/-- Listing and removing entries leaves a restore underway and its backup unfetched. -/
theorem Underway.cleaning {past es : List WalGEvent} (h : Underway w past)
    (hbelow : StepsBelow 4 past) (hes : Cleaning es) :
    Underway w (past ++ es) ∧ StepsBelow 4 (past ++ es) := by
  induction es generalizing past with
  | nil => simpa using ⟨h, hbelow⟩
  | cons e es ih =>
      rcases e with ⟨a, r⟩
      have ha : a.cleans.isSome = true := hes ⟨a, r⟩ (by simp)
      have hnext : Underway w (past ++ [⟨a, r⟩]) ∧ StepsBelow 4 (past ++ [⟨a, r⟩]) := by
        cases a with
        | readDir dir =>
            exact ⟨h.snoc rfl (fun h => by cases h), hbelow.snoc (Nat.le_refl 4) rfl⟩
        | removeAll dir name =>
            exact ⟨h.snoc rfl (fun h => by cases h), hbelow.snoc (Nat.le_refl 4) rfl⟩
        | _ => cases ha
      have hrest := ih hnext.1 hnext.2 fun e he => hes e (by simp [he])
      simpa using hrest

theorem Cleaning.cons {e : WalGEvent} {es : List WalGEvent} (he : e.act.cleans.isSome = true)
    (hes : Cleaning es) : Cleaning (e :: es) := by
  intro e' he'
  rcases List.mem_cons.1 he' with rfl | htail
  · exact he
  · exact hes e' htail

/-- The loop: success means that every entry has been removed. -/
theorem removeEntries_wp {past : List WalGEvent} (entries : List String)
    (hmay : w.MayClean past (trimSpace w.dataDir)) (hbelow : StepsBelow 4 past) :
    wp (w.RestoreOrder req)
      (fun past' result => ∃ es, past' = past ++ es ∧ Cleaning es ∧
        (result.isOk = true →
          ∀ name ∈ entries, Did past' (.removeAll (trimSpace w.dataDir) name)))
      past (removeEntries (trimSpace w.dataDir) entries) := by
  induction entries generalizing past with
  | nil => exact ⟨[], by simp, fun e he => by simp at he, fun _ name hname => by simp at hname⟩
  | cons name entries ih =>
      refine wp_perform ⟨hmay, hbelow⟩ fun removed => ?_
      cases removed with
      | error err =>
          exact ⟨_, rfl, .cons rfl fun e he => by simp at he, fun hok => by cases hok⟩
      | ok _ =>
          refine wp_mono (fun _ _ h => h) ?_
            (ih ⟨hmay.1.append _, hmay.2⟩ (hbelow.snoc (Nat.le_refl 4) rfl))
          rintro past' result ⟨es, rfl, hes, hall⟩
          refine ⟨_, List.append_assoc _ _ _, .cons rfl hes, fun hok other hother => ?_⟩
          rcases List.mem_cons.1 hother with rfl | htail
          · exact (did_snoc.2 (Or.inr ⟨rfl, rfl⟩)).append es
          · exact hall hok other htail

theorem cleanDir_wp {past : List WalGEvent} (hbelow : StepsBelow 2 past)
    (hstop : Did past w.stopServer) (hblank : trimSpace w.dataDir ≠ "") :
    wp (w.RestoreOrder req)
      (fun past' result => ∃ es, past' = past ++ es ∧ Cleaning es ∧
        (result.isOk = true → w.Cleaned past'))
      past (cleanDir w.dataDir) := by
  unfold cleanDir
  dsimp only
  split
  · rename_i hempty
    exact absurd hempty hblank
  · refine wp_perform ⟨⟨hstop, rfl, hblank⟩, hbelow⟩ fun listed => ?_
    cases listed with
    | error err => exact ⟨_, rfl, .cons rfl fun e he => by simp at he, fun hok => by cases hok⟩
    | ok entries =>
        refine wp_mono (fun _ _ h => h) ?_ (removeEntries_wp entries
          ⟨hstop.append _, rfl, hblank⟩ (hbelow.snoc (by decide) rfl))
        rintro past' result ⟨es, rfl, hes, hall⟩
        refine ⟨_, List.append_assoc _ _ _, .cons rfl hes, fun hok => ?_⟩
        exact ⟨entries, List.mem_append_left es (by simp), hall hok⟩

theorem cleanDataDir_wp {past : List WalGEvent} (h : Underway w past)
    (hbelow : StepsBelow 2 past) (hstop : Did past w.stopServer)
    (hblank : trimSpace w.dataDir ≠ "") :
    wp (w.RestoreOrder req) (fun past _ => w.RestoreEnd req jobID past) past
      (w.cleanDataDir req jobID) := by
  have hgo := h.update jobID "cleaning data directory" "" ()
  have hbelow₁ := hbelow.snoc (a := .jobs (.update jobID "cleaning data directory" ""))
    (r := ()) (Nat.le_refl 2) rfl
  refine wp_perform h.notEnded fun _ => (wp_bind (cleanDir w.dataDir) _).2 ?_
  refine wp_mono (fun _ _ h => h) ?_ (cleanDir_wp hbelow₁ (hstop.append _) hblank)
  rintro past' cleaned ⟨es, rfl, hes, hclean⟩
  have hnext := hgo.cleaning (fun e he => Nat.lt_of_lt_of_le (hbelow₁ e he) (by decide)) hes
  cases cleaned with
  | error err => exact hnext.1.fail _ _
  | ok _ => exact fetchBackup_wp hnext.1 hnext.2 ((hstop.append _).append _) (hclean rfl)

theorem restoreBody_wp {past : List WalGEvent} (h : Underway w past) (hbelow : StepsBelow 1 past) :
    wp (w.RestoreOrder req) (fun past _ => w.RestoreEnd req jobID past) past
      (w.restoreBody req jobID) := by
  unfold restoreBody
  split
  · exact h.fail _ _
  · rename_i hblank
    have hgo := h.update jobID "stopping PostgreSQL" "" ()
    have hbelow₁ := hbelow.snoc (a := .jobs (.update jobID "stopping PostgreSQL" ""))
      (r := ()) (Nat.le_refl 1) rfl
    refine wp_perform h.notEnded fun _ => wp_perform ⟨rfl, hbelow₁⟩ fun stopped => ?_
    cases stopped with
    | error out => exact (hgo.snoc rfl (fun h => by cases h)).fail _ _
    | ok out =>
        refine cleanDataDir_wp (hgo.snoc rfl (fun h => by cases h))
          (hbelow₁.snoc (by decide) rfl) ?_ hblank
        exact did_snoc.2 (Or.inr ⟨rfl, rfl⟩)

end WalG

end Service
end Pgaio
