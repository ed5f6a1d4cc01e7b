import Pgaio.Model.Types
import Pgaio.Service.Scheduler
import Pgaio.Transition.Run

/-!
# Settings — the requests that change the settings, and the scheduler they restart

`handler/settings.go`.  The system has the config store, the scheduler with its loops, and any number
of `UpdateSettings` requests under way.  One step lets a request arrive, lets it perform its next
action, lets a loop perform its next action, lets a ticker or timer fire, or lets time pass.

A request is read when it arrives.  From then on it reads the token if its own token is the mask,
updates the store, and restarts the scheduler.
-/

namespace Pgaio
namespace Handler

open Go Model Service Transition

/-! ## The token -/

def mask : String := "****"

/-- `cfg.Alerts.Telegram.BotToken`. -/
def token (cfg : AppConfig) : String :=
  cfg.alerts.telegram.botToken

def withToken (cfg : AppConfig) (value : String) : AppConfig :=
  { cfg with
    alerts := { cfg.alerts with telegram := { cfg.alerts.telegram with botToken := value } } }

/-- The settings with the token masked, if there is one. -/
def masked (cfg : AppConfig) : AppConfig :=
  if token cfg ≠ "" then withToken cfg mask else cfg

def getSettings (cs : ConfigStore) : Response AppConfig :=
  .success statusOK (masked cs.get)

/-! ## Requests -/

inductive RequestPC where
  /-- Before `h.config.Get()`. -/
  | readToken (cfg : AppConfig)
  /-- Before `h.config.Update(cfg)`. -/
  | update (cfg : AppConfig)
  /-- Before `h.scheduler.Restart()`. -/
  | restart
  | responded (response : Response String)

/-- The request has updated the store and has not restarted the scheduler yet. -/
def RequestPC.isRestart : RequestPC → Bool
  | .restart => true
  | _ => false

structure SettingsRequest where
  /-- The token of the request is the mask. -/
  masked : Bool
  pc : RequestPC

/-- A body that is no JSON document is represented by the error that says so. -/
def receive (body : Except String JSON) : SettingsRequest :=
  match body with
  | .error err =>
      { masked := false
        pc := .responded (.failure statusBadRequest ("invalid config: " ++ err)) }
  | .ok document =>
      match appCodec.decode {} document with
      | (_, some err) =>
          { masked := false
            pc := .responded (.failure statusBadRequest ("invalid config: " ++ err.text)) }
      | (cfg, none) =>
          if token cfg = mask then
            { masked := true
              pc := .readToken cfg }
          else
            { masked := false
              pc := .update cfg }

/-- Everything that can arrive: settings with the mask, other settings, or an error. -/
theorem receive_cases (body : Except String JSON) :
    (∃ response, receive body =
      { masked := false
        pc := .responded response }) ∨
    ∃ document cfg, body = .ok document ∧ appCodec.decode {} document = (cfg, none) ∧
      ((token cfg = mask ∧ receive body =
          { masked := true
            pc := .readToken cfg }) ∨
        (token cfg ≠ mask ∧ receive body =
          { masked := false
            pc := .update cfg })) := by
  cases body with
  | error err => exact .inl ⟨.failure statusBadRequest ("invalid config: " ++ err), rfl⟩
  | ok document =>
      cases hdecode : appCodec.decode {} document with
      | mk cfg err =>
          cases err with
          | some e =>
              refine .inl ⟨.failure statusBadRequest ("invalid config: " ++ e.text), ?_⟩
              simp only [receive, hdecode]
          | none =>
              refine .inr ⟨document, cfg, rfl, hdecode, ?_⟩
              by_cases hmask : token cfg = mask
              · exact .inl ⟨hmask, by simp only [receive, hdecode, if_pos hmask]⟩
              · exact .inr ⟨hmask, by simp only [receive, hdecode, if_neg hmask]⟩

/-- What follows `Update`. -/
def afterUpdate : Option String → RequestPC
  | none => .restart
  | some err => .responded (.failure statusInternalServerError err)

/-! ## The system -/

structure SettingsWorld where
  now : Time
  store : ConfigStore
  sched : Scheduler := {}
  requests : List SettingsRequest := []

inductive SettingsLabel where
  | post (body : Except String JSON)
  | serve (i : Nat) (outcome : WriteOutcome)
  | loop (k : Nat) (choice : SelectCase)
  | fire (k : Nat) (kind : BackupKind)
  | pass (d : Nat)

namespace SettingsWorld

/-- After `NewScheduler`. -/
def boot (store : ConfigStore) (now : Time) : SettingsWorld where
  now := now
  store := store
  sched := ({} : Scheduler).start store.getBackup now

def setRequest (w : SettingsWorld) (i : Nat) (r : SettingsRequest) (pc : RequestPC) :
    SettingsWorld :=
  { w with requests := w.requests.set i { r with pc := pc } }

/-- The next action of `UpdateSettings`. -/
def serve (env : ConnEnv) (w : SettingsWorld) (i : Nat) (outcome : WriteOutcome) :
    Option SettingsWorld :=
  match w.requests[i]? with
  | none => none
  | some r =>
      match r.pc with
      | .readToken cfg => some (w.setRequest i r (.update (withToken cfg (token w.store.get))))
      | .update cfg =>
          let (store, err) := w.store.update env cfg outcome
          some ({ w with store := store }.setRequest i r (afterUpdate err))
      | .restart =>
          some ({ w with sched := w.sched.start w.store.getBackup w.now }.setRequest i r
            (.responded (.success statusOK "settings updated")))
      | .responded _ => none

/-- After a panic the process is gone. -/
def step (env : ConnEnv) (w : SettingsWorld) (l : SettingsLabel) : Option SettingsWorld :=
  if w.sched.panicked then none
  else
    match l with
    | .post body => some { w with requests := w.requests ++ [receive body] }
    | .serve i outcome => w.serve env i outcome
    | .loop k choice =>
        (w.sched.stepLoop w.store.getBackup w.now k choice).map fun s => { w with sched := s }
    | .fire k kind => (w.sched.fireLoop w.now k kind).map fun s => { w with sched := s }
    | .pass d => some { w with now := w.now + d }

/-- Time may pass: no loop has anything to do before, and nothing is due in between. -/
def mayPass (w : SettingsWorld) (d : Nat) : Bool :=
  w.sched.loops.all fun l => l.waits w.now && l.lasts (w.now + d)

/-- What `GetScheduleStatus` answers. -/
def status (w : SettingsWorld) : SchedulerStatus :=
  w.sched.status w.store.getBackup

/-! ## What a step does -/

section

variable {env : ConnEnv} {w w' : SettingsWorld}

/-- Everything a step can do. -/
inductive Moves (env : ConnEnv) (w : SettingsWorld) : SettingsLabel → SettingsWorld → Prop where
  | post {body : Except String JSON} :
      Moves env w (.post body) { w with requests := w.requests ++ [receive body] }
  | readToken {i : Nat} {outcome : WriteOutcome} {r : SettingsRequest} {cfg : AppConfig} :
      w.requests[i]? = some r → r.pc = .readToken cfg →
        Moves env w (.serve i outcome)
          (w.setRequest i r (.update (withToken cfg (token w.store.get))))
  | update {i : Nat} {outcome : WriteOutcome} {r : SettingsRequest} {cfg : AppConfig} :
      w.requests[i]? = some r → r.pc = .update cfg →
        Moves env w (.serve i outcome)
          ({ w with store := (w.store.update env cfg outcome).1 }.setRequest i r
            (afterUpdate (w.store.update env cfg outcome).2))
  | restart {i : Nat} {outcome : WriteOutcome} {r : SettingsRequest} :
      w.requests[i]? = some r → r.pc = .restart →
        Moves env w (.serve i outcome)
          ({ w with sched := w.sched.start w.store.getBackup w.now }.setRequest i r
            (.responded (.success statusOK "settings updated")))
  | loop {k : Nat} {choice : SelectCase} {l l' : Loop} {effect : Effect} :
      w.sched.loops[k]? = some l → l.Moves w.store.getBackup w.now choice l' effect →
        Moves env w (.loop k choice) { w with sched := w.sched.record k l' w.now effect }
  | fire {k : Nat} {kind : BackupKind} {l l' : Loop} :
      w.sched.loops[k]? = some l → l.Fires w.now kind l' →
        Moves env w (.fire k kind)
          { w with sched := { w.sched with loops := w.sched.loops.set k l' } }
  | pass {d : Nat} : Moves env w (.pass d) { w with now := w.now + d }

/-- The step restarts the scheduler. -/
def restarts (w : SettingsWorld) : SettingsLabel → Bool
  | .serve i _ => (w.requests[i]?).any fun r => r.pc.isRestart
  | _ => false

theorem moves_of_step {l : SettingsLabel} (h : w.step env l = some w') : Moves env w l w' := by
  unfold step at h
  split at h
  · cases h
  · cases l with
    | post body =>
        cases h
        exact .post
    | serve i outcome =>
        simp only [serve] at h
        cases hr : w.requests[i]? with
        | none => simp [hr] at h
        | some r =>
            simp only [hr] at h
            -- A request takes the step that it has come to.
            cases hpc : r.pc with
            | readToken cfg =>
                simp only [hpc, Option.some.injEq] at h
                exact h ▸ .readToken hr hpc
            | update cfg =>
                simp only [hpc, Option.some.injEq] at h
                exact h ▸ .update hr hpc
            | restart =>
                simp only [hpc, Option.some.injEq] at h
                exact h ▸ .restart hr hpc
            | responded response => simp [hpc] at h
    | loop k choice =>
        simp only [Option.map_eq_some_iff, Scheduler.stepLoop, Option.bind_eq_bind,
          Option.bind_eq_some_iff, Option.some.injEq] at h
        obtain ⟨s, ⟨l, hl, ⟨l', effect⟩, hstep, rfl⟩, rfl⟩ := h
        exact .loop hl (Loop.moves_of_step hstep)
    | fire k kind =>
        simp only [Option.map_eq_some_iff, Scheduler.fireLoop, Option.bind_eq_bind,
          Option.bind_eq_some_iff, Option.some.injEq] at h
        obtain ⟨s, ⟨l, hl, l', hfire, rfl⟩, rfl⟩ := h
        exact .fire hl (Loop.fires_of_fire hfire)
    | pass d =>
        cases h
        exact .pass

@[simp] theorem setRequest_now (i : Nat) (r : SettingsRequest) (pc : RequestPC) :
    (w.setRequest i r pc).now = w.now := rfl

@[simp] theorem setRequest_store (i : Nat) (r : SettingsRequest) (pc : RequestPC) :
    (w.setRequest i r pc).store = w.store := rfl

@[simp] theorem setRequest_sched (i : Nat) (r : SettingsRequest) (pc : RequestPC) :
    (w.setRequest i r pc).sched = w.sched := rfl

/-- Another request stays as it is. -/
theorem getElem?_setRequest {i j : Nat} {r u : SettingsRequest} {pc : RequestPC}
    (h : (w.setRequest i r pc).requests[j]? = some u) :
    (j = i ∧ u = { r with pc := pc }) ∨ (j ≠ i ∧ w.requests[j]? = some u) :=
  getElem?_of_set h

end

end SettingsWorld

end Handler
end Pgaio
