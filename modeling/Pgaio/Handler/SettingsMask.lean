import Pgaio.Handler.Settings
import Pgaio.Service.ConfigRange

/-!
# SettingsMask — does the mask stand for the stored token?

`GetSettings` masks the token, and a request with the mask keeps the token.  On its own such a request
changes nothing when it posts back what `GetSettings` has answered, provided that there is no default
left to fill in (`postBackKeeps_iff`); only settings with which a process starts after its file could
not be loaded may lack one.

The request reads the token before it updates the store.  An update that comes in between is lost: the
older token is stored again (`older_token_restored`).  Where no update of the token comes in between,
masked requests leave the token alone (`mask_kept`).
-/

namespace Pgaio
namespace Handler

open Go Model Service Transition

/-! ## The token -/

@[simp] theorem token_withToken (cfg : AppConfig) (value : String) :
    token (withToken cfg value) = value := rfl

/-- The stored token in the place of the mask gives back the settings. -/
theorem withToken_masked (cfg : AppConfig) : withToken (masked cfg) (token cfg) = cfg := by
  unfold masked
  split <;> rfl

theorem masked_of_token_ne (cfg : AppConfig) (h : token (masked cfg) ≠ mask) : masked cfg = cfg := by
  unfold masked at h ⊢
  split
  · rename_i htoken
    simp [htoken] at h
  · rfl

theorem inRange_withToken {cfg : AppConfig} (h : cfg.InRange) (value : String) :
    (withToken cfg value).InRange :=
  ⟨h.backup, ⟨h.alerts.diskUsagePct, h.alerts.connectionsPct, h.alerts.replicationLagSec,
    h.alerts.backupMaxAgeHours, h.alerts.cooldownMinutes⟩, h.ports⟩

theorem inRange_masked {cfg : AppConfig} (h : cfg.InRange) : (masked cfg).InRange := by
  unfold masked
  split
  · exact inRange_withToken h mask
  · exact h

@[simp] theorem token_update (env : ConnEnv) (cs : ConfigStore) (cfg : AppConfig)
    (outcome : WriteOutcome) : token (cs.update env cfg outcome).1.get = token cfg := by
  rw [ConfigStore.get, update_config]
  rfl

/-! ## Posting back -/

/-- The object that `GetSettings` answers, posted back. -/
def postBack (w : SettingsWorld) : SettingsLabel :=
  match (getSettings w.store).body.data with
  | none => .post (.error "EOF")
  | some cfg => .post (.ok (appCodec.encode cfg))

/-- Of all requests only `i` is served. -/
def servesOnly (i : Nat) : SettingsLabel → Prop
  | .serve j _ => j = i
  | _ => True

/-- However far it comes, the request that posts back the settings leaves them as they are. -/
def PostBackKeeps (env : ConnEnv) (w : SettingsWorld) : Prop :=
  ∀ w₁ w₂ : SettingsWorld, w.step env (postBack w) = some w₁ →
    Within (SettingsWorld.step env) (fun _ l => servesOnly w.requests.length l) w₁ w₂ →
      w₂.store.get = w.store.get

/-- No step of a request with the mask changes the token. -/
def TokenKept (env : ConnEnv) (w : SettingsWorld) : Prop :=
  ∀ (i : Nat) (r : SettingsRequest) (outcome : WriteOutcome) (w' : SettingsWorld),
    w.requests[i]? = some r → r.masked = true → w.step env (.serve i outcome) = some w' →
      token w'.store.get = token w.store.get

/-- The request has updated the store, or it does not do so any more. -/
def RequestPC.isPast : RequestPC → Bool
  | .restart => true
  | .responded _ => true
  | _ => false

theorem isPast_afterUpdate (err : Option String) : (afterUpdate err).isPast = true := by
  cases err <;> rfl

/-- What is read from the document of the masked settings. -/
theorem receive_masked {cfg : AppConfig} (h : cfg.InRange) :
    (receive (.ok (appCodec.encode (masked cfg)))).pc = .readToken (masked cfg) ∨
      (receive (.ok (appCodec.encode (masked cfg)))).pc = .update cfg := by
  have hread : appCodec.decode {} (appCodec.encode (masked cfg)) = (masked cfg, none) :=
    app_restores (inRange_masked h) (coversRoutes_zero _)
  by_cases hmask : token (masked cfg) = mask
  · refine .inl ?_
    simp [receive, hread, hmask]
  · have hsame : masked cfg = cfg := masked_of_token_ne cfg hmask
    rw [hsame] at hread hmask ⊢
    refine .inr ?_
    simp [receive, hread, hmask]

/-- The request with the settings `cfg`, while the settings are `cfg`. -/
structure PostedBack (cfg : AppConfig) (i : Nat) (w : SettingsWorld) : Prop where
  store : w.store.get = cfg
  request : ∃ r, w.requests[i]? = some r ∧
    (r.pc = .readToken (masked cfg) ∨ r.pc = .update cfg ∨ r.pc.isPast = true)

section PostBack

variable {env : ConnEnv} {cfg : AppConfig} {i : Nat} {w w' : SettingsWorld} {l : SettingsLabel}

theorem getElem?_setRequest_self {r : SettingsRequest} {pc : RequestPC}
    (hr : w.requests[i]? = some r) :
    (w.setRequest i r pc).requests[i]? = some { r with pc := pc } :=
  List.getElem?_set_self (List.getElem?_eq_some_iff.1 hr).1

theorem postedBack_step (hcompleted : Completed env cfg) (h : PostedBack cfg i w)
    (hok : servesOnly i l) (hstep : w.step env l = some w') : PostedBack cfg i w' := by
  obtain ⟨r, hr, hpc⟩ := h.request
  cases SettingsWorld.moves_of_step hstep with
  | post =>
      -- A request that arrives comes after the others.
      refine ⟨h.store, r, ?_, hpc⟩
      rw [List.getElem?_append_left (List.getElem?_eq_some_iff.1 hr).1]
      exact hr
  | @readToken j outcome r' cfg' hr' hread =>
      cases (show j = i from hok)
      cases hr.symm.trans hr'
      have hcfg : cfg' = masked cfg := by
        rcases hpc with hpc | hpc | hpc
        · cases hpc.symm.trans hread
          rfl
        · cases hpc.symm.trans hread
        · simp [hread, RequestPC.isPast] at hpc
      refine ⟨h.store, _, getElem?_setRequest_self hr, .inr (.inl ?_)⟩
      rw [hcfg, h.store, withToken_masked]
  | @update j outcome r' cfg' hr' hupdate =>
      cases (show j = i from hok)
      cases hr.symm.trans hr'
      have hcfg : cfg' = cfg := by
        rcases hpc with hpc | hpc | hpc
        · cases hpc.symm.trans hupdate
        · cases hpc.symm.trans hupdate
          rfl
        · simp [hupdate, RequestPC.isPast] at hpc
      refine ⟨?_, _, getElem?_setRequest_self hr, .inr (.inr (isPast_afterUpdate _))⟩
      calc (w.store.update env cfg' outcome).1.get
          = env.applyConnectionDefaultsLocked cfg' := update_config env w.store cfg' outcome
        _ = env.applyConnectionDefaultsLocked cfg := by rw [hcfg]
        _ = cfg := hcompleted
  | @restart j outcome r' hr' hrestart =>
      cases (show j = i from hok)
      cases hr.symm.trans hr'
      exact ⟨h.store, _, getElem?_setRequest_self hr, .inr (.inr rfl)⟩
  | loop _ _ => exact ⟨h.store, r, hr, hpc⟩
  | fire _ _ => exact ⟨h.store, r, hr, hpc⟩
  | pass => exact ⟨h.store, r, hr, hpc⟩

/-- The world after the settings have been posted back. -/
def afterPostBack (w : SettingsWorld) : SettingsWorld :=
  { w with requests := w.requests ++ [receive (.ok (appCodec.encode (masked w.store.get)))] }

theorem getElem?_afterPostBack (w : SettingsWorld) :
    (afterPostBack w).requests[w.requests.length]? =
      some (receive (.ok (appCodec.encode (masked w.store.get)))) := by
  simp [afterPostBack]

theorem postedBack_post (hrange : w.store.get.InRange) :
    PostedBack w.store.get w.requests.length (afterPostBack w) := by
  refine ⟨rfl, _, getElem?_afterPostBack w, ?_⟩
  rcases receive_masked hrange with hread | hupdate
  · exact .inl hread
  · exact .inr (.inl hupdate)

theorem step_postBack (halive : w.sched.panicked = false) :
    w.step env (postBack w) = some (afterPostBack w) := by
  simp [SettingsWorld.step, postBack, getSettings, Response.success, afterPostBack, halive]

theorem serve_update (env : ConnEnv) {r : SettingsRequest} (halive : w.sched.panicked = false)
    (hr : w.requests[i]? = some r) (hpc : r.pc = .update cfg) :
    ∃ w', w.step env (.serve i .written) = some w' ∧
      w'.store.get = env.applyConnectionDefaultsLocked cfg := by
  refine ⟨{ w with store := (w.store.update env cfg .written).1 }.setRequest i r
    (afterUpdate (w.store.update env cfg .written).2), ?_, rfl⟩
  simp [SettingsWorld.step, halive, SettingsWorld.serve, hr, hpc]

theorem serve_readToken (env : ConnEnv) {r : SettingsRequest} (halive : w.sched.panicked = false)
    (hr : w.requests[i]? = some r) (hpc : r.pc = .readToken cfg) :
    w.step env (.serve i .written) =
      some (w.setRequest i r (.update (withToken cfg (token w.store.get)))) := by
  simp [SettingsWorld.step, halive, SettingsWorld.serve, hr, hpc]

/-- Served without an interruption, the request stores the settings that it started from. -/
theorem exists_served (env : ConnEnv) (halive : w.sched.panicked = false)
    (hrange : w.store.get.InRange) :
    ∃ w', Within (SettingsWorld.step env) (fun _ l => servesOnly w.requests.length l)
      (afterPostBack w) w' ∧
        w'.store.get = env.applyConnectionDefaultsLocked w.store.get := by
  have hr := getElem?_afterPostBack w
  have hserves : servesOnly w.requests.length (.serve w.requests.length .written) := rfl
  rcases receive_masked hrange with hread | hupdate
  · -- With a token: it is read, then the settings are updated.
    have hstep := serve_readToken env (w := afterPostBack w) halive hr hread
    obtain ⟨w', hstep', hget⟩ := serve_update env (w := (afterPostBack w).setRequest _ _ _)
      halive (getElem?_setRequest_self hr) rfl
    refine ⟨w', .tail (.tail .refl hserves hstep) hserves hstep', ?_⟩
    rw [hget]
    exact congrArg env.applyConnectionDefaultsLocked (withToken_masked w.store.get)
  · obtain ⟨w', hstep, hget⟩ := serve_update env (w := afterPostBack w) halive hr hupdate
    exact ⟨w', .tail .refl hserves hstep, hget⟩

theorem postBackKeeps_iff (halive : w.sched.panicked = false) (hrange : w.store.get.InRange) :
    PostBackKeeps env w ↔ Completed env w.store.get := by
  have hpost : w.step env (postBack w) = some (afterPostBack w) := step_postBack halive
  constructor
  · intro hkeeps
    obtain ⟨w', hrun, hget⟩ := exists_served env halive hrange
    exact hget.symm.trans (hkeeps _ w' hpost hrun)
  · intro hcompleted w₁ w₂ hstep hrun
    cases hpost.symm.trans hstep
    have hposted : PostedBack w.store.get w.requests.length w₂ :=
      hrun.invariant (fun _ _ _ h hok hstep => postedBack_step hcompleted h hok hstep)
        (postedBack_post hrange)
    exact hposted.store

end PostBack

/-! ## The settings under way -/

/-- What the request would store is in range. -/
def RequestPC.InRange : RequestPC → Prop
  | .readToken cfg => cfg.InRange
  | .update cfg => cfg.InRange
  | _ => True

/-- The settings of the world: those in the store are in range, and they are completed or those that
the process started with. -/
structure Reached (env : ConnEnv) (initial : AppConfig) (w : SettingsWorld) : Prop where
  store : w.store.get.InRange
  requests : ∀ (i : Nat) (r : SettingsRequest), w.requests[i]? = some r → r.pc.InRange
  completed : w.store.get = initial ∨ Completed env w.store.get

/-- Requests with the mask will store the token that is stored already. -/
def TokensAgree (w : SettingsWorld) : Prop :=
  ∀ (i : Nat) (r : SettingsRequest) (cfg : AppConfig), w.requests[i]? = some r →
    r.masked = true → r.pc = .update cfg → token cfg = token w.store.get

def RequestPC.isUpdate : RequestPC → Bool
  | .update _ => true
  | _ => false

/-- The token is changed only while no request with the mask is between its two steps. -/
def maskStep (w : SettingsWorld) : SettingsLabel → Bool
  | .serve i _ =>
      match (w.requests[i]?).map SettingsRequest.pc with
      | some (.update cfg) =>
          decide (token cfg = token w.store.get) ||
            w.requests.all fun r => !(r.masked && r.pc.isUpdate)
      | _ => true
  | _ => true

section Step

variable {env : ConnEnv} {initial : AppConfig} {w w' : SettingsWorld} {l : SettingsLabel}

theorem inRange_receive (body : Except String JSON) : (receive body).pc.InRange := by
  rcases receive_cases body with ⟨response, hr⟩ | ⟨document, cfg, _, hread, hr⟩
  · rw [hr]
    trivial
  · have hcfg : (appCodec.decode {} document).1.InRange := app_keeps {} document inRange_zero
    rw [hread] at hcfg
    rcases hr with ⟨_, hr⟩ | ⟨_, hr⟩
    · rw [hr]
      exact hcfg
    · rw [hr]
      exact hcfg

/-- A request that has arrived with the mask reads the token next. -/
theorem receive_not_update (body : Except String JSON) (hmasked : (receive body).masked = true) :
    (receive body).pc.isUpdate = false := by
  rcases receive_cases body with ⟨response, hr⟩ | ⟨_, cfg, _, _, ⟨_, hr⟩ | ⟨_, hr⟩⟩
  · rw [hr]
    rfl
  · rw [hr]
    rfl
  · rw [hr] at hmasked
    cases hmasked

theorem inRange_afterUpdate (err : Option String) : (afterUpdate err).InRange := by
  cases err <;> trivial

theorem requests_setRequest {i : Nat} {r : SettingsRequest} {pc : RequestPC}
    (h : ∀ (j : Nat) (u : SettingsRequest), w.requests[j]? = some u → u.pc.InRange)
    (hpc : pc.InRange) (j : Nat) (u : SettingsRequest)
    (hu : (w.setRequest i r pc).requests[j]? = some u) : u.pc.InRange := by
  rcases SettingsWorld.getElem?_setRequest hu with ⟨_, rfl⟩ | ⟨_, hold⟩
  · exact hpc
  · exact h j u hold

theorem reached_step (h : Reached env initial w) (hstep : w.step env l = some w') :
    Reached env initial w' := by
  cases SettingsWorld.moves_of_step hstep with
  | @post body =>
      refine ⟨h.store, ?_, h.completed⟩
      intro i r hr
      -- The new request has been checked when it was received.
      rcases List.mem_append.1 (List.mem_of_getElem? hr) with hold | hnew
      · obtain ⟨j, hj⟩ := List.mem_iff_getElem?.1 hold
        exact h.requests j r hj
      · rw [List.mem_singleton.1 hnew]
        exact inRange_receive body
  | @readToken i outcome r cfg hr hpc =>
      have hcfg : cfg.InRange := by simpa [hpc, RequestPC.InRange] using h.requests i r hr
      exact ⟨h.store, requests_setRequest h.requests (inRange_withToken hcfg _), h.completed⟩
  | @update i outcome r cfg hr hpc =>
      have hcfg : cfg.InRange := by simpa [hpc, RequestPC.InRange] using h.requests i r hr
      exact ⟨inRange_update w.store hcfg outcome,
        requests_setRequest (w := { w with store := _ }) h.requests (inRange_afterUpdate _),
        .inr (completed_update env w.store cfg outcome)⟩
  | @restart i outcome r hr hpc =>
      exact ⟨h.store, requests_setRequest (w := { w with sched := _ }) h.requests trivial,
        h.completed⟩
  | loop _ _ => exact ⟨h.store, h.requests, h.completed⟩
  | fire _ _ => exact ⟨h.store, h.requests, h.completed⟩
  | pass => exact ⟨h.store, h.requests, h.completed⟩

theorem reached_boot (env : ConnEnv) (file : ConfigFile) (outcome : WriteOutcome) (now : Time) :
    Reached env (newConfigStore env file outcome).get
      (SettingsWorld.boot (newConfigStore env file outcome) now) where
  store := inRange_newConfigStore env file outcome
  requests := by
    intro i r hr
    simp [SettingsWorld.boot] at hr
  completed := .inl rfl

theorem tokensAgree_step (h : TokensAgree w) (hok : maskStep w l = true)
    (hstep : w.step env l = some w') : TokensAgree w' := by
  cases SettingsWorld.moves_of_step hstep with
  | @post body =>
      intro i r cfg hr hmasked hpc
      rcases List.mem_append.1 (List.mem_of_getElem? hr) with hold | hnew
      · obtain ⟨j, hj⟩ := List.mem_iff_getElem?.1 hold
        exact h j r cfg hj hmasked hpc
      · rw [List.mem_singleton.1 hnew] at hmasked hpc
        have hidle := receive_not_update body hmasked
        simp [hpc, RequestPC.isUpdate] at hidle
  | readToken hr hpc =>
      intro j u cfg hu hmasked hupdate
      rcases SettingsWorld.getElem?_setRequest hu with ⟨_, rfl⟩ | ⟨_, hold⟩
      · -- It has just read the token that is stored.
        cases hupdate
        rfl
      · exact h j u cfg hold hmasked hupdate
  | @update i outcome r cfg hr hpc =>
      intro j u cfg' hu hmasked hupdate
      rcases SettingsWorld.getElem?_setRequest hu with ⟨_, rfl⟩ | ⟨_, hold⟩
      · have hpast := isPast_afterUpdate (w.store.update env cfg outcome).2
        have hpc' : afterUpdate (w.store.update env cfg outcome).2 = .update cfg' := hupdate
        rw [hpc'] at hpast
        cases hpast
      · -- Either the token stays, or nobody has read it.
        have hbefore : token cfg' = token w.store.get := h j u cfg' hold hmasked hupdate
        simp only [maskStep, hr, hpc, Option.map_some, Bool.or_eq_true, decide_eq_true_eq] at hok
        rcases hok with hsame | hnobody
        · calc token cfg'
              = token w.store.get := hbefore
            _ = token cfg := hsame.symm
            _ = token (w.store.update env cfg outcome).1.get := by rw [token_update]
        · have hidle := List.all_eq_true.1 hnobody u (List.mem_of_getElem? hold)
          simp [hmasked, hupdate, RequestPC.isUpdate] at hidle
  | restart hr hpc =>
      intro j u cfg hu hmasked hupdate
      rcases SettingsWorld.getElem?_setRequest hu with ⟨_, rfl⟩ | ⟨_, hold⟩
      · cases hupdate
      · exact h j u cfg hold hmasked hupdate
  | loop _ _ => exact h
  | fire _ _ => exact h
  | pass => exact h

theorem tokenKept_of_tokensAgree (h : TokensAgree w) : TokenKept env w := by
  intro i r outcome w' hr hmasked hstep
  cases SettingsWorld.moves_of_step hstep with
  | readToken _ _ => rfl
  | @update _ _ r' cfg hr' hpc =>
      cases hr.symm.trans hr'
      calc token (w.store.update env cfg outcome).1.get
          = token cfg := token_update env w.store cfg outcome
        _ = token w.store.get := h i r cfg hr hmasked hpc
  | restart _ _ => rfl

/-- What is true of the mask in all runs of a process, and in those in which nobody changes the token
between the two steps of a request with the mask. -/
structure MaskKept (env : ConnEnv) (file : ConfigFile) (start : SettingsWorld) : Prop where
  postBack : ∀ w, Reach (SettingsWorld.step env) start w → w.sched.panicked = false →
    (PostBackKeeps env w ↔ Completed env w.store.get)
  /-- Only the settings at the start can lack a default, if the file could not be loaded. -/
  completed : ∀ w, Reach (SettingsWorld.step env) start w →
    w.store.get = start.store.get ∨ Completed env w.store.get
  loaded : ∀ document cfg, file = .ok document →
    appCodec.decode env.defaultConfig document = (cfg, none) → Completed env start.store.get
  token : ∀ w, Within (SettingsWorld.step env) (fun w l => maskStep w l = true) start w →
    TokenKept env w

end Step

theorem mask_kept (env : ConnEnv) (file : ConfigFile) (outcome : WriteOutcome) (now : Time) :
    MaskKept env file (SettingsWorld.boot (newConfigStore env file outcome) now) := by
  have hreached : ∀ w, Reach (SettingsWorld.step env)
      (SettingsWorld.boot (newConfigStore env file outcome) now) w →
        Reached env (newConfigStore env file outcome).get w := by
    intro w hrun
    exact hrun.invariant (fun _ _ _ h _ hstep => reached_step h hstep)
      (reached_boot env file outcome now)
  refine ⟨?_, ?_, ?_, ?_⟩
  · intro w hrun halive
    exact postBackKeeps_iff halive (hreached w hrun).store
  · intro w hrun
    exact (hreached w hrun).completed
  · intro document cfg hfile hdecode
    subst hfile
    exact completed_newConfigStore hdecode outcome
  · intro w hrun
    have hagree : TokensAgree w := by
      refine hrun.invariant (fun _ _ _ h hok hstep => tokensAgree_step h hok hstep) ?_
      intro i r cfg hr
      simp [SettingsWorld.boot] at hr
    exact tokenKept_of_tokensAgree hagree

/-! ## A concrete run -/

def tokenDocument (value : String) : JSON :=
  .obj [("alerts", .obj [("telegram", .obj [("botToken", .str value)])])]

/-- Request 0 has the mask.  It reads the token, then request 1 stores another one. -/
def tokenReplaced : List SettingsLabel :=
  [.post (.ok (tokenDocument mask)), .serve 0 .written,
    .post (.ok (tokenDocument "2:new")), .serve 1 .written]

theorem older_token_restored :
    ¬∀ (env : ConnEnv) (file : ConfigFile) (outcome : WriteOutcome) (now : Time) (w : SettingsWorld),
      Reach (SettingsWorld.step env) (SettingsWorld.boot (newConfigStore env file outcome) now) w →
        (w.sched.panicked = false → PostBackKeeps env w) ∧ TokenKept env w := by
  intro hall
  have hend : (Transition.run (SettingsWorld.step {})
      (SettingsWorld.boot (newConfigStore {} (.ok (tokenDocument "1:old")) .written) 0)
      tokenReplaced).any (fun w => w.requests[0]?.any (fun r => r.masked) &&
        (w.step {} (.serve 0 .written)).any fun w' =>
          decide (token w'.store.get ≠ token w.store.get)) = true := by
    decide +kernel
  obtain ⟨w, hreach, htest⟩ := exists_reach_of_run hend
  obtain ⟨hmasked, hchanged⟩ := Bool.and_eq_true_iff.1 htest
  cases hr : w.requests[0]? with
  | none => simp [hr] at hmasked
  | some r =>
      rw [hr] at hmasked
      cases hstep : w.step {} (.serve 0 .written) with
      | none => simp [hstep] at hchanged
      | some w' =>
          rw [hstep] at hchanged
          have hkept := (hall {} _ _ 0 w hreach).2 0 r .written w' hr hmasked hstep
          exact of_decide_eq_true hchanged hkept

end Handler
end Pgaio
