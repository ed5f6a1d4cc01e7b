import Pgaio.Handler.SettingsMask
import Pgaio.Web.TunerPreview

/-!
# SettingsPages — the pages that save a part of the settings

`saveSchedule` of `backup.js` and `save` of `alerts.js` and `profiles.js`.  Each page reads all settings,
changes its own section and posts all of them; by then the answer it has read may be old, and other pages may
have saved.  `pages_keep` says what this can do to the settings: every section is one that its own page has
saved, and a page that has read the settings as they are leaves the other sections alone.
-/

namespace Pgaio
namespace Web

open Go Model Service Handler Transition

/-! ## The forms -/

/-- `x || y` for a text. -/
def textOr (x y : String) : String :=
  if x = "" then y else x

/-- What the inputs of the schedule hold; `none` is what `parseInt` cannot read. -/
structure ScheduleForm where
  enabled : Bool := false
  incrementalIntervalHours : Option Int := none
  fullWeekday : Option Int := none
  fullHour : Option Int := none
  retainCount : Option Int := none
  deriving DecidableEq, Repr

structure AlertsForm where
  enabled : Bool := false
  botToken : String := ""
  chatId : String := ""
  diskUsagePct : Option Int := none
  connectionsPct : Option Int := none
  replicationLagSec : Option Int := none
  backupMaxAgeHours : Option Int := none
  cooldownMinutes : Option Int := none
  deriving DecidableEq, Repr

structure ProfileInput where
  label : String := ""
  host : String := ""
  port : Option Int := none
  database : String := ""
  sslMode : String := ""
  description : String := ""
  deriving DecidableEq, Repr

/-- The selected routes by their feature, and the inputs of the profiles by their index. -/
structure ProfilesForm where
  route : String → String := fun _ => ""
  profiles : List ProfileInput := []

/-- `saveSchedule`, without the requests. -/
def saveSchedule (form : ScheduleForm) (cfg : AppConfig) : AppConfig :=
  { cfg with
    backup :=
      { cfg.backup with
        enabled := form.enabled
        incrementalIntervalHours := numberOr form.incrementalIntervalHours 1
        fullWeekday := numberOr form.fullWeekday 0
        fullHour := numberOr form.fullHour 0
        retainCount := numberOr form.retainCount 7 } }

/-- `AlertsPage.save`. -/
def saveAlerts (form : AlertsForm) (cfg : AppConfig) : AppConfig :=
  { cfg with
    alerts :=
      { enabled := form.enabled
        telegram :=
          { botToken := form.botToken
            chatID := form.chatId }
        thresholds :=
          { diskUsagePct := numberOr form.diskUsagePct 80
            connectionsPct := numberOr form.connectionsPct 80
            replicationLagSec := numberOr form.replicationLagSec 30
            backupMaxAgeHours := numberOr form.backupMaxAgeHours 24 }
        cooldownMinutes := numberOr form.cooldownMinutes 15 } }

/-- A profile of which no inputs are shown stays as it is. -/
def editProfile (profile : ConnectionProfile) : Option ProfileInput → ConnectionProfile
  | none => profile
  | some input =>
      { profile with
        label := textOr input.label profile.label
        host := textOr input.host profile.host
        port := numberOr input.port profile.port
        database := textOr input.database profile.database
        sslMode := textOr input.sslMode profile.sslMode
        description := textOr input.description profile.description }

/-- The features with a select of their own. -/
def routedFeatures : List String :=
  ["sql", "queries", "maintenance"]

def setRoute (form : ProfilesForm) (routes : StringMap String) (feature : String) : StringMap String :=
  if form.route feature = "" then routes else routes.insert feature (form.route feature)

/-- `ProfilesPage.save`. -/
def saveProfiles (form : ProfilesForm) (cfg : AppConfig) : AppConfig :=
  { cfg with
    connections :=
      { profiles := cfg.connections.profiles.map fun profiles =>
          profiles.mapIdx fun idx profile => editProfile profile form.profiles[idx]?
        featureRoutes :=
          some (routedFeatures.foldl (setRoute form) (cfg.connections.featureRoutes.getD ∅)) } }

inductive Edit where
  | schedule (form : ScheduleForm)
  | alerts (form : AlertsForm)
  | profiles (form : ProfilesForm)

def Edit.apply : Edit → AppConfig → AppConfig
  | .schedule form => saveSchedule form
  | .alerts form => saveAlerts form
  | .profiles form => saveProfiles form

/-! ## The system -/

/-- `readAt` are the settings behind the answer that the page works with. -/
structure Save where
  readAt : AppConfig
  edit : Edit

def Save.posted (s : Save) : AppConfig :=
  s.edit.apply (masked s.readAt)

/-- The process, the settings behind each answer of `GetSettings` so far, and what was saved.  Request `k` is
that of save `k`. -/
structure PagesWorld where
  server : SettingsWorld
  answers : List AppConfig := []
  saves : List Save := []

inductive PagesLabel where
  | load
  /-- A page saves that works with answer `i`. -/
  | save (i : Nat) (edit : Edit)
  /-- The process goes on; no request arrives. -/
  | server (l : SettingsLabel)

def isPost : SettingsLabel → Bool
  | .post _ => true
  | _ => false

namespace PagesWorld

def boot (store : ConfigStore) (now : Time) : PagesWorld where
  server := .boot store now

/-- The settings that are stored. -/
def stored (w : PagesWorld) : AppConfig :=
  w.server.store.get

def step (env : ConnEnv) (w : PagesWorld) (l : PagesLabel) : Option PagesWorld :=
  match l with
  | .load => some { w with answers := w.answers ++ [w.stored] }
  | .save i edit =>
      match w.answers[i]? with
      | none => none
      | some cfg =>
          let s : Save := { readAt := cfg, edit := edit }
          (w.server.step env (.post (.ok (appCodec.encode s.posted)))).map fun server =>
            { w with server := server, saves := w.saves ++ [s] }
  | .server l =>
      if isPost l then none
      else (w.server.step env l).map fun server => { w with server := server }

end PagesWorld

/-! ## Sections -/

/-- A part of the settings with the pages that change it; `norm` fills in its defaults. -/
structure Section (env : ConnEnv) (α : Type) where
  get : AppConfig → α
  own : Edit → Bool
  norm : α → α
  get_withToken : ∀ cfg value, get (withToken cfg value) = get cfg
  get_defaults : ∀ cfg, get (env.applyConnectionDefaultsLocked cfg) = norm (get cfg)
  norm_norm : ∀ x, norm (norm x) = norm x
  get_apply : ∀ edit cfg, own edit = false → get (edit.apply cfg) = get cfg

def Edit.isSchedule : Edit → Bool
  | .schedule _ => true
  | _ => false

def Edit.isAlerts : Edit → Bool
  | .alerts _ => true
  | _ => false

def Edit.isProfiles : Edit → Bool
  | .profiles _ => true
  | _ => false

def scheduleSection (env : ConnEnv) : Section env BackupConfig where
  get := (·.backup)
  own := Edit.isSchedule
  norm := id
  get_withToken := fun _ _ => rfl
  get_defaults := fun _ => rfl
  norm_norm := fun _ => rfl
  get_apply := by
    intro edit cfg hother
    cases edit with
    | schedule form => cases hother
    | alerts form => rfl
    | profiles form => rfl

/-- The alerts without the token. -/
def alertsSection (env : ConnEnv) : Section env AlertConfig where
  get := fun cfg => (withToken cfg "").alerts
  own := Edit.isAlerts
  norm := fun a => { a with cooldownMinutes := if a.cooldownMinutes ≤ 0 then 15 else a.cooldownMinutes }
  get_withToken := fun _ _ => rfl
  get_defaults := fun _ => rfl
  norm_norm := by
    intro a
    by_cases h : a.cooldownMinutes ≤ 0
    · simp [h]
    · simp [h]
  get_apply := by
    intro edit cfg hother
    cases edit with
    | schedule form => rfl
    | alerts form => cases hother
    | profiles form => rfl

def connectionsSection (env : ConnEnv) : Section env ConnectionSettings where
  get := (·.connections)
  own := Edit.isProfiles
  norm := fun c =>
    { profiles := some (env.applyConnectionDefaults (c.profiles.getD []))
      featureRoutes := some (fillRoutes (c.featureRoutes.getD defaultRoutes)) }
  get_withToken := fun _ _ => rfl
  get_defaults := fun _ => rfl
  norm_norm := fun c => by
    simp only [Option.getD_some, applyConnectionDefaults_idem, fillRoutes_idem]
  get_apply := by
    intro edit cfg hother
    cases edit with
    | schedule form => rfl
    | alerts form => rfl
    | profiles form => cases hother

namespace Section

variable {env : ConnEnv} {α : Type} (σ : Section env α)

theorem get_masked (cfg : AppConfig) : σ.get (masked cfg) = σ.get cfg := by
  unfold masked
  split
  · exact σ.get_withToken cfg mask
  · rfl

/-- What one of its own pages has saved, or what was there at the start. -/
def Chosen (initial : AppConfig) (saves : List Save) (x : α) : Prop :=
  x = σ.get initial ∨ x = σ.norm (σ.get initial) ∨
    ∃ s ∈ saves, σ.own s.edit = true ∧ x = σ.norm (σ.get s.posted)

variable {σ} {initial : AppConfig} {saves more : List Save} {x : α}

theorem Chosen.norm (h : σ.Chosen initial saves x) : σ.Chosen initial saves (σ.norm x) := by
  rcases h with rfl | rfl | ⟨s, hs, hown, rfl⟩
  · exact Or.inr (Or.inl rfl)
  · exact Or.inr (Or.inl (σ.norm_norm _))
  · exact Or.inr (Or.inr ⟨s, hs, hown, σ.norm_norm _⟩)

theorem Chosen.append (h : σ.Chosen initial saves x) : σ.Chosen initial (saves ++ more) x := by
  rcases h with hinitial | hnorm | ⟨s, hs, hown, hx⟩
  · exact Or.inl hinitial
  · exact Or.inr (Or.inl hnorm)
  · exact Or.inr (Or.inr ⟨s, List.mem_append_left _ hs, hown, hx⟩)

/-- What a save posts of another section is what its page has read. -/
theorem get_posted {s : Save} (h : σ.own s.edit = false) : σ.get s.posted = σ.get s.readAt := by
  rw [Save.posted, σ.get_apply _ _ h, σ.get_masked]

end Section

/-! ## One step -/

section Step

variable {env : ConnEnv} {w w' : PagesWorld}

/-- Everything a step can do. -/
inductive Moves (env : ConnEnv) (w : PagesWorld) : PagesLabel → PagesWorld → Prop where
  | load : Moves env w .load { w with answers := w.answers ++ [w.stored] }
  | save {i : Nat} {s : Save} :
      w.answers[i]? = some s.readAt →
        Moves env w (.save i s.edit)
          { w with
            server := { w.server with
              requests := w.server.requests ++ [receive (.ok (appCodec.encode s.posted))] }
            saves := w.saves ++ [s] }
  | readToken {k : Nat} {outcome : WriteOutcome} {r : SettingsRequest} {cfg : AppConfig} :
      w.server.requests[k]? = some r → r.pc = .readToken cfg →
        Moves env w (.server (.serve k outcome))
          { w with server := w.server.setRequest k r (.update (withToken cfg (token w.stored))) }
  | update {k : Nat} {outcome : WriteOutcome} {r : SettingsRequest} {cfg : AppConfig} {server : SettingsWorld}
      {pc : RequestPC} :
      w.server.requests[k]? = some r → r.pc = .update cfg → pc.isPast = true →
        server.store.get = env.applyConnectionDefaultsLocked cfg →
          server.requests = (w.server.setRequest k r pc).requests →
            Moves env w (.server (.serve k outcome)) { w with server := server }
  | answer {k : Nat} {outcome : WriteOutcome} {r : SettingsRequest} {server : SettingsWorld} {pc : RequestPC} :
      w.server.requests[k]? = some r → pc.isPast = true → server.store.get = w.stored →
        server.requests = (w.server.setRequest k r pc).requests →
          Moves env w (.server (.serve k outcome)) { w with server := server }
  | idle {l : SettingsLabel} {server : SettingsWorld} :
      server.store.get = w.stored → server.requests = w.server.requests →
        Moves env w (.server l) { w with server := server }

theorem moves_of_pagesStep {l : PagesLabel} (h : w.step env l = some w') : Moves env w l w' := by
  cases l with
  | load =>
      cases h
      exact .load
  | save i edit =>
      simp only [PagesWorld.step] at h
      cases hi : w.answers[i]? with
      | none => simp [hi] at h
      | some cfg =>
          simp only [hi, Option.map_eq_some_iff] at h
          obtain ⟨server, hserver, rfl⟩ := h
          cases SettingsWorld.moves_of_step hserver with
          | post => exact .save (s := { readAt := cfg, edit := edit }) hi
  | server l =>
      simp only [PagesWorld.step] at h
      split at h
      · cases h
      · rename_i hpost
        obtain ⟨server, hserver, rfl⟩ := Option.map_eq_some_iff.1 h
        cases SettingsWorld.moves_of_step hserver with
        | post => exact absurd rfl hpost
        | readToken hr hpc => exact .readToken hr hpc
        | update hr hpc => exact .update hr hpc (isPast_afterUpdate _) (update_config env _ _ _) rfl
        | restart hr _ => exact .answer hr rfl rfl rfl
        | loop _ _ => exact .idle rfl rfl
        | fire _ _ => exact .idle rfl rfl
        | pass => exact .idle rfl rfl

/-- What `UpdateSettings` makes of the document of some settings. -/
theorem receive_encode (cfg : AppConfig) :
    (∃ response, receive (.ok (appCodec.encode cfg)) = { masked := false, pc := .responded response }) ∨
      (token cfg = mask ∧ receive (.ok (appCodec.encode cfg)) = { masked := true, pc := .readToken cfg }) ∨
        (token cfg ≠ mask ∧ receive (.ok (appCodec.encode cfg)) = { masked := false, pc := .update cfg }) := by
  rcases receive_cases (.ok (appCodec.encode cfg)) with
    hresponded | ⟨document, read, hdocument, hdecode, hread⟩
  · exact Or.inl hresponded
  · cases hdocument
    -- What is decoded without an error is in range, so it is what was encoded.
    have hrange : cfg.InRange := app_guards {} cfg (congrArg Prod.snd hdecode)
    have hrestores : appCodec.decode {} (appCodec.encode cfg) = (cfg, none) :=
      app_restores hrange (coversRoutes_zero _)
    cases hrestores.symm.trans hdecode
    exact Or.inr hread

end Step

/-! ## The requests and their saves -/

/-- How far the request of a save can be. -/
def Carries (s : Save) : RequestPC → Prop
  | .readToken cfg => cfg = s.posted
  | .update cfg => ∃ value, cfg = withToken s.posted value
  | _ => True

theorem carries_of_isPast {s : Save} {pc : RequestPC} (h : pc.isPast = true) : Carries s pc := by
  cases pc with
  | readToken cfg => cases h
  | update cfg => cases h
  | restart => trivial
  | responded response => trivial

theorem carries_receive (s : Save) : Carries s (receive (.ok (appCodec.encode s.posted))).pc := by
  rcases receive_encode s.posted with ⟨response, hr⟩ | ⟨_, hr⟩ | ⟨_, hr⟩
  · rw [hr]
    trivial
  · rw [hr]
    exact rfl
  · rw [hr]
    exact ⟨token s.posted, rfl⟩

/-- Request `k` is that of save `k`, which was made from an answer. -/
structure Tracked (w : PagesWorld) : Prop where
  length : w.server.requests.length = w.saves.length
  read : ∀ s ∈ w.saves, s.readAt ∈ w.answers
  carries : ∀ (k : Nat) (r : SettingsRequest) (s : Save), w.server.requests[k]? = some r →
    w.saves[k]? = some s → Carries s r.pc

variable {env : ConnEnv} {initial : AppConfig} {w w' : PagesWorld} {l : PagesLabel}

/-- A request that has gone on carries what it carried. -/
theorem Tracked.setRequest (h : Tracked w) {server : SettingsWorld} {k : Nat} {r : SettingsRequest}
    {pc : RequestPC} (hrequests : server.requests = (w.server.setRequest k r pc).requests)
    (hcarries : ∀ s, w.saves[k]? = some s → Carries s pc) : Tracked { w with server := server } where
  length := by
    rw [hrequests]
    simpa [SettingsWorld.setRequest] using h.length
  read := h.read
  carries := by
    intro j u s hu hs
    rw [hrequests] at hu
    rcases SettingsWorld.getElem?_setRequest hu with ⟨rfl, rfl⟩ | ⟨_, hold⟩
    · exact hcarries s hs
    · exact h.carries j u s hold hs

theorem Tracked.step (h : Tracked w) (hstep : w.step env l = some w') : Tracked w' := by
  cases moves_of_pagesStep hstep with
  | load => exact ⟨h.length, fun s hs => List.mem_append_left _ (h.read s hs), h.carries⟩
  | @save i s hi =>
      refine ⟨?_, ?_, ?_⟩
      · simpa using h.length
      · intro s' hs'
        rcases List.mem_append.1 hs' with hold | hnew
        · exact h.read s' hold
        · rw [List.mem_singleton.1 hnew]
          exact List.mem_of_getElem? hi
      · intro j u s' hu hs'
        by_cases hj : j < w.saves.length
        · rw [List.getElem?_append_left hj] at hs'
          rw [List.getElem?_append_left (h.length ▸ hj)] at hu
          exact h.carries j u s' hu hs'
        · -- The save and its request are the last ones.
          have hbound := (List.getElem?_eq_some_iff.1 hs').1
          have hlast : j = w.saves.length := by
            rw [List.length_append, List.length_singleton] at hbound
            omega
          subst hlast
          rw [List.getElem?_concat_length] at hs'
          rw [← h.length, List.getElem?_concat_length] at hu
          cases hs'
          cases hu
          exact carries_receive s
  | @readToken k outcome r cfg hr hpc =>
      refine h.setRequest rfl fun s hs => ?_
      have hcarries := h.carries k r s hr hs
      rw [hpc] at hcarries
      exact ⟨token w.stored, congrArg (withToken · (token w.stored)) hcarries⟩
  | update _ _ hpast _ hrequests => exact h.setRequest hrequests fun s _ => carries_of_isPast hpast
  | answer _ hpast _ hrequests => exact h.setRequest hrequests fun s _ => carries_of_isPast hpast
  | idle _ hrequests =>
      refine ⟨?_, h.read, ?_⟩
      · rw [hrequests]
        exact h.length
      · intro j u s hu hs
        rw [hrequests] at hu
        exact h.carries j u s hu hs

/-- The save of a request. -/
theorem Tracked.save_of_request (h : Tracked w) {k : Nat} {r : SettingsRequest}
    (hr : w.server.requests[k]? = some r) : ∃ s, w.saves[k]? = some s := by
  have hk := (List.getElem?_eq_some_iff.1 hr).1
  exact ⟨_, List.getElem?_eq_getElem (h.length ▸ hk)⟩

/-! ## Sections in every run -/

namespace Section

variable {α : Type} (σ : Section env α)

/-- The section that a request stores is the one that was posted. -/
theorem get_of_carries {s : Save} {cfg : AppConfig} (h : Carries s (.update cfg)) :
    σ.get cfg = σ.get s.posted := by
  obtain ⟨value, rfl⟩ := h
  exact σ.get_withToken s.posted value

/-- The section, as it is stored and as it was answered, is one that was chosen. -/
structure Kept (initial : AppConfig) (w : PagesWorld) : Prop where
  stored : σ.Chosen initial w.saves (σ.get w.stored)
  answers : ∀ cfg ∈ w.answers, σ.Chosen initial w.saves (σ.get cfg)

theorem Kept.boot (store : ConfigStore) (now : Time) : σ.Kept store.get (PagesWorld.boot store now) where
  stored := Or.inl rfl
  answers := by simp [PagesWorld.boot]

variable {σ}

theorem Kept.posted (h : σ.Kept initial w) (htracked : Tracked w) {s : Save} (hs : s ∈ w.saves) :
    σ.Chosen initial w.saves (σ.norm (σ.get s.posted)) := by
  cases hown : σ.own s.edit with
  | true => exact Or.inr (Or.inr ⟨s, hs, hown, rfl⟩)
  | false =>
      rw [get_posted hown]
      exact (h.answers _ (htracked.read s hs)).norm

theorem Kept.step (h : σ.Kept initial w) (htracked : Tracked w) (hstep : w.step env l = some w') :
    σ.Kept initial w' := by
  cases moves_of_pagesStep hstep with
  | load =>
      refine ⟨h.stored, fun cfg hcfg => ?_⟩
      rcases List.mem_append.1 hcfg with hold | hnew
      · exact h.answers cfg hold
      · rw [List.mem_singleton.1 hnew]
        exact h.stored
  | save _ => exact ⟨h.stored.append, fun cfg hcfg => (h.answers cfg hcfg).append⟩
  | readToken _ _ => exact ⟨h.stored, h.answers⟩
  | @update k outcome r cfg server pc hr hpc _ hstore _ =>
      refine ⟨?_, h.answers⟩
      obtain ⟨s, hs⟩ := htracked.save_of_request hr
      have hcarries := htracked.carries k r s hr hs
      rw [hpc] at hcarries
      show σ.Chosen initial w.saves (σ.get server.store.get)
      rw [hstore, σ.get_defaults, σ.get_of_carries hcarries]
      exact h.posted htracked (List.mem_of_getElem? hs)
  | answer _ _ hstore _ => exact ⟨(congrArg σ.get hstore) ▸ h.stored, h.answers⟩
  | idle hstore _ => exact ⟨(congrArg σ.get hstore) ▸ h.stored, h.answers⟩

/-- The request of another page's save leaves the section as it is, or puts back what its page has read. -/
theorem other_step (htracked : Tracked w) {k : Nat} {s : Save} {outcome : WriteOutcome}
    (hs : w.saves[k]? = some s) (hown : σ.own s.edit = false)
    (hstep : w.step env (.server (.serve k outcome)) = some w') :
    σ.get w'.stored = σ.get w.stored ∨ σ.get w'.stored = σ.norm (σ.get s.readAt) := by
  cases moves_of_pagesStep hstep with
  | readToken _ _ => exact Or.inl rfl
  | @update k outcome r cfg server pc hr hpc _ hstore _ =>
      have hcarries := htracked.carries k r s hr hs
      rw [hpc] at hcarries
      refine Or.inr ?_
      show σ.get server.store.get = _
      rw [hstore, σ.get_defaults, σ.get_of_carries hcarries, get_posted hown]
  | answer _ _ hstore _ => exact Or.inl (congrArg σ.get hstore)
  | idle hstore _ => exact Or.inl (congrArg σ.get hstore)

end Section

/-! ## The token in every run -/

/-- Somebody has entered this token, or it was there at the start. -/
def Entered (initial : AppConfig) (saves : List Save) (value : String) : Prop :=
  value = token initial ∨
    ∃ s ∈ saves, ∃ form, s.edit = .alerts form ∧ form.botToken ≠ mask ∧ value = form.botToken

theorem Entered.append {saves : List Save} {value : String} (h : Entered initial saves value)
    (more : List Save) : Entered initial (saves ++ more) value := by
  rcases h with hinitial | ⟨s, hs, hform⟩
  · exact Or.inl hinitial
  · exact Or.inr ⟨s, List.mem_append_left _ hs, hform⟩

/-- A token that is posted and not the mask was entered, or there was none when the page read the settings. -/
theorem entered_posted {saves : List Save} {s : Save} (hmask : token s.posted ≠ mask) (hs : s ∈ saves)
    (hread : Entered initial saves (token s.readAt)) : Entered initial saves (token s.posted) := by
  obtain ⟨readAt, edit⟩ := s
  cases edit with
  | alerts form => exact Or.inr ⟨_, hs, form, rfl, hmask, rfl⟩
  | schedule form =>
      have hsame : masked readAt = readAt := masked_of_token_ne readAt hmask
      have htoken : token (masked readAt) = token readAt := congrArg token hsame
      exact htoken ▸ hread
  | profiles form =>
      have hsame : masked readAt = readAt := masked_of_token_ne readAt hmask
      have htoken : token (masked readAt) = token readAt := congrArg token hsame
      exact htoken ▸ hread

structure TokensEntered (initial : AppConfig) (w : PagesWorld) : Prop where
  stored : Entered initial w.saves (token w.stored)
  answers : ∀ cfg ∈ w.answers, Entered initial w.saves (token cfg)
  requests : ∀ r ∈ w.server.requests, ∀ cfg, r.pc = .update cfg → Entered initial w.saves (token cfg)

/-- Requests of which one has gone on. -/
theorem TokensEntered.setRequest (h : TokensEntered initial w) {server : SettingsWorld} {k : Nat}
    {r : SettingsRequest} {pc : RequestPC} (hrequests : server.requests = (w.server.setRequest k r pc).requests)
    (hstored : Entered initial w.saves (token server.store.get))
    (hpc : ∀ cfg, pc = .update cfg → Entered initial w.saves (token cfg)) :
    TokensEntered initial { w with server := server } where
  stored := hstored
  answers := h.answers
  requests := by
    intro u hu cfg hcfg
    rw [hrequests] at hu
    rcases List.mem_or_eq_of_mem_set hu with hold | rfl
    · exact h.requests u hold cfg hcfg
    · exact hpc cfg hcfg

theorem TokensEntered.step (h : TokensEntered initial w) (hstep : w.step env l = some w') :
    TokensEntered initial w' := by
  cases moves_of_pagesStep hstep with
  | load =>
      refine ⟨h.stored, fun cfg hcfg => ?_, h.requests⟩
      rcases List.mem_append.1 hcfg with hold | hnew
      · exact h.answers cfg hold
      · rw [List.mem_singleton.1 hnew]
        exact h.stored
  | @save i s hi =>
      refine ⟨h.stored.append _, fun cfg hcfg => (h.answers cfg hcfg).append _, fun r hr cfg hcfg => ?_⟩
      rcases List.mem_append.1 hr with hold | hnew
      · exact (h.requests r hold cfg hcfg).append _
      · -- A request goes on to the update at once if its token is not the mask.
        rw [List.mem_singleton.1 hnew] at hcfg
        rcases receive_encode s.posted with ⟨response, hreceive⟩ | ⟨_, hreceive⟩ | ⟨hmask, hreceive⟩
        · rw [hreceive] at hcfg
          cases hcfg
        · rw [hreceive] at hcfg
          cases hcfg
        · rw [hreceive] at hcfg
          cases hcfg
          have hread := h.answers _ (List.mem_of_getElem? hi)
          exact entered_posted hmask (List.mem_append_right _ (List.mem_singleton.2 rfl)) (hread.append _)
  | readToken hr _ =>
      refine h.setRequest rfl h.stored fun cfg hcfg => ?_
      cases hcfg
      exact h.stored
  | @update k outcome r cfg server pc hr hpc hpast hstore hrequests =>
      refine h.setRequest hrequests ?_ fun cfg' hcfg' => ?_
      · rw [hstore]
        exact h.requests r (List.mem_of_getElem? hr) cfg hpc
      · rw [hcfg'] at hpast
        cases hpast
  | answer _ hpast hstore hrequests =>
      refine h.setRequest hrequests ((congrArg token hstore) ▸ h.stored) fun cfg hcfg => ?_
      rw [hcfg] at hpast
      cases hpast
  | idle hstore hrequests =>
      exact ⟨(congrArg token hstore) ▸ h.stored, h.answers, hrequests ▸ h.requests⟩

/-! ## Every run -/

/-- What the settings are after some loads and saves, in whatever order their requests take their steps. -/
structure PagesKeep (env : ConnEnv) (initial : AppConfig) (w : PagesWorld) : Prop where
  schedule : (scheduleSection env).Chosen initial w.saves w.stored.backup
  alerts : (alertsSection env).Chosen initial w.saves (withToken w.stored "").alerts
  connections : (connectionsSection env).Chosen initial w.saves w.stored.connections
  token : Entered initial w.saves (token w.stored)
  /-- A save changes a section of another page to what its own page has read of it, if at all. -/
  others : ∀ {α : Type} (σ : Section env α) (k : Nat) (s : Save) (outcome : WriteOutcome) (w' : PagesWorld),
    w.saves[k]? = some s → σ.own s.edit = false → w.step env (.server (.serve k outcome)) = some w' →
      σ.get w'.stored = σ.get w.stored ∨ σ.get w'.stored = σ.norm (σ.get s.readAt)
  /-- So it leaves alone what has not changed since. -/
  fresh : ∀ {α : Type} (σ : Section env α) (k : Nat) (s : Save) (outcome : WriteOutcome) (w' : PagesWorld),
    w.saves[k]? = some s → σ.own s.edit = false → w.step env (.server (.serve k outcome)) = some w' →
      Completed env w.stored → σ.get s.readAt = σ.get w.stored → σ.get w'.stored = σ.get w.stored

theorem tracked_boot (store : ConfigStore) (now : Time) : Tracked (PagesWorld.boot store now) where
  length := rfl
  read := by simp [PagesWorld.boot]
  carries := by simp [PagesWorld.boot, SettingsWorld.boot]

/-- Pages that save at the same time can bring back an older section, but never mix two or make one up. -/
theorem pages_keep (env : ConnEnv) (store : ConfigStore) (now : Time)
    (h : Reach (PagesWorld.step env) (PagesWorld.boot store now) w) : PagesKeep env store.get w := by
  have hsections {α : Type} (σ : Section env α) : Tracked w ∧ σ.Kept store.get w :=
    h.invariant (I := fun w => Tracked w ∧ σ.Kept store.get w)
      (fun _ _ _ hI _ hstep => ⟨hI.1.step hstep, hI.2.step hI.1 hstep⟩)
      ⟨tracked_boot store now, Section.Kept.boot σ store now⟩
  have htracked : Tracked w := (hsections (scheduleSection env)).1
  have htokens : TokensEntered store.get w := by
    refine h.invariant (fun _ _ _ hI _ hstep => hI.step hstep) ⟨Or.inl rfl, ?_, ?_⟩
    · simp [PagesWorld.boot]
    · simp [PagesWorld.boot, SettingsWorld.boot]
  refine ⟨(hsections _).2.stored, (hsections (alertsSection env)).2.stored,
    (hsections _).2.stored, htokens.stored,
    fun σ k s outcome w' hs hown hstep => σ.other_step htracked hs hown hstep, ?_⟩
  intro α σ k s outcome w' hs hown hstep hcompleted hfresh
  rcases σ.other_step htracked hs hown hstep with hsame | hback
  · exact hsame
  · calc σ.get w'.stored = σ.norm (σ.get w.stored) := by rw [hback, hfresh]
      _ = σ.get (env.applyConnectionDefaultsLocked w.stored) := (σ.get_defaults _).symm
      _ = σ.get w.stored := by rw [hcompleted]

/-- Two pages read the settings, then the one with the alerts saves and the one with the schedule after it. -/
def staleSave : List PagesLabel :=
  [.load, .load, .save 0 (.alerts { enabled := true, botToken := "1:a" }), .server (.serve 0 .written),
    .save 1 (.schedule { fullHour := some 4 }), .server (.serve 1 .written)]

/-- Settings that nobody has filled in. -/
def blankStore : ConfigStore where
  config := {}
  file := .error "no such file"

theorem pages_keep_stale :
    ∃ (w : PagesWorld) (s : Save), s ∈ w.saves ∧ s.edit.isSchedule = true ∧
      w.stored.backup = s.posted.backup ∧ w.stored.alerts.enabled = false := by
  have hend : (run (PagesWorld.step {}) (PagesWorld.boot blankStore 0) staleSave).any
      (fun w => decide (w.stored.backup.fullHour = 4) && !w.stored.alerts.enabled) = true := by
    decide +kernel
  obtain ⟨w, hreach, htest⟩ := exists_reach_of_run hend
  obtain ⟨hbackup, halerts⟩ := Bool.and_eq_true_iff.1 htest
  have hhour := of_decide_eq_true hbackup
  -- The hour is not the one of the start, so a schedule page has saved it.
  rcases (pages_keep {} blankStore 0 hreach).schedule with hinitial | hinitial | ⟨s, hs, hown, hposted⟩
  · rw [hinitial] at hhour
    exact absurd hhour (by decide)
  · rw [hinitial] at hhour
    exact absurd hhour (by decide)
  · exact ⟨w, s, hs, hown, hposted, by simpa using halerts⟩

end Web
end Pgaio
