import Pgaio.Go.Strings
import Pgaio.Model.Types
import Pgaio.Postgres.Statements
import Pgaio.Service.ConnectionPlan
import Pgaio.Service.PgBouncerConfig

/-!
# AlterSystem — settings written into statements

`SetConfig` of `handler/config.go` and `Apply` of `handler/tuner.go`.  Both put the value of a setting
between quotes as it is.  `alter_system_iff` says for which values PostgreSQL reads the statement that was
meant.  `apply_pgBouncer_iff` says when the settings for PgBouncer take effect that `Apply` reports.
-/

namespace Pgaio
namespace Handler

open Go Model Postgres.SQL Service

/-- What the database answers to a statement, after those that were sent before: `none` is success. -/
abbrev Exec := List String → String → Option String

/-! ## config.go -/

def setConfigSQL (name value : String) : String :=
  "ALTER SYSTEM SET " ++ name ++ " = '" ++ value ++ "'"

def reloadSQL : String := "SELECT pg_reload_conf()"

/-- `SetConfig`, with the statements that it sends. -/
def setConfig (exec : Exec) (name value : String) : List String × Response String :=
  if name = "" ∨ value = "" then ([], .failure statusBadRequest "name and value required")
  else
    let sql := setConfigSQL name value
    match exec [] sql with
    | some err => ([sql], .failure statusInternalServerError err)
    | none =>
        match exec [sql] reloadSQL with
        | some err =>
            ([sql, reloadSQL],
              .failure statusInternalServerError ("setting changed but reload failed: " ++ err))
        | none => ([sql, reloadSQL], .success statusOK "configuration updated")

/-! ## tuner.go -/

structure ApplySetting where
  name : String
  value : String
  deriving DecidableEq, Repr

structure ApplyRequest where
  postgresSettings : List ApplySetting
  pgBouncerSettings : Option PgBouncerConnectionConfig
  deriving DecidableEq, Repr

structure ApplyResult where
  applied : List String := []
  failed : List String := []
  needRestart : Bool := false
  message : String := ""
  deriving DecidableEq, Repr

def restartParams : List String :=
  ["shared_buffers", "max_connections", "huge_pages", "max_worker_processes", "wal_buffers"]

def applySQL (s : ApplySetting) : String :=
  "ALTER SYSTEM SET " ++ s.name ++ " = '" ++ s.value ++ "'"

/-- One turn of the loop over the settings. -/
def applySetting (exec : Exec) (st : List String × ApplyResult) (s : ApplySetting) :
    List String × ApplyResult :=
  let sent := st.1 ++ [applySQL s]
  match exec st.1 (applySQL s) with
  | some err => (sent, { st.2 with failed := st.2.failed ++ [s.name ++ ": " ++ err] })
  | none =>
      (sent,
        { st.2 with
          applied := st.2.applied ++ [s.name]
          needRestart := st.2.needRestart || restartParams.contains s.name })

def pgBouncerUpdate (cfg : PgBouncerConnectionConfig) : List (String × String) :=
  [("max_client_conn", itoa cfg.maxClientConn), ("default_pool_size", itoa cfg.defaultPoolSize),
    ("min_pool_size", itoa cfg.minPoolSize), ("reserve_pool_size", itoa cfg.reservePoolSize),
    ("max_db_connections", itoa cfg.maxDbConnections)]

def applyMessage (result : ApplyResult) : String :=
  if result.needRestart then
    itoa result.applied.length ++
      " settings applied. PostgreSQL RESTART required for some changes to take effect."
  else itoa result.applied.length ++ " settings applied and reloaded successfully."

/-- `Apply`, with the statements that it sends; `updateConfig` is the service for PgBouncer, if there is
one. -/
def apply (exec : Exec) (updateConfig : Option (List (String × String) → Option String))
    (req : ApplyRequest) : List String × ApplyResult :=
  let st := req.postgresSettings.foldl (applySetting exec) ([], {})
  let sent := if st.2.applied = [] then st.1 else st.1 ++ [reloadSQL]
  let result :=
    match req.pgBouncerSettings, updateConfig with
    | some cfg, some update =>
        match update (pgBouncerUpdate cfg) with
        | some err => { st.2 with failed := st.2.failed ++ ["pgbouncer config: " ++ err] }
        | none => { st.2 with applied := st.2.applied ++ ["pgbouncer_config"] }
    | _, _ => st.2
  (sent, { result with message := applyMessage result })

/-! ## The statements that are sent -/

theorem foldl_applySetting (exec : Exec) (settings : List ApplySetting) (st : List String × ApplyResult) :
    (settings.foldl (applySetting exec) st).1 = st.1 ++ settings.map applySQL := by
  induction settings generalizing st with
  | nil => simp
  | cons s settings ih =>
      have hstep : (applySetting exec st s).1 = st.1 ++ [applySQL s] := by
        unfold applySetting
        split <;> rfl
      rw [List.foldl_cons, ih, hstep, List.append_assoc]
      rfl

/-- A statement for each setting, in their order. -/
theorem sent_apply (exec : Exec) (updateConfig : Option (List (String × String) → Option String))
    (req : ApplyRequest) {i : Nat} {s : ApplySetting} (hi : req.postgresSettings[i]? = some s) :
    (apply exec updateConfig req).1[i]? = some (applySQL s) := by
  have hsent : (req.postgresSettings.map applySQL)[i]? = some (applySQL s) := by
    rw [List.getElem?_map, hi, Option.map_some]
  have hlt : i < (req.postgresSettings.map applySQL).length := (List.getElem?_eq_some_iff.1 hsent).1
  simp only [apply, foldl_applySetting, List.nil_append]
  split
  · exact hsent
  · rw [List.getElem?_append_left hlt, hsent]

theorem sent_setConfig {exec : Exec} {name value sql : String}
    (h : (setConfig exec name value).1.head? = some sql) : sql = setConfigSQL name value := by
  unfold setConfig at h
  split at h
  · cases h
  · dsimp only at h
    split at h
    · exact (Option.some.inj h).symm
    · split at h <;> exact (Option.some.inj h).symm

/-! ## What PostgreSQL reads -/

/-- The statement sets this name to this value and does nothing else. -/
def Alters (sql name value : String) : Prop :=
  statements sql.toList =
    some [[.word "alter".toList, .word "system".toList, .word "set".toList,
      .word (name.toList.map Char.toLower), .symbol ['='], .literal .plain value.toList]]

instance (sql name value : String) : Decidable (Alters sql name value) :=
  inferInstanceAs (Decidable (_ = _))

/-- The tokens before the value. -/
def alterHead (name : String) : List Token :=
  [.word "alter".toList, .word "system".toList, .word "set".toList,
    .word (name.toList.map Char.toLower), .symbol ['=']]

theorem lex_setConfigSQL {name : String} (hname : isName name.toList = true) (value : String) :
    lex (setConfigSQL name value).toList =
      (lex ('\'' :: (value.toList ++ ['\'']))).map (alterHead name ++ ·) := by
  have htext : (setConfigSQL name value).toList =
      ["ALTER".toList, "SYSTEM".toList, "SET".toList, name.toList].flatMap (· ++ [' ']) ++
        ('=' :: ' ' :: '\'' :: (value.toList ++ ['\''])) := by
    unfold setConfigSQL
    simp
  have hnames : (["ALTER".toList, "SYSTEM".toList, "SET".toList, name.toList].all isName) = true := by
    simp only [List.all_cons, hname]
    rfl
  have hequals (text : List Char) : lex ('=' :: ' ' :: text) = (lex text).map (.symbol ['='] :: ·) := by
    have hmunch : munch .nothing ('=' :: ' ' :: text) = some (.token (.symbol ['=']), ' ' :: text) :=
      munch_operator (by decide) (by decide) text
    rw [← List.singleton_append, lex_token (List.cons_ne_nil _ _) hmunch, lex_blank (by decide)]
  rw [htext, lex_words hnames, hequals, Option.map_map]
  rfl

theorem alters_iff {name : String} (hname : isName name.toList = true) (value : String) :
    Alters (setConfigSQL name value) name value ↔ '\'' ∉ value.toList := by
  have hsemi (body : List Char) : semicolon ∉ alterHead name ++ [.literal .plain body] := by
    simp [alterHead, semicolon]
  unfold Alters statements
  rw [lex_setConfigSQL hname, Option.map_map]
  constructor
  · intro h
    obtain ⟨ts, hts, hstatement⟩ := Option.map_eq_some_iff.1 h
    obtain ⟨body, others, rfl⟩ := eq_literal_of_lex_quote hts
    rw [Function.comp_apply, List.append_cons] at hstatement
    obtain ⟨tail, htail⟩ := prefix_of_splitStatements hstatement (hsemi body)
      (List.append_ne_nil_of_right_ne_nil _ (List.cons_ne_nil _ _))
    have hbody : body = value.toList := by
      simp [alterHead] at htail
      exact htail.1
    exact notMem_of_lex_literal (hbody ▸ hts)
  · intro hvalue
    rw [lex_literal hvalue, Option.map_some]
    exact congrArg some (splitStatements_of_notMem (hsemi value.toList) (List.cons_ne_nil _ _))

/-- Both handlers send the statement that was meant exactly for the values without a quote. -/
theorem alter_system_iff (name value : String) (hname : isName name.toList = true) :
    ((∀ exec : Exec, ∀ sql, (setConfig exec name value).1.head? = some sql → Alters sql name value) ∧
      ∀ exec updateConfig (req : ApplyRequest) (i : Nat),
        req.postgresSettings[i]? = some ⟨name, value⟩ →
          ∃ sql, (apply exec updateConfig req).1[i]? = some sql ∧ Alters sql name value) ↔
      '\'' ∉ value.toList := by
  constructor
  · rintro ⟨-, happly⟩
    have hi : ([⟨name, value⟩] : List ApplySetting)[0]? = some ⟨name, value⟩ := rfl
    obtain ⟨sql, hsql, halters⟩ := happly (fun _ _ => none) none ⟨[⟨name, value⟩], none⟩ 0 hi
    rw [sent_apply _ _ _ hi] at hsql
    obtain rfl := Option.some.inj hsql
    exact (alters_iff hname value).1 halters
  · intro hvalue
    have halters := (alters_iff hname value).2 hvalue
    refine ⟨fun exec sql hsql => ?_, fun exec updateConfig req i hi => ?_⟩
    · rw [sent_setConfig hsql]
      exact halters
    · exact ⟨_, sent_apply exec updateConfig req hi, halters⟩

/-- A plain name and a plain value. -/
theorem alter_system_iff_workMem :
    ((∀ exec : Exec, ∀ sql, (setConfig exec "work_mem" "64MB").1.head? = some sql →
        Alters sql "work_mem" "64MB") ∧
      ∀ exec updateConfig (req : ApplyRequest) (i : Nat),
        req.postgresSettings[i]? = some ⟨"work_mem", "64MB"⟩ →
          ∃ sql, (apply exec updateConfig req).1[i]? = some sql ∧ Alters sql "work_mem" "64MB") ↔
      '\'' ∉ "64MB".toList :=
  alter_system_iff "work_mem" "64MB" (by decide)

/-- The shell command that archives a segment quotes its file name. -/
def archiveCommand : String := "cp %p '/archive/%f'"

/-- Its quotes end the literal. -/
theorem archive_command_cut :
    ¬ ∀ name value : String, isName name.toList = true → '\x00' ∉ value.toList →
      ((∀ exec : Exec, ∀ sql, (setConfig exec name value).1.head? = some sql → Alters sql name value) ∧
        ∀ exec updateConfig (req : ApplyRequest) (i : Nat),
          req.postgresSettings[i]? = some ⟨name, value⟩ →
            ∃ sql, (apply exec updateConfig req).1[i]? = some sql ∧ Alters sql name value) := by
  intro hall
  obtain ⟨hset, -⟩ := hall "archive_command" archiveCommand (by decide) (by decide)
  have halters := hset (fun _ _ => none) (setConfigSQL "archive_command" archiveCommand) (by decide)
  exact absurd halters (by decide)

/-! ## The settings for PgBouncer -/

/-- The service for PgBouncer, with the map that `Apply` builds. -/
def pgBouncerService (place : ConfigPlace) (settings : List (String × String)) : Option String :=
  (updateConfig place (GoMap.ofEntries settings)).err

theorem trimSpace_pgBouncerUpdate {cfg : PgBouncerConnectionConfig} {setting : String × String}
    (h : setting ∈ pgBouncerUpdate cfg) : trimSpace setting.2 = setting.2 := by
  simp only [pgBouncerUpdate, List.mem_cons, List.not_mem_nil, or_false] at h
  rcases h with rfl | rfl | rfl | rfl | rfl <;> exact trimSpace_itoa _

theorem lookup_pgBouncerUpdate {cfg : PgBouncerConnectionConfig} {setting : String × String}
    (h : setting ∈ pgBouncerUpdate cfg) :
    (GoMap.ofEntries (pgBouncerUpdate cfg)).lookup setting.1 = some setting.2 := by
  have hkeys : ((pgBouncerUpdate cfg).map Prod.fst).Nodup := by
    rw [show (pgBouncerUpdate cfg).map Prod.fst = ["max_client_conn", "default_pool_size",
      "min_pool_size", "reserve_pool_size", "max_db_connections"] from rfl]
    decide
  refine GoMap.lookup_eq_of_mem h fun value hvalue => ?_
  exact congrArg Prod.snd (List.inj_on_of_nodup_map hkeys hvalue h rfl)

theorem noNewlines_pgBouncerUpdate (cfg : PgBouncerConnectionConfig) :
    NoNewlines (GoMap.ofEntries (pgBouncerUpdate cfg)) := by
  intro key value hlookup hmem
  have hsetting := GoMap.mem_entries_of_lookup hlookup
  have hnumber : ∃ n : Int, value = itoa n := by
    simp only [pgBouncerUpdate, List.mem_cons, Prod.mk.injEq, List.not_mem_nil, or_false] at hsetting
    rcases hsetting with ⟨-, rfl⟩ | ⟨-, rfl⟩ | ⟨-, rfl⟩ | ⟨-, rfl⟩ | ⟨-, rfl⟩ <;> exact ⟨_, rfl⟩
  obtain ⟨n, rfl⟩ := hnumber
  rcases isDigit_or_hyphen_of_mem_itoa hmem with hdigit | heq
  · exact absurd hdigit (by decide)
  · exact absurd heq (by decide)

/-- `Apply` lists `pgbouncer_config` among what was applied, also when the file has no line for some of the
five keys.  Its settings hold afterwards exactly if the file had them all. -/
theorem apply_pgBouncer_iff {exec : Exec} {place : ConfigPlace} {req : ApplyRequest}
    {cfg : PgBouncerConnectionConfig} {data : String} (hcfg : req.pgBouncerSettings = some cfg)
    (hread : place.readFile = .ok data) (hwrite : ∀ text, place.writeFile text = none)
    (hreload : place.reload = none) :
    (apply exec (some (pgBouncerService place)) req).2.applied.getLast? = some "pgbouncer_config" ∧
      ((∀ setting ∈ pgBouncerUpdate cfg,
          Sets (rewrittenConfig (GoMap.ofEntries (pgBouncerUpdate cfg)) data) setting.1 setting.2) ↔
        ∀ setting ∈ pgBouncerUpdate cfg, ∃ old, (setting.1, old) ∈ readConfig data) := by
  have hnone : pgBouncerService place (pgBouncerUpdate cfg) = none := by
    rw [pgBouncerService, updateConfig_of_ok hread (hwrite _) hreload]
  constructor
  · simp only [apply, hcfg, hnone, List.getLast?_concat]
  · refine forall₂_congr fun setting hsetting => ?_
    rw [sets_rewrittenConfig_iff (noNewlines_pgBouncerUpdate cfg) (lookup_pgBouncerUpdate hsetting)]
    exact and_iff_left (trimSpace_pgBouncerUpdate hsetting)

end Handler
end Pgaio
