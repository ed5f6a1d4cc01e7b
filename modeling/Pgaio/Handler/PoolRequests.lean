import Pgaio.Database.Rows
import Pgaio.Handler.Repack
import Pgaio.Service.PoolManager

/-!
# PoolRequests — on which database does a request run its statements?

The handlers that obtain their pool through a `getPool` helper.  When `GetPoolForProfile` fails,
these helpers fall back to the default pool without a word, while the other handlers answer the
error.  `acts_on_named_iff` says, for every such handler, exactly when a request that succeeds has run
its statements on the database that it names.
-/

namespace Pgaio
namespace Handler

open Go Model Service Database

/-! ## Pools and answers -/

/-- Where the statements of a connection go. -/
structure Target where
  host : String
  port : Int
  database : String
  deriving DecidableEq, Repr

def targetOf (conn : ConnConfig) : Target :=
  { host := conn.host
    port := conn.port
    database := conn.database }

/-- The columns of a row; `none` is NULL. -/
abbrev Values := List (Option String)

/-- A connection pool with what its server answers. -/
structure TargetPool where
  target : Target
  /-- `pool.Query`, with rows that `Scan` accepts or not. -/
  query : String → Except String (RowStream Values)
  exec : String → Except String Unit
  /-- `QueryRow(…).Scan(&exists)`; a failure leaves `false`. -/
  queryBool : String → Bool

/-- A record of an answer: its JSON fields with their values. -/
abbrev Fields := List (String × Option String)

inductive PoolData where
  | text (s : String)
  | slowQueries (available : Bool) (message : Option String) (queries : List Fields)
  | records (rows : List Fields)
  /-- Sections whose query failed are left out. -/
  | advice (missing unused duplicates : Option (List Fields))
  | schema (tables columns : List Fields) (functions : List (Option String))

/-- An answer together with the statements that were run for it, and where. -/
structure Served where
  response : Response PoolData
  statements : List (Target × String)

def TargetPool.ran (pool : TargetPool) (texts : List String) : List (Target × String) :=
  texts.map fun text => (pool.target, text)

/-- The records that a loop over the rows collects. -/
def recordsOf (names : List String) (stream : RowStream Values) : List Fields :=
  stream.readable.map names.zip

/-! ## Handlers that list the rows of one query -/

/-- Query, answer the error if there is one, and otherwise the rows. -/
def listRows (text : String) (record : Values → Fields) (pool : TargetPool) : Served :=
  match pool.query text with
  | .error err =>
      { response := .failure statusInternalServerError err
        statements := pool.ran [text] }
  | .ok stream =>
      { response := .success statusOK (.records (stream.readable.map record))
        statements := pool.ran [text] }

def vacuumStatsText : String :=
  "
\t\tSELECT schemaname, relname, n_live_tup, n_dead_tup,
\t\t       CASE WHEN n_live_tup > 0 THEN round(n_dead_tup::numeric / n_live_tup * 100, 1) ELSE 0 END as dead_pct,
\t\t       last_vacuum, last_autovacuum, last_analyze, last_autoanalyze,
\t\t       vacuum_count, autovacuum_count
\t\tFROM pg_stat_user_tables
\t\tORDER BY n_dead_tup DESC
\t"

def getVacuumStats : TargetPool → Served :=
  listRows vacuumStatsText
    ["schema", "table", "liveTuples", "deadTuples", "deadPct", "lastVacuum", "lastAutovacuum",
      "lastAnalyze", "lastAutoanalyze", "vacuumCount", "autovacuumCount"].zip

def bloatStatsText : String :=
  "
\t\tSELECT
\t\t\tschemaname, relname,
\t\t\tpg_size_pretty(pg_total_relation_size(quote_ident(schemaname)||'.'||quote_ident(relname))) as total_size,
\t\t\tpg_total_relation_size(quote_ident(schemaname)||'.'||quote_ident(relname)) as total_bytes,
\t\t\tCOALESCE(n_dead_tup, 0) as dead_tuples,
\t\t\tCOALESCE(n_live_tup, 0) as live_tuples,
\t\t\tCASE WHEN COALESCE(n_live_tup, 0) + COALESCE(n_dead_tup, 0) > 0
\t\t\t\tTHEN round(COALESCE(n_dead_tup, 0)::numeric / (COALESCE(n_live_tup, 0) + COALESCE(n_dead_tup, 0)) * 100, 1)
\t\t\t\tELSE 0
\t\t\tEND as bloat_pct
\t\tFROM pg_stat_user_tables
\t\tWHERE COALESCE(n_dead_tup, 0) > 0
\t\tORDER BY n_dead_tup DESC
\t\tLIMIT 50
\t"

def getBloatStats : TargetPool → Served :=
  listRows bloatStatsText
    ["schema", "table", "totalSize", "totalBytes", "deadTuples", "liveTuples", "bloatPct"].zip

def repackTablesText : String :=
  "
\t\tSELECT
\t\t\tschemaname, relname,
\t\t\tpg_size_pretty(pg_total_relation_size(quote_ident(schemaname)||'.'||quote_ident(relname))) as total_size,
\t\t\tpg_total_relation_size(quote_ident(schemaname)||'.'||quote_ident(relname)) as total_bytes,
\t\t\tCOALESCE(n_live_tup, 0) as live_tuples,
\t\t\tCOALESCE(n_dead_tup, 0) as dead_tuples,
\t\t\tCASE WHEN COALESCE(n_live_tup, 0) + COALESCE(n_dead_tup, 0) > 0
\t\t\t\tTHEN round(COALESCE(n_dead_tup, 0)::numeric / (COALESCE(n_live_tup, 0) + COALESCE(n_dead_tup, 0)) * 100, 1)
\t\t\t\tELSE 0
\t\t\tEND as bloat_pct,
\t\t\tlast_vacuum, last_autovacuum
\t\tFROM pg_stat_user_tables
\t\tORDER BY n_dead_tup DESC
\t\tLIMIT 100
\t"

def getTables : TargetPool → Served :=
  listRows repackTablesText
    ["schema", "table", "totalSize", "totalBytes", "liveTuples", "deadTuples", "bloatPct",
      "lastVacuum", "lastAutovacuum"].zip

def extensionsText : String :=
  "
\t\tSELECT a.name, a.default_version, a.comment,
\t\t       e.extversion as installed_version
\t\tFROM pg_available_extensions a
\t\tLEFT JOIN pg_extension e ON e.extname = a.name
\t\tORDER BY a.name
\t"

/-- An extension is installed when it has an installed version. -/
def extensionRecord (values : Values) : Fields :=
  ["name", "defaultVersion", "comment", "installedVersion"].zip values ++
    [("installed", some (if (values[3]?).join = none then "false" else "true"))]

def listExtensions : TargetPool → Served :=
  listRows extensionsText extensionRecord

/-! ## Handlers that do more -/

def extensionCheckText : String :=
  "SELECT EXISTS(SELECT 1 FROM pg_extension WHERE extname='pg_stat_statements')"

def slowQueriesText : String :=
  "
\t\tSELECT query, calls, round(mean_exec_time::numeric, 2) as mean_ms,
\t\t       round(total_exec_time::numeric, 2) as total_ms, rows,
\t\t       shared_blks_hit, shared_blks_read
\t\tFROM pg_stat_statements
\t\tWHERE query NOT LIKE '%pg_stat_statements%'
\t\tORDER BY mean_exec_time DESC LIMIT 50
\t"

def slowQueryFields : List String :=
  ["query", "calls", "meanMs", "totalMs", "rows", "sharedBlksHit", "sharedBlksRead"]

def getSlowQueries (pool : TargetPool) : Served :=
  if pool.queryBool extensionCheckText = false then
    { response := .success statusOK (.slowQueries false
        (some "pg_stat_statements extension not installed. Install via Extensions page.") [])
      statements := pool.ran [extensionCheckText] }
  else
    match pool.query slowQueriesText with
    | .error err =>
        { response := .failure statusInternalServerError err
          statements := pool.ran [extensionCheckText, slowQueriesText] }
    | .ok stream =>
        { response := .success statusOK
            (.slowQueries true none (recordsOf slowQueryFields stream))
          statements := pool.ran [extensionCheckText, slowQueriesText] }

def resetText : String :=
  "SELECT pg_stat_statements_reset()"

def resetStats (pool : TargetPool) : Served :=
  match pool.exec resetText with
  | .error err =>
      { response := .failure statusInternalServerError err
        statements := pool.ran [resetText] }
  | .ok _ =>
      { response := .success statusOK (.text "statistics reset")
        statements := pool.ran [resetText] }

def missingIndexesText : String :=
  "
\t\tSELECT schemaname, relname, seq_scan, idx_scan,
\t\t       seq_scan - COALESCE(idx_scan, 0) as diff,
\t\t       pg_size_pretty(pg_relation_size(quote_ident(schemaname)||'.'||quote_ident(relname))) as size
\t\tFROM pg_stat_user_tables
\t\tWHERE seq_scan > COALESCE(idx_scan, 0) AND seq_scan > 100
\t\tORDER BY diff DESC LIMIT 30
\t"

def unusedIndexesText : String :=
  "
\t\tSELECT schemaname, relname, indexrelname, idx_scan,
\t\t       pg_size_pretty(pg_relation_size(indexrelid)) as size
\t\tFROM pg_stat_user_indexes
\t\tWHERE idx_scan = 0 AND schemaname NOT IN ('pg_catalog')
\t\tORDER BY pg_relation_size(indexrelid) DESC
\t\tLIMIT 30
\t"

def duplicateIndexesText : String :=
  "
\t\tSELECT array_agg(indexname)::text as indexes, tablename, indexdef
\t\tFROM pg_indexes
\t\tWHERE schemaname NOT IN ('pg_catalog','information_schema')
\t\tGROUP BY tablename, indexdef
\t\tHAVING COUNT(*) > 1
\t"

/-- A section of an answer; a failed query leaves it out. -/
def section? (pool : TargetPool) (text : String) (names : List String) : Option (List Fields) :=
  (pool.query text).toOption.map (recordsOf names)

def getIndexAdvice (pool : TargetPool) : Served where
  response := .success statusOK (.advice
    (section? pool missingIndexesText ["schema", "table", "seqScan", "idxScan", "diff", "size"])
    (section? pool unusedIndexesText ["schema", "table", "index", "scans", "size"])
    (section? pool duplicateIndexesText ["indexes", "table", "indexDef"]))
  statements := pool.ran [missingIndexesText, unusedIndexesText, duplicateIndexesText]

def tablesText : String :=
  "
\t\tSELECT table_schema, table_name
\t\tFROM information_schema.tables
\t\tWHERE table_schema NOT IN ('pg_catalog', 'information_schema')
\t\tORDER BY table_schema, table_name
\t"

def columnsText : String :=
  "
\t\tSELECT table_name, column_name, data_type
\t\tFROM information_schema.columns
\t\tWHERE table_schema NOT IN ('pg_catalog', 'information_schema')
\t\tORDER BY table_name, ordinal_position
\t\tLIMIT 2000
\t"

def functionsText : String :=
  "
\t\tSELECT p.proname
\t\tFROM pg_proc p
\t\tJOIN pg_namespace n ON p.pronamespace = n.oid
\t\tWHERE n.nspname NOT IN ('pg_catalog', 'information_schema')
\t\tORDER BY p.proname
\t\tLIMIT 500
\t"

/-- The names in the rows of a query; a failed query has none. -/
def namesOf (pool : TargetPool) (text : String) : List (Option String) :=
  match pool.query text with
  | .error _ => []
  | .ok stream => stream.readable.map fun values => values.head?.join

def getSchema (pool : TargetPool) : Served where
  response := .success statusOK (.schema
    ((section? pool tablesText ["schema", "name"]).getD [])
    ((section? pool columnsText ["table", "name", "type"]).getD [])
    (namesOf pool functionsText))
  statements := pool.ran [tablesText, columnsText, functionsText]

/-! ## Requests -/

/-- The requests whose handler obtains its pool through `getPool`, with their query parameters. -/
inductive PoolRequest where
  | slowQueries (database profile : String)
  | resetStats (database profile : String)
  | schema (database profile : String)
  | vacuumStats (database : String)
  | bloatStats (database : String)
  | repackTables (database : String)
  | indexAdvice (database : String)
  | listExtensions (database : String)
  deriving DecidableEq, Repr

namespace PoolRequest

def database : PoolRequest → String
  | .slowQueries db _ => db
  | .resetStats db _ => db
  | .schema db _ => db
  | .vacuumStats db => db
  | .bloatStats db => db
  | .repackTables db => db
  | .indexAdvice db => db
  | .listExtensions db => db

/-- `GetPool` asks for the default profile. -/
def profile : PoolRequest → String
  | .slowQueries _ p => p
  | .resetStats _ p => p
  | .schema _ p => p
  | _ => ""

def handler : PoolRequest → TargetPool → Served
  | .slowQueries _ _ => getSlowQueries
  | .resetStats _ _ => Handler.resetStats
  | .schema _ _ => getSchema
  | .vacuumStats _ => getVacuumStats
  | .bloatStats _ => getBloatStats
  | .repackTables _ => getTables
  | .indexAdvice _ => getIndexAdvice
  | .listExtensions _ => Handler.listExtensions

end PoolRequest

/-- The helper `getPool`, given what `GetPoolForProfile` answers. -/
def getPool (getPoolForProfile : String → String → Except String TargetPool)
    (defaultPool : TargetPool) (req : PoolRequest) : TargetPool :=
  match getPoolForProfile req.database req.profile with
  | .error _ => defaultPool
  | .ok pool => pool

def servePool (getPoolForProfile : String → String → Except String TargetPool)
    (defaultPool : TargetPool) (req : PoolRequest) : Served :=
  req.handler (getPool getPoolForProfile defaultPool req)

/-! ## The database that a request names -/

/-- The default profile stands for the server of the default pool; without a database a request
means that of its profile. -/
def namedTarget {D : Driver} (pm : PoolManager D) (profiles : List ConnectionProfile)
    (req : PoolRequest) : Option Target :=
  if isDefaultProfile req.profile then
    some { targetOf pm.baseConfig.connConfig with
      database :=
        if req.database = "" then pm.baseConfig.connConfig.database else req.database }
  else
    (lookupProfile profiles req.profile).map fun p =>
      { host := p.host
        port := p.port
        database := if req.database = "" then p.database else req.database }

/-- A request that succeeds has run its statements on the database that it names. -/
def ActsOnNamed (named : Option Target) (served : Served) : Prop :=
  served.response.body.success = true → ∀ s ∈ served.statements, some s.1 = named

/-- The server refuses the statement whose error the handler answers. -/
def refuses (pool : TargetPool) : PoolRequest → Bool
  | .slowQueries _ _ =>
      pool.queryBool extensionCheckText && (pool.query slowQueriesText).toOption.isNone
  | .resetStats _ _ => (pool.exec resetText).toOption.isNone
  | .vacuumStats _ => (pool.query vacuumStatsText).toOption.isNone
  | .bloatStats _ => (pool.query bloatStatsText).toOption.isNone
  | .repackTables _ => (pool.query repackTablesText).toOption.isNone
  | .listExtensions _ => (pool.query extensionsText).toOption.isNone
  -- These two leave out what could not be read and succeed all the same.
  | .schema _ _ => false
  | .indexAdvice _ => false

/-! ## What every handler does -/

/-- A handler runs statements, all of them on its pool. -/
structure RunsOn (pool : TargetPool) (served : Served) : Prop where
  on_pool : ∀ s ∈ served.statements, s.1 = pool.target
  some_statement : served.statements ≠ []

theorem runsOn_ran {pool : TargetPool} {served : Served} {text : String} {texts : List String}
    (h : served.statements = pool.ran (text :: texts)) : RunsOn pool served where
  on_pool := by
    intro s hs
    rw [h] at hs
    rcases List.mem_map.1 hs with ⟨_, _, rfl⟩
    rfl
  some_statement := by
    rw [h]
    exact List.cons_ne_nil _ _

theorem listRows_spec (text : String) (record : Values → Fields) (pool : TargetPool) :
    RunsOn pool (listRows text record pool) ∧
      ((listRows text record pool).response.body.success = true ↔
        (pool.query text).toOption.isNone = false) := by
  unfold listRows
  cases pool.query text with
  | error err => exact ⟨runsOn_ran rfl, by simp [Response.failure, Except.toOption]⟩
  | ok stream => exact ⟨runsOn_ran rfl, by simp [Response.success, Except.toOption]⟩

/-- Every handler answers a success exactly when its statement is not refused. -/
theorem handler_spec (req : PoolRequest) (pool : TargetPool) :
    RunsOn pool (req.handler pool) ∧
      ((req.handler pool).response.body.success = true ↔ refuses pool req = false) := by
  cases req with
  | slowQueries _ _ =>
      simp only [PoolRequest.handler, getSlowQueries, refuses]
      cases hcheck : pool.queryBool extensionCheckText with
      | false => exact ⟨runsOn_ran rfl, by simp [Response.success]⟩
      | true =>
          cases hquery : pool.query slowQueriesText with
          | error err => exact ⟨runsOn_ran rfl, by simp [Response.failure, Except.toOption]⟩
          | ok stream => exact ⟨runsOn_ran rfl, by simp [Response.success, Except.toOption]⟩
  | resetStats _ _ =>
      simp only [PoolRequest.handler, resetStats, refuses]
      cases hexec : pool.exec resetText with
      | error err => exact ⟨runsOn_ran rfl, by simp [Response.failure, Except.toOption]⟩
      | ok _ => exact ⟨runsOn_ran rfl, by simp [Response.success, Except.toOption]⟩
  | schema _ _ => exact ⟨runsOn_ran rfl, by simp [PoolRequest.handler, getSchema, refuses,
      Response.success]⟩
  | indexAdvice _ => exact ⟨runsOn_ran rfl, by simp [PoolRequest.handler, getIndexAdvice, refuses,
      Response.success]⟩
  | vacuumStats _ => exact listRows_spec _ _ _
  | bloatStats _ => exact listRows_spec _ _ _
  | repackTables _ => exact listRows_spec _ _ _
  | listExtensions _ => exact listRows_spec _ _ _

/-- The pool that is used, found or fallen back to, goes where the request says, or its server refuses
the statement. -/
def MeetsName (named : Option Target) (defaultPool : TargetPool) (req : PoolRequest) :
    Except String TargetPool → Prop
  | .ok pool => some pool.target = named ∨ refuses pool req = true
  | .error _ => some defaultPool.target = named ∨ refuses defaultPool req = true

theorem actsOnNamed_handler_iff (named : Option Target) (pool : TargetPool) (req : PoolRequest) :
    ActsOnNamed named (req.handler pool) ↔
      some pool.target = named ∨ refuses pool req = true := by
  rcases handler_spec req pool with ⟨hruns, hsuccess⟩
  constructor
  · intro hacts
    cases hrefuses : refuses pool req with
    | true => exact Or.inr rfl
    | false =>
        -- The request succeeds, and it has run at least one statement on its pool.
        left
        rcases List.exists_mem_of_ne_nil _ hruns.some_statement with ⟨s, hs⟩
        have hnamed := hacts (hsuccess.2 hrefuses) s hs
        rwa [hruns.on_pool s hs] at hnamed
  · rintro (hnamed | hrefuses) hsucceeds s hs
    · rw [hruns.on_pool s hs]
      exact hnamed
    · have haccepts := hsuccess.1 hsucceeds
      rw [hrefuses] at haccepts
      cases haccepts

/-- For every request, every outcome of `GetPoolForProfile` and every answer of the server. -/
theorem acts_on_named_iff {D : Driver} (pm : PoolManager D) (profiles : List ConnectionProfile)
    (getPoolForProfile : String → String → Except String TargetPool) (defaultPool : TargetPool)
    (req : PoolRequest) :
    ActsOnNamed (namedTarget pm profiles req) (servePool getPoolForProfile defaultPool req) ↔
      MeetsName (namedTarget pm profiles req) defaultPool req
        (getPoolForProfile req.database req.profile) := by
  unfold servePool getPool
  cases getPoolForProfile req.database req.profile with
  -- The error is dropped and the default pool takes its place.
  | error err => exact actsOnNamed_handler_iff _ _ _
  | ok pool => exact actsOnNamed_handler_iff _ _ _

/-! ## A concrete request -/

/-- A pool whose server accepts every statement. -/
def acceptingPool (target : Target) : TargetPool where
  target := target
  query := fun _ => .ok .finished
  exec := fun _ => .ok ()
  queryBool := fun _ => true

/-- The statistics of the database `app` are to be reset, and no pool to it can be had. -/
theorem default_pool_used :
    ¬ ∀ (getPoolForProfile : String → String → Except String TargetPool)
        (defaultPool : TargetPool) (req : PoolRequest),
      ActsOnNamed (namedTarget PoolManager.exampleManager [] req)
        (servePool getPoolForProfile defaultPool req) := by
  intro hall
  have hacts := hall (fun db _ => .error ("failed to ping database " ++ db ++ ": timeout"))
    (acceptingPool { host := "/tmp", port := 5432, database := "postgres" })
    (.resetStats "app" "") rfl _ List.mem_cons_self
  exact absurd hacts (by decide)

/-! ## A pool that has just been opened -/

/-- What `GetPoolForProfile` opens, when it can, goes where the request says. -/
theorem targetOf_poolConfigFor {D : Driver} {pm : PoolManager D}
    {profiles : List ConnectionProfile} {req : PoolRequest} {config : PoolConfig}
    (hread : ∀ p, lookupProfile profiles req.profile = some p → p.database ≠ "" ∧
      ∀ read, D.parseConfig (pm.profileText p) = .ok read →
        read.connConfig.host = p.host ∧ read.connConfig.port = p.port)
    (h : pm.poolConfigFor profiles pm.baseConfig.connConfig.database req.profile req.database =
      .ok config) :
    some (targetOf config.connConfig) = namedTarget pm profiles req := by
  unfold PoolManager.poolConfigFor at h
  unfold namedTarget
  by_cases hdefault : isDefaultProfile req.profile = true
  · rw [if_pos hdefault]
    split at h
    · -- The default pool itself: its own database is asked for, or none.
      rename_i hwants
      simp only [PoolManager.wantsDefaultPool, hdefault, Bool.true_and, Bool.or_eq_true,
        decide_eq_true_eq] at hwants
      cases h
      rcases hwants with hempty | hcurrent
      · simp [hempty, targetOf]
      · simp [hcurrent, targetOf]
    · -- Another database on the server of the default pool.
      rename_i hwants
      have hempty : req.database ≠ "" := by
        intro hempty
        simp [PoolManager.wantsDefaultPool, hdefault, hempty] at hwants
      rcases PoolManager.resolve_of_newPoolConfig h with ⟨resolved, hres, hconn⟩
      rw [PoolManager.resolve_default hdefault] at hres
      cases hres
      simp [targetOf, hconn, PoolManager.setDatabase_database, PoolManager.wantedDatabase,
        hdefault, hempty]
  · -- A named profile: the driver reads host and port back from its text.
    have hnot : isDefaultProfile req.profile = false := by simpa using hdefault
    rw [if_neg hdefault]
    have hwants : PoolManager.wantsDefaultPool pm.baseConfig.connConfig.database req.profile
        req.database = false := by simp [PoolManager.wantsDefaultPool, hnot]
    simp only [hwants, Bool.false_eq_true, if_false] at h
    rcases PoolManager.resolve_of_newPoolConfig h with ⟨resolved, hres, hconn⟩
    rcases PoolManager.profile_of_resolve hnot hres with ⟨profile, hlookup, _, hparse⟩
    rcases hread profile hlookup with ⟨hdatabase, hback⟩
    rcases hback resolved hparse with ⟨hhost, hport⟩
    have hwanted : PoolManager.wantedDatabase profiles req.profile req.database =
        if req.database = "" then profile.database else req.database := by
      by_cases hempty : req.database = ""
      · simp [PoolManager.wantedDatabase, hnot, hempty, profileDatabase, hlookup]
      · simp [PoolManager.wantedDatabase, hempty]
    have hgiven : (if req.database = "" then profile.database else req.database) ≠ "" := by
      split
      · exact hdatabase
      · assumption
    rw [targetOf, hconn, hwanted, PoolManager.setDatabase_host, PoolManager.setDatabase_port,
      PoolManager.setDatabase_database, if_neg hgiven, hlookup, hhost, hport]
    rfl

/-! ## pg_repack -/

/-- What the pool manager gives to the handler around pg_repack. -/
def repackHandler {D : Driver} (pm : PoolManager D) (profiles : List ConnectionProfile) :
    RepackHandler where
  defaultConnString := pm.defaultConnString
  connStringForDB := pm.connStringForDB profiles

/-- The arguments of pg_repack do not depend on the database that was asked for. -/
theorem repackArgs_ignores_database {D : Driver} (pm : PoolManager D)
    (profiles : List ConnectionProfile) (req : RunRequest) (database : String) :
    repackArgs (repackHandler pm profiles) { req with database := database } =
      repackArgs (repackHandler pm profiles) req := by
  have hsame : ∀ db, pm.connStringForDB profiles db = pm.defaultConnString := fun _ =>
    PoolManager.connStringForProfile_eq (PoolManager.resolve_default rfl)
  simp [repackArgs, repackHandler, hsame, tableName]

end Handler
end Pgaio
