import Pgaio.Go.Quote
import Pgaio.Handler.MaintenanceSQL
import Pgaio.Service.JobStore

/-!
# ObjectCommands — commands with the names of objects written into them

`TriggerVacuum` of `handler/vacuum.go` writes a table's name as Go quotes a string; `InstallExtension` and
`UninstallExtension` of `handler/extensions.go` write an extension's name as it is.
`object_commands_iff` says for which names PostgreSQL reads the objects that were meant.
-/

namespace Pgaio
namespace Handler

open Go Model Postgres.SQL Service

/-! ## vacuum.go -/

structure VacuumRequest where
  schema : String
  table : String
  full : Bool := false
  database : String := ""
  deriving DecidableEq, Repr

def vacuumCmd (full : Bool) : String :=
  if full then "VACUUM FULL ANALYZE" else "VACUUM ANALYZE"

/-- `fmt.Sprintf("%q.%q", schema, table)`. -/
def vacuumTableName (beyondASCII : Char → Bool) (schema table : String) : String :=
  quote beyondASCII schema ++ "." ++ quote beyondASCII table

/-- What the goroutine works on. -/
structure VacuumWork (Pool : Type) where
  pool : Pool
  jobID : JobID
  vacuumCmd : String
  tableName : String

def VacuumWork.sql {Pool : Type} (work : VacuumWork Pool) : String :=
  work.vacuumCmd ++ " " ++ work.tableName

/-- The goroutine: `exec` is the database's answer, an error or none. -/
def VacuumWork.run {Pool : Type} (work : VacuumWork Pool) (exec : Pool → String → Option String)
    (jobs : JobStore) (started finished : Time) : JobStore :=
  let running := jobs.update started work.jobID (work.vacuumCmd ++ " running") ""
  match exec work.pool work.sql with
  | some err => running.finish finished work.jobID .failed (work.vacuumCmd ++ " failed") err none
  | none => running.finish finished work.jobID .succeeded (work.vacuumCmd ++ " completed") "" none

/-- `TriggerVacuum`; `none` is a body that cannot be decoded. -/
def triggerVacuum {Pool : Type} (beyondASCII : Char → Bool) (jobs : JobStore) (now : Time)
    (getPool : String → Except String Pool) (body : Option VacuumRequest) :
    Response (List (String × String)) × JobStore × Option (VacuumWork Pool) :=
  match body with
  | none => (.failure statusBadRequest "invalid request", jobs, none)
  | some req =>
      if req.table = "" then (.failure statusBadRequest "table is required", jobs, none)
      else
        let schema := if req.schema = "" then "public" else req.schema
        match getPool req.database with
        | .error err =>
            (.failure statusInternalServerError ("failed to connect to database: " ++ err), jobs, none)
        | .ok pool =>
            let name := vacuumTableName beyondASCII schema req.table
            let cmd := vacuumCmd req.full
            let started := jobs.start now "vacuum" name req.database (cmd ++ " queued")
              [("schema", schema), ("table", req.table)]
            (.success statusAccepted
                [("jobId", started.1.id.text), ("message", cmd ++ " started on " ++ name),
                  ("status", "running")],
              started.2,
              some { pool := pool, jobID := started.1.id, vacuumCmd := cmd, tableName := name })

/-! ## extensions.go -/

structure ExtensionRequest where
  name : String
  database : String := ""
  deriving DecidableEq, Repr

/-- What both handlers do: the command is put in front of the name. -/
def onExtension {Pool : Type} (command done : String) (getPool : String → Except String Pool)
    (exec : Pool → String → Option String) (body : Option ExtensionRequest) :
    Response String × Option String :=
  match body with
  | none => (.failure statusBadRequest "name required", none)
  | some req =>
      if req.name = "" then (.failure statusBadRequest "name required", none)
      else
        match getPool req.database with
        | .error err =>
            (.failure statusInternalServerError ("failed to connect to database: " ++ err), none)
        | .ok pool =>
            let sql := command ++ req.name
            match exec pool sql with
            | some err => (.failure statusInternalServerError err, some sql)
            | none => (.success statusOK done, some sql)

/-- `InstallExtension`, with the statement that it executes. -/
def installExtension {Pool : Type} : (String → Except String Pool) → (Pool → String → Option String) →
    Option ExtensionRequest → Response String × Option String :=
  onExtension "CREATE EXTENSION IF NOT EXISTS " "extension installed"

/-- `UninstallExtension`, with the statement that it executes. -/
def uninstallExtension {Pool : Type} : (String → Except String Pool) → (Pool → String → Option String) →
    Option ExtensionRequest → Response String × Option String :=
  onExtension "DROP EXTENSION IF EXISTS " "extension removed"

/-! ## Names as Go quotes them -/

section

variable {beyondASCII : Char → Bool}

/-- The name is written as it is. -/
def IsPlainObject (beyondASCII : Char → Bool) (name : String) : Prop :=
  name.toList.all (isPlainRune beyondASCII) = true

theorem quote_notMem_of_plain {name : List Char} (h : name.all (isPlainRune beyondASCII) = true) :
    '"' ∉ name := by
  intro hmem
  have hplain := List.all_eq_true.1 h '"' hmem
  simp [isPlainRune] at hplain

/-- A name that is read back has nothing in it that Go escapes. -/
theorem plain_of_scanIdent {name rest left : List Char} (hrest : startsWith (· = '"') rest = false)
    (h : scanIdent (quotedBody beyondASCII name ++ '"' :: rest) = some (name, left)) :
    name.all (isPlainRune beyondASCII) = true := by
  have hclose : scanIdent ('"' :: rest) = some ([], rest) := scanBody_close fun _ => hrest
  by_cases hquote : '"' ∈ name
  · -- The backslash in front of the first quote does not keep it from being read as one.
    obtain ⟨before, after, rfl, hbefore⟩ := List.eq_append_cons_of_mem hquote
    have hbody : quotedBody beyondASCII (before ++ '"' :: after) ++ '"' :: rest =
        (quotedBody beyondASCII before ++ ['\\']) ++
          ('"' :: (quotedBody beyondASCII after ++ '"' :: rest)) := by
      rw [quotedBody_append]
      simp [quotedBody, escapedRune]
    have hfree : '"' ∉ quotedBody beyondASCII before ++ ['\\'] := by
      simp [quote_notMem_quotedBody hbefore]
    unfold scanIdent at h
    rw [hbody, scanBody_append hfree] at h
    obtain ⟨b, -, heq⟩ := Option.map_eq_some_iff.1 h
    have hprefix : quotedBody beyondASCII before ++ ['\\'] <+: before ++ '"' :: after :=
      ⟨b.1, (Prod.mk.inj heq).1⟩
    have hshort : before ++ ['"'] <+: before ++ '"' :: after := ⟨after, by simp⟩
    have hlength : (before ++ ['"']).length ≤ (quotedBody beyondASCII before ++ ['\\']).length := by
      have hle := length_le_quotedBody beyondASCII before
      simp only [List.length_append, List.length_singleton]
      omega
    have hinside := List.prefix_of_prefix_length_le hshort hprefix hlength
    exact absurd (hinside.subset (by simp)) hfree
  · unfold scanIdent at h hclose
    rw [scanBody_append (quote_notMem_quotedBody hquote), hclose] at h
    have hsame : quotedBody beyondASCII name = name := by
      simpa using congrArg (fun b => b.map Prod.fst) h
    exact plain_of_length (congrArg List.length hsame)

theorem eq_quotedIdent_of_lex {text : List Char} {ts : List Token} (h : lex ('"' :: text) = some ts) :
    ∃ name rest ts', scanIdent text = some (name, rest) ∧ lex rest = some ts' ∧
      ts = .quotedIdent name :: ts' := by
  rw [lex_doubleQuote, Option.bind_eq_some_iff] at h
  obtain ⟨⟨name, rest⟩, hscan, h⟩ := h
  split at h
  · cases h
  · obtain ⟨ts', hts', rfl⟩ := Option.map_eq_some_iff.1 h
    exact ⟨name, rest, ts', hscan, hts', rfl⟩

/-- Such a name is read, and the text behind it. -/
theorem plain_of_lex {name rest : List Char} {ts : List Token} (hname : name ≠ [])
    (hrest : startsWith (· = '"') rest = false)
    (h : lex ('"' :: (quotedBody beyondASCII name ++ '"' :: rest)) = some (.quotedIdent name :: ts)) :
    name.all (isPlainRune beyondASCII) = true ∧ lex rest = some ts := by
  obtain ⟨name', left, ts', hscan, -, heq⟩ := eq_quotedIdent_of_lex h
  obtain rfl : name = name' := by simpa using (List.cons.inj heq).1
  have hplain := plain_of_scanIdent hrest hscan
  rw [quotedBody_of_plain hplain, lex_quotedIdent (body_of_notMem (quote_notMem_of_plain hplain)) hname hrest] at h
  obtain ⟨ts'', hts'', heq''⟩ := Option.map_eq_some_iff.1 h
  exact ⟨hplain, (List.cons.inj heq'').2 ▸ hts''⟩

theorem quote_eq_quoteIdent {name : String} (h : IsPlainObject beyondASCII name) :
    quote beyondASCII name = quoteIdent name := by
  apply String.toList_injective
  rw [toList_quote, toList_quoteIdent, quotedBody_of_plain h, doubled_of_notMem (quote_notMem_of_plain h)]

end

/-! ## The statements -/

/-- The words of the command. -/
def vacuumWords (full : Bool) : List (List Char) :=
  if full then ["VACUUM".toList, "FULL".toList, "ANALYZE".toList]
  else ["VACUUM".toList, "ANALYZE".toList]

def commandTokens (words : List (List Char)) : List Token :=
  words.map fun word => .word (word.map Char.toLower)

/-- The statement vacuums this table and does nothing else, as the statement with `quoteIdent` does. -/
structure Vacuums (sql : String) (full : Bool) (schema table : String) : Prop where
  reads : statements sql.toList =
    some [commandTokens (vacuumWords full) ++ objectTokens schema table]
  agrees : statements sql.toList =
    statements (vacuumCmd full ++ " " ++ quotedName schema table).toList

/-- The statement is the command on the object of this name, and nothing else. -/
def Targets (sql : String) (words : List (List Char)) (name : String) : Prop :=
  ∃ t, statements sql.toList = some [commandTokens words ++ [t]] ∧ Names t name.toList

theorem vacuumCmd_toList (full : Bool) (text : List Char) :
    (vacuumCmd full).toList ++ ' ' :: text = (vacuumWords full).flatMap (· ++ [' ']) ++ text := by
  cases full <;> simp [vacuumCmd, vacuumWords]

theorem vacuumWords_names (full : Bool) : (vacuumWords full).all isName = true := by
  cases full <;> decide

/-- The tokens of a statement begin with the command and what is read first behind it. -/
theorem eq_of_splitStatements {words : List (List Char)} {before ts expected : List Token} {t t' : Token}
    (hbefore : semicolon ∉ before) (ht : t ≠ semicolon)
    (h : splitStatements (commandTokens words ++ (before ++ t :: ts)) =
      [commandTokens words ++ (before ++ t' :: expected)]) : t = t' := by
  have hsemi : semicolon ∉ commandTokens words ++ (before ++ [t]) := by
    simp [commandTokens, semicolon] at hbefore ⊢
    exact ⟨hbefore, Ne.symm ht⟩
  have htokens : commandTokens words ++ (before ++ t :: ts) =
      (commandTokens words ++ (before ++ [t])) ++ ts := by simp
  rw [htokens] at h
  obtain ⟨tail, htail⟩ := prefix_of_splitStatements h hsemi (by simp)
  simp at htail
  exact htail.1

theorem vacuums_iff (beyondASCII : Char → Bool) (full : Bool) {schema table : String}
    (hschema : schema ≠ "") (htable : table ≠ "") :
    Vacuums (vacuumCmd full ++ " " ++ vacuumTableName beyondASCII schema table) full schema table ↔
      IsPlainObject beyondASCII schema ∧ IsPlainObject beyondASCII table := by
  constructor
  · rintro ⟨hreads, -⟩
    have htext : (vacuumCmd full ++ " " ++ vacuumTableName beyondASCII schema table).toList =
        (vacuumWords full).flatMap (· ++ [' ']) ++
          '"' :: (quotedBody beyondASCII schema.toList ++ '"' ::
            ('.' :: '"' :: (quotedBody beyondASCII table.toList ++ '"' :: []))) := by
      rw [← vacuumCmd_toList]
      simp [vacuumTableName, toList_quote]
    unfold statements at hreads
    rw [htext, lex_words (vacuumWords_names full), Option.map_map] at hreads
    obtain ⟨ts, hts, hsplit⟩ := Option.map_eq_some_iff.1 hreads
    obtain ⟨name, rest, ts', hscan, -, rfl⟩ := eq_quotedIdent_of_lex hts
    -- The token behind the words of the command is the name that was read for the schema.
    have hfirst : Token.quotedIdent name = .quotedIdent schema.toList :=
      eq_of_splitStatements List.not_mem_nil (by simp [semicolon]) hsplit
    rw [hfirst] at hts hsplit
    obtain ⟨hs, hrest⟩ := plain_of_lex (toList_ne_nil hschema) rfl hts
    rw [lex_dot_quote] at hrest
    -- The same for the table, behind the dot.
    obtain ⟨behind, hbehind, rfl⟩ := Option.map_eq_some_iff.1 hrest
    obtain ⟨name', rest', ts'', -, -, rfl⟩ := eq_quotedIdent_of_lex hbehind
    have hbefore : semicolon ∉ [.quotedIdent schema.toList, .symbol ['.']] := by simp [semicolon]
    have hsecond : Token.quotedIdent name' = .quotedIdent table.toList :=
      eq_of_splitStatements hbefore (by simp [semicolon]) hsplit
    rw [hsecond] at hbehind
    exact ⟨hs, (plain_of_lex (toList_ne_nil htable) rfl hbehind).1⟩
  · rintro ⟨hs, ht⟩
    have hquoted : vacuumTableName beyondASCII schema table = quotedName schema table := by
      rw [vacuumTableName, quote_eq_quoteIdent hs, quote_eq_quoteIdent ht, quotedName]
    rw [hquoted]
    refine ⟨?_, rfl⟩
    have htext : (vacuumCmd full ++ " " ++ quotedName schema table).toList =
        (vacuumWords full).flatMap (· ++ [' ']) ++ (quotedName schema table).toList := by
      rw [← vacuumCmd_toList]
      simp
    rw [htext]
    exact statements_object (vacuumWords_names full) hschema htable

theorem targets_iff {words : List (List Char)} (hwords : words.all isName = true) (hne : words ≠ [])
    {sql name : String} (hsql : sql.toList = words.flatMap (· ++ [' ']) ++ name.toList) :
    Targets sql words name ↔ IsWord name.toList ∧ isReserved name.toList = false := by
  have hlex : lex sql.toList = (lex name.toList).map (commandTokens words ++ ·) := by
    rw [hsql, lex_words hwords, commandTokens]
  have hcommand : semicolon ∉ commandTokens words := by simp [commandTokens, semicolon]
  have hcommand_ne : commandTokens words ≠ [] := by simpa [commandTokens] using hne
  constructor
  · rintro ⟨t, hreads, hnames⟩
    unfold statements at hreads
    rw [hlex, Option.map_map] at hreads
    obtain ⟨ts, hts, hsplit⟩ := Option.map_eq_some_iff.1 hreads
    have hmem : t ∈ ts := mem_of_splitStatements hcommand hsplit hcommand_ne
    obtain ⟨g, hg, rfl⟩ := Option.map_eq_some_iff.1 hts
    obtain ⟨ls, hls, rfl⟩ := Option.map_eq_some_iff.1 hg
    rcases hnames with rfl | ⟨rfl, hreserved⟩
    · -- A quoted name is longer than what it names.
      have hlength := length_quotedIdent_of_mem (lexes_iff.2 hls) hmem
      omega
    · exact ⟨isWord_of_mem (lexes_iff.2 hls) hmem, hreserved⟩
  · rintro ⟨hword, hreserved⟩
    refine ⟨.word name.toList, ?_, .inr ⟨rfl, hreserved⟩⟩
    have hsemi : semicolon ∉ commandTokens words ++ [.word name.toList] := by
      rw [List.mem_append, not_or]
      exact ⟨hcommand, by simp [semicolon]⟩
    rw [statements, hlex, lex_name hword.1, hword.2, Option.map_some, Option.map_some,
      splitStatements_of_notMem hsemi (by simp)]

/-! ## The handlers -/

/-- The names that are read back as they are: folded, and no reserved word. -/
def IsPlainExtension (name : String) : Prop :=
  IsWord name.toList ∧ isReserved name.toList = false

/-- The statements of a request are about the objects that it names. -/
structure CommandsDenote (beyondASCII : Char → Bool) (schema table extension : String) : Prop where
  vacuum : ∀ (Pool : Type) (jobs : JobStore) (now : Time) (getPool : String → Except String Pool)
    (full : Bool) (database : String) (work : VacuumWork Pool),
    (triggerVacuum beyondASCII jobs now getPool (some ⟨schema, table, full, database⟩)).2.2 = some work →
      Vacuums work.sql full schema table
  install : ∀ (Pool : Type) (getPool : String → Except String Pool) (exec : Pool → String → Option String)
    (database sql : String), (installExtension getPool exec (some ⟨extension, database⟩)).2 = some sql →
      Targets sql ["CREATE".toList, "EXTENSION".toList, "IF".toList, "NOT".toList, "EXISTS".toList] extension
  uninstall : ∀ (Pool : Type) (getPool : String → Except String Pool) (exec : Pool → String → Option String)
    (database sql : String), (uninstallExtension getPool exec (some ⟨extension, database⟩)).2 = some sql →
      Targets sql ["DROP".toList, "EXTENSION".toList, "IF".toList, "EXISTS".toList] extension

theorem sql_of_triggerVacuum {Pool : Type} {beyondASCII : Char → Bool} {jobs : JobStore} {now : Time}
    {getPool : String → Except String Pool} {req : VacuumRequest} {work : VacuumWork Pool}
    (hschema : req.schema ≠ "")
    (h : (triggerVacuum beyondASCII jobs now getPool (some req)).2.2 = some work) :
    work.sql = vacuumCmd req.full ++ " " ++ vacuumTableName beyondASCII req.schema req.table := by
  simp only [triggerVacuum, if_neg hschema] at h
  split at h
  · cases h
  · split at h
    · cases h
    · obtain rfl := Option.some.inj h
      rfl

theorem sql_of_onExtension {Pool : Type} {command done sql : String} {getPool : String → Except String Pool}
    {exec : Pool → String → Option String} {req : ExtensionRequest}
    (h : (onExtension command done getPool exec (some req)).2 = some sql) : sql = command ++ req.name := by
  simp only [onExtension] at h
  split at h
  · cases h
  · split at h
    · cases h
    · split at h <;> exact (Option.some.inj h).symm

/-- The three commands denote the objects that were named exactly if Go quotes the names of schema and
table without an escape and the extension's name is a plain one. -/
theorem object_commands_iff (beyondASCII : Char → Bool) (schema table extension : String)
    (hschema : schema ≠ "") (htable : table ≠ "") (hextension : extension ≠ "") :
    CommandsDenote beyondASCII schema table extension ↔
      IsPlainObject beyondASCII schema ∧ IsPlainObject beyondASCII table ∧ IsPlainExtension extension := by
  have hinstall (sql : String) (hsql : sql = "CREATE EXTENSION IF NOT EXISTS " ++ extension) :
      Targets sql ["CREATE".toList, "EXTENSION".toList, "IF".toList, "NOT".toList, "EXISTS".toList]
        extension ↔ IsPlainExtension extension :=
    targets_iff (by decide) (by simp) (by rw [hsql]; simp)
  have huninstall (sql : String) (hsql : sql = "DROP EXTENSION IF EXISTS " ++ extension) :
      Targets sql ["DROP".toList, "EXTENSION".toList, "IF".toList, "EXISTS".toList] extension ↔
        IsPlainExtension extension :=
    targets_iff (by decide) (by simp) (by rw [hsql]; simp)
  constructor
  · intro h
    -- Handlers that get as far as the statement: the pool opens, and the request names its object.
    have hpool : (installExtension (fun _ => .ok ()) (fun _ _ => none) (some ⟨extension, ""⟩)).2 =
        some ("CREATE EXTENSION IF NOT EXISTS " ++ extension) := by
      simp [installExtension, onExtension, hextension]
    have htargets := h.install Unit _ _ _ _ hpool
    have hwork : ∃ work, (triggerVacuum beyondASCII {} 0 (fun _ => .ok ())
        (some ⟨schema, table, false, ""⟩)).2.2 = some work := by
      simp [triggerVacuum, htable]
    obtain ⟨work, hwork⟩ := hwork
    have hvacuums := h.vacuum Unit _ _ _ _ _ _ hwork
    rw [sql_of_triggerVacuum hschema hwork] at hvacuums
    obtain ⟨hs, ht⟩ := (vacuums_iff beyondASCII false hschema htable).1 hvacuums
    exact ⟨hs, ht, (hinstall _ rfl).1 htargets⟩
  · rintro ⟨hs, ht, hplain⟩
    constructor
    · intro Pool jobs now getPool full database work hwork
      rw [sql_of_triggerVacuum hschema hwork]
      exact (vacuums_iff beyondASCII full hschema htable).2 ⟨hs, ht⟩
    · intro Pool getPool exec database sql hsql
      exact (hinstall sql (sql_of_onExtension hsql)).2 hplain
    · intro Pool getPool exec database sql hsql
      exact (huninstall sql (sql_of_onExtension hsql)).2 hplain

theorem object_commands_iff_hstore :
    CommandsDenote (fun _ => true) "public" "Order items" "hstore" ↔
      IsPlainObject (fun _ => true) "public" ∧ IsPlainObject (fun _ => true) "Order items" ∧
        IsPlainExtension "hstore" :=
  object_commands_iff (fun _ => true) "public" "Order items" "hstore" (by decide) (by decide) (by decide)

/-- A hyphen is an operator. -/
theorem hyphened_extension_missed :
    ¬ ∀ (beyondASCII : Char → Bool) (schema table extension : String),
      schema ≠ "" → table ≠ "" → extension ≠ "" →
        '\x00' ∉ schema.toList → '\x00' ∉ table.toList → '\x00' ∉ extension.toList →
          CommandsDenote beyondASCII schema table extension := by
  intro hall
  have hdenote := hall (fun _ => true) "public" "orders" "uuid-ossp" (by decide) (by decide) (by decide)
    (by decide) (by decide) (by decide)
  obtain ⟨t, hreads, -⟩ := hdenote.install Unit (fun _ => .ok ()) (fun _ _ => none) ""
    "CREATE EXTENSION IF NOT EXISTS uuid-ossp" (by decide)
  have hread : (statements "CREATE EXTENSION IF NOT EXISTS uuid-ossp".toList).map (·.map List.length) =
      some [8] := by decide
  rw [hreads] at hread
  simp [commandTokens] at hread

end Handler
end Pgaio
