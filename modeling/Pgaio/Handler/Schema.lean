import Pgaio.Database.Rows
import Pgaio.Go.Maps
import Pgaio.Go.Strings
import Pgaio.Model.Types

/-!
# Schema — the drift between two databases

`handler/schema.go`.  A snapshot of a database is four maps, one for each catalog query, that a loop
over the rows fills: the key is the name of the object, the identifiers joined by dots, and the value
its description, the details joined by bars.  The drift is the comparison of the maps of two
databases.
-/

namespace Pgaio
namespace Handler

open Go Model Database

/-! ## Catalog rows -/

@[ext] structure TableRow where
  schema : String
  table : String
  owner : String
  comment : String
  deriving DecidableEq, Repr

@[ext] structure ColumnRow where
  schema : String
  table : String
  column : String
  dataType : String
  nullable : String
  defaultValue : String
  maxLength : String
  deriving DecidableEq, Repr

@[ext] structure IndexRow where
  schema : String
  table : String
  indexName : String
  definition : String
  deriving DecidableEq, Repr

@[ext] structure ExtensionRow where
  name : String
  version : String
  deriving DecidableEq, Repr

def TableRow.key (r : TableRow) : String :=
  r.schema ++ "." ++ r.table

def TableRow.detail (r : TableRow) : String :=
  r.owner ++ "|" ++ r.comment

def ColumnRow.key (r : ColumnRow) : String :=
  r.schema ++ "." ++ r.table ++ "." ++ r.column

def ColumnRow.detail (r : ColumnRow) : String :=
  "|".intercalate [r.dataType, r.nullable, r.defaultValue, r.maxLength]

def IndexRow.key (r : IndexRow) : String :=
  r.schema ++ "." ++ r.table ++ "." ++ r.indexName

def IndexRow.detail (r : IndexRow) : String :=
  r.definition

def ExtensionRow.key (r : ExtensionRow) : String :=
  r.name

def ExtensionRow.detail (r : ExtensionRow) : String :=
  r.version

/-! ## Snapshots -/

/-- `map[string]string`. -/
abbrev StringMap := GoMap String String

structure SchemaSnapshot where
  tables : StringMap
  columns : StringMap
  indexes : StringMap
  extensions : StringMap

/-- What a pool answers to the four catalog queries. -/
structure SchemaPool where
  tableRows : Except String (RowStream TableRow)
  columnRows : Except String (RowStream ColumnRow)
  indexRows : Except String (RowStream IndexRow)
  extensionRows : Except String (RowStream ExtensionRow)

/-- The loop over the rows of one query.  A row that cannot be scanned is skipped, and the error with
which the stream ends is not looked at. -/
def scanInto {α : Type} (key detail : α → String) (m : StringMap) : RowStream α → StringMap
  | .finished => m
  | .failed _ => m
  | .row (.error _) rest => scanInto key detail m rest
  | .row (.ok x) rest => scanInto key detail (m.insert (key x) (detail x)) rest

def loadSchemaSnapshot (pool : SchemaPool) : Except String SchemaSnapshot := do
  -- A query is sent when the rows of the one before have been read; only its refusal is an error.
  let tableRows ← pool.tableRows
  let tables := scanInto TableRow.key TableRow.detail ∅ tableRows
  let columnRows ← pool.columnRows
  let columns := scanInto ColumnRow.key ColumnRow.detail ∅ columnRows
  let indexRows ← pool.indexRows
  let indexes := scanInto IndexRow.key IndexRow.detail ∅ indexRows
  let extensionRows ← pool.extensionRows
  let extensions := scanInto ExtensionRow.key ExtensionRow.detail ∅ extensionRows
  return { tables, columns, indexes, extensions }

/-! ## Comparison -/

structure OnlyEntry where
  name : String
  detail : String
  deriving DecidableEq, Repr

structure ChangedEntry where
  name : String
  sourceDetail : String
  targetDetail : String
  deriving DecidableEq, Repr

/-- `sort.Slice` by name.  The order of a map's iteration does not matter, since every name occurs
once. -/
def sortByName {α : Type} (name : α → String) (xs : List α) : List α :=
  xs.mergeSort fun a b => decide (name a ≤ name b)

def diffOnly (left right : StringMap) : List OnlyEntry :=
  sortByName OnlyEntry.name <|
    (GoMap.missing left right).map fun (key, value) => { name := key, detail := value }

def diffChanged (left right : StringMap) : List ChangedEntry :=
  sortByName ChangedEntry.name <|
    (GoMap.changed left right).map fun (key, leftValue, rightValue) =>
      { name := key, sourceDetail := leftValue, targetDetail := rightValue }

structure DriftSummary where
  tableOnlyInSource : List OnlyEntry
  tableOnlyInTarget : List OnlyEntry
  tableChanged : List ChangedEntry
  columnOnlyInSource : List OnlyEntry
  columnOnlyInTarget : List OnlyEntry
  columnChanged : List ChangedEntry
  indexOnlyInSource : List OnlyEntry
  indexOnlyInTarget : List OnlyEntry
  indexChanged : List ChangedEntry
  extensionOnlyInSource : List OnlyEntry
  extensionOnlyInTarget : List OnlyEntry
  extensionChanged : List ChangedEntry
  deriving DecidableEq, Repr

def driftSummary (source target : SchemaSnapshot) : DriftSummary where
  tableOnlyInSource := diffOnly source.tables target.tables
  tableOnlyInTarget := diffOnly target.tables source.tables
  tableChanged := diffChanged source.tables target.tables
  columnOnlyInSource := diffOnly source.columns target.columns
  columnOnlyInTarget := diffOnly target.columns source.columns
  columnChanged := diffChanged source.columns target.columns
  indexOnlyInSource := diffOnly source.indexes target.indexes
  indexOnlyInTarget := diffOnly target.indexes source.indexes
  indexChanged := diffChanged source.indexes target.indexes
  extensionOnlyInSource := diffOnly source.extensions target.extensions
  extensionOnlyInTarget := diffOnly target.extensions source.extensions
  extensionChanged := diffChanged source.extensions target.extensions

structure DriftData where
  source : String
  target : String
  profile : String
  summary : DriftSummary
  deriving DecidableEq, Repr

/-- The arguments are those of the URL's query; `getPool` is `GetPoolForProfile`. -/
def getDrift (getPool : String → String → Except String SchemaPool)
    (source target profile : String) : Response DriftData :=
  -- Blanks around the arguments do not count.
  let sourceDB := trimSpace source
  let targetDB := trimSpace target
  let profile := trimSpace profile
  if sourceDB = "" ∨ targetDB = "" then
    .failure statusBadRequest "source and target databases are required"
  else
    match getPool sourceDB profile with
    | .error err =>
        .failure statusInternalServerError ("failed to connect source database: " ++ err)
    | .ok sourcePool =>
        match getPool targetDB profile with
        | .error err =>
            .failure statusInternalServerError ("failed to connect target database: " ++ err)
        | .ok targetPool =>
            match loadSchemaSnapshot sourcePool with
            | .error err =>
                .failure statusInternalServerError ("failed to inspect source schema: " ++ err)
            | .ok source =>
                match loadSchemaSnapshot targetPool with
                | .error err =>
                    .failure statusInternalServerError ("failed to inspect target schema: " ++ err)
                | .ok target =>
                    .success statusOK
                      { source := sourceDB
                        target := targetDB
                        profile := profile
                        summary := driftSummary source target }

/-! ## What a snapshot holds -/

section Rows

variable {α : Type} {key detail : α → String}

theorem scanInto_eq (m : StringMap) (stream : RowStream α) :
    scanInto key detail m stream =
      GoMap.assignAll (stream.readable.map fun r => (key r, detail r)) m := by
  induction stream generalizing m with
  | finished => rfl
  | failed err => rfl
  | row x rest ih =>
      cases x with
      | error err => exact ih m
      | ok r => exact ih (m.insert (key r) (detail r))

/-- Of a stream only the rows that can be read count. -/
theorem scanInto_empty (stream : RowStream α) :
    scanInto key detail ∅ stream =
      GoMap.ofEntries (stream.readable.map fun r => (key r, detail r)) :=
  scanInto_eq ∅ stream

/-- No row is lost: each stands in the map under its name, and no other row stands for it. -/
def Keeps (key detail : α → String) (m : StringMap) (rows : List α) : Prop :=
  ∀ r ∈ rows, m.lookup (key r) = some (detail r) ∧
    ∀ s ∈ rows, key s = key r → detail s = detail r → s = r

/-- Different rows have different names. -/
def Unambiguous (key : α → String) (rows : List α) : Prop :=
  ∀ r ∈ rows, ∀ s ∈ rows, key r = key s → r = s

theorem mem_entries {rows : List α} {k v : String} :
    (k, v) ∈ rows.map (fun r => (key r, detail r)) ↔ ∃ r ∈ rows, key r = k ∧ detail r = v := by
  simp

/-- A map of some of the rows keeps all of them exactly when it has been given all of them and their
names are unambiguous. -/
theorem keeps_ofEntries_iff {read rows : List α} (hsub : ∀ r ∈ read, r ∈ rows) :
    Keeps key detail (GoMap.ofEntries (read.map fun r => (key r, detail r))) rows ↔
      Unambiguous key rows ∧ ∀ r ∈ rows, r ∈ read := by
  constructor
  · intro h
    have hunambiguous : Unambiguous key rows := by
      intro r hr s hs hkey
      have hdetail : some (detail r) = some (detail s) := by
        rw [← (h r hr).1, ← (h s hs).1, hkey]
      exact (h s hs).2 r hr hkey (Option.some.inj hdetail)
    refine ⟨hunambiguous, fun r hr => ?_⟩
    obtain ⟨s, hs, hkey, -⟩ := mem_entries.1 (GoMap.mem_entries_of_lookup (h r hr).1)
    exact hunambiguous s (hsub s hs) r hr hkey ▸ hs
  · rintro ⟨hunambiguous, hread⟩ r hr
    refine ⟨?_, fun s hs hkey _ => hunambiguous s hs r hr hkey⟩
    apply GoMap.lookup_eq_of_mem (mem_entries.2 ⟨r, hread r hr, rfl, rfl⟩)
    intro v hv
    obtain ⟨s, hs, hkey, rfl⟩ := mem_entries.1 hv
    rw [hunambiguous s (hsub s hs) r hr hkey]

end Rows

/-! ## What a comparison lists -/

@[simp] theorem mem_sortByName {α : Type} {name : α → String} {xs : List α} {x : α} :
    x ∈ sortByName name xs ↔ x ∈ xs :=
  List.mem_mergeSort

theorem sortByName_eq_nil {α : Type} {name : α → String} {xs : List α} :
    sortByName name xs = [] ↔ xs = [] := by
  rw [← List.length_eq_zero_iff, ← List.length_eq_zero_iff, sortByName, List.length_mergeSort]

theorem mem_diffOnly {left right : StringMap} {e : OnlyEntry} :
    e ∈ diffOnly left right ↔ left.lookup e.name = some e.detail ∧ e.name ∉ right := by
  rw [← GoMap.mem_missing, diffOnly, mem_sortByName, List.mem_map]
  constructor
  · rintro ⟨⟨k, v⟩, hmem, rfl⟩
    exact hmem
  · intro hmem
    exact ⟨(e.name, e.detail), hmem, rfl⟩

theorem mem_diffChanged {left right : StringMap} {e : ChangedEntry} :
    e ∈ diffChanged left right ↔
      left.lookup e.name = some e.sourceDetail ∧ right.lookup e.name = some e.targetDetail ∧
        e.sourceDetail ≠ e.targetDetail := by
  rw [← GoMap.mem_changed, diffChanged, mem_sortByName, List.mem_map]
  constructor
  · rintro ⟨⟨k, v, w⟩, hmem, rfl⟩
    exact hmem
  · intro hmem
    exact ⟨(e.name, e.sourceDetail, e.targetDetail), hmem, rfl⟩

/-- Two maps agree exactly when their three lists are empty. -/
theorem diff_eq_nil_iff {left right : StringMap} :
    (diffOnly left right = [] ∧ diffOnly right left = [] ∧ diffChanged left right = []) ↔
      ∀ k, left.lookup k = right.lookup k := by
  rw [← GoMap.agree_iff]
  simp [diffOnly, diffChanged, sortByName_eq_nil]

/-! ## The answer -/

/-- A successful answer comes from two snapshots. -/
theorem getDrift_success {getPool : String → String → Except String SchemaPool}
    {source target profile : String} {data : DriftData}
    (h : (getDrift getPool source target profile).body.data = some data) :
    ∃ sourcePool targetPool s t,
      getPool (trimSpace source) (trimSpace profile) = .ok sourcePool ∧
      getPool (trimSpace target) (trimSpace profile) = .ok targetPool ∧
      loadSchemaSnapshot sourcePool = .ok s ∧ loadSchemaSnapshot targetPool = .ok t ∧
      data.summary = driftSummary s t := by
  -- An answer with data has passed the names, both pools and both snapshots.
  unfold getDrift at h
  dsimp only at h
  split at h
  · cases h
  · split at h
    · cases h
    · rename_i sourcePool hsource
      split at h
      · cases h
      · rename_i targetPool htarget
        split at h
        · cases h
        · rename_i s hs
          split at h
          · cases h
          · rename_i t ht
            cases h
            exact ⟨sourcePool, targetPool, s, t, hsource, htarget, hs, ht, rfl⟩

end Handler
end Pgaio
