import Mathlib.Data.List.Induction
import Pgaio.Database.Rows
import Pgaio.Go.Format
import Pgaio.Go.Maps
import Pgaio.Go.SliceHeap
import Pgaio.Model.Types

/-!
# ServerOverview — databases, schemas and tables of the server

`GetOverview` of `handler/server_overview.go`.  For every database the handler reads the names of
the schemas into a slice, and for each name a pointer to its element into a map; the rows of the
tables are then attached through these pointers.  The slice grows while the pointers are taken, so
the pointers of the schemas before its last move lead into an array that nobody reads any more
(`Grown`), and the tables of these schemas are lost (`no_table_lost_iff`).

The growth of the slice is a parameter, and a row of a query is what `Scan` has left in the
variables, since its error is not looked at.
-/

namespace Pgaio
namespace Handler

open Go Model Database

namespace ServerOverview

/-! ## Data -/

structure TableInfo where
  schema : String
  name : String
  rows : Int
  size : String
  sizeBytes : Int
  totalBytes : Int
  tableBytes : Int
  indexBytes : Int
  toastBytes : Int
  deriving DecidableEq, Repr

structure SchemaInfo where
  name : String
  /-- Nil in every copy that a move of the slice makes, so that no two copies share an array. -/
  tables : List TableInfo := []
  tableCount : Nat := 0
  size : String := ""
  deriving DecidableEq, Repr

instance : Inhabited SchemaInfo where
  default := { name := "" }

structure DatabaseInfo where
  name : String
  size : String
  sizeBytes : Int
  owner : String
  encoding : String
  schemas : List SchemaInfo := []
  tableCount : Nat := 0
  deriving DecidableEq, Repr

structure Overview where
  version : String
  startTime : String
  databases : List DatabaseInfo
  totalDBs : Nat
  totalTables : Nat
  deriving DecidableEq, Repr

/-- A row of the query for the databases. -/
structure DatabaseRow where
  name : String
  sizeRaw : String
  sizeBytes : Int
  owner : String
  encoding : String
  deriving DecidableEq, Repr

/-- A row of the query for the tables of a database. -/
structure TableRow where
  schema : String
  name : String
  rows : Int
  size : String
  sizeBytes : Int
  tableBytes : Int
  indexBytes : Int
  toastBytes : Int
  deriving DecidableEq, Repr

/-- What a database answers to the queries for its schemas and its tables. -/
structure DatabasePool where
  schemaRows : Except String (List String)
  tableRows : Except String (List TableRow)

/-! ## Sizes -/

/-- The loop `for val >= unit && exp < 4`, with `left` steps to go. -/
def scaleBytes : Nat → Float → Nat → Float × Nat
  | 0, val, exp => (val, exp)
  | left + 1, val, exp =>
      if 1024 ≤ val then scaleBytes left (val / 1024) (exp + 1) else (val, exp)

def formatBytesGo (b : Int) : String :=
  if b < 1024 then itoa b ++ " B"
  else
    let (val, exp) := scaleBytes 4 (Float.ofInt b) 0
    formatFixed 1 val ++ " " ++ ["B", "KB", "MB", "GB", "TB"].getD exp ""

/-- `totalSize += t.SizeBytes` for all tables. -/
def totalSize (tables : List TableInfo) : Int :=
  tables.foldl (fun total t => wrapInt64 (total + t.sizeBytes)) 0

/-! ## One database -/

def DatabaseRow.info (row : DatabaseRow) : DatabaseInfo where
  name := row.name
  size := formatBytesGo row.sizeBytes
  sizeBytes := row.sizeBytes
  owner := row.owner
  encoding := row.encoding

def TableRow.info (row : TableRow) : TableInfo where
  schema := row.schema
  name := row.name
  rows := row.rows
  size := row.size
  sizeBytes := row.sizeBytes
  totalBytes := row.sizeBytes
  tableBytes := row.tableBytes
  indexBytes := row.indexBytes
  toastBytes := row.toastBytes

/-- `si.Tables = append(si.Tables, t)` and `si.TableCount++`. -/
def SchemaInfo.attach (si : SchemaInfo) (t : TableInfo) : SchemaInfo :=
  { si with tables := si.tables ++ [t], tableCount := si.tableCount + 1 }

def SchemaInfo.sized (si : SchemaInfo) : SchemaInfo :=
  { si with size := formatBytesGo (totalSize si.tables) }

/-- The variables `schemas` and `schemaMap`, and the arrays of the slice. -/
structure SchemaVars where
  heap : SliceHeap SchemaInfo := {}
  schemas : SliceHeader := SliceHeader.nil
  schemaMap : GoMap String ElemPtr := ∅

namespace SchemaVars

/-- One round of the loop over the schema rows. -/
def addSchema (grow : Nat → Nat) (v : SchemaVars) (name : String) : SchemaVars :=
  let appended := v.heap.append grow v.schemas { name := name }
  { heap := appended.1
    schemas := appended.2
    -- `&schemas[len(schemas)-1]`
    schemaMap := v.schemaMap.insert name (appended.2.ptr (appended.2.len - 1)) }

/-- One round of the loop over the table rows. -/
def addTable (v : SchemaVars) (row : TableRow) : SchemaVars :=
  match v.schemaMap.lookup row.schema with
  | none => v
  | some si => { v with heap := v.heap.update si fun s => s.attach row.info }

/-- The loop that calculates the sizes; it goes through the slice, not through the map. -/
def addSizes (v : SchemaVars) : SchemaVars :=
  { v with
    heap := (List.range v.schemas.len).foldl
      (fun heap j => heap.update (v.schemas.ptr j) SchemaInfo.sized) v.heap }

def list (v : SchemaVars) : List SchemaInfo :=
  v.heap.contents v.schemas

end SchemaVars

/-- The body of the loop over the databases: the database with its schemas, and the tables that are
added to the total. -/
def fillDatabase (grow : Nat → Nat) (db : DatabaseInfo) (pool : DatabasePool) :
    DatabaseInfo × Nat :=
  match pool.schemaRows with
  | .error _ => (db, 0)
  | .ok names =>
      let v := names.foldl (SchemaVars.addSchema grow) {}
      match pool.tableRows with
      | .error _ => ({ db with schemas := v.addSizes.list }, 0)
      | .ok rows =>
          -- A table counts for its database also when no schema takes it.
          let v := rows.foldl SchemaVars.addTable v
          ({ db with schemas := v.addSizes.list, tableCount := rows.length }, rows.length)

/-- `dbRows` are the rows of the query for the databases, `getPool` is `GetPool`. -/
def getOverview (grow : Nat → Nat) (version startTime : String)
    (dbRows : Except String (RowStream DatabaseRow))
    (getPool : String → Except String DatabasePool) : Response Overview :=
  match dbRows with
  | .error err => .failure statusInternalServerError err
  | .ok rows =>
      let filled := rows.readable.map fun row =>
        match getPool row.name with
        | .error _ => (row.info, 0)
        | .ok pool => fillDatabase grow row.info pool
      .success statusOK
        { version := version
          startTime := startTime
          databases := filled.map Prod.fst
          totalDBs := filled.length
          totalTables := (filled.map Prod.snd).sum }

/-! ## The statement -/

/-- Every table of a listed schema appears once, under its schema, and the count and the size of a
schema are those of its tables. -/
structure NoTableLost (names : List String) (rows : List TableRow) (info : DatabaseInfo) :
    Prop where
  names : info.schemas.map SchemaInfo.name = names
  tables : ∀ s ∈ info.schemas,
    s.tables.Perm ((rows.filter fun row => row.schema = s.name).map TableRow.info)
  count : ∀ s ∈ info.schemas, s.tableCount = s.tables.length
  size : ∀ s ∈ info.schemas, s.size = formatBytesGo (totalSize s.tables)

/-- Every schema that has tables was appended after the slice had moved for the last time. -/
def AfterLastMove (grow : Nat → Nat) (names : List String) (rows : List TableRow) : Prop :=
  ∀ row ∈ rows, ∀ i : Nat, names[i]? = some row.schema →
    SliceHeap.lastMove grow names.length ≤ i

/-! ## The pointers after the schemas have been read -/

/-- The variables after the names have been read: the slice shows them, and the pointer of a name
leads into the array of the slice exactly if the slice has not moved since. -/
structure Grown (grow : Nat → Nat) (names : List String) (v : SchemaVars) : Prop where
  allocated : v.heap.Allocated v.schemas
  len : v.schemas.len = names.length
  cap : v.schemas.cap = SliceHeap.capAfter grow names.length
  list : v.list = names.map fun name => { name := name }
  mapped : ∀ (i : Nat) (name : String), names[i]? = some name →
    ∃ p, v.schemaMap.lookup name = some p ∧ p.index = i ∧ p.array < v.heap.arrays.length ∧
      (p.array = v.schemas.array ↔ SliceHeap.lastMove grow names.length ≤ i)
  unmapped : ∀ name, name ∉ names → v.schemaMap.lookup name = none

theorem grown_nil (grow : Nat → Nat) : Grown grow [] {} where
  allocated := SliceHeap.allocated_nil _
  len := rfl
  cap := rfl
  list := SliceHeap.contents_nil _
  mapped := by simp
  unmapped := by simp

/-- The slice moves with the next name exactly if its capacity is used up. -/
theorem Grown.room_iff {grow : Nat → Nat} {names : List String} {v : SchemaVars}
    (h : Grown grow names v) :
    v.schemas.len < v.schemas.cap ↔ names.length < SliceHeap.capAfter grow names.length := by
  rw [h.len, h.cap]

theorem getElem?_append_singleton {α : Type} {xs : List α} {x y : α} {i : Nat}
    (h : (xs ++ [x])[i]? = some y) : xs[i]? = some y ∨ (i = xs.length ∧ y = x) := by
  rcases Nat.lt_trichotomy i xs.length with hlt | heq | hgt
  · exact Or.inl (by rwa [List.getElem?_append_left hlt] at h)
  · subst heq
    rw [List.getElem?_concat_length, Option.some.injEq] at h
    exact Or.inr ⟨rfl, h.symm⟩
  · rw [List.getElem?_eq_none (by rw [List.length_append, List.length_singleton]; omega)] at h
    cases h

theorem Grown.mapped_addSchema {grow : Nat → Nat} {names : List String} {v : SchemaVars}
    (h : Grown grow names v) {name : String} (hname : name ∉ names) (i : Nat) (other : String)
    (hother : (names ++ [name])[i]? = some other) :
    ∃ p, (v.addSchema grow name).schemaMap.lookup other = some p ∧ p.index = i ∧
      p.array < (v.addSchema grow name).heap.arrays.length ∧
      (p.array = (v.addSchema grow name).schemas.array ↔
        SliceHeap.lastMove grow (names.length + 1) ≤ i) := by
  have hlastLe := SliceHeap.lastMove_le grow names.length
  unfold SchemaVars.addSchema SliceHeap.lastMove
  dsimp only
  rw [SliceHeap.length_arrays_append]
  rcases getElem?_append_singleton hother with hold | ⟨rfl, rfl⟩
  · -- An earlier name keeps its pointer.
    have hne : other ≠ name := fun heq => hname (heq ▸ List.mem_of_getElem? hold)
    obtain ⟨hlt, -⟩ := List.getElem?_eq_some_iff.1 hold
    obtain ⟨p, hp, hindex, hin, harray⟩ := h.mapped i other hold
    refine ⟨p, by rw [AList.lookup_insert_ne hne, hp], hindex, ?_, ?_⟩
    · split
      · exact hin
      · exact Nat.lt_succ_of_lt hin
    · by_cases hroom : v.schemas.len < v.schemas.cap
      · rw [SliceHeap.array_append_room hroom, if_pos (h.room_iff.1 hroom)]
        exact harray
      · -- The slice moves away from every array there was.
        rw [SliceHeap.array_append_full hroom, if_neg fun hc => hroom (h.room_iff.2 hc)]
        constructor
        · intro heq
          omega
        · intro hle
          omega
  · refine ⟨_, AList.lookup_insert _, ?_, ?_, ?_⟩
    · unfold SliceHeader.ptr
      dsimp only
      rw [SliceHeap.len_append, h.len, Nat.add_sub_cancel]
    · unfold SliceHeader.ptr
      dsimp only
      by_cases hroom : v.schemas.len < v.schemas.cap
      · obtain ⟨array, harray, -⟩ := h.allocated.array (by omega)
        rw [SliceHeap.array_append_room hroom, if_pos hroom]
        exact (List.getElem?_eq_some_iff.1 harray).1
      · rw [SliceHeap.array_append_full hroom, if_neg hroom]
        exact Nat.lt_succ_self _
    · refine iff_of_true rfl ?_
      split
      · exact hlastLe
      · exact Nat.le_refl _

theorem Grown.addSchema {grow : Nat → Nat} (hgrow : ∀ cap, cap < grow cap) {names : List String}
    {v : SchemaVars} (h : Grown grow names v) {name : String} (hname : name ∉ names) :
    Grown grow (names ++ [name]) (v.addSchema grow name) where
  allocated := h.allocated.append hgrow _
  len := by
    rw [List.length_append, List.length_singleton, ← h.len]
    exact SliceHeap.len_append _
  cap := by
    rw [List.length_append, List.length_singleton]
    unfold SchemaVars.addSchema SliceHeap.capAfter
    dsimp only
    rw [SliceHeap.cap_append, h.len, h.cap]
  list := by
    unfold SchemaVars.addSchema SchemaVars.list
    dsimp only
    rw [SliceHeap.contents_append h.allocated, List.map_append, ← h.list]
    rfl
  mapped := by
    intro i other hother
    rw [List.length_append, List.length_singleton]
    exact h.mapped_addSchema hname i other hother
  unmapped := by
    intro other hother
    rw [List.mem_append, List.mem_singleton, not_or] at hother
    unfold SchemaVars.addSchema
    dsimp only
    rw [AList.lookup_insert_ne hother.2]
    exact h.unmapped other hother.1

theorem grown_foldl {grow : Nat → Nat} (hgrow : ∀ cap, cap < grow cap) {names : List String}
    (hnames : names.Nodup) : Grown grow names (names.foldl (SchemaVars.addSchema grow) {}) := by
  induction names using List.reverseRecOn with
  | nil => exact grown_nil grow
  | append_singleton names name ih =>
      obtain ⟨hold, -, hnew⟩ := List.nodup_append.1 hnames
      rw [List.foldl_append]
      apply (ih hold).addSchema hgrow
      intro hmem
      exact hnew name hmem name (List.mem_singleton_self name) rfl

/-! ## Which tables arrive -/

namespace SchemaVars

/-- The row is attached to the element that the slice shows at place `i`. -/
def Reaches (v : SchemaVars) (i : Nat) (row : TableRow) : Prop :=
  v.schemaMap.lookup row.schema = some (v.schemas.ptr i)

instance (v : SchemaVars) (i : Nat) (row : TableRow) : Decidable (v.Reaches i row) :=
  inferInstanceAs (Decidable (_ = _))

theorem addTable_none {v : SchemaVars} {row : TableRow}
    (h : v.schemaMap.lookup row.schema = none) : v.addTable row = v := by
  unfold addTable
  rw [h]

theorem addTable_some {v : SchemaVars} {row : TableRow} {si : ElemPtr}
    (h : v.schemaMap.lookup row.schema = some si) :
    v.addTable row = { v with heap := v.heap.update si fun s => s.attach row.info } := by
  unfold addTable
  rw [h]

theorem schemaMap_addTable (v : SchemaVars) (row : TableRow) :
    (v.addTable row).schemaMap = v.schemaMap := by
  unfold addTable
  split
  · rfl
  · rfl

theorem schemas_addTable (v : SchemaVars) (row : TableRow) :
    (v.addTable row).schemas = v.schemas := by
  unfold addTable
  split
  · rfl
  · rfl

theorem reaches_iff {v : SchemaVars} {row : TableRow} {si : ElemPtr} {i : Nat}
    (h : v.schemaMap.lookup row.schema = some si) :
    v.Reaches i row ↔ si.array = v.schemas.array ∧ si.index = i := by
  unfold Reaches SliceHeader.ptr
  rw [h, Option.some.injEq]
  constructor
  · rintro rfl
    exact ⟨rfl, rfl⟩
  · rintro ⟨harray, rfl⟩
    rw [← harray]

theorem getElem?_addTable (v : SchemaVars) (row : TableRow) (i : Nat) :
    (v.addTable row).list[i]? =
      v.list[i]?.map fun s => if v.Reaches i row then s.attach row.info else s := by
  rcases hlookup : v.schemaMap.lookup row.schema with _ | si
  · have hnot : ¬v.Reaches i row := by
      unfold Reaches
      rw [hlookup]
      exact Option.some_ne_none _ ∘ Eq.symm
    rw [addTable_none hlookup]
    simp [hnot]
  · rw [addTable_some hlookup]
    simp only [reaches_iff hlookup]
    unfold list
    dsimp only
    by_cases harray : si.array = v.schemas.array
    · rw [SliceHeap.contents_update_same _ _ harray, List.getElem?_modify]
      by_cases hi : si.index = i
      · simp [harray, hi]
      · simp [hi]
    · -- The pointer leads into an array that the slice has left.
      rw [SliceHeap.contents_update_other _ _ harray]
      simp [harray]

theorem addTables_spec (v : SchemaVars) (rows : List TableRow) :
    (rows.foldl addTable v).schemas = v.schemas ∧
      ∀ i : Nat, (rows.foldl addTable v).list[i]? =
        v.list[i]?.map fun s =>
          (rows.filter fun row => v.Reaches i row).foldl (fun s row => s.attach row.info) s := by
  induction rows generalizing v with
  | nil => simp
  | cons row rows ih =>
      obtain ⟨hschemas, hlist⟩ := ih (v.addTable row)
      rw [List.foldl_cons]
      refine ⟨hschemas.trans (schemas_addTable v row), fun i => ?_⟩
      have hreaches : ∀ other, (v.addTable row).Reaches i other ↔ v.Reaches i other := by
        intro other
        unfold Reaches
        rw [schemaMap_addTable, schemas_addTable]
      rw [hlist i, getElem?_addTable, Option.map_map]
      congr 1
      funext s
      simp only [Function.comp_apply, hreaches, List.filter_cons, decide_eq_true_eq]
      split
      · rfl
      · rfl

/-- The sizes of the first `n` schemas have been calculated. -/
theorem getElem?_sizes (heap : SliceHeap SchemaInfo) (schemas : SliceHeader) (n i : Nat) :
    (((List.range n).foldl (fun heap j => heap.update (schemas.ptr j) SchemaInfo.sized)
        heap).contents schemas)[i]? =
      (heap.contents schemas)[i]?.map fun s => if i < n then s.sized else s := by
  induction n with
  | zero => simp
  | succ n ih =>
      rw [List.range_succ, List.foldl_append, List.foldl_cons, List.foldl_nil,
        SliceHeap.contents_update_same _ _ rfl, List.getElem?_modify, ih]
      rcases Nat.lt_trichotomy i n with hlt | rfl | hgt
      · have hne : n ≠ i := by omega
        have hlater : i < n + 1 := by omega
        simp [SliceHeader.ptr, hne, hlt, hlater]
      · simp [SliceHeader.ptr]
      · have hne : n ≠ i := by omega
        have hnot : ¬i < n := by omega
        have hlater : ¬i < n + 1 := by omega
        simp [SliceHeader.ptr, hne, hnot, hlater]

theorem list_addSizes (v : SchemaVars) (hv : v.list.length ≤ v.schemas.len) :
    v.addSizes.list = v.list.map SchemaInfo.sized := by
  apply List.ext_getElem?
  intro i
  have hsizes : v.addSizes.list[i]? =
      v.list[i]?.map fun s => if i < v.schemas.len then s.sized else s :=
    getElem?_sizes v.heap v.schemas v.schemas.len i
  rw [hsizes, List.getElem?_map]
  by_cases hi : i < v.schemas.len
  · simp [hi]
  · rw [List.getElem?_eq_none (by omega)]
    rfl

theorem length_list_le (v : SchemaVars) : v.list.length ≤ v.schemas.len :=
  List.length_take_le _ _

end SchemaVars

/-! ## What the schemas of a database show -/

/-- The rows that are attached to one schema, one after the other. -/
theorem foldl_attach (rows : List TableRow) (s : SchemaInfo) :
    rows.foldl (fun s row => s.attach row.info) s =
      { s with
        tables := s.tables ++ rows.map TableRow.info
        tableCount := s.tableCount + rows.length } := by
  induction rows generalizing s with
  | nil => simp
  | cons row rows ih =>
      rw [List.foldl_cons, ih]
      simp [SchemaInfo.attach, Nat.add_comm, Nat.add_left_comm]

/-- Of the tables of a schema all arrive when its pointer still leads into the slice, and none
otherwise. -/
theorem Grown.reaches_iff {grow : Nat → Nat} {names : List String} {v : SchemaVars}
    (h : Grown grow names v) {i : Nat} {name : String} (hname : names[i]? = some name)
    (hnodup : names.Nodup) (row : TableRow) :
    v.Reaches i row ↔ row.schema = name ∧ SliceHeap.lastMove grow names.length ≤ i := by
  by_cases hmem : row.schema ∈ names
  · obtain ⟨j, hj⟩ := List.mem_iff_getElem?.1 hmem
    obtain ⟨p, hp, hindex, -, harray⟩ := h.mapped j row.schema hj
    rw [SchemaVars.reaches_iff hp, hindex, harray]
    -- Names are distinct, so the place in the list is determined by the name.
    have hsame : row.schema = name ↔ j = i := by
      obtain ⟨hlt, -⟩ := List.getElem?_eq_some_iff.1 hj
      constructor
      · intro heq
        exact (List.getElem?_inj hlt hnodup).1 (by rw [hj, hname, heq])
      · rintro rfl
        rw [hj] at hname
        exact Option.some.inj hname
    rw [hsame]
    constructor
    · rintro ⟨hle, rfl⟩
      exact ⟨rfl, hle⟩
    · rintro ⟨rfl, hle⟩
      exact ⟨hle, rfl⟩
  · -- A schema that was not listed has no entry in the map, and none in the answer.
    have hnone := h.unmapped row.schema hmem
    unfold SchemaVars.Reaches
    rw [hnone]
    constructor
    · exact fun hc => absurd hc.symm (Option.some_ne_none _)
    · rintro ⟨rfl, -⟩
      exact absurd (List.mem_of_getElem? hname) hmem

/-- A schema with its tables, count and size. -/
def schemaOf (name : String) (tables : List TableInfo) : SchemaInfo where
  name := name
  tables := tables
  tableCount := tables.length
  size := formatBytesGo (totalSize tables)

/-- The tables that arrive at the schema at place `i`. -/
def arriving (grow : Nat → Nat) (names : List String) (rows : List TableRow) (i : Nat)
    (name : String) : List TableInfo :=
  (rows.filter fun row =>
    row.schema = name ∧ SliceHeap.lastMove grow names.length ≤ i).map TableRow.info

theorem getElem?_schemas {grow : Nat → Nat} (hgrow : ∀ cap, cap < grow cap)
    {names : List String} (hnodup : names.Nodup) (rows : List TableRow) (db : DatabaseInfo)
    (i : Nat) :
    (fillDatabase grow db ⟨.ok names, .ok rows⟩).1.schemas[i]? =
      names[i]?.map fun name => schemaOf name (arriving grow names rows i name) := by
  have hgrown := grown_foldl hgrow hnodup
  unfold fillDatabase
  dsimp only
  rw [SchemaVars.list_addSizes _ (SchemaVars.length_list_le _), List.getElem?_map,
    (SchemaVars.addTables_spec _ rows).2 i, hgrown.list, List.getElem?_map]
  cases hname : names[i]? with
  | none => rfl
  | some name =>
      simp only [Option.map_some, hgrown.reaches_iff hname hnodup, foldl_attach, SchemaInfo.sized,
        List.nil_append, Nat.zero_add, schemaOf, arriving, List.length_map]

/-- Where the slice has moved for the last time, all tables of a schema arrive. -/
theorem arriving_eq {grow : Nat → Nat} {names : List String} {rows : List TableRow} {i : Nat}
    {name : String} (h : AfterLastMove grow names rows) (hname : names[i]? = some name) :
    arriving grow names rows i name =
      (rows.filter fun row => row.schema = name).map TableRow.info := by
  unfold arriving
  congr 1
  apply List.filter_congr
  intro row hrow
  apply decide_eq_decide.2
  constructor
  · exact fun hboth => hboth.1
  · rintro rfl
    exact ⟨rfl, h row hrow i hname⟩

/-- Every table of a database is listed exactly if all its schemas with tables were appended after
the slice had moved for the last time. -/
theorem noTableLost_iff {grow : Nat → Nat} (hgrow : ∀ cap, cap < grow cap)
    {names : List String} (hnodup : names.Nodup) (rows : List TableRow) (db : DatabaseInfo) :
    NoTableLost names rows (fillDatabase grow db ⟨.ok names, .ok rows⟩).1 ↔
      AfterLastMove grow names rows := by
  have hschemas := getElem?_schemas hgrow hnodup rows db
  generalize (fillDatabase grow db ⟨.ok names, .ok rows⟩).1 = info at hschemas ⊢
  constructor
  · intro h row hrow i hi
    have hschema := hschemas i
    rw [hi, Option.map_some] at hschema
    -- The row is among the tables of its schema, so some row of the schema has arrived.
    have hperm := h.tables _ (List.mem_of_getElem? hschema)
    have hmem : row.info ∈ (rows.filter fun other => other.schema = row.schema).map TableRow.info :=
      List.mem_map.2 ⟨row, List.mem_filter.2 ⟨hrow, decide_eq_true rfl⟩, rfl⟩
    obtain ⟨other, hother, -⟩ := List.mem_map.1 (hperm.mem_iff.2 hmem)
    exact (of_decide_eq_true (List.mem_filter.1 hother).2).2
  · intro h
    have hinfo : ∀ s ∈ info.schemas, ∃ i name, names[i]? = some name ∧
        s = schemaOf name (arriving grow names rows i name) := by
      intro s hs
      obtain ⟨i, hi⟩ := List.mem_iff_getElem?.1 hs
      rw [hschemas i, Option.map_eq_some_iff] at hi
      obtain ⟨name, hname, heq⟩ := hi
      exact ⟨i, name, hname, heq.symm⟩
    refine ⟨?_, ?_, ?_, ?_⟩
    · apply List.ext_getElem?
      intro i
      rw [List.getElem?_map, hschemas i, Option.map_map]
      exact Option.map_id'
    · intro s hs
      obtain ⟨i, name, hname, rfl⟩ := hinfo s hs
      exact List.Perm.of_eq (arriving_eq h hname)
    · intro s hs
      obtain ⟨i, name, -, rfl⟩ := hinfo s hs
      rfl
    · intro s hs
      obtain ⟨i, name, -, rfl⟩ := hinfo s hs
      rfl

/-! ## The answer -/

/-- In the overview, every database with its schemas and tables: nothing is lost exactly if its
schemas with tables were appended after the slice had moved for the last time. -/
theorem no_table_lost_iff (grow : Nat → Nat) (version startTime : String)
    (dbRows : RowStream DatabaseRow) (getPool : String → Except String DatabasePool) (i : Nat)
    (db : DatabaseRow) (names : List String) (rows : List TableRow)
    (hgrow : ∀ cap, cap < grow cap) (hdb : dbRows.readable[i]? = some db)
    (hpool : getPool db.name = .ok ⟨.ok names, .ok rows⟩) (hnodup : names.Nodup) :
    ∃ overview info,
      (getOverview grow version startTime (.ok dbRows) getPool).body.data = some overview ∧
      overview.databases[i]? = some info ∧
      (NoTableLost names rows info ↔ AfterLastMove grow names rows) := by
  refine ⟨_, (fillDatabase grow db.info ⟨.ok names, .ok rows⟩).1, rfl, ?_,
    noTableLost_iff hgrow hnodup rows db.info⟩
  rw [List.getElem?_map, List.getElem?_map, hdb, Option.map_some, Option.map_some, hpool]

/-! ## Two schemas -/

/-- The capacities 1, 2, 4 and so on of a short slice of these elements. -/
def doubling (cap : Nat) : Nat :=
  if cap = 0 then 1 else 2 * cap

theorem doubling_grows (cap : Nat) : cap < doubling cap := by
  unfold doubling
  split
  · omega
  · omega

def sampleDatabase : DatabaseRow :=
  { name := "app", sizeRaw := "8192", sizeBytes := 8192, owner := "app", encoding := "UTF8" }

def sampleTable (schema : String) : TableRow :=
  { schema := schema, name := "users", rows := 1, size := "8192 bytes", sizeBytes := 8192,
    tableBytes := 8192, indexBytes := 0, toastBytes := 0 }

def sampleStream : RowStream DatabaseRow :=
  .ofRows [sampleDatabase] none

/-- A table of the last schema is kept. -/
theorem no_table_lost_iff_doubling :
    (∀ cap, cap < doubling cap) ∧ AfterLastMove doubling ["app", "public"] [sampleTable "public"] ∧
    ∃ overview info,
      (getOverview doubling "" "" (.ok sampleStream) fun _ =>
          .ok ⟨.ok ["app", "public"], .ok [sampleTable "public"]⟩).body.data = some overview ∧
      overview.databases[0]? = some info ∧
      (NoTableLost ["app", "public"] [sampleTable "public"] info ↔
        AfterLastMove doubling ["app", "public"] [sampleTable "public"]) := by
  refine ⟨doubling_grows, ?_, ?_⟩
  · intro row hrow i hi
    rw [List.mem_singleton.1 hrow] at hi
    match i with
    | 0 => exact absurd hi (by decide)
    | 1 => decide
    | i + 2 => exact absurd hi (by simp)
  · exact no_table_lost_iff doubling "" "" sampleStream _ 0 sampleDatabase ["app", "public"]
      [sampleTable "public"] doubling_grows rfl rfl (by decide)

/-- With two schemas, a table of the first one does not appear. -/
theorem first_schema_loses_table :
    ¬∀ (grow : Nat → Nat) (dbRows : RowStream DatabaseRow)
        (getPool : String → Except String DatabasePool) (i : Nat) (db : DatabaseRow)
        (names : List String) (rows : List TableRow) (overview : Overview) (info : DatabaseInfo),
      (∀ cap, cap < grow cap) → dbRows.readable[i]? = some db →
      getPool db.name = .ok ⟨.ok names, .ok rows⟩ → names.Nodup →
      (getOverview grow "" "" (.ok dbRows) getPool).body.data = some overview →
      overview.databases[i]? = some info → NoTableLost names rows info := by
  intro hall
  have hlost := hall doubling sampleStream
    (fun _ => .ok ⟨.ok ["app", "public"], .ok [sampleTable "app"]⟩) 0 sampleDatabase
    ["app", "public"] [sampleTable "app"] _ _ doubling_grows rfl rfl (by decide) rfl rfl
  have hcondition := (noTableLost_iff doubling_grows (by decide) _ _).1 hlost
  -- The first schema was appended before the slice moved to its second array.
  exact absurd (hcondition (sampleTable "app") List.mem_cons_self 0 rfl) (by decide)

end ServerOverview
end Handler
end Pgaio
