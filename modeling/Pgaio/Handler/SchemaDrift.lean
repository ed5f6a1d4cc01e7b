import Pgaio.Handler.Schema

/-!
# SchemaDrift — when the drift report is exact

Names and details are joined without escaping, so two objects may be joined to one text: the table
`c` of the schema `a.b` and the table `b.c` of the schema `a` are both `a.b.c`.  `empty_iff_joinedAlike`
says what the report compares, `drift_exact_iff` for which databases that is the comparison of their
rows.  Identifiers without the separators are always told apart (`Plain.unambiguous`,
`Plain.apart`).

A snapshot is complete when every row has been read (`keeps_iff`).  The loops do not look at the error
with which a stream ends, so a stream that was cut off makes objects disappear
(`complete_or_refused_iff`).
-/

namespace Pgaio
namespace Handler

open Go Model Database

/-- The rows of the four catalog queries. -/
structure Catalog where
  tables : List TableRow := []
  columns : List ColumnRow := []
  indexes : List IndexRow := []
  extensions : List ExtensionRow := []
  deriving DecidableEq, Repr

/-- A pool that hands out every row. -/
def Catalog.pool (c : Catalog) : SchemaPool where
  tableRows := .ok (.ofRows c.tables none)
  columnRows := .ok (.ofRows c.columns none)
  indexRows := .ok (.ofRows c.indexes none)
  extensionRows := .ok (.ofRows c.extensions none)

/-! ## Properties of all four kinds of rows -/

/-- A property of the rows of one kind, with their names and details, in two databases. -/
abbrev RowsRelation := ∀ {α : Type}, (α → String) → (α → String) → List α → List α → Prop

structure EachKind (P : RowsRelation) (a b : Catalog) : Prop where
  tables : P TableRow.key TableRow.detail a.tables b.tables
  columns : P ColumnRow.key ColumnRow.detail a.columns b.columns
  indexes : P IndexRow.key IndexRow.detail a.indexes b.indexes
  extensions : P ExtensionRow.key ExtensionRow.detail a.extensions b.extensions

variable {a b : Catalog}

theorem EachKind.imp {P Q : RowsRelation}
    (himp : ∀ {α : Type} (key detail : α → String) (xs ys : List α),
      P key detail xs ys → Q key detail xs ys) (h : EachKind P a b) : EachKind Q a b where
  tables := himp _ _ _ _ h.tables
  columns := himp _ _ _ _ h.columns
  indexes := himp _ _ _ _ h.indexes
  extensions := himp _ _ _ _ h.extensions

theorem EachKind.and {P Q : RowsRelation} (hP : EachKind P a b) (hQ : EachKind Q a b) :
    EachKind (fun key detail xs ys => P key detail xs ys ∧ Q key detail xs ys) a b where
  tables := ⟨hP.tables, hQ.tables⟩
  columns := ⟨hP.columns, hQ.columns⟩
  indexes := ⟨hP.indexes, hQ.indexes⟩
  extensions := ⟨hP.extensions, hQ.extensions⟩

/-- Two databases with the same rows, whatever their order. -/
def Catalog.SameRows (a b : Catalog) : Prop :=
  EachKind (fun _ _ xs ys => ∀ r, r ∈ xs ↔ r ∈ ys) a b

/-- Different rows of the database have different names. -/
def Catalog.Unambiguous (c : Catalog) : Prop :=
  EachKind (fun key _ rows _ => Handler.Unambiguous key rows) c c

/-- Every row has a row in the other database that is joined to the same name and detail. -/
def Catalog.JoinedAlike (a b : Catalog) : Prop :=
  EachKind (fun key detail xs ys =>
    (∀ r ∈ xs, ∃ s ∈ ys, key s = key r ∧ detail s = detail r) ∧
      ∀ s ∈ ys, ∃ r ∈ xs, key r = key s ∧ detail r = detail s) a b

/-- No row is joined to the same name and detail as a different row of the other database. -/
def Catalog.Apart (a b : Catalog) : Prop :=
  EachKind (fun key detail xs ys =>
    ∀ r ∈ xs, ∀ s ∈ ys, key r = key s → detail r = detail s → r = s) a b

theorem Catalog.SameRows.joinedAlike (h : a.SameRows b) : a.JoinedAlike b := by
  refine EachKind.imp (fun key detail xs ys hsame => ?_) h
  constructor
  · intro r hr
    exact ⟨r, (hsame r).1 hr, rfl, rfl⟩
  · intro s hs
    exact ⟨s, (hsame s).2 hs, rfl, rfl⟩

/-- Rows that are joined alike and to nothing else are the same. -/
theorem Catalog.JoinedAlike.sameRows (h : a.JoinedAlike b) (hapart : a.Apart b) : a.SameRows b := by
  refine EachKind.imp (fun key detail xs ys hboth r => ?_) (EachKind.and h hapart)
  obtain ⟨⟨hleft, hright⟩, hapart⟩ := hboth
  constructor
  · intro hr
    obtain ⟨s, hs, hkey, hdetail⟩ := hleft r hr
    exact hapart r hr s hs hkey.symm hdetail.symm ▸ hs
  · intro hr
    obtain ⟨s, hs, hkey, hdetail⟩ := hright r hr
    exact hapart s hs r hr hkey hdetail ▸ hs

theorem Catalog.SameRows.apart (h : a.SameRows b) (hb : b.Unambiguous) : a.Apart b where
  tables r hr s hs hkey _ := hb.tables r ((h.tables r).1 hr) s hs hkey
  columns r hr s hs hkey _ := hb.columns r ((h.columns r).1 hr) s hs hkey
  indexes r hr s hs hkey _ := hb.indexes r ((h.indexes r).1 hr) s hs hkey
  extensions r hr s hs hkey _ := hb.extensions r ((h.extensions r).1 hr) s hs hkey

/-! ## Complete snapshots -/

/-- The snapshot has an entry of its own for every row. -/
structure SchemaSnapshot.Keeps (s : SchemaSnapshot) (c : Catalog) : Prop where
  tables : Handler.Keeps TableRow.key TableRow.detail s.tables c.tables
  columns : Handler.Keeps ColumnRow.key ColumnRow.detail s.columns c.columns
  indexes : Handler.Keeps IndexRow.key IndexRow.detail s.indexes c.indexes
  extensions : Handler.Keeps ExtensionRow.key ExtensionRow.detail s.extensions c.extensions

/-- What the pool hands out are rows of the database. -/
structure SchemaPool.Delivers (pool : SchemaPool) (c : Catalog) : Prop where
  tables : ∀ stream, pool.tableRows = .ok stream → stream.Delivers c.tables
  columns : ∀ stream, pool.columnRows = .ok stream → stream.Delivers c.columns
  indexes : ∀ stream, pool.indexRows = .ok stream → stream.Delivers c.indexes
  extensions : ∀ stream, pool.extensionRows = .ok stream → stream.Delivers c.extensions

/-- Every row of the database can be read. -/
structure SchemaPool.ReadsAll (pool : SchemaPool) (c : Catalog) : Prop where
  tables : ∀ stream, pool.tableRows = .ok stream → ∀ r ∈ c.tables, r ∈ stream.readable
  columns : ∀ stream, pool.columnRows = .ok stream → ∀ r ∈ c.columns, r ∈ stream.readable
  indexes : ∀ stream, pool.indexRows = .ok stream → ∀ r ∈ c.indexes, r ∈ stream.readable
  extensions : ∀ stream, pool.extensionRows = .ok stream → ∀ r ∈ c.extensions, r ∈ stream.readable

/-- One of the queries is refused. -/
def SchemaPool.Refuses (pool : SchemaPool) : Prop :=
  (∃ err, pool.tableRows = .error err) ∨ (∃ err, pool.columnRows = .error err) ∨
    (∃ err, pool.indexRows = .error err) ∨ ∃ err, pool.extensionRows = .error err

theorem Catalog.pool_delivers (c : Catalog) : c.pool.Delivers c where
  tables stream h := by
    cases h
    exact RowStream.delivers_ofRows c.tables
  columns stream h := by
    cases h
    exact RowStream.delivers_ofRows c.columns
  indexes stream h := by
    cases h
    exact RowStream.delivers_ofRows c.indexes
  extensions stream h := by
    cases h
    exact RowStream.delivers_ofRows c.extensions

theorem Catalog.pool_readsAll (c : Catalog) : c.pool.ReadsAll c where
  tables stream h r hr := by
    cases h
    simpa using hr
  columns stream h r hr := by
    cases h
    simpa using hr
  indexes stream h r hr := by
    cases h
    simpa using hr
  extensions stream h r hr := by
    cases h
    simpa using hr

/-- The snapshot of four streams. -/
def snapshotOf (tables : RowStream TableRow) (columns : RowStream ColumnRow)
    (indexes : RowStream IndexRow) (extensions : RowStream ExtensionRow) : SchemaSnapshot where
  tables := scanInto TableRow.key TableRow.detail ∅ tables
  columns := scanInto ColumnRow.key ColumnRow.detail ∅ columns
  indexes := scanInto IndexRow.key IndexRow.detail ∅ indexes
  extensions := scanInto ExtensionRow.key ExtensionRow.detail ∅ extensions

/-- Loading fails when a query is refused, and for no other reason. -/
theorem load_cases (pool : SchemaPool) :
    (pool.Refuses ∧ ∃ err, loadSchemaSnapshot pool = .error err) ∨
      ∃ t c i e, pool.tableRows = .ok t ∧ pool.columnRows = .ok c ∧ pool.indexRows = .ok i ∧
        pool.extensionRows = .ok e ∧ loadSchemaSnapshot pool = .ok (snapshotOf t c i e) := by
  obtain ⟨tables, columns, indexes, extensions⟩ := pool
  cases tables with
  | error err =>
      exact Or.inl ⟨Or.inl ⟨err, rfl⟩, err, rfl⟩
  | ok t =>
      cases columns with
      | error err =>
          exact Or.inl ⟨Or.inr (Or.inl ⟨err, rfl⟩), err, rfl⟩
      | ok c =>
          cases indexes with
          | error err =>
              exact Or.inl ⟨Or.inr (Or.inr (Or.inl ⟨err, rfl⟩)), err, rfl⟩
          | ok i =>
              cases extensions with
              | error err =>
                  exact Or.inl ⟨Or.inr (Or.inr (Or.inr ⟨err, rfl⟩)), err, rfl⟩
              | ok e =>
                  exact Or.inr ⟨t, c, i, e, rfl, rfl, rfl, rfl, rfl⟩

theorem not_refuses_of_load {pool : SchemaPool} {s : SchemaSnapshot}
    (h : loadSchemaSnapshot pool = .ok s) : ¬pool.Refuses := by
  intro hrefuses
  rcases load_cases pool with ⟨-, err, herr⟩ | ⟨t, c, i, e, ht, hc, hi, he, -⟩
  · rw [h] at herr
    cases herr
  · rcases hrefuses with ⟨err, herr⟩ | ⟨err, herr⟩ | ⟨err, herr⟩ | ⟨err, herr⟩
    · rw [ht] at herr
      cases herr
    · rw [hc] at herr
      cases herr
    · rw [hi] at herr
      cases herr
    · rw [he] at herr
      cases herr

/-- One kind of rows: the map that the loop fills keeps all of them exactly when all have been read
and their names are unambiguous. -/
theorem keeps_scanInto_iff {α : Type} {key detail : α → String} {stream : RowStream α}
    {rows : List α} (h : stream.Delivers rows) :
    Keeps key detail (scanInto key detail ∅ stream) rows ↔
      Handler.Unambiguous key rows ∧ ∀ r ∈ rows, r ∈ stream.readable := by
  rw [scanInto_empty]
  exact keeps_ofEntries_iff fun r hr => h.readable_sublist.subset hr

/-- What holds of every result of an accepted query holds of its one result. -/
theorem forall_ok_iff {α : Type} {query : Except String α} {result : α} (h : query = .ok result)
    {p : α → Prop} : (∀ stream, query = .ok stream → p stream) ↔ p result := by
  constructor
  · exact fun hall => hall result h
  · intro hp stream hstream
    exact Except.ok.inj (h.symm.trans hstream) ▸ hp

/-- A snapshot keeps every row exactly when every row has been read and the names are unambiguous. -/
theorem keeps_iff {pool : SchemaPool} {c : Catalog} {s : SchemaSnapshot} (h : pool.Delivers c)
    (hload : loadSchemaSnapshot pool = .ok s) :
    s.Keeps c ↔ c.Unambiguous ∧ pool.ReadsAll c := by
  rcases load_cases pool with ⟨-, err, herr⟩ | ⟨ts, cs, is, es, ht, hc, hi, he, hok⟩
  · rw [hload] at herr
    cases herr
  · have hs : s = snapshotOf ts cs is es := Except.ok.inj (hload.symm.trans hok)
    subst hs
    -- Each of the four result sets is kept on its own.
    have htables :=
      @keeps_scanInto_iff _ TableRow.key TableRow.detail _ _ (h.tables ts ht)
    have hcolumns :=
      @keeps_scanInto_iff _ ColumnRow.key ColumnRow.detail _ _ (h.columns cs hc)
    have hindexes :=
      @keeps_scanInto_iff _ IndexRow.key IndexRow.detail _ _ (h.indexes is hi)
    have hextensions :=
      @keeps_scanInto_iff _ ExtensionRow.key ExtensionRow.detail _ _ (h.extensions es he)
    constructor
    · intro hkeeps
      have ht' := htables.1 hkeeps.tables
      have hc' := hcolumns.1 hkeeps.columns
      have hi' := hindexes.1 hkeeps.indexes
      have he' := hextensions.1 hkeeps.extensions
      refine ⟨⟨ht'.1, hc'.1, hi'.1, he'.1⟩, ⟨?_, ?_, ?_, ?_⟩⟩
      · exact (forall_ok_iff ht).2 ht'.2
      · exact (forall_ok_iff hc).2 hc'.2
      · exact (forall_ok_iff hi).2 hi'.2
      · exact (forall_ok_iff he).2 he'.2
    · rintro ⟨hunambiguous, hreads⟩
      exact ⟨htables.2 ⟨hunambiguous.tables, hreads.tables ts ht⟩,
        hcolumns.2 ⟨hunambiguous.columns, hreads.columns cs hc⟩,
        hindexes.2 ⟨hunambiguous.indexes, hreads.indexes is hi⟩,
        hextensions.2 ⟨hunambiguous.extensions, hreads.extensions es he⟩⟩

/-! ## What the report compares -/

/-- Nothing is reported. -/
def DriftSummary.Empty (d : DriftSummary) : Prop :=
  d = { tableOnlyInSource := [], tableOnlyInTarget := [], tableChanged := []
        columnOnlyInSource := [], columnOnlyInTarget := [], columnChanged := []
        indexOnlyInSource := [], indexOnlyInTarget := [], indexChanged := []
        extensionOnlyInSource := [], extensionOnlyInTarget := [], extensionChanged := [] }

instance (d : DriftSummary) : Decidable d.Empty :=
  inferInstanceAs (Decidable (d = _))

/-- The report is empty exactly when the four pairs of maps agree. -/
theorem driftSummary_empty_iff (s t : SchemaSnapshot) :
    (driftSummary s t).Empty ↔
      (∀ k, s.tables.lookup k = t.tables.lookup k) ∧
        (∀ k, s.columns.lookup k = t.columns.lookup k) ∧
        (∀ k, s.indexes.lookup k = t.indexes.lookup k) ∧
        ∀ k, s.extensions.lookup k = t.extensions.lookup k := by
  rw [← diff_eq_nil_iff, ← diff_eq_nil_iff, ← diff_eq_nil_iff, ← diff_eq_nil_iff]
  unfold DriftSummary.Empty driftSummary
  rw [DriftSummary.mk.injEq]
  tauto

/-- Two maps that keep their rows agree exactly when the rows are joined alike. -/
theorem lookup_eq_iff_joinedAlike {α : Type} {key detail : α → String} {xs ys : List α}
    (hxs : Handler.Unambiguous key xs) (hys : Handler.Unambiguous key ys) :
    (∀ k, (scanInto key detail ∅ (.ofRows xs none)).lookup k =
        (scanInto key detail ∅ (.ofRows ys none)).lookup k) ↔
      (∀ r ∈ xs, ∃ s ∈ ys, key s = key r ∧ detail s = detail r) ∧
        ∀ s ∈ ys, ∃ r ∈ xs, key r = key s ∧ detail r = detail s := by
  have hkeeps (rows : List α) (h : Handler.Unambiguous key rows) :
      Keeps key detail (scanInto key detail ∅ (.ofRows rows none)) rows := by
    rw [keeps_scanInto_iff (RowStream.delivers_ofRows rows)]
    exact ⟨h, fun r hr => by simpa using hr⟩
  have hfound (rows : List α) (k v : String)
      (h : (scanInto key detail ∅ (.ofRows rows none)).lookup k = some v) :
      ∃ r ∈ rows, key r = k ∧ detail r = v := by
    rw [scanInto_empty, RowStream.readable_ofRows] at h
    exact mem_entries.1 (GoMap.mem_entries_of_lookup h)
  constructor
  · intro h
    constructor
    · intro r hr
      apply hfound
      rw [← h]
      exact (hkeeps xs hxs r hr).1
    · intro s hs
      apply hfound
      rw [h]
      exact (hkeeps ys hys s hs).1
  · rintro ⟨hleft, hright⟩ k
    -- An entry of either map is that of a row, and this row has a partner on the other side.
    apply Option.ext
    intro v
    constructor
    · intro hv
      obtain ⟨r, hr, rfl, rfl⟩ := hfound xs k v hv
      obtain ⟨s, hs, hkey, hdetail⟩ := hleft r hr
      rw [← hkey, ← hdetail]
      exact (hkeeps ys hys s hs).1
    · intro hv
      obtain ⟨s, hs, rfl, rfl⟩ := hfound ys k v hv
      obtain ⟨r, hr, hkey, hdetail⟩ := hright s hs
      rw [← hkey, ← hdetail]
      exact (hkeeps xs hxs r hr).1

/-- The snapshot of a database whose rows are all handed out. -/
def Catalog.snapshot (c : Catalog) : SchemaSnapshot :=
  snapshotOf (.ofRows c.tables none) (.ofRows c.columns none) (.ofRows c.indexes none)
    (.ofRows c.extensions none)

theorem Catalog.load_pool (c : Catalog) : loadSchemaSnapshot c.pool = .ok c.snapshot := rfl

theorem empty_iff_joinedAlike (ha : a.Unambiguous) (hb : b.Unambiguous) :
    (driftSummary a.snapshot b.snapshot).Empty ↔ a.JoinedAlike b := by
  rw [driftSummary_empty_iff]
  have htables := @lookup_eq_iff_joinedAlike _ _ TableRow.detail _ _ ha.tables hb.tables
  have hcolumns := @lookup_eq_iff_joinedAlike _ _ ColumnRow.detail _ _ ha.columns hb.columns
  have hindexes := @lookup_eq_iff_joinedAlike _ _ IndexRow.detail _ _ ha.indexes hb.indexes
  have hextensions :=
    @lookup_eq_iff_joinedAlike _ _ ExtensionRow.detail _ _ ha.extensions hb.extensions
  constructor
  · rintro ⟨ht, hc, hi, he⟩
    exact ⟨htables.1 ht, hcolumns.1 hc, hindexes.1 hi, hextensions.1 he⟩
  · intro h
    exact ⟨htables.2 h.tables, hcolumns.2 h.columns, hindexes.2 h.indexes,
      hextensions.2 h.extensions⟩

theorem Catalog.keeps_snapshot_iff (c : Catalog) : c.snapshot.Keeps c ↔ c.Unambiguous := by
  rw [keeps_iff c.pool_delivers c.load_pool]
  exact and_iff_left c.pool_readsAll

/-- The report on two databases is right and nothing of them is lost: it is empty exactly when their
rows are the same, and each snapshot keeps every row. -/
def DriftExact (a b : Catalog) : Prop :=
  ∃ s t, loadSchemaSnapshot a.pool = .ok s ∧ loadSchemaSnapshot b.pool = .ok t ∧
    ((driftSummary s t).Empty ↔ a.SameRows b) ∧ s.Keeps a ∧ t.Keeps b

theorem driftExact_iff_snapshots :
    DriftExact a b ↔
      ((driftSummary a.snapshot b.snapshot).Empty ↔ a.SameRows b) ∧
        a.Unambiguous ∧ b.Unambiguous := by
  rw [← a.keeps_snapshot_iff, ← b.keeps_snapshot_iff]
  constructor
  · rintro ⟨s, t, hs, ht, h⟩
    cases hs
    cases ht
    exact h
  · intro h
    exact ⟨a.snapshot, b.snapshot, a.load_pool, b.load_pool, h⟩

/-- The report is exact for two databases exactly when different rows of one database have different
names and, should all rows be joined alike, none is joined like a different row. -/
theorem drift_exact_iff (a b : Catalog) :
    DriftExact a b ↔
      a.Unambiguous ∧ b.Unambiguous ∧ (a.JoinedAlike b → a.Apart b) := by
  rw [driftExact_iff_snapshots]
  constructor
  · rintro ⟨hexact, ha, hb⟩
    refine ⟨ha, hb, fun halike => ?_⟩
    have hsame : a.SameRows b := hexact.1 ((empty_iff_joinedAlike ha hb).2 halike)
    exact hsame.apart hb
  · rintro ⟨ha, hb, hapart⟩
    refine ⟨?_, ha, hb⟩
    rw [empty_iff_joinedAlike ha hb]
    constructor
    · intro halike
      exact halike.sameRows (hapart halike)
    · intro hsame
      exact hsame.joinedAlike

/-- The table `c` of the schema `a.b`. -/
def dottedSchema : Catalog where
  tables := [{ schema := "a.b", table := "c", owner := "app", comment := "" }]

/-- The table `b.c` of the schema `a`. -/
def dottedTable : Catalog where
  tables := [{ schema := "a", table := "b.c", owner := "app", comment := "" }]

theorem dotted_unambiguous : dottedSchema.Unambiguous ∧ dottedTable.Unambiguous := by
  constructor <;> constructor <;> simp [Handler.Unambiguous, dottedSchema, dottedTable]

theorem dotted_joinedAlike : dottedSchema.JoinedAlike dottedTable := by
  constructor <;> decide

/-- The report on these two databases is empty though they have no table in common. -/
theorem dotted_names_confused : ¬∀ a b : Catalog, DriftExact a b := by
  intro h
  obtain ⟨hexact, -⟩ := driftExact_iff_snapshots.1 (h dottedSchema dottedTable)
  obtain ⟨hschema, htable⟩ := dotted_unambiguous
  have hsame : dottedSchema.SameRows dottedTable :=
    hexact.1 ((empty_iff_joinedAlike hschema htable).2 dotted_joinedAlike)
  have hmem := (hsame.tables { schema := "a.b", table := "c", owner := "app", comment := "" }).1
    (by decide)
  revert hmem
  decide

/-! ## Identifiers without separators -/

/-- What is joined by a separator that the first parts lack can be taken apart again. -/
theorem joined_inj {sep : Char} {x₁ x₂ y₁ y₂ : String} (hx : sep ∉ x₁.toList) (hy : sep ∉ y₁.toList)
    (h : x₁ ++ sep.toString ++ x₂ = y₁ ++ sep.toString ++ y₂) : x₁ = y₁ ∧ x₂ = y₂ := by
  have hlist : x₁.toList ++ sep :: x₂.toList = y₁.toList ++ sep :: y₂.toList := by
    simpa using congrArg String.toList h
  obtain ⟨hfirst, hrest⟩ := append_separator_inj_left hx hy hlist
  exact ⟨String.toList_injective hfirst, String.toList_injective hrest⟩

/-- The identifiers before the last dot of a name have no dots, and the details before the last bar
no bars. -/
structure Catalog.Plain (c : Catalog) : Prop where
  tableNames : ∀ r ∈ c.tables, '.' ∉ r.schema.toList
  tableDetails : ∀ r ∈ c.tables, '|' ∉ r.owner.toList
  columnNames : ∀ r ∈ c.columns, '.' ∉ r.schema.toList ∧ '.' ∉ r.table.toList
  columnDetails : ∀ r ∈ c.columns,
    '|' ∉ r.dataType.toList ∧ '|' ∉ r.nullable.toList ∧ '|' ∉ r.defaultValue.toList
  indexNames : ∀ r ∈ c.indexes, '.' ∉ r.schema.toList ∧ '.' ∉ r.table.toList

/-- The identifiers of an object determine its row. -/
structure Catalog.Identified (c : Catalog) : Prop where
  tables : ∀ r ∈ c.tables, ∀ s ∈ c.tables, r.schema = s.schema → r.table = s.table → r = s
  columns : ∀ r ∈ c.columns, ∀ s ∈ c.columns,
    r.schema = s.schema → r.table = s.table → r.column = s.column → r = s
  indexes : ∀ r ∈ c.indexes, ∀ s ∈ c.indexes,
    r.schema = s.schema → r.table = s.table → r.indexName = s.indexName → r = s
  extensions : ∀ r ∈ c.extensions, ∀ s ∈ c.extensions, r.name = s.name → r = s

/-- A name of three identifiers. -/
theorem joined_inj₃ {sep : Char} {x₁ x₂ x₃ y₁ y₂ y₃ : String} (hx₁ : sep ∉ x₁.toList)
    (hx₂ : sep ∉ x₂.toList) (hy₁ : sep ∉ y₁.toList) (hy₂ : sep ∉ y₂.toList)
    (h : x₁ ++ sep.toString ++ x₂ ++ sep.toString ++ x₃ =
      y₁ ++ sep.toString ++ y₂ ++ sep.toString ++ y₃) : x₁ = y₁ ∧ x₂ = y₂ ∧ x₃ = y₃ := by
  have hassoc : x₁ ++ sep.toString ++ (x₂ ++ sep.toString ++ x₃) =
      y₁ ++ sep.toString ++ (y₂ ++ sep.toString ++ y₃) := by
    simpa only [String.append_assoc] using h
  obtain ⟨hfirst, hrest⟩ := joined_inj hx₁ hy₁ hassoc
  exact ⟨hfirst, joined_inj hx₂ hy₂ hrest⟩

theorem TableRow.detail_inj {r s : TableRow} (hr : '|' ∉ r.owner.toList)
    (hs : '|' ∉ s.owner.toList) (h : r.detail = s.detail) :
    r.owner = s.owner ∧ r.comment = s.comment :=
  joined_inj hr hs h

theorem ColumnRow.detail_inj {r s : ColumnRow}
    (hr : '|' ∉ r.dataType.toList ∧ '|' ∉ r.nullable.toList ∧ '|' ∉ r.defaultValue.toList)
    (hs : '|' ∉ s.dataType.toList ∧ '|' ∉ s.nullable.toList ∧ '|' ∉ s.defaultValue.toList)
    (h : r.detail = s.detail) :
    r.dataType = s.dataType ∧ r.nullable = s.nullable ∧ r.defaultValue = s.defaultValue ∧
      r.maxLength = s.maxLength := by
  have hjoin (t : ColumnRow) :
      t.detail = t.dataType ++ "|" ++ t.nullable ++ "|" ++ (t.defaultValue ++ "|" ++ t.maxLength) := by
    rw [← String.append_assoc, ← String.append_assoc]
    rfl
  rw [hjoin, hjoin] at h
  obtain ⟨htype, hnullable, hrest⟩ := @joined_inj₃ '|' _ _ _ _ _ _ hr.1 hr.2.1 hs.1 hs.2.1 h
  obtain ⟨hdefault, hlength⟩ := @joined_inj '|' _ _ _ _ hr.2.2 hs.2.2 hrest
  exact ⟨htype, hnullable, hdefault, hlength⟩

theorem Catalog.Plain.unambiguous {c : Catalog} (h : c.Plain) (hid : c.Identified) :
    c.Unambiguous where
  tables r hr s hs hkey := by
    obtain ⟨hschema, htable⟩ :=
      @joined_inj '.' _ _ _ _ (h.tableNames r hr) (h.tableNames s hs) hkey
    exact hid.tables r hr s hs hschema htable
  columns r hr s hs hkey := by
    obtain ⟨hr₁, hr₂⟩ := h.columnNames r hr
    obtain ⟨hs₁, hs₂⟩ := h.columnNames s hs
    obtain ⟨hschema, htable, hcolumn⟩ := @joined_inj₃ '.' _ _ _ _ _ _ hr₁ hr₂ hs₁ hs₂ hkey
    exact hid.columns r hr s hs hschema htable hcolumn
  indexes r hr s hs hkey := by
    obtain ⟨hr₁, hr₂⟩ := h.indexNames r hr
    obtain ⟨hs₁, hs₂⟩ := h.indexNames s hs
    obtain ⟨hschema, htable, hindex⟩ := @joined_inj₃ '.' _ _ _ _ _ _ hr₁ hr₂ hs₁ hs₂ hkey
    exact hid.indexes r hr s hs hschema htable hindex
  extensions r hr s hs hkey := hid.extensions r hr s hs hkey

theorem Catalog.Plain.apart (ha : a.Plain) (hb : b.Plain) : a.Apart b where
  tables r hr s hs hkey hdetail := by
    obtain ⟨hschema, htable⟩ :=
      @joined_inj '.' _ _ _ _ (ha.tableNames r hr) (hb.tableNames s hs) hkey
    obtain ⟨howner, hcomment⟩ :=
      TableRow.detail_inj (ha.tableDetails r hr) (hb.tableDetails s hs) hdetail
    exact TableRow.ext hschema htable howner hcomment
  columns r hr s hs hkey hdetail := by
    obtain ⟨hr₁, hr₂⟩ := ha.columnNames r hr
    obtain ⟨hs₁, hs₂⟩ := hb.columnNames s hs
    obtain ⟨hschema, htable, hcolumn⟩ := @joined_inj₃ '.' _ _ _ _ _ _ hr₁ hr₂ hs₁ hs₂ hkey
    obtain ⟨htype, hnullable, hdefault, hlength⟩ :=
      ColumnRow.detail_inj (ha.columnDetails r hr) (hb.columnDetails s hs) hdetail
    exact ColumnRow.ext hschema htable hcolumn htype hnullable hdefault hlength
  indexes r hr s hs hkey hdetail := by
    obtain ⟨hr₁, hr₂⟩ := ha.indexNames r hr
    obtain ⟨hs₁, hs₂⟩ := hb.indexNames s hs
    obtain ⟨hschema, htable, hindex⟩ := @joined_inj₃ '.' _ _ _ _ _ _ hr₁ hr₂ hs₁ hs₂ hkey
    exact IndexRow.ext hschema htable hindex hdetail
  extensions r hr s hs hkey hdetail := ExtensionRow.ext hkey hdetail

/-- The report is exact where neither identifiers nor details contain a separator. -/
theorem DriftExact.of_plain (ha : a.Plain) (hb : b.Plain) (haid : a.Identified)
    (hbid : b.Identified) : DriftExact a b := by
  rw [driftExact_iff_snapshots]
  have hau : a.Unambiguous := ha.unambiguous haid
  have hbu : b.Unambiguous := hb.unambiguous hbid
  refine ⟨?_, hau, hbu⟩
  rw [empty_iff_joinedAlike hau hbu]
  exact ⟨fun halike => halike.sameRows (ha.apart hb), fun hsame => hsame.joinedAlike⟩

/-! ## Streams that are cut off -/

/-- Loading fails, or the snapshot keeps every row. -/
def CompleteOrRefused (pool : SchemaPool) (c : Catalog) : Prop :=
  (∃ err, loadSchemaSnapshot pool = .error err) ∨ ∃ s, loadSchemaSnapshot pool = .ok s ∧ s.Keeps c

/-- What is reported as being in one database only is not in the other. -/
structure DriftSummary.Truthful (d : DriftSummary) (a b : Catalog) : Prop where
  tableOnlyInSource : ∀ e ∈ d.tableOnlyInSource, ∀ r ∈ b.tables, r.key ≠ e.name
  tableOnlyInTarget : ∀ e ∈ d.tableOnlyInTarget, ∀ r ∈ a.tables, r.key ≠ e.name
  columnOnlyInSource : ∀ e ∈ d.columnOnlyInSource, ∀ r ∈ b.columns, r.key ≠ e.name
  columnOnlyInTarget : ∀ e ∈ d.columnOnlyInTarget, ∀ r ∈ a.columns, r.key ≠ e.name
  indexOnlyInSource : ∀ e ∈ d.indexOnlyInSource, ∀ r ∈ b.indexes, r.key ≠ e.name
  indexOnlyInTarget : ∀ e ∈ d.indexOnlyInTarget, ∀ r ∈ a.indexes, r.key ≠ e.name
  extensionOnlyInSource : ∀ e ∈ d.extensionOnlyInSource, ∀ r ∈ b.extensions, r.key ≠ e.name
  extensionOnlyInTarget : ∀ e ∈ d.extensionOnlyInTarget, ∀ r ∈ a.extensions, r.key ≠ e.name

/-- Every answer of `GetDrift` for the databases behind the two pools is truthful. -/
def ReportsTruth (pa pb : SchemaPool) (a b : Catalog) : Prop :=
  ∀ (getPool : String → String → Except String SchemaPool) (source target profile : String)
    (data : DriftData),
    getPool (trimSpace source) (trimSpace profile) = .ok pa →
    getPool (trimSpace target) (trimSpace profile) = .ok pb →
    (getDrift getPool source target profile).body.data = some data → data.summary.Truthful a b

/-- An object of a kept row is not listed as missing. -/
theorem name_ne_of_mem_diffOnly {α : Type} {key detail : α → String} {left right : StringMap}
    {rows : List α} (hkeeps : Keeps key detail right rows) {e : OnlyEntry}
    (he : e ∈ diffOnly left right) {r : α} (hr : r ∈ rows) : key r ≠ e.name := by
  intro hname
  apply (mem_diffOnly.1 he).2
  apply AList.lookup_isSome.1
  rw [← hname, (hkeeps r hr).1]
  rfl

theorem truthful_of_keeps {s t : SchemaSnapshot} (hs : s.Keeps a) (ht : t.Keeps b) :
    (driftSummary s t).Truthful a b where
  tableOnlyInSource _ he _ hr := name_ne_of_mem_diffOnly ht.tables he hr
  tableOnlyInTarget _ he _ hr := name_ne_of_mem_diffOnly hs.tables he hr
  columnOnlyInSource _ he _ hr := name_ne_of_mem_diffOnly ht.columns he hr
  columnOnlyInTarget _ he _ hr := name_ne_of_mem_diffOnly hs.columns he hr
  indexOnlyInSource _ he _ hr := name_ne_of_mem_diffOnly ht.indexes he hr
  indexOnlyInTarget _ he _ hr := name_ne_of_mem_diffOnly hs.indexes he hr
  extensionOnlyInSource _ he _ hr := name_ne_of_mem_diffOnly ht.extensions he hr
  extensionOnlyInTarget _ he _ hr := name_ne_of_mem_diffOnly hs.extensions he hr

theorem completeOrRefused_iff {pool : SchemaPool} {c : Catalog} (h : pool.Delivers c) :
    CompleteOrRefused pool c ↔ pool.Refuses ∨ c.Unambiguous ∧ pool.ReadsAll c := by
  rcases load_cases pool with ⟨hrefuses, err, herr⟩ | ⟨ts, cs, is, es, -, -, -, -, hok⟩
  · exact iff_of_true (Or.inl ⟨err, herr⟩) (Or.inl hrefuses)
  · have hnot : ¬pool.Refuses := not_refuses_of_load hok
    rw [← keeps_iff h hok]
    constructor
    · rintro (⟨err, herr⟩ | ⟨s, hs, hkeeps⟩)
      · rw [hok] at herr
        cases herr
      · cases hok.symm.trans hs
        exact Or.inr hkeeps
    · rintro (hrefuses | hkeeps)
      · exact absurd hrefuses hnot
      · exact Or.inr ⟨_, hok, hkeeps⟩

/-- Complete snapshots make a truthful report. -/
theorem reportsTruth_of_complete {pa pb : SchemaPool} (ha : CompleteOrRefused pa a)
    (hb : CompleteOrRefused pb b) : ReportsTruth pa pb a b := by
  intro getPool source target profile data hsource htarget hdata
  obtain ⟨pa', pb', s, t, hpa, hpb, hs, ht, hsummary⟩ := getDrift_success hdata
  cases hsource.symm.trans hpa
  cases htarget.symm.trans hpb
  have hskeeps : s.Keeps a := by
    rcases ha with ⟨err, herr⟩ | ⟨s', hs', hkeeps⟩
    · cases herr.symm.trans hs
    · cases hs'.symm.trans hs
      exact hkeeps
  have htkeeps : t.Keeps b := by
    rcases hb with ⟨err, herr⟩ | ⟨t', ht', hkeeps⟩
    · cases herr.symm.trans ht
    · cases ht'.symm.trans ht
      exact hkeeps
  rw [hsummary]
  exact truthful_of_keeps hskeeps htkeeps

/-- Both snapshots are complete or refused, and the report is truthful, exactly when on either side
a query is refused at once or every row can be read and the names are unambiguous. -/
theorem complete_or_refused_iff {pa pb : SchemaPool} (ha : pa.Delivers a) (hb : pb.Delivers b) :
    (CompleteOrRefused pa a ∧ CompleteOrRefused pb b ∧ ReportsTruth pa pb a b) ↔
      (pa.Refuses ∨ a.Unambiguous ∧ pa.ReadsAll a) ∧
        (pb.Refuses ∨ b.Unambiguous ∧ pb.ReadsAll b) := by
  rw [← completeOrRefused_iff ha, ← completeOrRefused_iff hb]
  constructor
  · rintro ⟨hacomplete, hbcomplete, -⟩
    exact ⟨hacomplete, hbcomplete⟩
  · rintro ⟨hacomplete, hbcomplete⟩
    exact ⟨hacomplete, hbcomplete, reportsTruth_of_complete hacomplete hbcomplete⟩

/-- A database with one table. -/
def shop : Catalog where
  tables := [{ schema := "public", table := "orders", owner := "app", comment := "" }]

/-- The statement for the tables fails before its first row. -/
def cutOffPool : SchemaPool :=
  { shop.pool with tableRows := .ok (.failed "terminating connection") }

theorem cutOffPool_delivers : cutOffPool.Delivers shop where
  tables stream h := by
    cases h
    exact RowStream.Delivers.failed _ _
  columns := shop.pool_delivers.columns
  indexes := shop.pool_delivers.indexes
  extensions := shop.pool_delivers.extensions

/-- Read completely. -/
theorem complete_or_refused_shop :
    CompleteOrRefused shop.pool shop ∧ CompleteOrRefused shop.pool shop ∧
      ReportsTruth shop.pool shop.pool shop shop := by
  apply (complete_or_refused_iff shop.pool_delivers shop.pool_delivers).2
  have hunambiguous : shop.Unambiguous := by
    constructor <;> simp [Handler.Unambiguous, shop]
  exact ⟨Or.inr ⟨hunambiguous, shop.pool_readsAll⟩, Or.inr ⟨hunambiguous, shop.pool_readsAll⟩⟩

/-- Two databases with the same table; the stream of one is cut off, and the table is reported as
being in the other only. -/
theorem cut_off_stream_reported :
    ¬∀ (a b : Catalog) (pa pb : SchemaPool), pa.Delivers a → pb.Delivers b →
      CompleteOrRefused pa a ∧ CompleteOrRefused pb b ∧ ReportsTruth pa pb a b := by
  intro h
  obtain ⟨-, -, htruth⟩ :=
    h shop shop shop.pool cutOffPool shop.pool_delivers cutOffPool_delivers
  have htruthful := htruth (fun db _ => if db = "source" then .ok shop.pool else .ok cutOffPool)
    "source" "target" "" _ (if_pos (by decide)) (if_neg (by decide)) rfl
  refine htruthful.tableOnlyInSource { name := "public.orders", detail := "app|" } ?_
    { schema := "public", table := "orders", owner := "app", comment := "" } (by decide) (by decide)
  apply mem_diffOnly.2
  exact ⟨by decide, by decide⟩

end Handler
end Pgaio
