import Pgaio.Handler.Maintenance
import Pgaio.Postgres.Identifier
import Pgaio.Postgres.Statements

/-!
# MaintenanceSQL — what PostgreSQL reads in the plan

The texts of the plan go to the SQL editor to be run.  A quoted name is read back in a statement, whatever
it holds; in the advice it stands in a comment, which ends with its line.  `plan_reads_iff` says for which
names every text is read as it was meant.
-/

namespace Pgaio
namespace Handler

open Database Go Postgres.SQL

/-! ## Quoted names -/

theorem toList_quoteIdent (s : String) :
    (quoteIdent s).toList = '"' :: (doubled '"' s.toList ++ ['"']) := by
  unfold quoteIdent replaceAll doubled
  simp

theorem toList_quotedName (schema name : String) :
    (quotedName schema name).toList =
      '"' :: (doubled '"' schema.toList ++ '"' :: '.' :: '"' :: (doubled '"' name.toList ++ ['"'])) := by
  unfold quotedName
  simp [toList_quoteIdent]

/-- A quoted name with any text behind it. -/
theorem quoteIdent_append (s : String) (rest : List Char) :
    (quoteIdent s).toList ++ rest = '"' :: (doubled '"' s.toList ++ '"' :: rest) := by
  rw [toList_quoteIdent]
  simp

theorem matchQuoted_quoteIdent (s : String) {rest : List Char} (hrest : startsWith (· = '"') rest = false) :
    matchQuoted ((quoteIdent s).toList ++ rest) = some (s.toList, rest) := by
  rw [quoteIdent_append, matchQuoted_doubled s.toList hrest]

/-- A name and what follows it are determined by the text. -/
theorem quoteIdent_append_inj {a b : String} {xs ys : List Char} (hxs : startsWith (· = '"') xs = false)
    (hys : startsWith (· = '"') ys = false) (h : (quoteIdent a).toList ++ xs = (quoteIdent b).toList ++ ys) :
    a = b ∧ xs = ys := by
  have hread : some (a.toList, xs) = some (b.toList, ys) := by
    rw [← matchQuoted_quoteIdent a hxs, h, matchQuoted_quoteIdent b hys]
  obtain ⟨hname, hrest⟩ := Prod.mk.inj (Option.some.inj hread)
  exact ⟨String.toList_inj.1 hname, hrest⟩

theorem quoteIdent_injective : Function.Injective quoteIdent := by
  intro a b h
  have htext : (quoteIdent a).toList ++ [] = (quoteIdent b).toList ++ [] := by rw [h]
  exact (quoteIdent_append_inj rfl rfl htext).1

theorem quotedName_inj {a b a' b' : String} (h : quotedName a b = quotedName a' b') :
    a = a' ∧ b = b' := by
  have htext (x y : String) :
      (quotedName x y).toList = (quoteIdent x).toList ++ '.' :: (quoteIdent y).toList := by
    simp [quotedName]
  have hlist := congrArg String.toList h
  rw [htext, htext] at hlist
  obtain ⟨hfirst, hrest⟩ := quoteIdent_append_inj rfl rfl hlist
  exact ⟨hfirst, quoteIdent_injective (String.toList_inj.1 (List.cons.inj hrest).2)⟩

/-- The pattern reads every quoted name back, and the scanner those that an identifier can have. -/
theorem quoteIdent_read_back :
    (∀ (s : String) (r : List Char), startsWith (· = '"') r = false →
      matchQuoted ((quoteIdent s).toList ++ r) = some (s.toList, r) ∧
        (readIdentifier ((quoteIdent s).toList ++ r) = some (s.toList, r) ↔
          s ≠ "" ∧ byteLength s.toList ≤ maxIdentifierBytes)) ∧
      Function.Injective quoteIdent ∧
      ∀ a b a' b', quotedName a b = quotedName a' b' → a = a' ∧ b = b' := by
  refine ⟨fun s r hr => ⟨matchQuoted_quoteIdent s hr, ?_⟩, quoteIdent_injective, fun _ _ _ _ => quotedName_inj⟩
  rw [quoteIdent_append, readIdentifier_quoted_iff s.toList hr, ne_eq, String.toList_eq_nil_iff]

/-- A name that is a quote and nothing else. -/
theorem quoteIdent_read_back_quote :
    readIdentifier ((quoteIdent "\"").toList ++ ".x".toList) = some ("\"".toList, ".x".toList) :=
  ((quoteIdent_read_back.1 "\"" ".x".toList rfl).2).2 ⟨by decide, by decide⟩

/-- PostgreSQL refuses the empty name. -/
theorem empty_quoteIdent_refused :
    ¬ ∀ (s : String) (r : List Char), '\x00' ∉ s.toList → startsWith (· = '"') r = false →
      readIdentifier ((quoteIdent s).toList ++ r) = some (s.toList, r) := by
  intro h
  have hread := h "" [] List.not_mem_nil rfl
  revert hread
  decide

/-- The tokens of an object in a schema. -/
def objectTokens (schema name : String) : List Token :=
  [.quotedIdent schema.toList, .symbol ['.'], .quotedIdent name.toList]

theorem toList_ne_nil {s : String} (hs : s ≠ "") : s.toList ≠ [] := by
  simpa using hs

theorem lex_dot_quote (text : List Char) :
    lex ('.' :: '"' :: text) = (lex ('"' :: text)).map (.symbol ['.'] :: ·) := by
  have hmunch : munch .nothing (['.'] ++ '"' :: text) = some (.token (.symbol ['.']), '"' :: text) := rfl
  exact lex_token (List.cons_ne_nil _ _) hmunch

/-- Any two names are read back. -/
theorem lex_quotedName {schema name : String} (hschema : schema ≠ "") (hname : name ≠ "")
    {rest : List Char} (hrest : startsWith (· = '"') rest = false) :
    lex ((quotedName schema name).toList ++ rest) =
      (lex rest).map (objectTokens schema name ++ ·) := by
  have htext : (quotedName schema name).toList ++ rest =
      '"' :: (doubled '"' schema.toList ++ '"' ::
        ('.' :: '"' :: (doubled '"' name.toList ++ '"' :: rest))) := by
    rw [toList_quotedName]
    simp
  rw [htext, lex_quotedIdent (body_doubled '"' schema.toList) (toList_ne_nil hschema) rfl, lex_dot_quote,
    lex_quotedIdent (body_doubled '"' name.toList) (toList_ne_nil hname) hrest, Option.map_map,
    Option.map_map]
  rfl

theorem semicolon_notMem_command (words : List (List Char)) (schema name : String) :
    semicolon ∉ words.map (fun word => .word (word.map Char.toLower)) ++ objectTokens schema name := by
  simp [objectTokens, semicolon]

/-- A command on an object. -/
theorem statements_object {words : List (List Char)} (hwords : words.all isName = true)
    {schema name : String} (hschema : schema ≠ "") (hname : name ≠ "") :
    statements (words.flatMap (· ++ [' ']) ++ (quotedName schema name).toList) =
      some [words.map (fun word => .word (word.map Char.toLower)) ++ objectTokens schema name] := by
  have htokens : lex (quotedName schema name).toList = some (objectTokens schema name) := by
    have hread : lex ((quotedName schema name).toList ++ []) =
        (lex []).map (objectTokens schema name ++ ·) := lex_quotedName hschema hname rfl
    simpa using hread
  rw [statements, lex_words hwords, htokens, Option.map_some, Option.map_some,
    splitStatements_of_notMem (semicolon_notMem_command words schema name) (by simp [objectTokens])]

/-- A command on an object, with a semicolon behind it. -/
theorem statements_command {words : List (List Char)} (hwords : words.all isName = true)
    {schema name : String} (hschema : schema ≠ "") (hname : name ≠ "") :
    statements (words.flatMap (· ++ [' ']) ++ ((quotedName schema name).toList ++ [';'])) =
      some [words.map (fun word => .word (word.map Char.toLower)) ++ objectTokens schema name] := by
  have htokens : lex (words.flatMap (· ++ [' ']) ++ ((quotedName schema name).toList ++ [';'])) =
      some (words.map (fun word => .word (word.map Char.toLower)) ++ objectTokens schema name ++
        [semicolon]) := by
    rw [lex_words hwords, lex_quotedName hschema hname rfl, lex_punctuation (by decide), lex_nil,
      List.append_assoc]
    rfl
  have hsplit : splitStatements (words.map (fun word => .word (word.map Char.toLower)) ++
      objectTokens schema name ++ [semicolon]) =
        [words.map (fun word => .word (word.map Char.toLower)) ++ objectTokens schema name] := by
    unfold splitStatements
    rw [splitOn_append (semicolon_notMem_command words schema name)]
    have hlast : ([semicolon] : List Token).splitOn semicolon = [[], []] := by decide
    rw [hlast, List.modifyHead_cons, List.append_nil, List.filter_cons_of_pos (by simp [objectTokens])]
    rfl
  rw [statements, htokens, Option.map_some, hsplit]

/-! ## The advice -/

/-- What stands behind the first line break of the quoted names holds no statement; without a line break
nothing stands there. -/
def CommentHolds (schema table : String) : Prop :=
  Silent ((quotedName schema table).toList.dropWhile (!isLineBreak ·))

/-- The comment ends where the line does. -/
theorem statements_advice_iff (r : SeqRow) :
    statements (seqRecommendation r).sql.toList = some [] ↔ CommentHolds r.schema r.table := by
  have htext : (seqRecommendation r).sql.toList =
      '-' :: '-' :: (" inspect predicates and create a selective index for ".toList ++
        (quotedName r.schema r.table).toList) := by
    unfold seqRecommendation
    simp
  have hhead : ∀ c ∈ " inspect predicates and create a selective index for ".toList,
      (!isLineBreak c) = true := List.all_eq_true.1 (by decide)
  unfold CommentHolds
  rw [silent_iff, htext]
  unfold statements
  rw [lex_lineComment, List.dropWhile_append_of_pos hhead]

/-- Names without line breaks are safe. -/
theorem commentHolds_of_oneLine {schema table : String}
    (hschema : ∀ c ∈ schema.toList, isLineBreak c = false)
    (htable : ∀ c ∈ table.toList, isLineBreak c = false) : CommentHolds schema table := by
  have hdoubled {name : List Char} (hname : ∀ c ∈ name, isLineBreak c = false) :
      ∀ c ∈ doubled '"' name, isLineBreak c = false := by
    intro c hc
    obtain ⟨d, hd, hc⟩ := List.mem_flatMap.1 hc
    split at hc
    · obtain rfl : c = '"' := by simpa using hc
      decide
    · obtain rfl : c = d := by simpa using hc
      exact hname c hd
  have hall : ∀ c ∈ (quotedName schema table).toList, isLineBreak c = false := by
    intro c hc
    rw [toList_quotedName] at hc
    simp only [List.mem_cons, List.mem_append, List.not_mem_nil, or_false] at hc
    rcases hc with rfl | hc | rfl | rfl | rfl | hc | rfl
    all_goals first | decide | exact hdoubled hschema c hc | exact hdoubled htable c hc
  have hnil : (quotedName schema table).toList.dropWhile (!isLineBreak ·) = [] := by
    simpa using hall
  unfold CommentHolds
  rw [hnil]
  exact .nil

/-! ## The plan -/

/-- A row of one of the three queries. -/
inductive PlanRow where
  | vacuum (r : VacuumRow)
  | index (r : UnusedIndexRow)
  | seq (r : SeqRow)

namespace PlanRow

def recommendation : PlanRow → Recommendation
  | vacuum r => vacuumRecommendation r
  | index r => indexRecommendation r
  | seq r => seqRecommendation r

/-- The names of PostgreSQL's objects are not empty. -/
def Named : PlanRow → Prop
  | vacuum r => r.schema ≠ "" ∧ r.table ≠ ""
  | index r => r.schema ≠ "" ∧ r.table ≠ "" ∧ r.index ≠ ""
  | seq r => r.schema ≠ "" ∧ r.table ≠ ""

/-- The statements that the text of a row is meant to hold. -/
def intended : PlanRow → List (List Token)
  | vacuum r => [[.word "vacuum".toList, .word "analyze".toList] ++ objectTokens r.schema r.table]
  | index r =>
      [[.word "drop".toList, .word "index".toList, .word "concurrently".toList] ++
        objectTokens r.schema r.index]
  | seq _ => []

def SafeInComment : PlanRow → Prop
  | seq r => CommentHolds r.schema r.table
  | _ => True

end PlanRow

/-- The rows that the plan is made of. -/
def planRows (pool : PlanPool) : List PlanRow :=
  (rowsOf pool.vacuumRows).map .vacuum ++ (rowsOf pool.indexRows).map .index ++
    (rowsOf pool.seqRows).map .seq

theorem recommendations_eq (pool : PlanPool) :
    recommendations pool = (planRows pool).map PlanRow.recommendation := by
  unfold recommendations planRows
  simp only [List.map_append, List.map_map]
  rfl

theorem reads_iff {row : PlanRow} (hnamed : row.Named) :
    statements row.recommendation.sql.toList = some row.intended ↔ row.SafeInComment := by
  cases row with
  | vacuum r =>
      have htext : (vacuumRecommendation r).sql.toList =
          ["VACUUM".toList, "ANALYZE".toList].flatMap (· ++ [' ']) ++
            ((quotedName r.schema r.table).toList ++ [';']) := by
        unfold vacuumRecommendation
        simp
      have hstatement := statements_command
        (by decide : (["VACUUM".toList, "ANALYZE".toList].all isName) = true) hnamed.1 hnamed.2
      rw [← htext] at hstatement
      exact ⟨fun _ => trivial, fun _ => hstatement⟩
  | index r =>
      have htext : (indexRecommendation r).sql.toList =
          ["DROP".toList, "INDEX".toList, "CONCURRENTLY".toList].flatMap (· ++ [' ']) ++
            ((quotedName r.schema r.index).toList ++ [';']) := by
        unfold indexRecommendation
        simp
      have hstatement := statements_command
        (by decide : (["DROP".toList, "INDEX".toList, "CONCURRENTLY".toList].all isName) = true)
        hnamed.1 hnamed.2.2
      rw [← htext] at hstatement
      exact ⟨fun _ => trivial, fun _ => hstatement⟩
  | seq r => exact statements_advice_iff r

/-- Each text of the plan holds the statements that it is meant to hold. -/
def PlanReads (pool : PlanPool) : Prop :=
  ∀ (i : Nat) (recommended : Recommendation) (row : PlanRow),
    (recommendations pool)[i]? = some recommended → (planRows pool)[i]? = some row →
      statements recommended.sql.toList = some row.intended

/-- The plan reads as it is meant exactly if every advice stays in its comment. -/
theorem plan_reads_iff (pool : PlanPool) (hnamed : ∀ row ∈ planRows pool, row.Named) :
    PlanReads pool ↔ ∀ r ∈ rowsOf pool.seqRows, CommentHolds r.schema r.table := by
  have hplan : PlanReads pool ↔ ∀ row ∈ planRows pool, row.SafeInComment := by
    constructor
    · intro h row hrow
      obtain ⟨i, hi⟩ := List.mem_iff_getElem?.1 hrow
      have hrec : (recommendations pool)[i]? = some row.recommendation := by
        rw [recommendations_eq, List.getElem?_map, hi, Option.map_some]
      exact (reads_iff (hnamed row hrow)).1 (h i _ row hrec hi)
    · intro h i recommended row hrec hi
      rw [recommendations_eq, List.getElem?_map, hi, Option.map_some] at hrec
      obtain rfl := Option.some.inj hrec
      have hrow := List.mem_of_getElem? hi
      exact (reads_iff (hnamed row hrow)).2 (h row hrow)
  -- Advice of the other two kinds names nothing in a comment.
  rw [hplan]
  constructor
  · intro h r hr
    exact h (.seq r) (List.mem_append_right _ (List.mem_map_of_mem hr))
  · intro h row hrow
    rcases List.mem_append.1 hrow with hrow | hrow
    · rcases List.mem_append.1 hrow with hrow | hrow
      all_goals
        obtain ⟨r, -, rfl⟩ := List.mem_map.1 hrow
        exact trivial
    · obtain ⟨r, hr, rfl⟩ := List.mem_map.1 hrow
      exact h r hr

/-- The database of a shop, with a table that is scanned too often. -/
def shopPlan : PlanPool :=
  { vacuumRows := .ok (.ofRows [⟨"public", "orders", 5000, 2000, 209715200⟩] none)
    indexRows := .error "canceled"
    seqRows := .ok (.ofRows [⟨"public", "Line \"items\"", 900, 12, 73400320⟩] none) }

theorem plan_reads_iff_shop :
    PlanReads shopPlan ↔ ∀ r ∈ rowsOf shopPlan.seqRows, CommentHolds r.schema r.table :=
  plan_reads_iff shopPlan (by
    intro row hrow
    simp [planRows, rowsOf, shopPlan] at hrow
    rcases hrow with rfl | rfl <;> simp [PlanRow.Named])

/-- A table whose name goes on in a second line. -/
def twoLineTable : SeqRow := ⟨"public", "t\nDROP TABLE orders;--", 900, 12, 73400320⟩

/-- The second line is a statement. -/
theorem advice_leaves_comment :
    ¬ ∀ pool : PlanPool, (∀ row ∈ planRows pool, row.Named) → PlanReads pool := by
  intro hall
  have hreads := hall ⟨.error "", .error "", .ok (.ofRows [twoLineTable] none)⟩
    (by
      intro row hrow
      obtain rfl : row = .seq twoLineTable := by simpa [planRows, rowsOf] using hrow
      exact ⟨by decide, by decide⟩)
    0 (seqRecommendation twoLineTable) (.seq twoLineTable) rfl rfl
  have hdrops : statements (seqRecommendation twoLineTable).sql.toList =
      some [[.word "drop".toList, .word "table".toList, .word "orders".toList]] := by decide
  rw [hdrops] at hreads
  cases hreads

end Handler
end Pgaio
