import Pgaio.Postgres.Tokens

/-!
# Statements — the statements of a text, and the names in them

A text may hold several statements, with semicolons between them; between two semicolons nothing need
stand.
-/

namespace Pgaio
namespace Postgres
namespace SQL

def semicolon : Token := .symbol [';']

/-- What stands between semicolons, where anything does. -/
def splitStatements (ts : List Token) : List (List Token) :=
  (ts.splitOn semicolon).filter (· ≠ [])

def statements (text : List Char) : Option (List (List Token)) :=
  (lex text).map splitStatements

/-- The keywords that are no names of objects: the reserved ones, and those kept for types and functions. -/
def reservedWords : List String :=
  ["all", "analyse", "analyze", "and", "any", "array", "as", "asc", "asymmetric", "both", "case", "cast",
    "check", "collate", "column", "constraint", "create", "current_catalog", "current_date",
    "current_role", "current_time", "current_timestamp", "current_user", "default", "deferrable", "desc",
    "distinct", "do", "else", "end", "except", "false", "fetch", "for", "foreign", "from", "grant", "group",
    "having", "in", "initially", "intersect", "into", "lateral", "leading", "limit", "localtime",
    "localtimestamp", "not", "null", "offset", "on", "only", "or", "order", "placing", "primary",
    "references", "returning", "select", "session_user", "some", "symmetric", "system_user", "table", "then",
    "to", "trailing", "true", "union", "unique", "user", "using", "variadic", "when", "where", "window",
    "with",
    "authorization", "binary", "collation", "concurrently", "cross", "current_schema", "freeze", "full",
    "ilike", "inner", "is", "isnull", "join", "left", "like", "natural", "notnull", "outer", "overlaps",
    "right", "similar", "tablesample", "verbose"]

def isReserved (name : List Char) : Bool :=
  reservedWords.any fun word => word.toList == name

/-- The token is read as a name, and this is the object that it names. -/
def Names (t : Token) (name : List Char) : Prop :=
  t = .quotedIdent name ∨ (t = .word name ∧ isReserved name = false)

/-! ## One statement -/

section

variable {ts before : List Token} {statement : List Token}

theorem splitOn_append (hbefore : semicolon ∉ before) (ts : List Token) :
    (before ++ ts).splitOn semicolon = (ts.splitOn semicolon).modifyHead (before ++ ·) := by
  induction before with
  | nil => exact (congrFun List.modifyHead_id _).symm
  | cons t before ih =>
      rw [List.mem_cons, not_or] at hbefore
      have hne : ¬ (t == semicolon) = true := by simpa using Ne.symm hbefore.1
      have hrest := ih hbefore.2
      unfold List.splitOn at hrest ⊢
      rw [List.cons_append, List.splitOnP_cons_eq_if_modifyHead, if_neg hne, hrest, List.modifyHead_modifyHead]
      rfl

theorem splitStatements_of_notMem (h : semicolon ∉ ts) (hts : ts ≠ []) : splitStatements ts = [ts] := by
  have hsplit := splitOn_append h []
  rw [List.append_nil, List.splitOn_nil] at hsplit
  simp [splitStatements, hsplit, hts]

/-- A statement begins with the tokens that stand before the first semicolon. -/
theorem prefix_of_splitStatements (h : splitStatements (before ++ ts) = [statement])
    (hsemi : semicolon ∉ before) (hbefore : before ≠ []) : before <+: statement := by
  unfold splitStatements at h
  rw [splitOn_append hsemi] at h
  cases hts : ts.splitOn semicolon with
  | nil => exact absurd hts (List.splitOnP_ne_nil _ ts)
  | cons first others =>
      rw [hts, List.modifyHead_cons, List.filter_cons_of_pos (by simp [hbefore])] at h
      exact ⟨first, (List.cons.inj h).1⟩

/-- What is put in front of a text is put in front of its first statement. -/
theorem splitStatements_append {t : Token} (hsemi : semicolon ∉ before) (ht : t ≠ semicolon)
    (ts : List Token) :
    ∃ first others, splitStatements (t :: ts) = first :: others ∧
      splitStatements (before ++ t :: ts) = (before ++ first) :: others := by
  have hsingle : semicolon ∉ [t] := by simpa using Ne.symm ht
  have hone : (t :: ts).splitOn semicolon = (ts.splitOn semicolon).modifyHead ([t] ++ ·) :=
    splitOn_append hsingle ts
  cases hts : ts.splitOn semicolon with
  | nil => exact absurd hts (List.splitOnP_ne_nil _ ts)
  | cons first others =>
      rw [hts, List.modifyHead_cons] at hone
      refine ⟨[t] ++ first, others.filter (· ≠ []), ?_, ?_⟩
      · rw [splitStatements, hone, List.filter_cons_of_pos (by simp)]
      · rw [splitStatements, splitOn_append hsemi, hone, List.modifyHead_cons,
          List.filter_cons_of_pos (by simp)]

/-- Where the statement has one token more, the rest of the text begins with it. -/
theorem mem_of_splitStatements {t : Token} (hsemi : semicolon ∉ before)
    (h : splitStatements (before ++ ts) = [before ++ [t]]) (hbefore : before ≠ []) : t ∈ ts := by
  cases ts with
  | nil =>
      rw [List.append_nil, splitStatements_of_notMem hsemi hbefore] at h
      simp at h
  | cons t' ts =>
      by_cases ht : t' = semicolon
      · have hlast : before <+: before ++ [t] := List.prefix_append _ _
        have hsplit : (t' :: ts).splitOn semicolon = [] :: ts.splitOn semicolon := by
          unfold List.splitOn
          rw [List.splitOnP_cons_eq_if_modifyHead, if_pos (by simp [ht])]
        unfold splitStatements at h
        rw [splitOn_append hsemi, hsplit, List.modifyHead_cons, List.append_nil,
          List.filter_cons_of_pos (by simp [hbefore])] at h
        simp at h
      · have hmem : semicolon ∉ before ++ [t'] := by
          simp [hsemi, Ne.symm ht]
        rw [List.append_cons] at h
        obtain ⟨tail, htail⟩ := prefix_of_splitStatements h hmem (by simp)
        simp at htail
        simp [htail.1]

end

/-! ## Texts without a statement -/

/-- Blanks, semicolons and comments. -/
inductive Silent : List Char → Prop where
  | nil : Silent []
  | blank {c : Char} {text : List Char} (hc : isBlank c = true) : Silent text → Silent (c :: text)
  | semicolon {text : List Char} : Silent text → Silent (';' :: text)
  | lineComment {text : List Char} : Silent (text.dropWhile (!isLineBreak ·)) → Silent ('-' :: '-' :: text)
  | blockComment {text rest : List Char} (hskip : skipBlock 0 text = some rest) :
      Silent rest → Silent ('/' :: '*' :: text)

theorem splitStatements_eq_nil_iff {ts : List Token} :
    splitStatements ts = [] ↔ ∀ t ∈ ts, t = semicolon := by
  induction ts with
  | nil => simp [splitStatements]
  | cons t ts ih =>
      by_cases ht : t = semicolon
      · have hsplit : splitStatements (t :: ts) = splitStatements ts := by
          unfold splitStatements List.splitOn
          rw [List.splitOnP_cons_eq_if_modifyHead, if_pos (by simp [ht])]
          exact List.filter_cons_of_neg (by simp)
        rw [hsplit, ih]
        simp [ht]
      · constructor
        · intro h
          -- The first statement has the token in it, so it is not dropped as empty.
          have hsplit : ([t] ++ ts).splitOn semicolon = (ts.splitOn semicolon).modifyHead ([t] ++ ·) :=
            splitOn_append (by simp [Ne.symm ht]) ts
          unfold splitStatements at h
          rw [List.singleton_append] at hsplit
          rw [hsplit] at h
          cases hts : ts.splitOn semicolon with
          | nil => exact absurd hts (List.splitOnP_ne_nil _ ts)
          | cons first others =>
              rw [hts, List.modifyHead_cons, List.filter_cons_of_pos (by simp)] at h
              cases h
        · intro h
          exact absurd (h t List.mem_cons_self) ht

theorem lex_of_silent {text : List Char} (h : Silent text) :
    ∃ ts, lex text = some ts ∧ ∀ t ∈ ts, t = semicolon := by
  induction h with
  | nil => exact ⟨[], rfl, by simp⟩
  | blank hc _ ih =>
      rw [lex_blank hc]
      exact ih
  | semicolon _ ih =>
      obtain ⟨ts, hts, hall⟩ := ih
      refine ⟨semicolon :: ts, ?_, by simpa using hall⟩
      rw [lex_punctuation (by decide), hts]
      rfl
  | lineComment _ ih =>
      rw [lex_lineComment]
      exact ih
  | blockComment hskip _ ih =>
      rw [lex_blockComment, hskip]
      exact ih

theorem silent_of_dropBlanks {text : List Char} (h : Silent (text.dropWhile isBlank)) : Silent text := by
  induction text with
  | nil => exact h
  | cons c text ih =>
      by_cases hc : isBlank c = true
      · rw [List.dropWhile_cons_of_pos hc] at h
        exact .blank hc (ih h)
      · rwa [List.dropWhile_cons_of_neg hc] at h

/-- A piece that leaves no token behind is one of the four kinds. -/
theorem silent_of_lexes {pending : Pending} {text : List Char} {ls : List Lexeme}
    (h : Lexes pending text ls) (hpending : pending = .nothing)
    (hall : ∀ t ∈ (gather ls).2, t = semicolon) : Silent text := by
  induction h with
  | nil => exact .nil
  | @cons pending raw rest kind ls hraw hmunch _ ih =>
      subst hpending
      obtain ⟨c, raw, rfl⟩ := List.exists_cons_of_ne_nil hraw
      have hfrom : kind.From c (raw ++ rest) rest := munch_from hmunch
      -- Each kind of piece either is one of the four, or leaves a token that is no semicolon.
      cases kind with
      | blank =>
          obtain ⟨hc, hrest⟩ := hfrom
          have hsilent := ih rfl hall
          rw [hrest] at hsilent
          exact .blank hc (silent_of_dropBlanks hsilent)
      | lineComment =>
          obtain ⟨rfl, hstart, hrest⟩ := hfrom
          obtain ⟨text, htext⟩ := cons_of_startsWith hstart
          have hsilent := ih rfl hall
          rw [hrest, htext, List.dropWhile_cons_of_pos (by decide)] at hsilent
          rw [List.cons_append, htext]
          exact .lineComment hsilent
      | blockComment =>
          obtain ⟨rfl, hstart, hskip⟩ := hfrom
          obtain ⟨text, htext⟩ := cons_of_startsWith hstart
          rw [htext] at hskip
          rw [List.cons_append, htext]
          exact .blockComment hskip (ih rfl hall)
      | string k body => cases hall _ List.mem_cons_self
      | more body => exact absurd hmunch munch_nothing_ne_more
      | token t =>
          obtain rfl : t = semicolon := hall _ List.mem_cons_self
          obtain rfl : ';' = c := Option.some.inj hfrom
          have hpiece : munch .nothing (';' :: (raw ++ rest)) =
              some (.token semicolon, raw ++ rest) := by
            have hclass : classOf ';' = .punctuation := by decide
            simp only [munch, hclass, semicolon]
          rw [List.cons_append, hpiece] at hmunch
          have hrest : raw ++ rest = rest := (Prod.mk.inj (Option.some.inj hmunch)).2
          rw [List.cons_append, hrest]
          exact .semicolon (ih rfl (fun t ht => hall t (List.mem_cons_of_mem _ ht)))

theorem silent_iff {text : List Char} : Silent text ↔ statements text = some [] := by
  unfold statements
  constructor
  · intro h
    obtain ⟨ts, hts, hall⟩ := lex_of_silent h
    rw [hts, Option.map_some, splitStatements_eq_nil_iff.2 hall]
  · intro h
    obtain ⟨ts, hts, hsplit⟩ := Option.map_eq_some_iff.1 h
    obtain ⟨g, hg, rfl⟩ := Option.map_eq_some_iff.1 hts
    obtain ⟨ls, hls, rfl⟩ := Option.map_eq_some_iff.1 hg
    exact silent_of_lexes (lexes_iff.2 hls) rfl (splitStatements_eq_nil_iff.1 hsplit)

end SQL
end Postgres
end Pgaio
