import Pgaio.Go.Maps
import Pgaio.Go.Net
import Pgaio.Service.PoolManager
import Pgaio.Text.KeywordValue

/-!
# ConnText — the connection strings that the backend writes

`resolveProfileConfig`, `PgBouncer.connect` and `main` write connection strings with
`fmt.Sprintf`, raw values behind their keys, and hand them to a driver that reads the keyword/value
format.  `Encodes` says that the driver gets back the fields that were written, and no others.  Since
nothing is quoted or escaped, this holds exactly for values that the format reads as they stand
(`connection_texts_iff`); an empty password already makes the next key its value.
-/

namespace Pgaio
namespace Service

open Go
open Text.KeywordValue (Keyword Field PlainValue PlainFields Unescapes render settings settingName)

/-- What the driver reads from a text; a later setting replaces an earlier one of its name. -/
def parseKeywordValueSettings (unescape : List Char → List Char) (text : String) :
    Option (GoMap String String) :=
  (settings unescape text.toList).map fun found =>
    GoMap.ofEntries (found.map fun setting => (String.ofList setting.1, String.ofList setting.2))

/-- The text is read as exactly these fields. -/
def Encodes (unescape : List Char → List Char) (text : String) (fields : List (String × String)) :
    Prop :=
  ∃ found, parseKeywordValueSettings unescape text = some found ∧
    ∀ key, found.lookup key = (GoMap.ofEntries fields).lookup key

/-- The value is read as it stands. -/
def ReadsBack (unescape : List Char → List Char) (value : String) : Prop :=
  PlainValue unescape value.toList

/-! ## PgBouncer -/

structure PgBouncer where
  adminAddr : String
  adminUser : String
  adminPass : String
  deriving DecidableEq, Repr

def newPgBouncer (adminAddr adminUser adminPass : String) : PgBouncer where
  adminAddr := if adminAddr = "" then "127.0.0.1:6432" else adminAddr
  adminUser := if adminUser = "" then "pgbouncer" else adminUser
  adminPass := adminPass

namespace PgBouncer

/-- `host, port, _ := net.SplitHostPort(p.adminAddr)`: both are empty when the address is none. -/
def endpoint (p : PgBouncer) : String × String :=
  match Net.splitHostPort p.adminAddr with
  | .error _ => ("", "")
  | .ok endpoint => endpoint

/-- The text that `connect` parses. -/
def connText (p : PgBouncer) : String :=
  "host=" ++ p.endpoint.1 ++ " port=" ++ p.endpoint.2 ++ " user=" ++ p.adminUser ++
    " password=" ++ p.adminPass ++ " dbname=" ++ "pgbouncer" ++ " sslmode=" ++ "disable"

def connFields (p : PgBouncer) : List (String × String) :=
  [ ("host", p.endpoint.1), ("port", p.endpoint.2), ("user", p.adminUser),
    ("password", p.adminPass), ("database", "pgbouncer"), ("sslmode", "disable") ]

end PgBouncer

/-! ## Profiles and the default pool -/

namespace PoolManager

variable {D : Driver} (pm : PoolManager D)

def connUser : String :=
  getEnv pm.env.postgresqlUsername "postgres"

def connPassword : String :=
  getEnv pm.env.postgresqlPassword ""

/-- The fields of the text of a profile. -/
def profileFields (profile : ConnectionProfile) : List (String × String) :=
  [ ("host", profile.host), ("port", itoa profile.port), ("user", pm.connUser),
    ("password", pm.connPassword), ("database", profile.database), ("sslmode", profile.sslMode) ]

end PoolManager

namespace ConnEnv

/-- The text that `main` builds when `DATABASE_URL` is not set. -/
def dbURL (env : ConnEnv) : String :=
  "host=" ++ getEnv env.pgHost "/tmp" ++ " port=" ++ getEnv env.pgPort "5432" ++
    " user=" ++ getEnv env.postgresqlUsername "postgres" ++
    " password=" ++ getEnv env.postgresqlPassword "postgres" ++
    " dbname=" ++ getEnv env.postgresqlDatabase "postgres" ++ " sslmode=" ++ "disable"

def dbFields (env : ConnEnv) : List (String × String) :=
  [ ("host", getEnv env.pgHost "/tmp"), ("port", getEnv env.pgPort "5432"),
    ("user", getEnv env.postgresqlUsername "postgres"),
    ("password", getEnv env.postgresqlPassword "postgres"),
    ("database", getEnv env.postgresqlDatabase "postgres"), ("sslmode", "disable") ]

end ConnEnv

/-! ## The six keys -/

/-- A key of the texts. -/
def keyword (text : List Char)
    (h : (text.all fun c => c != '=' && !Text.KeywordValue.isSpace c) = true)
    (hne : text ≠ []) (hshort : text ≠ ['d', 'a', 't', 'a', 'b', 'a', 's', 'e']) : Keyword where
  text := text
  nonempty := hne
  plain := by
    intro c hc
    have hboth := List.all_eq_true.1 h c hc
    simpa using hboth
  short := hshort

def hostKey : Keyword :=
  keyword ['h', 'o', 's', 't'] (by decide) (by decide) (by decide)

def portKey : Keyword :=
  keyword ['p', 'o', 'r', 't'] (by decide) (by decide) (by decide)

def userKey : Keyword :=
  keyword ['u', 's', 'e', 'r'] (by decide) (by decide) (by decide)

def passwordKey : Keyword :=
  keyword ['p', 'a', 's', 's', 'w', 'o', 'r', 'd'] (by decide) (by decide) (by decide)

def dbnameKey : Keyword :=
  keyword ['d', 'b', 'n', 'a', 'm', 'e'] (by decide) (by decide) (by decide)

def sslmodeKey : Keyword :=
  keyword ['s', 's', 'l', 'm', 'o', 'd', 'e'] (by decide) (by decide) (by decide)

/-- The fields of a text that names all six keys. -/
def sixFields (host port user password dbname sslmode : String) : List Field :=
  [ (hostKey, host.toList), (portKey, port.toList), (userKey, user.toList),
    (passwordKey, password.toList), (dbnameKey, dbname.toList), (sslmodeKey, sslmode.toList) ]

theorem sixFields_names (host port user password dbname sslmode : String) :
    ((sixFields host port user password dbname sslmode).map fun field => field.1.name).Nodup := by
  have hnames : (sixFields host port user password dbname sslmode).map
      (fun field => field.1.name) =
      [hostKey, portKey, userKey, passwordKey, dbnameKey, sslmodeKey].map Keyword.name := rfl
  rw [hnames]
  decide

/-- Written with `fmt.Sprintf`, the fields stand in the text as `render` writes them. -/
theorem toList_sixFields (host port user password dbname sslmode : String) :
    ("host=" ++ host ++ " port=" ++ port ++ " user=" ++ user ++ " password=" ++ password ++
      " dbname=" ++ dbname ++ " sslmode=" ++ sslmode).toList =
        render (sixFields host port user password dbname sslmode) := by
  simp [sixFields, render, String.toList_append, hostKey, portKey, userKey, passwordKey, dbnameKey,
    sslmodeKey, keyword]

/-! ## Which texts are read back -/

/-- The settings that the fields mean, as entries of a map. -/
def entriesOf (fields : List Field) : List (String × String) :=
  fields.map fun field => (String.ofList field.1.name, String.ofList field.2)

/-- A map of the fields finds each of them. -/
theorem lookup_entriesOf {fields : List Field}
    (hnames : (fields.map fun field => field.1.name).Nodup) {field : Field}
    (hfield : field ∈ fields) :
    (GoMap.ofEntries (entriesOf fields)).lookup (String.ofList field.1.name) =
      some (String.ofList field.2) := by
  have hmem : (String.ofList field.1.name, String.ofList field.2) ∈ entriesOf fields :=
    List.mem_map.2 ⟨field, hfield, rfl⟩
  apply GoMap.lookup_eq_of_mem hmem
  intro value hvalue
  obtain ⟨other, hother, heq⟩ := List.mem_map.1 hvalue
  obtain ⟨hname, rfl⟩ := Prod.mk.inj heq
  have hsame : other = field :=
    List.inj_on_of_nodup_map hnames hother hfield (String.ofList_injective hname)
  rw [hsame]

theorem encodes_iff {unescape : List Char → List Char} (h : Unescapes unescape) {text : String}
    {fields : List Field} (htext : text.toList = render fields)
    (hnames : (fields.map fun field => field.1.name).Nodup) :
    Encodes unescape text (entriesOf fields) ↔ PlainFields unescape fields := by
  unfold Encodes parseKeywordValueSettings
  rw [htext]
  constructor
  · rintro ⟨m, hparse, hlookup⟩
    obtain ⟨found, hfound, rfl⟩ := Option.map_eq_some_iff.1 hparse
    apply (Text.KeywordValue.settings_render_iff h.shortens hnames).1
    refine ⟨found, hfound, fun field hfield => ?_⟩
    -- What the map holds under the name of the field is one of the settings that were read.
    have hentry := (hlookup _).trans (lookup_entriesOf hnames hfield)
    obtain ⟨setting, hsetting, heq⟩ := List.mem_map.1 (GoMap.mem_entries_of_lookup hentry)
    obtain ⟨hname, hvalue⟩ := Prod.mk.inj heq
    have hsame : setting = field.setting :=
      Prod.ext (String.ofList_injective hname) (String.ofList_injective hvalue)
    exact hsame ▸ hsetting
  · intro hplain
    refine ⟨GoMap.ofEntries (entriesOf fields), ?_, fun _ => rfl⟩
    rw [Text.KeywordValue.settings_render h.shortens hplain, Option.map_some, List.map_map]
    rfl

/-- The texts of `sixFields` are read back when every value before the last one reads back, and the
last one is empty or does. -/
theorem encodes_sixFields_iff {unescape : List Char → List Char} (h : Unescapes unescape)
    (host port user password dbname sslmode : String) :
    Encodes unescape
        ("host=" ++ host ++ " port=" ++ port ++ " user=" ++ user ++ " password=" ++ password ++
          " dbname=" ++ dbname ++ " sslmode=" ++ sslmode)
        [ ("host", host), ("port", port), ("user", user), ("password", password),
          ("database", dbname), ("sslmode", sslmode) ] ↔
      ReadsBack unescape host ∧ ReadsBack unescape port ∧ ReadsBack unescape user ∧
        ReadsBack unescape password ∧ ReadsBack unescape dbname ∧
          (sslmode = "" ∨ ReadsBack unescape sslmode) := by
  have hentries : entriesOf (sixFields host port user password dbname sslmode) =
      [ ("host", host), ("port", port), ("user", user), ("password", password),
        ("database", dbname), ("sslmode", sslmode) ] := by
    simp only [entriesOf, sixFields, List.map_cons, List.map_nil, String.ofList_toList]
    rfl
  have hempty : sslmode.toList = [] ↔ sslmode = "" := String.toList_eq_nil_iff
  rw [← hentries, encodes_iff h (toList_sixFields host port user password dbname sslmode)
    (sixFields_names host port user password dbname sslmode)]
  unfold sixFields PlainFields PlainFields PlainFields PlainFields PlainFields PlainFields
  rw [hempty]
  rfl

/-- A character that the format gives no meaning. -/
def isOrdinary (c : Char) : Bool :=
  !Text.KeywordValue.isSpace c && c != '\'' && c != '\\'

theorem readsBack_of_ordinary {unescape : List Char → List Char} (h : Unescapes unescape)
    {value : String} (hne : value ≠ "") (hordinary : value.toList.all isOrdinary = true) :
    ReadsBack unescape value := by
  apply Text.KeywordValue.plainValue_of_ordinary h
  · exact fun hnil => hne (String.toList_eq_nil_iff.1 hnil)
  · intro c hc
    have hall := List.all_eq_true.1 hordinary c hc
    simpa [isOrdinary, and_assoc] using hall

theorem isOrdinary_of_isDigit {c : Char} (hc : c.isDigit = true) : isOrdinary c = true := by
  -- Every character with a meaning is one of these, and none of them is a digit.
  have hspecial : ∀ d ∈ [' ', '\t', '\n', '\r', '\x0b', '\x0c', '\'', '\\'], d.isDigit = false :=
    by simp
  have hne : ∀ d ∈ [' ', '\t', '\n', '\r', '\x0b', '\x0c', '\'', '\\'], c ≠ d := by
    rintro d hd rfl
    rw [hspecial c hd] at hc
    cases hc
  simp only [List.mem_cons, List.not_mem_nil, or_false, forall_eq_or_imp, forall_eq] at hne
  simp [isOrdinary, Text.KeywordValue.isSpace, hne]

theorem readsBack_itoa {unescape : List Char → List Char} (h : Unescapes unescape) (n : Int) :
    ReadsBack unescape (itoa n) := by
  apply readsBack_of_ordinary h (itoa_ne_empty n)
  apply List.all_eq_true.2
  intro c hc
  rcases isDigit_or_hyphen_of_mem_itoa hc with hdigit | rfl
  · exact isOrdinary_of_isDigit hdigit
  · rfl

/-- A text of the backend is read as the fields it was written from exactly if every value reads
back: of a profile the host, the user name, the password and the database, and the SSL mode unless
it is empty; of the PgBouncer console the two parts of its address, the user name and the password;
of the default pool the five values of the environment. -/
structure TextsReadBack (unescape : List Char → List Char) : Prop where
  profile : ∀ (D : Driver) (pm : PoolManager D) (profile : ConnectionProfile),
    Encodes unescape (pm.profileText profile) (pm.profileFields profile) ↔
      ReadsBack unescape profile.host ∧ ReadsBack unescape pm.connUser ∧
        ReadsBack unescape pm.connPassword ∧ ReadsBack unescape profile.database ∧
          (profile.sslMode = "" ∨ ReadsBack unescape profile.sslMode)
  console : ∀ p : PgBouncer,
    Encodes unescape p.connText p.connFields ↔
      ReadsBack unescape p.endpoint.1 ∧ ReadsBack unescape p.endpoint.2 ∧
        ReadsBack unescape p.adminUser ∧ ReadsBack unescape p.adminPass
  default : ∀ env : ConnEnv,
    Encodes unescape env.dbURL env.dbFields ↔
      ReadsBack unescape (getEnv env.pgHost "/tmp") ∧
        ReadsBack unescape (getEnv env.pgPort "5432") ∧
          ReadsBack unescape (getEnv env.postgresqlUsername "postgres") ∧
            ReadsBack unescape (getEnv env.postgresqlPassword "postgres") ∧
              ReadsBack unescape (getEnv env.postgresqlDatabase "postgres")

theorem connection_texts_iff (unescape : List Char → List Char) (h : Unescapes unescape) :
    TextsReadBack unescape := by
  have hdisable : ReadsBack unescape "disable" := readsBack_of_ordinary h (by decide) (by decide)
  refine ⟨?_, ?_, ?_⟩
  · intro D pm profile
    have hsix := encodes_sixFields_iff h profile.host (itoa profile.port) pm.connUser
      pm.connPassword profile.database profile.sslMode
    have hport := readsBack_itoa h profile.port
    simp only [hport, true_and] at hsix
    exact hsix
  · intro p
    have hsix := encodes_sixFields_iff h p.endpoint.1 p.endpoint.2 p.adminUser p.adminPass
      "pgbouncer" "disable"
    have hdbname : ReadsBack unescape "pgbouncer" :=
      readsBack_of_ordinary h (by decide) (by decide)
    simp only [hdbname, hdisable, or_true, and_true] at hsix
    exact hsix
  · intro env
    have hsix := encodes_sixFields_iff h (getEnv env.pgHost "/tmp") (getEnv env.pgPort "5432")
      (getEnv env.postgresqlUsername "postgres") (getEnv env.postgresqlPassword "postgres")
      (getEnv env.postgresqlDatabase "postgres") "disable"
    simp only [hdisable, or_true, and_true] at hsix
    exact hsix

theorem connection_texts_iff_pairs :
    Unescapes Text.KeywordValue.unescapePairs ∧
      TextsReadBack Text.KeywordValue.unescapePairs :=
  ⟨Text.KeywordValue.unescapes_pairs,
    connection_texts_iff _ Text.KeywordValue.unescapes_pairs⟩

/-! ## An empty password -/

def replicaProfile : ConnectionProfile :=
  { name := "replica", host := "db", port := 5432, database := "app", sslMode := "disable" }

/-- The variable `POSTGRESQL_PASSWORD` is not set, so the password is empty. -/
theorem empty_password_swallows_database :
    ¬∀ (unescape : List Char → List Char), Unescapes unescape →
      ∀ (D : Driver) (pm : PoolManager D) (profile : ConnectionProfile),
        Encodes unescape (pm.profileText profile) (pm.profileFields profile) := by
  intro hall
  have hencodes := hall _ Text.KeywordValue.unescapes_pairs PoolManager.exampleDriver
    PoolManager.exampleManager replicaProfile
  have hplain := (encodes_sixFields_iff Text.KeywordValue.unescapes_pairs "db" (itoa 5432) "postgres"
    "" "app" "disable").1 hencodes
  exact absurd rfl hplain.2.2.2.1.nonempty

/-- What the driver makes of the text: the password is the setting of the database. -/
example :
    settings Text.KeywordValue.unescapePairs
        (PoolManager.exampleManager.profileText replicaProfile).toList =
      some [ ("host".toList, "db".toList), ("port".toList, "5432".toList),
        ("user".toList, "postgres".toList), ("password".toList, "dbname=app".toList),
        ("sslmode".toList, "disable".toList) ] := by
  decide +kernel

end Service
end Pgaio
