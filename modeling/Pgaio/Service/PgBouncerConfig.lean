import Pgaio.Go.Maps
import Pgaio.Go.Split

/-!
# PgBouncerConfig — rewriting `pgbouncer.ini`

`UpdateConfig` rewrites the lines that set a key of its map and leaves every other line as it is.  A line
that it writes is read again as a line for the same key (`readLine_rewriteLine`), so updating is a
frame-preserving change of the settings that the file has.  A key that no line sets is left out
without an error.
-/

namespace Pgaio
namespace Service

open Go

/-- Blank lines, comments and section headers. -/
def skipsLine (trimmed : String) : Bool :=
  trimmed == "" || hasPrefix trimmed ";" || hasPrefix trimmed "#" || hasPrefix trimmed "["

/-- The two parts of a line that sets something. -/
def settingParts (line : String) : Option (String × String) :=
  let trimmed := trimSpace line
  if skipsLine trimmed then none
  else
    (splitFirst '=' trimmed.toList).map fun (before, after) =>
      (String.ofList before, String.ofList after)

/-- The body of the loop of `UpdateConfig`. -/
def rewriteLine (settings : GoMap String String) (line : String) : String :=
  match settingParts line with
  | none => line
  | some (before, _) =>
      let key := trimSpace before
      match settings.lookup key with
      | some newVal => key ++ " = " ++ newVal
      | none => line

/-- The text that `UpdateConfig` writes. -/
def rewrittenConfig (settings : GoMap String String) (data : String) : String :=
  mapPieces '\n' (rewriteLine settings) data

/-- The configuration file and the admin console, as `UpdateConfig` finds them. -/
structure ConfigPlace where
  readFile : Except String String
  /-- `os.WriteFile`, with its error. -/
  writeFile : String → Option String
  reload : Option String

/-- What `UpdateConfig` hands to `os.WriteFile`, and the error that it returns. -/
structure UpdateOutcome where
  written : Option String
  err : Option String
deriving DecidableEq

def updateConfig (place : ConfigPlace) (settings : GoMap String String) : UpdateOutcome :=
  match place.readFile with
  | .error err => ⟨none, some ("failed to read pgbouncer config: " ++ err)⟩
  | .ok data =>
      let text := rewrittenConfig settings data
      match place.writeFile text with
      | some err => ⟨some text, some ("failed to write pgbouncer config: " ++ err)⟩
      | none =>
          match place.reload with
          | some err => ⟨some text, some ("config written but reload failed: " ++ err)⟩
          -- Whether every key has found its line is not asked.
          | none => ⟨some text, none⟩

/-! ## Reading the file -/

/-- The key and the value of a line, by the rules of `UpdateConfig`. -/
def readLine (line : String) : Option (String × String) :=
  (settingParts line).map fun (before, after) => (trimSpace before, trimSpace after)

/-- The settings of a file, in the order of its lines. -/
def readConfig (text : String) : List (String × String) :=
  (split '\n' text).filterMap readLine

/-- The file has the key, and never with another value. -/
def Sets (text key value : String) : Prop :=
  (key, value) ∈ readConfig text ∧ ∀ value', (key, value') ∈ readConfig text → value' = value

/-! ## A line that sets a key -/

/-- The texts that can be the key of a line. -/
structure IsKey (key : String) : Prop where
  trimmed : trimSpace key = key
  noEquals : '=' ∉ key.toList
  noNewline : '\n' ∉ key.toList
  noMark : ∀ c ∈ key.toList.head?, c ≠ ';' ∧ c ≠ '#' ∧ c ≠ '['

theorem skipsLine_eq_false {trimmed : String} {c : Char} {rest : List Char}
    (h : trimmed.toList = c :: rest) :
    skipsLine trimmed = false ↔ c ≠ ';' ∧ c ≠ '#' ∧ c ≠ '[' := by
  have hne : trimmed ≠ "" := by
    rintro rfl
    cases h
  have hmark : ∀ d : Char, [d].isPrefixOf (c :: rest) = false ↔ c ≠ d := by
    intro d
    simp [List.isPrefixOf, ne_comm]
  have h1 : ";".toList = [';'] := rfl
  have h2 : "#".toList = ['#'] := rfl
  have h3 : "[".toList = ['['] := rfl
  simp only [skipsLine, hasPrefix, h, h1, h2, h3, Bool.or_eq_false_iff, beq_eq_false_iff_ne, hmark,
    and_assoc]
  exact and_iff_right hne

theorem settingParts_eq_some {line before after : String}
    (h : settingParts line = some (before, after)) :
    skipsLine (trimSpace line) = false ∧
      (trimSpace line).toList = before.toList ++ '=' :: after.toList ∧ '=' ∉ before.toList := by
  unfold settingParts at h
  dsimp only at h
  split at h
  · cases h
  · rename_i hskip
    obtain ⟨⟨b, a⟩, hsplit, hparts⟩ := Option.map_eq_some_iff.1 h
    cases hparts
    rw [String.toList_ofList, String.toList_ofList]
    exact ⟨by simpa using hskip, splitFirst_eq_some.1 hsplit⟩

/-- What stands before the `=` of a trimmed line is trimmed on the left. -/
theorem toList_key_of_settingParts {line before after : String}
    (h : settingParts line = some (before, after)) :
    (trimSpace before).toList = before.toList.rdropWhile isSpace := by
  obtain ⟨-, hsplit, -⟩ := settingParts_eq_some h
  have htrimmed := dropWhile_of_trimmed (trimSpace_trimSpace line)
  rw [hsplit, dropWhile_append_cons (by decide)] at htrimmed
  rw [toList_trimSpace, List.append_cancel_right htrimmed]

theorem isKey_of_settingParts {line before after : String} (hline : '\n' ∉ line.toList)
    (h : settingParts line = some (before, after)) : IsKey (trimSpace before) := by
  obtain ⟨hskip, hsplit, hequals⟩ := settingParts_eq_some h
  have hkey := toList_key_of_settingParts h
  have hsub : (trimSpace before).toList <+: before.toList := by
    rw [hkey]
    exact List.rdropWhile_prefix _ _
  refine ⟨trimSpace_trimSpace before, fun hmem => hequals (hsub.subset hmem), fun hmem => ?_,
    fun c hc => ?_⟩
  · apply hline
    apply mem_of_mem_trimSpace
    rw [hsplit]
    exact List.mem_append_left _ (hsub.subset hmem)
  · -- The key begins as the trimmed line does.
    obtain ⟨rest, hrest⟩ := List.head?_eq_some_iff.1 hc
    obtain ⟨more, hmore⟩ := hsub
    rw [hrest] at hmore
    rw [← hmore] at hsplit
    exact (skipsLine_eq_false hsplit).1 hskip

/-- A line that `UpdateConfig` writes is a line for its key. -/
theorem readLine_setting {key : String} (hkey : IsKey key) (value : String) :
    readLine (key ++ " = " ++ value) = some (key, trimSpace value) := by
  have hline : (key ++ " = " ++ value).toList =
      (key.toList ++ [' ']) ++ '=' :: ' ' :: value.toList := by
    simp
  have htrimmed := toList_trimSpace_around (by decide) hline
  -- Without a key the line begins with the `=`.
  obtain ⟨before, hleft, hnot, hbefore, hskip⟩ : ∃ before : String,
      (key.toList ++ [' ']).dropWhile isSpace = before.toList ∧ '=' ∉ before.toList ∧
        trimSpace before = key ∧
          ∀ trimmed rest, trimmed.toList = before.toList ++ '=' :: rest → skipsLine trimmed = false := by
    cases hkeychars : key.toList with
    | nil =>
        obtain rfl := String.toList_eq_nil_iff.1 hkeychars
        exact ⟨"", by decide, by decide, by decide, fun trimmed rest h =>
          (skipsLine_eq_false h).2 (by decide)⟩
    | cons c more =>
        have hc : isSpace c = false := isSpace_of_trimmed hkey.trimmed hkeychars
        have hblank : (key ++ " ").toList = c :: more ++ [' '] := by
          rw [String.toList_append, hkeychars]
          rfl
        refine ⟨key ++ " ", ?_, by simpa using hkey.noEquals, ?_, fun trimmed rest h => ?_⟩
        · rw [hblank, List.cons_append, List.dropWhile_cons_of_neg (by simp [hc])]
        · rw [trimSpace_append_blank, hkey.trimmed]
        · rw [String.toList_append, hkeychars] at h
          exact (skipsLine_eq_false h).2 (hkey.noMark c (by rw [hkeychars]; rfl))
  rw [hleft] at htrimmed
  have hparts : settingParts (key ++ " = " ++ value) =
      some (before, String.ofList ((' ' :: value.toList).rdropWhile isSpace)) := by
    unfold settingParts
    dsimp only
    rw [if_neg (by simpa using hskip _ _ htrimmed), splitFirst_eq_some.2 ⟨htrimmed, hnot⟩]
    simp
  have hvalue : trimSpace (String.ofList ((' ' :: value.toList).rdropWhile isSpace)) =
      trimSpace value := by
    apply String.toList_inj.1
    rw [toList_trimSpace, toList_trimSpace, String.toList_ofList, dropWhile_rdropWhile,
      List.rdropWhile_idempotent]
    rfl
  simp only [readLine, hparts, Option.map_some, hbefore, hvalue]

/-! ## One line -/

variable {settings other : GoMap String String} {line : String}

/-- No value breaks its line. -/
def NoNewlines (settings : GoMap String String) : Prop :=
  ∀ key value, settings.lookup key = some value → '\n' ∉ value.toList

/-- What a setting of the file is after the update. -/
def updatedSetting (settings : GoMap String String) (setting : String × String) : String × String :=
  match settings.lookup setting.1 with
  | some newVal => (setting.1, trimSpace newVal)
  | none => setting

@[simp] theorem updatedSetting_fst (settings : GoMap String String) (setting : String × String) :
    (updatedSetting settings setting).1 = setting.1 := by
  unfold updatedSetting
  cases settings.lookup setting.1 with
  | none => rfl
  | some newVal => rfl

theorem rewriteLine_of_readLine_eq_none (h : readLine line = none) : rewriteLine settings line = line := by
  have hparts : settingParts line = none := Option.map_eq_none_iff.1 h
  unfold rewriteLine
  simp only [hparts]

theorem rewriteLine_of_readLine {key value : String} (h : readLine line = some (key, value)) :
    rewriteLine settings line =
      match settings.lookup key with
      | some newVal => key ++ " = " ++ newVal
      | none => line := by
  obtain ⟨⟨before, after⟩, hparts, heq⟩ := Option.map_eq_some_iff.1 h
  obtain ⟨rfl, -⟩ := Prod.mk.inj heq
  unfold rewriteLine
  simp only [hparts]

theorem isKey_of_readLine {key value : String} (hline : '\n' ∉ line.toList)
    (h : readLine line = some (key, value)) : IsKey key := by
  obtain ⟨⟨before, after⟩, hparts, heq⟩ := Option.map_eq_some_iff.1 h
  obtain ⟨rfl, -⟩ := Prod.mk.inj heq
  exact isKey_of_settingParts hline hparts

/-- A rewritten line is still one line. -/
theorem newline_notMem_rewriteLine (hclean : NoNewlines settings) (hline : '\n' ∉ line.toList) :
    '\n' ∉ (rewriteLine settings line).toList := by
  cases h : readLine line with
  | none => rwa [rewriteLine_of_readLine_eq_none h]
  | some setting =>
      obtain ⟨key, value⟩ := setting
      rw [rewriteLine_of_readLine h]
      cases hlookup : settings.lookup key with
      | none => exact hline
      | some newVal =>
          have hkey := (isKey_of_readLine hline h).noNewline
          have hvalue := hclean key newVal hlookup
          simpa using ⟨hkey, hvalue⟩

/-- A rewritten line sets the same key. -/
theorem readLine_rewriteLine (hline : '\n' ∉ line.toList) :
    readLine (rewriteLine settings line) = (readLine line).map (updatedSetting settings) := by
  cases h : readLine line with
  | none => rw [rewriteLine_of_readLine_eq_none h, h, Option.map_none]
  | some setting =>
      obtain ⟨key, value⟩ := setting
      rw [rewriteLine_of_readLine h, Option.map_some, updatedSetting]
      dsimp only
      cases hlookup : settings.lookup key with
      | none => exact h
      | some newVal => exact readLine_setting (isKey_of_readLine hline h) newVal

theorem rewriteLine_rewriteLine (hline : '\n' ∉ line.toList) :
    rewriteLine settings (rewriteLine settings line) = rewriteLine settings line := by
  cases h : readLine line with
  | none => rw [rewriteLine_of_readLine_eq_none h, rewriteLine_of_readLine_eq_none h]
  | some setting =>
      obtain ⟨key, value⟩ := setting
      rw [rewriteLine_of_readLine h]
      cases hlookup : settings.lookup key with
      | none => rw [rewriteLine_of_readLine h, hlookup]
      | some newVal =>
          -- The new line has the same key, and gets the same value.
          rw [rewriteLine_of_readLine (readLine_setting (isKey_of_readLine hline h) newVal), hlookup]

/-- Of two maps with different keys at most one touches a line. -/
theorem rewriteLine_comm (hline : '\n' ∉ line.toList) (hdisjoint : ∀ key ∈ settings, key ∉ other) :
    rewriteLine settings (rewriteLine other line) = rewriteLine other (rewriteLine settings line) := by
  cases h : readLine line with
  | none =>
      rw [rewriteLine_of_readLine_eq_none h, rewriteLine_of_readLine_eq_none h,
        rewriteLine_of_readLine_eq_none h]
  | some setting =>
      obtain ⟨key, value⟩ := setting
      have hset := fun value => readLine_setting (isKey_of_readLine hline h) value
      rw [rewriteLine_of_readLine h, rewriteLine_of_readLine h]
      by_cases hkey : key ∈ settings
      · -- The other map leaves the line alone, before and after.
        obtain ⟨newVal, hlookup⟩ := Option.isSome_iff_exists.1 (AList.lookup_isSome.2 hkey)
        have hnone : other.lookup key = none := AList.lookup_eq_none.2 (hdisjoint key hkey)
        rw [hlookup, hnone, rewriteLine_of_readLine h, rewriteLine_of_readLine (hset newVal), hlookup,
          hnone]
      · have hnone : settings.lookup key = none := AList.lookup_eq_none.2 hkey
        rw [hnone]
        cases hlookup : other.lookup key with
        | none => rw [rewriteLine_of_readLine h, rewriteLine_of_readLine h, hnone, hlookup]
        | some newVal =>
            rw [rewriteLine_of_readLine (hset newVal), rewriteLine_of_readLine h, hnone, hlookup]

/-! ## The whole file -/

/-- The lines that an update has to leave alone. -/
def LeavesLine (settings : GoMap String String) (line : String) : Prop :=
  let trimmed := trimSpace line
  trimmed = "" ∨ hasPrefix trimmed ";" = true ∨ hasPrefix trimmed "#" = true ∨
    hasPrefix trimmed "[" = true ∨ '=' ∉ trimmed.toList ∨
      ∃ before after : String, trimmed.toList = before.toList ++ '=' :: after.toList ∧
        '=' ∉ before.toList ∧ trimSpace before ∉ settings

theorem rewriteLine_of_leavesLine (h : LeavesLine settings line) : rewriteLine settings line = line := by
  cases hparts : settingParts line with
  | none => rw [rewriteLine, hparts]
  | some parts =>
      obtain ⟨before, after⟩ := parts
      obtain ⟨hskip, hsplit, hnot⟩ := settingParts_eq_some hparts
      simp only [skipsLine, Bool.or_eq_false_iff, beq_eq_false_iff_ne, and_assoc] at hskip
      obtain ⟨hblank, hsemicolon, hhash, hbracket⟩ := hskip
      have hequals : '=' ∈ (trimSpace line).toList := by
        rw [hsplit]
        exact List.mem_append_right _ List.mem_cons_self
      rcases h with heq | heq | heq | heq | heq | ⟨before', after', hsplit', hnot', hkey⟩
      · exact absurd heq hblank
      · exact absurd heq (by simp [hsemicolon])
      · exact absurd heq (by simp [hhash])
      · exact absurd heq (by simp [hbracket])
      · exact absurd hequals heq
      · -- The first `=` is the same one.
        have hsame := (splitFirst_eq_some.2 ⟨hsplit, hnot⟩).symm.trans
          (splitFirst_eq_some.2 ⟨hsplit', hnot'⟩)
        simp only [Option.some.injEq, Prod.mk.injEq, String.toList_inj] at hsame
        obtain ⟨rfl, -⟩ := hsame
        rw [rewriteLine, hparts]
        simp only [AList.lookup_eq_none.2 hkey]

theorem split_rewrittenConfig (hclean : NoNewlines settings) (data : String) :
    split '\n' (rewrittenConfig settings data) = (split '\n' data).map (rewriteLine settings) :=
  split_mapPieces (fun _ => newline_notMem_rewriteLine hclean) data

theorem rewrittenConfig_frame {data : String} (hclean : NoNewlines settings)
    (hother : NoNewlines other) :
    (split '\n' (rewrittenConfig settings data)).length = (split '\n' data).length ∧
      (∀ (i : Nat) (line : String), (split '\n' data)[i]? = some line → LeavesLine settings line →
        (split '\n' (rewrittenConfig settings data))[i]? = some line) ∧
      rewrittenConfig settings (rewrittenConfig settings data) = rewrittenConfig settings data ∧
      ((∀ key ∈ settings, key ∉ other) →
        rewrittenConfig settings (rewrittenConfig other data) =
          rewrittenConfig other (rewrittenConfig settings data)) := by
  have hkeeps : ∀ piece : String, '\n' ∉ piece.toList → '\n' ∉ (rewriteLine settings piece).toList :=
    fun _ => newline_notMem_rewriteLine hclean
  have hkeepsOther : ∀ piece : String, '\n' ∉ piece.toList → '\n' ∉ (rewriteLine other piece).toList :=
    fun _ => newline_notMem_rewriteLine hother
  refine ⟨?_, fun i line hi hleaves => ?_, ?_, fun hdisjoint => ?_⟩
  · rw [split_rewrittenConfig hclean, List.length_map]
  · rw [split_rewrittenConfig hclean, List.getElem?_map, hi, Option.map_some,
      rewriteLine_of_leavesLine hleaves]
  · exact (mapPieces_mapPieces hkeeps data).trans
      (mapPieces_congr (fun _ => rewriteLine_rewriteLine) data)
  · calc rewrittenConfig settings (rewrittenConfig other data)
        = mapPieces '\n' (fun line => rewriteLine settings (rewriteLine other line)) data :=
          mapPieces_mapPieces hkeepsOther data
      _ = mapPieces '\n' (fun line => rewriteLine other (rewriteLine settings line)) data :=
          mapPieces_congr (fun _ hline => rewriteLine_comm hline hdisjoint) data
      _ = rewrittenConfig other (rewrittenConfig settings data) := (mapPieces_mapPieces hkeeps data).symm

/-- The sizes of the pools, as the tuner sends them. -/
def poolSizes : GoMap String String :=
  GoMap.ofEntries [("default_pool_size", "20"), ("min_pool_size", "5")]

theorem newline_notMem_poolSizes {key value : String} (hlookup : poolSizes.lookup key = some value) :
    '\n' ∉ key.toList ∧ '\n' ∉ value.toList := by
  have hmem := GoMap.mem_entries_of_lookup hlookup
  simp only [List.mem_cons, Prod.mk.injEq, List.not_mem_nil, or_false] at hmem
  rcases hmem with ⟨rfl, rfl⟩ | ⟨rfl, rfl⟩
  · decide
  · decide

theorem noNewlines_poolSizes : NoNewlines poolSizes :=
  fun _ _ hlookup => (newline_notMem_poolSizes hlookup).2

theorem rewrittenConfig_frame_poolSizes :
    NoNewlines poolSizes ∧
      rewrittenConfig poolSizes (rewrittenConfig poolSizes "[pgbouncer]\ndefault_pool_size=10") =
        rewrittenConfig poolSizes "[pgbouncer]\ndefault_pool_size=10" :=
  ⟨noNewlines_poolSizes,
    (rewrittenConfig_frame noNewlines_poolSizes noNewlines_poolSizes).2.2.1⟩

/-- The lines of the file keep their keys, and a key of the map has its new value. -/
theorem readConfig_rewrittenConfig (hclean : NoNewlines settings) (data : String) :
    readConfig (rewrittenConfig settings data) = (readConfig data).map (updatedSetting settings) := by
  rw [readConfig, split_rewrittenConfig hclean, List.filterMap_map, readConfig, List.map_filterMap]
  apply List.filterMap_congr
  intro line hline
  rw [Function.comp_apply, readLine_rewriteLine (sep_notMem_of_mem_split hline)]

theorem sets_rewrittenConfig_iff {data key value : String} (hclean : NoNewlines settings)
    (hlookup : settings.lookup key = some value) :
    Sets (rewrittenConfig settings data) key value ↔
      (∃ old, (key, old) ∈ readConfig data) ∧ trimSpace value = value := by
  have hnew : ∀ old, updatedSetting settings (key, old) = (key, trimSpace value) := by
    intro old
    rw [updatedSetting, hlookup]
  -- Every line that sets the key now gives it the trimmed value.
  have hmem : ∀ value', (key, value') ∈ readConfig (rewrittenConfig settings data) ↔
      (∃ old, (key, old) ∈ readConfig data) ∧ value' = trimSpace value := by
    intro value'
    rw [readConfig_rewrittenConfig hclean, List.mem_map]
    constructor
    · rintro ⟨⟨key', old⟩, hold, heq⟩
      obtain rfl : key = key' := (congrArg Prod.fst heq).symm.trans (updatedSetting_fst _ _)
      rw [hnew] at heq
      exact ⟨⟨old, hold⟩, (Prod.mk.inj heq).2.symm⟩
    · rintro ⟨⟨old, hold⟩, rfl⟩
      exact ⟨(key, old), hold, hnew old⟩
  unfold Sets
  simp only [hmem]
  constructor
  · rintro ⟨⟨hold, heq⟩, -⟩
    exact ⟨hold, heq.symm⟩
  · rintro ⟨hold, heq⟩
    exact ⟨⟨hold, heq.symm⟩, fun value' h => h.2.trans heq⟩

/-- Where the file can be read and written and the console reloads, there is no error. -/
theorem updateConfig_of_ok {place : ConfigPlace} {data : String} (hread : place.readFile = .ok data)
    (hwrite : place.writeFile (rewrittenConfig settings data) = none) (hreload : place.reload = none) :
    updateConfig place settings = ⟨some (rewrittenConfig settings data), none⟩ := by
  rw [updateConfig, hread]
  dsimp only
  rw [hwrite, hreload]

/-- A run without an error writes the rewritten text. -/
theorem written_of_updateConfig {place : ConfigPlace} {data text : String}
    (hread : place.readFile = .ok data) (hok : updateConfig place settings = ⟨some text, none⟩) :
    text = rewrittenConfig settings data := by
  have hwritten := congrArg UpdateOutcome.written hok
  have herr := congrArg UpdateOutcome.err hok
  rw [updateConfig, hread] at hwritten herr
  dsimp only at hwritten herr
  cases hwrite : place.writeFile (rewrittenConfig settings data) with
  | some err =>
      rw [hwrite] at herr
      exact absurd herr (Option.some_ne_none _)
  | none =>
      rw [hwrite] at hwritten herr
      cases hreload : place.reload with
      | some err =>
          rw [hreload] at herr
          exact absurd herr (Option.some_ne_none _)
      | none =>
          rw [hreload] at hwritten
          exact (Option.some.inj hwritten).symm

theorem updateConfig_sets_iff {place : ConfigPlace} {data text : String} (hclean : NoNewlines settings)
    (hread : place.readFile = .ok data) (hok : updateConfig place settings = ⟨some text, none⟩) :
    (∀ key value, settings.lookup key = some value → Sets text key value) ↔
      ∀ key value, settings.lookup key = some value →
        (∃ old, (key, old) ∈ readConfig data) ∧ trimSpace value = value := by
  obtain rfl := written_of_updateConfig hread hok
  exact forall_congr' fun key => forall_congr' fun value =>
    forall_congr' fun hlookup => sets_rewrittenConfig_iff hclean hlookup

/-- A file on a disk that can be written, and a console that reloads. -/
def poolPlace (data : String) : ConfigPlace :=
  ⟨.ok data, fun _ => none, none⟩

theorem updateConfig_sets_iff_poolSizes :
    updateConfig (poolPlace "default_pool_size = 10\nmin_pool_size = 0") poolSizes =
        ⟨some "default_pool_size = 20\nmin_pool_size = 5", none⟩ ∧
      ((∀ key value, poolSizes.lookup key = some value →
          Sets "default_pool_size = 20\nmin_pool_size = 5" key value) ↔
        ∀ key value, poolSizes.lookup key = some value →
          (∃ old, (key, old) ∈ readConfig "default_pool_size = 10\nmin_pool_size = 0") ∧
            trimSpace value = value) := by
  have hok : updateConfig (poolPlace "default_pool_size = 10\nmin_pool_size = 0") poolSizes =
      ⟨some "default_pool_size = 20\nmin_pool_size = 5", none⟩ := by
    decide +kernel
  exact ⟨hok, updateConfig_sets_iff noNewlines_poolSizes rfl hok⟩

/-- A key that no line of the file sets is lost, and nothing says so. -/
theorem updateConfig_drops_key :
    ¬ ∀ (place : ConfigPlace) (settings : GoMap String String) (text : String),
      (∀ key value, settings.lookup key = some value →
        '\n' ∉ key.toList ∧ '\n' ∉ value.toList) →
      updateConfig place settings = ⟨some text, none⟩ →
      ∀ key value, settings.lookup key = some value → Sets text key value := by
  intro h
  have hsets := h (poolPlace "[pgbouncer]\ndefault_pool_size = 10") poolSizes
    "[pgbouncer]\ndefault_pool_size = 20" (fun _ _ => newline_notMem_poolSizes) (by decide +kernel) "min_pool_size" "5"
    (by decide +kernel)
  have hnot : ("min_pool_size", "5") ∉ readConfig "[pgbouncer]\ndefault_pool_size = 20" := by
    decide +kernel
  exact hnot hsets.1

end Service
end Pgaio
