import Mathlib.Algebra.GroupWithZero.Nat
import Mathlib.Algebra.Order.Group.Nat
import Mathlib.Algebra.BigOperators.Group.List.Basic
import Mathlib.Algebra.Order.BigOperators.Group.List
import Mathlib.Data.List.Nodup
import Mathlib.Data.List.Perm.Subperm

/-!
# KeywordValue — the keyword/value format of connection strings

A text of settings `key=value`, separated by blanks.  Blanks around the equals sign do not count; a
value that begins with a single quote goes to the next quote, any other one to the next blank, and a
backslash takes its next character along in both.  `settings` reads such a text from left to right.
What the backslashes of a value stand for is a parameter, `unescape`.

`render` writes settings without quotes.  `settings_render_iff` says which values come back: a setting
that is read uses up at least as many characters as it has (`cost_settings`), so if all of them come
back there is no character to spare, and each value has been read as it was written.
-/

namespace Pgaio
namespace Text
namespace KeywordValue

/-! ## Reading -/

/-- The blanks of the format. -/
def isSpace (c : Char) : Bool :=
  [' ', '\t', '\n', '\r', '\x0b', '\x0c'].contains c

def trimLeft (s : List Char) : List Char :=
  s.dropWhile isSpace

def trim (s : List Char) : List Char :=
  ((trimLeft s).reverse.dropWhile isSpace).reverse

/-- The text before and after the first equals sign. -/
def splitEq : List Char → Option (List Char × List Char)
  | [] => none
  | c :: s =>
      if c = '=' then some ([], s) else (splitEq s).map fun (key, rest) => (c :: key, rest)

/-- A value without quotes, and the text after the blank behind it. -/
def scanValue : List Char → Option (List Char × List Char)
  | [] => some ([], [])
  -- No character follows the backslash.
  | ['\\'] => none
  | '\\' :: c :: s => (scanValue s).map fun (raw, rest) => ('\\' :: c :: raw, rest)
  | c :: s => if isSpace c then some ([], s) else (scanValue s).map fun (raw, rest) => (c :: raw, rest)

/-- A value up to its closing quote, and the text after the quote. -/
def scanQuoted : List Char → Option (List Char × List Char)
  | [] => none
  | ['\\'] => none
  | '\\' :: c :: s => (scanQuoted s).map fun (raw, rest) => ('\\' :: c :: raw, rest)
  | c :: s => if c = '\'' then some ([], s) else (scanQuoted s).map fun (raw, rest) => (c :: raw, rest)

/-- The name of a setting; `dbname` is an other word for `database`. -/
def settingName (key : List Char) : List Char :=
  if key = ['d', 'b', 'n', 'a', 'm', 'e'] then ['d', 'a', 't', 'a', 'b', 'a', 's', 'e'] else key

abbrev Setting := List Char × List Char

variable (unescape : List Char → List Char)

/-- The value at the beginning of the text, and the text after it. -/
def scanEither (s : List Char) : Option (List Char × List Char) :=
  match s with
  | [] => some ([], [])
  | '\'' :: quoted => (scanQuoted quoted).map fun (raw, rest) => (unescape raw, rest)
  | s => (scanValue s).map fun (raw, rest) => (unescape raw, rest)

/-- The first setting of the text, and the text after it. -/
def nextSetting (s : List Char) : Option (Setting × List Char) :=
  match splitEq s with
  | none => none
  | some (key, rest) =>
      match scanEither unescape (trimLeft rest) with
      | none => none
      | some (value, rest) =>
          if trim key = [] then none else some ((settingName (trim key), value), rest)

def settingsWithin : Nat → List Char → Option (List Setting)
  | _, [] => some []
  | 0, _ :: _ => none
  | fuel + 1, s =>
      match nextSetting unescape s with
      | none => none
      | some (setting, rest) => (settingsWithin fuel rest).map fun settings => setting :: settings

/-- The settings of a text in their order; each takes at least one character. -/
def settings (s : List Char) : Option (List Setting) :=
  settingsWithin unescape s.length s

/-! ## Writing -/

/-- A key as a program writes it; of the two words for the database it takes the shorter one. -/
structure Keyword where
  text : List Char
  nonempty : text ≠ []
  plain : ∀ c ∈ text, c ≠ '=' ∧ isSpace c = false
  short : text ≠ ['d', 'a', 't', 'a', 'b', 'a', 's', 'e']

abbrev Field := Keyword × List Char

def Keyword.name (key : Keyword) : List Char :=
  settingName key.text

/-- The setting that a field means. -/
def Field.setting (field : Field) : Setting :=
  (field.1.name, field.2)

def render : List Field → List Char
  | [] => []
  | [field] => field.1.text ++ '=' :: field.2
  | field :: fields => field.1.text ++ '=' :: (field.2 ++ ' ' :: render fields)

/-- No blank stands outside an escape, and no backslash at the end. -/
def unbroken : List Char → Bool
  | [] => true
  | ['\\'] => false
  | '\\' :: _ :: s => unbroken s
  | c :: s => !isSpace c && unbroken s

/-- A value that is read as it is written. -/
structure PlainValue (value : List Char) : Prop where
  nonempty : value ≠ []
  unquoted : value.head? ≠ some '\''
  unbroken : unbroken value = true
  unescaped : unescape value = value

/-- The last value may also be empty. -/
def PlainFields : List Field → Prop
  | [] => True
  | [field] => field.2 = [] ∨ PlainValue unescape field.2
  | field :: fields => PlainValue unescape field.2 ∧ PlainFields fields

/-! ## The pieces of a text -/

theorem splitEq_eq {s key rest : List Char} (h : splitEq s = some (key, rest)) :
    s = key ++ '=' :: rest := by
  induction s generalizing key with
  | nil => cases h
  | cons c s ih =>
      unfold splitEq at h
      split at h
      · rename_i hc
        cases h
        rw [hc]
        rfl
      · obtain ⟨⟨key', rest'⟩, hsplit, heq⟩ := Option.map_eq_some_iff.1 h
        cases heq
        exact congrArg (c :: ·) (ih hsplit)

theorem splitEq_keyword (key : Keyword) (rest : List Char) :
    splitEq (key.text ++ '=' :: rest) = some (key.text, rest) := by
  have hplain : ∀ c ∈ key.text, c ≠ '=' := fun c hc => (key.plain c hc).1
  generalize key.text = text at hplain ⊢
  induction text with
  | nil => rfl
  | cons c text ih =>
      have hc := hplain c List.mem_cons_self
      have hsplit := ih fun d hd => hplain d (List.mem_cons_of_mem c hd)
      unfold splitEq
      rw [List.cons_append]
      dsimp only
      rw [if_neg hc, hsplit]
      rfl

theorem trimLeft_suffix (s : List Char) : trimLeft s <:+ s :=
  List.dropWhile_suffix isSpace

theorem length_trim_le (s : List Char) : (trim s).length ≤ s.length := by
  unfold trim
  rw [List.length_reverse]
  calc
    ((trimLeft s).reverse.dropWhile isSpace).length ≤ (trimLeft s).reverse.length :=
      (List.dropWhile_suffix isSpace).length_le
    _ = (trimLeft s).length := List.length_reverse
    _ ≤ s.length := (trimLeft_suffix s).length_le

theorem trimLeft_of_head {s : List Char} (h : ∀ c, s.head? = some c → isSpace c = false) :
    trimLeft s = s := by
  cases s with
  | nil => rfl
  | cons c s => exact List.dropWhile_cons_of_neg (by simp [h c rfl])

theorem trim_keyword (key : Keyword) : trim key.text = key.text := by
  have hplain : ∀ c ∈ key.text, isSpace c = false := fun c hc => (key.plain c hc).2
  have hleft : trimLeft key.text = key.text := by
    apply trimLeft_of_head
    intro c hc
    exact hplain c (List.mem_of_mem_head? hc)
  have hright : key.text.reverse.dropWhile isSpace = key.text.reverse := by
    apply trimLeft_of_head
    intro c hc
    exact hplain c (List.mem_reverse.1 (List.mem_of_mem_head? hc))
  unfold trim
  rw [hleft, hright, List.reverse_reverse]

/-- A character that begins no escape. -/
theorem ne_backslash {c : Char} {s : List Char} (hend : c = '\\' → s = [] → False)
    (hescape : ∀ (d : Char) (t : List Char), c = '\\' → s = d :: t → False) : c ≠ '\\' := by
  intro hc
  cases s with
  | nil => exact hend hc rfl
  | cons d t => exact hescape d t hc rfl

theorem scanValue_cons {c : Char} (hc : c ≠ '\\') (s : List Char) :
    scanValue (c :: s) =
      if isSpace c then some ([], s)
      else (scanValue s).map fun (raw, rest) => (c :: raw, rest) := by
  cases s with
  | nil => simp [scanValue, hc]
  | cons d t => simp [scanValue, hc]

theorem scanQuoted_cons {c : Char} (hc : c ≠ '\\') (s : List Char) :
    scanQuoted (c :: s) =
      if c = '\'' then some ([], s)
      else (scanQuoted s).map fun (raw, rest) => (c :: raw, rest) := by
  cases s with
  | nil => simp [scanQuoted, hc]
  | cons d t => simp [scanQuoted, hc]

theorem unbroken_cons {c : Char} (hc : c ≠ '\\') (s : List Char) :
    unbroken (c :: s) = (!isSpace c && unbroken s) := by
  cases s with
  | nil => simp [unbroken, hc]
  | cons d t => simp [unbroken, hc]

/-- A value without quotes has no blank outside an escape; it is followed by a blank, or it ends the
text. -/
theorem scanValue_spec {s raw rest : List Char} (h : scanValue s = some (raw, rest)) :
    unbroken raw = true ∧
      ((s = raw ∧ rest = []) ∨ ∃ c, isSpace c = true ∧ s = raw ++ c :: rest) := by
  induction s using scanValue.induct generalizing raw with
  | case1 =>
      cases h
      exact ⟨rfl, Or.inl ⟨rfl, rfl⟩⟩
  | case2 => cases h
  -- An escaped character, which is no end of the value.
  | case3 c s ih =>
      obtain ⟨⟨raw', rest'⟩, hscan, heq⟩ := Option.map_eq_some_iff.1 h
      cases heq
      obtain ⟨hraw, hs⟩ := ih hscan
      refine ⟨hraw, ?_⟩
      rcases hs with ⟨rfl, rfl⟩ | ⟨d, hd, rfl⟩
      · exact Or.inl ⟨rfl, rfl⟩
      · exact Or.inr ⟨d, hd, rfl⟩
  | case4 c s hend hescape hc =>
      rw [scanValue_cons (ne_backslash hend hescape), if_pos hc] at h
      cases h
      exact ⟨rfl, Or.inr ⟨c, hc, rfl⟩⟩
  | case5 c s hend hescape hc ih =>
      have hne := ne_backslash hend hescape
      rw [scanValue_cons hne, if_neg hc] at h
      obtain ⟨⟨raw', rest'⟩, hscan, heq⟩ := Option.map_eq_some_iff.1 h
      cases heq
      obtain ⟨hraw, hs⟩ := ih hscan
      refine ⟨by rw [unbroken_cons hne, hraw]; simpa using hc, ?_⟩
      rcases hs with ⟨rfl, rfl⟩ | ⟨d, hd, rfl⟩
      · exact Or.inl ⟨rfl, rfl⟩
      · exact Or.inr ⟨d, hd, rfl⟩

/-- An unbroken value is read up to the blank behind it. -/
theorem scanValue_unbroken {value : List Char} (h : unbroken value = true) (rest : List Char) :
    scanValue (value ++ ' ' :: rest) = some (value, rest) := by
  induction value using unbroken.induct with
  | case1 => rfl
  | case2 => cases h
  | case3 c s ih =>
      have hscan := ih h
      simp only [List.cons_append, scanValue, hscan, Option.map_some]
  | case4 c s hend hescape ih =>
      have hne := ne_backslash hend hescape
      rw [unbroken_cons hne, Bool.and_eq_true, Bool.not_eq_true'] at h
      rw [List.cons_append, scanValue_cons hne, ih h.2, h.1]
      rfl

theorem scanValue_unbroken_end {value : List Char} (h : unbroken value = true) :
    scanValue value = some (value, []) := by
  induction value using unbroken.induct with
  | case1 => rfl
  | case2 => cases h
  | case3 c s ih =>
      have hscan := ih h
      simp only [scanValue, hscan, Option.map_some]
  | case4 c s hend hescape ih =>
      have hne := ne_backslash hend hescape
      rw [unbroken_cons hne, Bool.and_eq_true, Bool.not_eq_true'] at h
      rw [scanValue_cons hne, ih h.2, h.1]
      rfl

theorem scanQuoted_eq {s raw rest : List Char} (h : scanQuoted s = some (raw, rest)) :
    s = raw ++ '\'' :: rest := by
  induction s using scanQuoted.induct generalizing raw with
  | case1 => cases h
  | case2 => cases h
  | case3 c s ih =>
      obtain ⟨⟨raw', rest'⟩, hscan, heq⟩ := Option.map_eq_some_iff.1 h
      cases heq
      rw [ih hscan]
      rfl
  | case4 s hend hescape =>
      rw [scanQuoted_cons (by decide), if_pos rfl] at h
      cases h
      rfl
  | case5 c s hend hescape hc ih =>
      rw [scanQuoted_cons (ne_backslash hend hescape), if_neg hc] at h
      obtain ⟨⟨raw', rest'⟩, hscan, heq⟩ := Option.map_eq_some_iff.1 h
      cases heq
      rw [ih hscan]
      rfl

/-! ## One setting -/

section Reading

variable {unescape : List Char → List Char}

/-- A value takes its own characters, and two more when it is quoted. -/
theorem scanEither_cases {s value rest : List Char}
    (h : scanEither unescape s = some (value, rest)) :
    (s = [] ∧ value = [] ∧ rest = []) ∨
      (∃ raw, s = '\'' :: (raw ++ '\'' :: rest) ∧ value = unescape raw) ∨
      (∃ raw, s.head? ≠ some '\'' ∧ scanValue s = some (raw, rest) ∧ value = unescape raw) := by
  unfold scanEither at h
  split at h
  · cases h
    exact Or.inl ⟨rfl, rfl, rfl⟩
  · obtain ⟨⟨raw, rest'⟩, hscan, heq⟩ := Option.map_eq_some_iff.1 h
    cases heq
    exact Or.inr (Or.inl ⟨raw, congrArg _ (scanQuoted_eq hscan), rfl⟩)
  · rename_i hempty hquote
    obtain ⟨⟨raw, rest'⟩, hscan, heq⟩ := Option.map_eq_some_iff.1 h
    cases heq
    refine Or.inr (Or.inr ⟨raw, ?_, hscan, rfl⟩)
    intro hhead
    obtain ⟨tail, htail⟩ := List.head?_eq_some_iff.1 hhead
    exact hquote tail htail

theorem nextSetting_cases {s rest : List Char} {setting : Setting}
    (h : nextSetting unescape s = some (setting, rest)) :
    ∃ key tail, s = key ++ '=' :: tail ∧ setting.1 = settingName (trim key) ∧
      scanEither unescape (trimLeft tail) = some (setting.2, rest) := by
  unfold nextSetting at h
  split at h
  · cases h
  · rename_i key tail hsplit
    split at h
    · cases h
    · rename_i value rest' hscan
      split at h
      · cases h
      · cases h
        exact ⟨key, tail, splitEq_eq hsplit, rfl, hscan⟩

/-- The key of a field is read as it was written. -/
theorem nextSetting_keyword (key : Keyword) (tail : List Char) :
    nextSetting unescape (key.text ++ '=' :: tail) =
      (scanEither unescape (trimLeft tail)).map fun (value, rest) => ((key.name, value), rest) := by
  unfold nextSetting
  simp only [splitEq_keyword, trim_keyword]
  cases scanEither unescape (trimLeft tail) with
  | none => rfl
  | some found => exact if_neg key.nonempty

theorem nextSetting_name {key : Keyword} {tail rest : List Char} {setting : Setting}
    (h : nextSetting unescape (key.text ++ '=' :: tail) = some (setting, rest)) :
    setting.1 = key.name ∧ scanEither unescape (trimLeft tail) = some (setting.2, rest) := by
  rw [nextSetting_keyword] at h
  obtain ⟨⟨value, rest'⟩, hscan, heq⟩ := Option.map_eq_some_iff.1 h
  cases heq
  exact ⟨rfl, hscan⟩

/-! ## What a setting uses up -/

/-- The characters that a setting needs: its key, the equals sign, its value and a blank.  Of the two
words for the database the shorter one counts. -/
def cost (setting : Setting) : Nat :=
  (if setting.1 = ['d', 'a', 't', 'a', 'b', 'a', 's', 'e'] then 6 else setting.1.length) +
    setting.2.length + 2

theorem cost_settingName_le (key value : List Char) :
    cost (settingName key, value) ≤ key.length + value.length + 2 := by
  unfold cost settingName
  by_cases hkey : key = ['d', 'b', 'n', 'a', 'm', 'e']
  · simp [hkey]
  · rw [if_neg hkey]
    dsimp only
    split
    · rename_i hname
      simp [hname]
    · exact Nat.le_refl _

/-- A field needs what it has been written with. -/
theorem cost_setting (field : Field) :
    cost field.setting = field.1.text.length + field.2.length + 2 := by
  unfold cost Field.setting Keyword.name settingName
  by_cases hkey : field.1.text = ['d', 'b', 'n', 'a', 'm', 'e']
  · simp [hkey]
  · simp [hkey, field.1.short]

/-- The text of a setting covers its cost, but for the blank after the last one. -/
theorem cost_nextSetting (hshort : ∀ value, (unescape value).length ≤ value.length)
    {s rest : List Char} {setting : Setting}
    (h : nextSetting unescape s = some (setting, rest)) :
    rest.length < s.length ∧
      (cost setting + rest.length ≤ s.length ∨ rest = [] ∧ cost setting ≤ s.length + 1) := by
  obtain ⟨name, value⟩ := setting
  obtain ⟨key, tail, rfl, hname, hscan⟩ := nextSetting_cases h
  dsimp only at hname hscan
  subst hname
  have hcost := cost_settingName_le (trim key) value
  have hkey := length_trim_le key
  have htail := (trimLeft_suffix tail).length_le
  rw [List.length_append, List.length_cons]
  rcases scanEither_cases hscan with ⟨-, hvalue, rfl⟩ | ⟨raw, hs, hvalue⟩ | ⟨raw, -, hs, hvalue⟩
  · have hlength := congrArg List.length hvalue
    simp only [List.length_nil] at hlength ⊢
    exact ⟨by omega, Or.inr ⟨trivial, by omega⟩⟩
  · -- Two quotes are more than one blank.
    have hlength := hshort raw
    rw [← hvalue] at hlength
    have hs := congrArg List.length hs
    simp only [List.length_cons, List.length_append] at hs
    exact ⟨by omega, Or.inl (by omega)⟩
  · have hlength := hshort raw
    rw [← hvalue] at hlength
    rcases (scanValue_spec hs).2 with ⟨hraw, rfl⟩ | ⟨c, -, hraw⟩
    · have hraw := congrArg List.length hraw
      simp only [List.length_nil]
      exact ⟨by omega, Or.inr ⟨trivial, by omega⟩⟩
    · have hraw := congrArg List.length hraw
      simp only [List.length_cons, List.length_append] at hraw
      exact ⟨by omega, Or.inl (by omega)⟩

/-- More fuel than the text is long changes nothing. -/
theorem settingsWithin_eq (hshort : ∀ value, (unescape value).length ≤ value.length)
    {fuel fuel' : Nat} {s : List Char} (hfuel : s.length ≤ fuel) (hfuel' : s.length ≤ fuel') :
    settingsWithin unescape fuel s = settingsWithin unescape fuel' s := by
  induction fuel generalizing fuel' s with
  | zero =>
      rw [List.length_eq_zero_iff.1 (Nat.le_zero.1 hfuel)]
      cases fuel' <;> rfl
  | succ fuel ih =>
      cases s with
      | nil => cases fuel' <;> rfl
      | cons c s =>
          obtain ⟨fuel', rfl⟩ : ∃ less, fuel' = less + 1 :=
            ⟨fuel' - 1, by rw [List.length_cons] at hfuel'; omega⟩
          unfold settingsWithin
          cases hnext : nextSetting unescape (c :: s) with
          | none => rfl
          | some found =>
              obtain ⟨setting, rest⟩ := found
              have hless := (cost_nextSetting hshort hnext).1
              have hrest : settingsWithin unescape fuel rest = settingsWithin unescape fuel' rest :=
                ih (by omega) (by omega)
              dsimp only
              rw [hrest]

theorem settings_nil : settings unescape [] = some [] :=
  rfl

/-- Reading goes on after the first setting. -/
theorem settings_next (hshort : ∀ value, (unescape value).length ≤ value.length) {s : List Char}
    (hs : s ≠ []) :
    settings unescape s =
      (nextSetting unescape s).bind fun (setting, rest) =>
        (settings unescape rest).map fun settings => setting :: settings := by
  obtain ⟨c, tail, rfl⟩ := List.exists_cons_of_ne_nil hs
  calc
    settings unescape (c :: tail)
      = (match nextSetting unescape (c :: tail) with
        | none => none
        | some (setting, rest) =>
            (settingsWithin unescape tail.length rest).map fun settings => setting :: settings) :=
        rfl
    _ = (nextSetting unescape (c :: tail)).bind fun (setting, rest) =>
        (settings unescape rest).map fun settings => setting :: settings := by
      cases hnext : nextSetting unescape (c :: tail) with
      | none => rfl
      | some found =>
          obtain ⟨setting, rest⟩ := found
          have hless := (cost_nextSetting hshort hnext).1
          rw [List.length_cons] at hless
          dsimp only [Option.bind_some]
          rw [settingsWithin_eq hshort (Nat.le_of_lt_succ hless) (Nat.le_refl _)]
          rfl

/-- A text is as long as its settings need. -/
theorem cost_settings (hshort : ∀ value, (unescape value).length ≤ value.length) {s : List Char}
    {found : List Setting} (h : settings unescape s = some found) :
    (found.map cost).sum ≤ s.length + 1 := by
  induction hlength : s.length using Nat.strong_induction_on generalizing s found with
  | _ n ih =>
      subst hlength
      by_cases hs : s = []
      · subst hs
        rw [settings_nil, Option.some.injEq] at h
        subst h
        exact Nat.zero_le _
      · rw [settings_next hshort hs] at h
        obtain ⟨⟨setting, rest⟩, hnext, htail⟩ := Option.bind_eq_some_iff.1 h
        obtain ⟨others, hothers, rfl⟩ := Option.map_eq_some_iff.1 htail
        obtain ⟨hless, hcost⟩ := cost_nextSetting hshort hnext
        have hsum := ih rest.length hless hothers rfl
        rw [List.map_cons, List.sum_cons]
        rcases hcost with hcost | ⟨rfl, hcost⟩
        · omega
        · rw [settings_nil, Option.some.injEq] at hothers
          subst hothers
          exact hcost

/-! ## What is read of a text that has been written -/

/-- A value that is read back from a text with more behind it, without using up more than its own
blank. -/
theorem plain_of_scan (hshort : ∀ value, (unescape value).length ≤ value.length)
    {value tail rest : List Char} (htail : tail ≠ [])
    (h : scanEither unescape (trimLeft (value ++ ' ' :: tail)) = some (value, rest))
    (hrest : tail.length ≤ rest.length) : PlainValue unescape value ∧ rest = tail := by
  have htailLength := List.length_pos_iff.2 htail
  have hsuffix := trimLeft_suffix (value ++ ' ' :: tail)
  have htrim := hsuffix.length_le
  rw [List.length_append, List.length_cons] at htrim
  rcases scanEither_cases h with ⟨-, -, rfl⟩ | ⟨raw, hs, hvalue⟩ | ⟨raw, hquote, hs, hvalue⟩
  · exact absurd hrest (by rw [List.length_nil]; omega)
  · -- The quotes would take two characters.
    have hlength := hshort raw
    rw [← hvalue] at hlength
    have hs := congrArg List.length hs
    simp only [List.length_cons, List.length_append] at hs
    omega
  · have hlength := hshort raw
    rw [← hvalue] at hlength
    obtain ⟨hunbroken, ⟨-, rfl⟩ | ⟨c, -, hraw⟩⟩ := scanValue_spec hs
    · exact absurd hrest (by rw [List.length_nil]; omega)
    · -- No character is left over, so nothing has been trimmed and the value is what was read.
      have hrawLength := congrArg List.length hraw
      simp only [List.length_cons, List.length_append] at hrawLength
      have hwhole : trimLeft (value ++ ' ' :: tail) = value ++ ' ' :: tail := by
        apply hsuffix.eq_of_length
        rw [List.length_append, List.length_cons]
        omega
      rw [hwhole] at hraw hquote
      obtain ⟨heq, hcons⟩ := List.append_inj hraw (by omega)
      subst heq
      refine ⟨⟨?_, ?_, hunbroken, hvalue.symm⟩, ((List.cons.inj hcons).2).symm⟩
      · rintro rfl
        -- A text that begins with a blank is trimmed.
        have hless : (trimLeft (' ' :: tail)).length ≤ tail.length :=
          (trimLeft_suffix tail).length_le
        have hwhole := congrArg List.length hwhole
        rw [List.nil_append, List.length_cons] at hwhole
        omega
      · intro hhead
        apply hquote
        obtain ⟨others, hothers⟩ := List.head?_eq_some_iff.1 hhead
        rw [hothers]
        rfl

/-- The same of the last value of a text. -/
theorem plain_of_scan_end (hshort : ∀ value, (unescape value).length ≤ value.length)
    {value rest : List Char}
    (h : scanEither unescape (trimLeft value) = some (value, rest)) :
    value = [] ∨ PlainValue unescape value := by
  have hsuffix := trimLeft_suffix value
  have htrim := hsuffix.length_le
  rcases scanEither_cases h with ⟨-, hvalue, -⟩ | ⟨raw, hs, hvalue⟩ | ⟨raw, hquote, hs, hvalue⟩
  · exact Or.inl hvalue
  · -- A quoted value is longer than what it stands for, so it is not read back.
    have hlength := hshort raw
    rw [← hvalue] at hlength
    have hs := congrArg List.length hs
    simp only [List.length_cons, List.length_append] at hs
    omega
  · have hlength := hshort raw
    rw [← hvalue] at hlength
    obtain ⟨hunbroken, ⟨hraw, -⟩ | ⟨c, -, hraw⟩⟩ := scanValue_spec hs
    · -- Nothing was trimmed, since the value is as long as the text.
      have hwhole : trimLeft value = value := by
        apply hsuffix.eq_of_length
        rw [hraw] at htrim ⊢
        omega
      rw [hwhole] at hraw hquote
      subst hraw
      by_cases hempty : value = []
      · exact Or.inl hempty
      · exact Or.inr ⟨hempty, hquote, hunbroken, hvalue.symm⟩
    · have hraw := congrArg List.length hraw
      simp only [List.length_cons, List.length_append] at hraw
      omega

theorem isSpace_head_of_unbroken {value : List Char} (h : unbroken value = true) (c : Char)
    (hc : value.head? = some c) : isSpace c = false := by
  obtain ⟨tail, rfl⟩ := List.head?_eq_some_iff.1 hc
  by_cases hescape : c = '\\'
  · rw [hescape]
    rfl
  · rw [unbroken_cons hescape, Bool.and_eq_true, Bool.not_eq_true'] at h
    exact h.1

theorem scanEither_unquoted {s : List Char} (hs : s ≠ []) (hquote : s.head? ≠ some '\'') :
    scanEither unescape s = (scanValue s).map fun (raw, rest) => (unescape raw, rest) := by
  unfold scanEither
  split
  · exact absurd rfl hs
  · exact absurd rfl hquote
  · rfl

/-- A plain value is read up to the blank behind it. -/
theorem PlainValue.scan {value : List Char} (h : PlainValue unescape value) (tail : List Char) :
    scanEither unescape (trimLeft (value ++ ' ' :: tail)) = some (value, tail) := by
  have hhead : (value ++ ' ' :: tail).head? = value.head? := by
    obtain ⟨c, others, rfl⟩ := List.exists_cons_of_ne_nil h.nonempty
    rfl
  have htrim : trimLeft (value ++ ' ' :: tail) = value ++ ' ' :: tail := by
    apply trimLeft_of_head
    intro c hc
    exact isSpace_head_of_unbroken h.unbroken c (hhead ▸ hc)
  rw [htrim, scanEither_unquoted (List.append_ne_nil_of_left_ne_nil h.nonempty _)
    (hhead ▸ h.unquoted), scanValue_unbroken h.unbroken, Option.map_some]
  dsimp only
  rw [h.unescaped]

theorem scan_end {value : List Char} (h : value = [] ∨ PlainValue unescape value) :
    scanEither unescape (trimLeft value) = some (value, []) := by
  rcases h with rfl | h
  · rfl
  · rw [trimLeft_of_head (isSpace_head_of_unbroken h.unbroken),
      scanEither_unquoted h.nonempty h.unquoted, scanValue_unbroken_end h.unbroken,
      Option.map_some]
    dsimp only
    rw [h.unescaped]

theorem render_cons (field next : Field) (fields : List Field) :
    render (field :: next :: fields) =
      field.1.text ++ '=' :: (field.2 ++ ' ' :: render (next :: fields)) :=
  rfl

theorem render_ne_nil (field : Field) (fields : List Field) : render (field :: fields) ≠ [] := by
  cases fields with
  | nil => exact List.append_ne_nil_of_left_ne_nil field.1.nonempty _
  | cons next fields => exact List.append_ne_nil_of_left_ne_nil field.1.nonempty _

/-- Plain fields are read as they were written, and nothing else is read. -/
theorem settings_render (hshort : ∀ value, (unescape value).length ≤ value.length)
    {fields : List Field} (h : PlainFields unescape fields) :
    settings unescape (render fields) = some (fields.map Field.setting) := by
  induction fields with
  | nil => rfl
  | cons field fields ih =>
      rw [settings_next hshort (render_ne_nil field fields)]
      cases fields with
      | nil =>
          unfold render
          rw [nextSetting_keyword, scan_end h]
          rfl
      | cons next fields =>
          obtain ⟨hplain, hothers⟩ := h
          rw [render_cons, nextSetting_keyword, hplain.scan, Option.map_some, Option.bind_some]
          dsimp only
          rw [ih hothers]
          rfl

/-! ## Which texts come back -/

/-- A written text has exactly the characters that its fields need. -/
theorem length_render (field : Field) (fields : List Field) :
    (render (field :: fields)).length + 1 = (((field :: fields).map Field.setting).map cost).sum := by
  induction fields generalizing field with
  | nil =>
      simp [render, cost_setting]
      omega
  | cons next fields ih =>
      have htail := ih next
      rw [List.map_cons, List.map_cons, List.sum_cons, ← htail, cost_setting, render_cons]
      simp only [List.length_append, List.length_cons]
      omega

/-- Different settings that are all found need no more than what is found. -/
theorem cost_le_of_subset {wanted found : List Setting} (hnodup : wanted.Nodup)
    (hsub : wanted ⊆ found) : (wanted.map cost).sum ≤ (found.map cost).sum := by
  obtain ⟨part, hperm, hpart⟩ := List.subperm_of_subset hnodup hsub
  calc
    (wanted.map cost).sum = (part.map cost).sum := (hperm.symm.map cost).sum_eq
    _ ≤ (found.map cost).sum := (hpart.map cost).sum_le_sum fun _ _ => Nat.zero_le _

/-- Settings under different names are found behind the first one unless it is one of them. -/
theorem mem_others {field : Field} {fields : List Field}
    (hnames : ((field :: fields).map fun field => field.1.name).Nodup) {first : Setting}
    (hfirst : first.1 = field.1.name) {others : List Setting}
    (hfound : ∀ other ∈ fields, other.setting ∈ first :: others) :
    ∀ other ∈ fields, other.setting ∈ others := by
  intro other hother
  rcases List.mem_cons.1 (hfound other hother) with heq | hmem
  · have hname : other.1.name = field.1.name := (congrArg Prod.fst heq).trans hfirst
    rw [List.map_cons, List.nodup_cons] at hnames
    exact absurd (List.mem_map.2 ⟨other, hother, hname⟩) hnames.1
  · exact hmem

theorem nodup_settings {fields : List Field}
    (hnames : (fields.map fun field => field.1.name).Nodup) : (fields.map Field.setting).Nodup := by
  apply List.Nodup.of_map Prod.fst
  rw [List.map_map]
  exact hnames

/-- A text in which the settings of all fields are found is as long as the written one. -/
theorem length_render_le (hshort : ∀ value, (unescape value).length ≤ value.length) {field : Field}
    {fields : List Field} (hnames : ((field :: fields).map fun field => field.1.name).Nodup)
    {found : List Setting} {s : List Char} (h : settings unescape s = some found)
    (hfound : ∀ other ∈ field :: fields, other.setting ∈ found) :
    (render (field :: fields)).length ≤ s.length := by
  have hsub : (field :: fields).map Field.setting ⊆ found := by
    intro setting hsetting
    obtain ⟨other, hother, rfl⟩ := List.mem_map.1 hsetting
    exact hfound other hother
  apply Nat.le_of_succ_le_succ
  calc
    (render (field :: fields)).length + 1
      = (((field :: fields).map Field.setting).map cost).sum := length_render field fields
    _ ≤ (found.map cost).sum := cost_le_of_subset (nodup_settings hnames) hsub
    _ ≤ s.length + 1 := cost_settings hshort h

/-- If the settings of all fields are found, the first one is the first that is found: the rest of
the text is too short for all of them. -/
theorem first_eq (hshort : ∀ value, (unescape value).length ≤ value.length) {field : Field}
    {fields : List Field} (hnames : ((field :: fields).map fun field => field.1.name).Nodup)
    {first : Setting} (hfirst : first.1 = field.1.name) {others : List Setting} {rest : List Char}
    (hothers : settings unescape rest = some others)
    (hless : rest.length < (render (field :: fields)).length)
    (hfound : ∀ other ∈ field :: fields, other.setting ∈ first :: others) :
    first = field.setting := by
  rcases List.mem_cons.1 (hfound field List.mem_cons_self) with heq | hmem
  · exact heq.symm
  · -- Otherwise all of them are found behind it.
    have hbehind : ∀ other ∈ field :: fields, other.setting ∈ others := by
      intro other hother
      rcases List.mem_cons.1 hother with rfl | hother
      · exact hmem
      · exact mem_others hnames hfirst
          (fun other hother => hfound other (List.mem_cons_of_mem _ hother)) other hother
    have hlength := length_render_le hshort hnames hothers hbehind
    omega

theorem plain_of_settings (hshort : ∀ value, (unescape value).length ≤ value.length)
    {fields : List Field} (hnames : (fields.map fun field => field.1.name).Nodup)
    {found : List Setting} (h : settings unescape (render fields) = some found)
    (hfound : ∀ field ∈ fields, field.setting ∈ found) : PlainFields unescape fields := by
  induction fields generalizing found with
  | nil => exact trivial
  | cons field fields ih =>
      rw [settings_next hshort (render_ne_nil field fields)] at h
      obtain ⟨⟨first, rest⟩, hnext, htail⟩ := Option.bind_eq_some_iff.1 h
      obtain ⟨others, hothers, rfl⟩ := Option.map_eq_some_iff.1 htail
      have hless := (cost_nextSetting hshort hnext).1
      cases fields with
      | nil =>
          obtain ⟨hname, hscan⟩ := nextSetting_name hnext
          have hfirst := first_eq hshort hnames hname hothers hless hfound
          rw [hfirst] at hscan
          exact plain_of_scan_end hshort hscan
      | cons next fields =>
          obtain ⟨hname, hscan⟩ := nextSetting_name (render_cons field next fields ▸ hnext)
          have hfirst := first_eq hshort hnames hname hothers hless hfound
          rw [hfirst] at hscan
          have hrest := mem_others hnames hname fun other hother =>
            hfound other (List.mem_cons_of_mem _ hother)
          rw [List.map_cons, List.nodup_cons] at hnames
          -- The other fields are all found behind the first one, which leaves it just its blank.
          have hlength := length_render_le hshort hnames.2 hothers hrest
          obtain ⟨hplain, rfl⟩ := plain_of_scan hshort (render_ne_nil next fields) hscan hlength
          exact ⟨hplain, ih hnames.2 hothers hrest⟩

/-- The fields of a written text are all found in it exactly if their values are plain. -/
theorem settings_render_iff (hshort : ∀ value, (unescape value).length ≤ value.length)
    {fields : List Field} (hnames : (fields.map fun field => field.1.name).Nodup) :
    (∃ found, settings unescape (render fields) = some found ∧
        ∀ field ∈ fields, field.setting ∈ found) ↔
      PlainFields unescape fields := by
  constructor
  · rintro ⟨found, h, hfound⟩
    exact plain_of_settings hshort hnames h hfound
  · intro h
    exact ⟨_, settings_render hshort h, fun field hfield => List.mem_map_of_mem hfield⟩

end Reading

/-! ## What backslashes stand for -/

/-- A text without backslashes stands for itself, and no text for a longer one. -/
structure Unescapes (unescape : List Char → List Char) : Prop where
  plain : ∀ value, '\\' ∉ value → unescape value = value
  shortens : ∀ value, (unescape value).length ≤ value.length

/-- Replace every backslash in front of the character by the character alone. -/
def replacePairs (second : Char) : List Char → List Char
  | [] => []
  | [c] => [c]
  | c :: d :: s =>
      if c = '\\' ∧ d = second then second :: replacePairs second s
      else c :: replacePairs second (d :: s)

/-- Doubled backslashes first, then escaped quotes. -/
def unescapePairs (value : List Char) : List Char :=
  replacePairs '\'' (replacePairs '\\' value)

theorem length_replacePairs_le (second : Char) (s : List Char) :
    (replacePairs second s).length ≤ s.length := by
  induction s using replacePairs.induct second with
  | case1 => exact Nat.le_refl _
  | case2 c => exact Nat.le_refl _
  | case3 c d s hpair ih =>
      unfold replacePairs
      rw [if_pos hpair, List.length_cons, List.length_cons, List.length_cons]
      omega
  | case4 c d s hpair ih =>
      unfold replacePairs
      rw [if_neg hpair, List.length_cons, List.length_cons]
      omega

theorem replacePairs_plain (second : Char) {s : List Char} (h : '\\' ∉ s) :
    replacePairs second s = s := by
  induction s using replacePairs.induct second with
  | case1 => rfl
  | case2 c => rfl
  | case3 c d s hpair ih => exact absurd (hpair.1 ▸ List.mem_cons_self) h
  | case4 c d s hpair ih =>
      unfold replacePairs
      rw [if_neg hpair, ih fun hmem => h (List.mem_cons_of_mem c hmem)]

theorem unescapes_pairs : Unescapes unescapePairs where
  plain := by
    intro value h
    unfold unescapePairs
    rw [replacePairs_plain '\\' h, replacePairs_plain '\'' h]
  shortens := by
    intro value
    exact (length_replacePairs_le _ _).trans (length_replacePairs_le _ _)

/-- A value of ordinary characters is plain. -/
theorem plainValue_of_ordinary {unescape : List Char → List Char} (h : Unescapes unescape)
    {value : List Char} (hne : value ≠ [])
    (hordinary : ∀ c ∈ value, isSpace c = false ∧ c ≠ '\'' ∧ c ≠ '\\') :
    PlainValue unescape value where
  nonempty := hne
  unquoted := by
    intro hhead
    exact (hordinary _ (List.mem_of_mem_head? hhead)).2.1 rfl
  unbroken := by
    clear hne
    induction value with
    | nil => rfl
    | cons c s ih =>
        obtain ⟨hc, -, hescape⟩ := hordinary c List.mem_cons_self
        rw [unbroken_cons hescape, hc, ih fun d hd => hordinary d (List.mem_cons_of_mem c hd)]
        rfl
  unescaped := h.plain value fun hmem => (hordinary _ hmem).2.2 rfl

end KeywordValue
end Text
end Pgaio
