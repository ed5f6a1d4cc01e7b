import Pgaio.Go.Strings

/-!
# ConfFile — how PostgreSQL reads a configuration file

Lines are independent of each other: a string literal cannot contain a newline.  A line is blank,
a comment, or an assignment `name = value` whose equals sign is optional and whose value is a
quoted literal or a bare word.  This file supplies

* `parseLine` — the assignment on one line, if there is one;
* `lastValue` — the value that the last assignment of a setting gives it;
* `lastValue_append` — what lines appended to a file change.

Names are compared without regard to case, so they are returned in lower case.
-/

namespace Pgaio
namespace Postgres

open Go

def isBlank (c : Char) : Bool :=
  c == ' ' || c == '\t' || c == '\r'

/-- The first character of a name. -/
def isLetter (c : Char) : Bool :=
  c.isAlpha || c == '_' || 128 ≤ c.toNat

def isWordChar (c : Char) : Bool :=
  isLetter c || isDigit c

/-- Characters of a setting's name; a dot separates the parts of a qualified one. -/
def isNameChar (c : Char) : Bool :=
  isWordChar c || c == '.'

/-- Characters of numbers and of other values without quotes. -/
def isBareChar (c : Char) : Bool :=
  isWordChar c || ['-', '.', '_', ':', '/', '+'].contains c

/-! ## String literals -/

/-- The raw text of a literal up to its closing quote, and what follows the quote. -/
def rawQuoted : List Char → Option (List Char × List Char)
  | [] => none
  | '\'' :: '\'' :: rest => (rawQuoted rest).map fun p => ('\'' :: '\'' :: p.1, p.2)
  | '\'' :: rest => some ([], rest)
  | '\\' :: c :: rest => (rawQuoted rest).map fun p => ('\\' :: c :: p.1, p.2)
  | c :: rest => (rawQuoted rest).map fun p => (c :: p.1, p.2)

def isOctal (c : Char) : Bool :=
  '0'.toNat ≤ c.toNat && c.toNat ≤ '7'.toNat

def unescapeChar (c : Char) : Char :=
  if c = 'b' then Char.ofNat 8
  else if c = 'f' then Char.ofNat 12
  else if c = 'n' then '\n'
  else if c = 'r' then '\r'
  else if c = 't' then '\t'
  else c

/-- The character with the given octal code. -/
def octalChar (digits : List Char) : Char :=
  Char.ofNat (digits.foldl (fun n c => 8 * n + digitVal c) 0 % 256)

/-- `DeescapeQuotedString`: octal codes of up to three digits, the usual escapes, doubled quotes. -/
def deescape : List Char → List Char
  | [] => []
  | '\\' :: a :: b :: c :: rest =>
      if isOctal a && isOctal b && isOctal c then octalChar [a, b, c] :: deescape rest
      else if isOctal a && isOctal b then octalChar [a, b] :: deescape (c :: rest)
      else if isOctal a then octalChar [a] :: deescape (b :: c :: rest)
      else unescapeChar a :: deescape (b :: c :: rest)
  | '\\' :: a :: rest =>
      (if isOctal a then octalChar [a] else unescapeChar a) :: deescape rest
  | '\'' :: '\'' :: rest => '\'' :: deescape rest
  | c :: rest => c :: deescape rest

/-! ## Lines -/

def readValue : List Char → Option (List Char × List Char)
  | '\'' :: rest => (rawQuoted rest).map fun p => (deescape p.1, p.2)
  | cs =>
      if cs.takeWhile isBareChar = [] then none
      else some (cs.takeWhile isBareChar, cs.dropWhile isBareChar)

/-- Nothing but blanks and a comment. -/
def endsLine (cs : List Char) : Bool :=
  match cs.dropWhile isBlank with
  | [] => true
  | c :: _ => c == '#'

def skipEquals (cs : List Char) : List Char :=
  match cs.dropWhile isBlank with
  | '=' :: rest => rest.dropWhile isBlank
  | rest => rest

def parseLine (line : List Char) : Option (String × String) :=
  let line := line.dropWhile isBlank
  let name := line.takeWhile isNameChar
  if name.head?.any isLetter then
    match readValue (skipEquals (line.dropWhile isNameChar)) with
    | none => none
    | some (value, rest) =>
        if endsLine rest then some (String.ofList (name.map Char.toLower), String.ofList value)
        else none
  else none

/-- The assignments of a file, in the order of its lines. -/
def assignments (text : List Char) : List (String × String) :=
  (text.splitOn '\n').filterMap parseLine

def lastOf (name : String) (settings : List (String × String)) : Option String :=
  (settings.reverse.find? fun p => p.1 == name).map Prod.snd

def lastValue (name : String) (text : List Char) : Option String :=
  lastOf name (assignments text)

example : lastValue "port" "port = 1\n# port = 2\nPort '5''3'\n".toList = some "5'3" := by decide

/-! ## Appended lines -/

theorem assignments_append (a b : List Char) :
    assignments (a ++ '\n' :: b) = assignments a ++ assignments b := by
  have hsplit : (a ++ '\n' :: b).splitOn '\n' = a.splitOn '\n' ++ b.splitOn '\n' :=
    List.splitOnP_append_cons a b (by decide)
  simp only [assignments, hsplit, List.filterMap_append]

/-- Later assignments win over earlier ones. -/
theorem lastOf_append (name : String) (xs ys : List (String × String)) :
    lastOf name (xs ++ ys) = (lastOf name ys).or (lastOf name xs) := by
  simp only [lastOf, List.reverse_append, List.find?_append]
  cases List.find? (fun p => p.1 == name) ys.reverse with
  | none => simp
  | some p => simp

theorem lastValue_append (name : String) (a b : List Char) :
    lastValue name (a ++ '\n' :: b) = (lastValue name b).or (lastValue name a) := by
  simp only [lastValue, assignments_append, lastOf_append]

theorem assignments_line (line rest : List Char) (h : '\n' ∉ line) :
    assignments (line ++ '\n' :: rest) = (parseLine line).toList ++ assignments rest := by
  have hline : assignments line = (parseLine line).toList := by
    have hsplit : line.splitOn '\n' = [line] := by
      apply List.splitOnP_eq_singleton
      intro c hc
      have hne : c ≠ '\n' := fun heq => h (heq ▸ hc)
      simpa using hne
    cases hp : parseLine line with
    | none => simp [assignments, hsplit, hp]
    | some p => simp [assignments, hsplit, hp]
  rw [assignments_append, hline]

/-- The text of complete lines. -/
def unlines (lines : List (List Char)) : List Char :=
  lines.flatMap fun line => line ++ ['\n']

theorem assignments_unlines {lines : List (List Char)} (h : ∀ line ∈ lines, '\n' ∉ line) :
    assignments (unlines lines) = lines.filterMap parseLine := by
  induction lines with
  | nil => decide
  | cons line lines ih =>
      have htail := ih fun l hl => h l (by simp [hl])
      have hcons : unlines (line :: lines) = line ++ '\n' :: unlines lines := by
        simp [unlines]
      rw [hcons, assignments_line line _ (h line (by simp)), htail]
      cases hline : parseLine line with
      | none => simp [hline]
      | some p => simp [hline]

/-! ## Reading back a quoted assignment -/

/-- Text that stands for itself inside quotes. -/
def isPlain (c : Char) : Bool :=
  !(c == '\'' || c == '\\' || c == '\n')

theorem isPlain_iff {c : Char} : isPlain c = true ↔ c ≠ '\'' ∧ c ≠ '\\' ∧ c ≠ '\n' := by
  simp [isPlain, and_assoc]

theorem rawQuoted_plain {value rest : List Char} (h : ∀ c ∈ value, isPlain c = true)
    (hrest : rest.head? ≠ some '\'') :
    rawQuoted (value ++ '\'' :: rest) = some (value, rest) := by
  induction value with
  | nil =>
      cases rest with
      | nil => rfl
      | cons d rest =>
          have hd : d ≠ '\'' := by simpa using hrest
          simp [rawQuoted, hd]
  | cons c value ih =>
      have hc := isPlain_iff.1 (h c (by simp))
      have htail := ih fun d hd => h d (by simp [hd])
      simp [rawQuoted, hc.1, hc.2.1, htail]

theorem deescape_plain {value : List Char} (h : ∀ c ∈ value, isPlain c = true) :
    deescape value = value := by
  induction value with
  | nil => rfl
  | cons c value ih =>
      have hc := isPlain_iff.1 (h c (by simp))
      have htail := ih fun d hd => h d (by simp [hd])
      simp [deescape, hc.1, hc.2.1, htail]

/-- `name = 'value'` assigns exactly `value` when no character of it is special. -/
theorem parseLine_quoted {name value : List Char} (hhead : name.head?.any isLetter = true)
    (hname : ∀ c ∈ name, isNameChar c = true) (hvalue : ∀ c ∈ value, isPlain c = true) :
    parseLine (name ++ (" = '".toList ++ (value ++ ['\'']))) =
      some (String.ofList (name.map Char.toLower), String.ofList value) := by
  have hblank : ∀ rest : List Char, (name ++ rest).dropWhile isBlank = name ++ rest := by
    intro rest
    cases name with
    | nil => simp at hhead
    | cons c name =>
        have hletter : isLetter c = true := by simpa using hhead
        have hc : isBlank c = false := by
          cases hb : isBlank c with
          | false => rfl
          | true =>
              simp only [isBlank, Bool.or_eq_true, beq_iff_eq] at hb
              rcases hb with (rfl | rfl) | rfl <;> exact absurd hletter (by decide)
        simp [hc]
  -- The name ends at the blank before the equals sign.
  have htake : (name ++ (" = '".toList ++ (value ++ ['\'']))).takeWhile isNameChar = name := by
    rw [List.takeWhile_append_of_pos hname]
    simp [isNameChar, isWordChar, isLetter, isDigit]
  have hdrop : (name ++ (" = '".toList ++ (value ++ ['\'']))).dropWhile isNameChar =
      " = '".toList ++ (value ++ ['\'']) := by
    rw [List.dropWhile_append_of_pos hname]
    rfl
  have hraw : rawQuoted (value ++ ['\'']) = some (value, []) := rawQuoted_plain hvalue (by simp)
  have hread : readValue (skipEquals (" = '".toList ++ (value ++ ['\'']))) = some (value, []) := by
    show readValue ('\'' :: (value ++ ['\''])) = _
    simp only [readValue, hraw, Option.map_some, deescape_plain hvalue]
  simp only [parseLine, hblank, htake, hdrop, hhead, if_true, hread]
  rfl

end Postgres
end Pgaio
