import Mathlib.Data.List.Basic

/-!
# Strings — the string operations of Go's standard library that the backend uses
-/

namespace Pgaio
namespace Go

/-- `unicode.IsSpace`. -/
def isSpace (c : Char) : Bool :=
  [0x09, 0x0a, 0x0b, 0x0c, 0x0d, 0x20, 0x85, 0xa0, 0x1680, 0x2028, 0x2029, 0x202f, 0x205f,
    0x3000].contains c.toNat || (0x2000 ≤ c.toNat && c.toNat ≤ 0x200a)

def isDigit (c : Char) : Bool :=
  '0'.toNat ≤ c.toNat && c.toNat ≤ '9'.toNat

def digitVal (c : Char) : Nat :=
  c.toNat - '0'.toNat

/-- `strings.TrimSpace`. -/
def trimSpace (s : String) : String :=
  String.ofList ((s.toList.dropWhile isSpace).reverse.dropWhile isSpace).reverse

/-- `fmt.Sprintf("%d", n)`. -/
def itoa (n : Int) : String :=
  toString n

/-- `strconv.Atoi`; `none` for a text that is no 64-bit integer. -/
def strconvAtoi (s : String) : Option Int :=
  let negative := s.toList.head? = some '-'
  let digits := if negative ∨ s.toList.head? = some '+' then s.toList.tail else s.toList
  if digits = [] ∨ digits.all isDigit = false then none
  else
    let n : Nat := digits.foldl (fun n c => 10 * n + digitVal c) 0
    let value : Int := if negative then -n else n
    if -9223372036854775808 ≤ value ∧ value ≤ 9223372036854775807 then some value else none

/-- `fmt.Sprintf("%0wd", n)` for a number that is not negative. -/
def padLeft (w : Nat) (n : Nat) : String :=
  let digits := toString n
  String.ofList (List.replicate (w - digits.length) '0') ++ digits

def hasPrefix (s pre : String) : Bool :=
  pre.toList.isPrefixOf s.toList

/-- `strings.TrimSuffix`. -/
def trimSuffix (s suffix : String) : String :=
  if suffix.toList.isSuffixOf s.toList then
    String.ofList (s.toList.take (s.toList.length - suffix.toList.length))
  else s

/-- `strings.Fields`. -/
def fields (s : String) : List String :=
  ((s.toList.splitOnP isSpace).filter (· ≠ [])).map String.ofList

/-- `strings.ReplaceAll(s, old, new)` for a single character. -/
def replaceAll (s : String) (old : Char) (new : String) : String :=
  String.ofList (s.toList.flatMap fun c => if c = old then new.toList else [c])

/-- `strings.ToUpper` on ASCII letters. -/
def toUpperAscii (s : String) : String :=
  String.ofList (s.toList.map Char.toUpper)

/-- The letter of the alphabet that a character has when it is written small, also for the two letters
outside ASCII that have one; for every other character something that is no ASCII letter. -/
def asciiLower (c : Char) : Char :=
  if c = 'İ' then 'i' else if c = '\u212a' then 'k' else c.toLower

/-- `strings.ToLower(s) == t` for a text `t` of ASCII characters that are not capital. -/
def lowersTo (s t : String) : Bool :=
  s.toList.map asciiLower = t.toList

/-- `strings.EqualFold(s, t)` for a text `t` of small ASCII letters. -/
def equalFold (s t : String) : Bool :=
  s.toList.map (fun c => if c = 'ſ' then 's' else if c = '\u212a' then 'k' else c.toLower) = t.toList

/-! ## Paths -/

/-- `filepath.Ext`. -/
def pathExt (path : String) : String :=
  let element := path.toList.reverse.takeWhile (· ≠ '/')
  if '.' ∈ element then String.ofList ('.' :: (element.takeWhile (· ≠ '.')).reverse) else ""

/-- `filepath.Base` of a path that does not end in a separator. -/
def pathBase (path : String) : String :=
  String.ofList (path.toList.reverse.takeWhile (· ≠ '/')).reverse

/-- The path that `os.CreateTemp("", pattern)` and `os.MkdirTemp` make of a random text. -/
def tempPath (pattern random : String) : String :=
  let after := pattern.toList.reverse.takeWhile (· ≠ '*')
  let before := (pattern.toList.reverse.dropWhile (· ≠ '*')).tail
  if '*' ∈ pattern.toList then
    "/tmp/" ++ String.ofList before.reverse ++ random ++ String.ofList after.reverse
  else "/tmp/" ++ pattern ++ random

/-- One step of `filepath.Clean`; the elements kept so far stand in reverse order. -/
def cleanElement (rooted : Bool) (kept : List (List Char)) (element : List Char) :
    List (List Char) :=
  if element = [] ∨ element = ['.'] then kept
  else if element = ['.', '.'] then
    match kept with
    | [] => if rooted then [] else [element]
    | last :: rest => if last = ['.', '.'] then element :: kept else rest
  else element :: kept

/-- `filepath.Clean`. -/
def cleanPath (path : String) : String :=
  let rooted := path.toList.head? = some '/'
  let kept := ((path.toList.splitOn '/').foldl (cleanElement rooted) []).reverse
  let body := String.ofList (List.intercalate ['/'] kept)
  if rooted then "/" ++ body else if body = "" then "." else body

/-- `filepath.Join` of two elements that are not empty. -/
def joinPath (dir name : String) : String :=
  cleanPath (dir ++ "/" ++ name)

/-! ## Numbers can be read back -/

theorem hyphen_not_mem_toDigits (n : Nat) : '-' ∉ Nat.toDigits 10 n := by
  intro hmem
  have hdigit := Nat.isDigit_of_mem_toDigits (by decide) (by decide) hmem
  simp at hdigit

theorem toDigits_injective : Function.Injective (Nat.toDigits 10) := by
  intro m n h
  have hvalue := congrArg (Nat.ofDigitChars 10 · 0) h
  simpa using hvalue

theorem toList_itoa_ofNat (n : Nat) : (itoa (Int.ofNat n)).toList = Nat.toDigits 10 n := by
  simp [itoa, Int.repr]

theorem toList_itoa_negSucc (n : Nat) :
    (itoa (Int.negSucc n)).toList = '-' :: Nat.toDigits 10 (n + 1) := by
  simp [itoa, Int.repr]

/-- A number is spelled with digits and a sign. -/
theorem isDigit_or_hyphen_of_mem_itoa {n : Int} {c : Char} (hc : c ∈ (itoa n).toList) :
    c.isDigit = true ∨ c = '-' := by
  cases n with
  | ofNat n =>
      rw [toList_itoa_ofNat] at hc
      exact Or.inl (Nat.isDigit_of_mem_toDigits (by decide) (by decide) hc)
  | negSucc n =>
      rw [toList_itoa_negSucc] at hc
      rcases List.mem_cons.1 hc with rfl | hc
      · exact Or.inr rfl
      · exact Or.inl (Nat.isDigit_of_mem_toDigits (by decide) (by decide) hc)

theorem isDigit_of_charIsDigit {c : Char} (hdigit : c.isDigit = true) : isDigit c = true := by
  rw [Char.isDigit, Bool.and_eq_true, decide_eq_true_eq, decide_eq_true_eq] at hdigit
  rw [isDigit, Bool.and_eq_true, decide_eq_true_eq, decide_eq_true_eq]
  exact hdigit

theorem isDigit_of_mem_toDigits {n : Nat} {c : Char} (hc : c ∈ Nat.toDigits 10 n) :
    isDigit c = true :=
  isDigit_of_charIsDigit (Nat.isDigit_of_mem_toDigits (by decide) (by decide) hc)

theorem isDigit_of_isSpace {c : Char} (h : isSpace c = true) : isDigit c = false := by
  have hzero : '0'.toNat = 48 := rfl
  have hnine : '9'.toNat = 57 := rfl
  simp only [isSpace, Bool.or_eq_true, List.contains_iff_mem, List.mem_cons, List.not_mem_nil, or_false,
    Bool.and_eq_true, decide_eq_true_eq] at h
  simp only [isDigit, Bool.and_eq_false_iff, decide_eq_false_iff_not]
  omega

/-- A number of 64 bits that is not negative is read back. -/
theorem strconvAtoi_itoa {n : Nat} (h : n ≤ 9223372036854775807) :
    strconvAtoi (itoa n) = some (n : Int) := by
  have htext : (itoa n).toList = Nat.toDigits 10 n := toList_itoa_ofNat n
  have hdigits : (Nat.toDigits 10 n).all isDigit = true :=
    List.all_eq_true.2 fun _ hc => isDigit_of_mem_toDigits hc
  have hvalue : (Nat.toDigits 10 n).foldl (fun n c => 10 * n + digitVal c) 0 = n := by
    have hread : Nat.ofDigitChars 10 (Nat.toDigits 10 n) 0 = n :=
      Nat.ofDigitChars_toDigits (by decide) (by decide)
    rwa [Nat.ofDigitChars_eq_foldl] at hread
  -- A digit is no sign.
  have hsign : ∀ c : Char, isDigit c = false → (Nat.toDigits 10 n).head? ≠ some c := by
    intro c hc hhead
    have hmem : c ∈ Nat.toDigits 10 n := List.mem_of_head? hhead
    rw [isDigit_of_mem_toDigits hmem] at hc
    cases hc
  have hminus := hsign '-' (by decide)
  have hplus := hsign '+' (by decide)
  unfold strconvAtoi
  simp only [htext, hminus, hplus, or_self, if_false, hdigits, Nat.toDigits_ne_nil, reduceCtorEq,
    hvalue]
  rw [if_pos ⟨by omega, by omega⟩]

theorem itoa_ne_empty (n : Int) : itoa n ≠ "" := by
  intro h
  have hnil : (itoa n).toList = [] := by rw [h]; rfl
  cases n with
  | ofNat n =>
      rw [toList_itoa_ofNat] at hnil
      exact Nat.toDigits_ne_nil hnil
  | negSucc n =>
      rw [toList_itoa_negSucc] at hnil
      cases hnil

theorem itoa_injective : Function.Injective itoa := by
  intro m n h
  have htext := congrArg String.toList h
  cases m with
  | ofNat m =>
      cases n with
      | ofNat n =>
          rw [toList_itoa_ofNat, toList_itoa_ofNat] at htext
          exact congrArg Int.ofNat (toDigits_injective htext)
      | negSucc n =>
          rw [toList_itoa_ofNat, toList_itoa_negSucc] at htext
          exact absurd (htext ▸ List.mem_cons_self) (hyphen_not_mem_toDigits m)
  | negSucc m =>
      cases n with
      | ofNat n =>
          rw [toList_itoa_ofNat, toList_itoa_negSucc] at htext
          exact absurd (htext ▸ List.mem_cons_self) (hyphen_not_mem_toDigits n)
      | negSucc n =>
          rw [toList_itoa_negSucc, toList_itoa_negSucc, List.cons.injEq] at htext
          exact congrArg Int.negSucc (Nat.succ.inj (toDigits_injective htext.2))

theorem toList_padLeft (w n : Nat) :
    (padLeft w n).toList = List.replicate (w - (toString n).length) '0' ++ Nat.toDigits 10 n := by
  simp [padLeft]

/-- Leading zeros do not change the number. -/
theorem ofDigitChars_padLeft (w n : Nat) : Nat.ofDigitChars 10 (padLeft w n).toList 0 = n := by
  rw [toList_padLeft, Nat.ofDigitChars_append, Nat.ofDigitChars_replicate_zero]
  simp

theorem hyphen_not_mem_padLeft (w n : Nat) : '-' ∉ (padLeft w n).toList := by
  rw [toList_padLeft]
  intro hmem
  rcases List.mem_append.1 hmem with hzero | hdigit
  · have hchar := List.eq_of_mem_replicate hzero
    simp at hchar
  · exact hyphen_not_mem_toDigits n hdigit

/-- A text is split at the last separator in one way. -/
theorem append_separator_inj {c : Char} {xs xs' ys ys' : List Char} (hys : c ∉ ys) (hys' : c ∉ ys')
    (h : xs ++ c :: ys = xs' ++ c :: ys') : xs = xs' ∧ ys = ys' := by
  rcases List.append_eq_append_iff.1 h with ⟨mid, rfl, hmid⟩ | ⟨mid, rfl, hmid⟩
  · cases mid with
    | nil => simpa using hmid
    | cons d mid =>
        rw [List.cons_append, List.cons.injEq] at hmid
        exact absurd (hmid.2 ▸ by simp) hys
  · cases mid with
    | nil => simpa [eq_comm] using hmid
    | cons d mid =>
        rw [List.cons_append, List.cons.injEq] at hmid
        exact absurd (hmid.2 ▸ by simp) hys'

/-- A text is split at the first separator in one way. -/
theorem append_separator_inj_left {c : Char} {xs xs' ys ys' : List Char} (hxs : c ∉ xs)
    (hxs' : c ∉ xs') (h : xs ++ c :: ys = xs' ++ c :: ys') : xs = xs' ∧ ys = ys' := by
  have hreverse : ys.reverse ++ c :: xs.reverse = ys'.reverse ++ c :: xs'.reverse := by
    simpa using congrArg List.reverse h
  have hsplit := append_separator_inj (by simpa using hxs) (by simpa using hxs') hreverse
  exact ⟨List.reverse_injective hsplit.2, List.reverse_injective hsplit.1⟩

/-- `fmt.Sprintf("…-%d-%0wd", unix, seq)` determines both numbers. -/
theorem stamp_inj {stem : String} {unix unix' : Int} {w seq seq' : Nat}
    (h : stem ++ itoa unix ++ "-" ++ padLeft w seq = stem ++ itoa unix' ++ "-" ++ padLeft w seq') :
    unix = unix' ∧ seq = seq' := by
  have htext := congrArg String.toList h
  simp only [String.toList_append] at htext
  have hsplit : (stem.toList ++ (itoa unix).toList) ++ '-' :: (padLeft w seq).toList =
      (stem.toList ++ (itoa unix').toList) ++ '-' :: (padLeft w seq').toList := by
    simpa using htext
  rcases append_separator_inj (hyphen_not_mem_padLeft w seq) (hyphen_not_mem_padLeft w seq') hsplit
    with ⟨hfront, hseq⟩
  constructor
  · exact itoa_injective (String.toList_inj.1 (List.append_cancel_left hfront))
  · rw [← ofDigitChars_padLeft w seq, hseq, ofDigitChars_padLeft]

example : joinPath "/data/./pg//" "base" = "/data/pg/base" := by decide

example : trimSpace " \t data \n" = "data" := by decide
example : strconvAtoi "-5432" = some (-5432) := by decide
example : padLeft 6 42 = "000042" := by decide

end Go
end Pgaio
