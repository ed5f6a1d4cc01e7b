import Mathlib.Data.List.Basic

/-!
# ServeMux — how `net/http` finds the handler of a request

The part of `http.ServeMux` that decides which registered handler runs.  Matching goes by the
segments of the escaped path, each of which is unescaped on its own; the decoded path that a handler
sees is the escaped path unescaped as a whole.  `stem_prefix` relates the two: what precedes the first
wildcard of a pattern is a prefix of the decoded path of every request that matches it.

A text of a URL is a list of bytes; a byte is written as the character with its number.
-/

namespace Pgaio
namespace Go

/-! ## Escaped paths -/

def hexDigit? (c : Char) : Option Nat :=
  if '0'.toNat ≤ c.toNat ∧ c.toNat ≤ '9'.toNat then some (c.toNat - '0'.toNat)
  else if 'a'.toNat ≤ c.toNat ∧ c.toNat ≤ 'f'.toNat then some (c.toNat - 'a'.toNat + 10)
  else if 'A'.toNat ≤ c.toNat ∧ c.toNat ≤ 'F'.toNat then some (c.toNat - 'A'.toNat + 10)
  else none

/-- The byte that two hexadecimal digits stand for. -/
def hexByte? (a b : Char) : Option Char :=
  (hexDigit? a).bind fun x => (hexDigit? b).map fun y => Char.ofNat (16 * x + y)

/-- `url.PathUnescape`; `none` for a malformed escape. -/
def unescape : List Char → Option (List Char)
  | [] => some []
  | c :: cs =>
      if c = '%' then
        match cs with
        | a :: b :: rest => (hexByte? a b).bind fun byte => (unescape rest).map (byte :: ·)
        | _ => none
      else (unescape cs).map (c :: ·)

/-- The path of a request, as it was sent and decoded. -/
structure URLPath where
  escaped : List Char
  path : List Char
  unescaped : unescape escaped = some path

/-- The segments of a path that starts with a slash. -/
def segments? (escaped : List Char) : Option (List (List Char)) :=
  match escaped.splitOn '/' with
  | [] :: raws => some raws
  | _ => none

/-- `cleanPath` leaves the path as it is: no segment is empty, `.` or `..`, but for a slash at the
end. -/
def isClean (raws : List (List Char)) : Bool :=
  raws != [] && raws.dropLast.all (fun raw => raw != []) &&
    raws.all fun raw => raw != ['.'] && raw != ['.', '.']

/-! ## Patterns -/

inductive PathSegment where
  | literal (s : List Char)
  | wildcard (name : List Char)
  /-- A slash at the end: everything below matches. -/
  | rest
  deriving DecidableEq, Repr

structure Pattern where
  method : String
  segments : List PathSegment
  deriving DecidableEq, Repr

def parseSegment (s : List Char) : PathSegment :=
  if s = [] then .rest
  else if s.head? = some '\x7b' then .wildcard s.tail.dropLast
  else .literal s

/-- A pattern is written as a method and a path. -/
def parsePattern (text : String) : Pattern where
  method := String.ofList (text.toList.takeWhile (· != ' '))
  segments :=
    (((text.toList.dropWhile (· != ' ')).drop 1).splitOn '/').tail.map parseSegment

/-- The first segment of a path, unescaped; a slash that ends the path is a segment of its own. -/
def firstSegment (raw : List Char) (raws : List (List Char)) : List Char :=
  if raw = [] ∧ raws = [] then ['/'] else (unescape raw).getD raw

/-- `matchPath` for one pattern.  No literal of a pattern is a slash (that is what `{$}` would be). -/
def matchSegments : List PathSegment → List (List Char) → Bool
  | [], [] => true
  | .literal s :: ps, raw :: raws => decide (unescape raw = some s) && matchSegments ps raws
  -- A single wildcard does not match the slash at the end; an escaped slash looks the same here.
  | .wildcard _ :: ps, raw :: raws => decide (firstSegment raw raws ≠ ['/']) && matchSegments ps raws
  | [.rest], _ :: _ => true
  | _, _ => false

/-- What is escaped as a slash reaches no wildcard, and an empty segment before others does. -/
example :
    matchSegments [.literal "jobs".toList, .wildcard "id".toList] ["jobs".toList, "%2F".toList] = false ∧
      matchSegments [.wildcard "id".toList, .literal "download".toList] [[], "download".toList] = true := by
  decide +kernel

/-- A pattern for GET also matches HEAD. -/
def Pattern.allows (p : Pattern) (method : String) : Bool :=
  p.method = method || (p.method = "GET" && method = "HEAD")

def Pattern.matches (p : Pattern) (method : String) (raws : List (List Char)) : Bool :=
  p.allows method && matchSegments p.segments raws

/-- Every path that the second pattern matches, the first one matches too. -/
def coversSegments : List PathSegment → List PathSegment → Bool
  | [], [] => true
  | [.rest], _ :: _ => true
  | .literal s :: ps, .literal s' :: ps' => decide (s = s') && coversSegments ps ps'
  | .wildcard _ :: ps, .literal _ :: ps' => coversSegments ps ps'
  | .wildcard _ :: ps, .wildcard _ :: ps' => coversSegments ps ps'
  | _, _ => false

/-! ## Finding the handler -/

variable {H : Type}

/-- The handler that runs: that of the most specific matching pattern.  `none` means that the mux
answers itself, with a redirect to the cleaned path or with an error. -/
def findHandler (pattern : H → Pattern) (handlers : List H) (method : String) (url : URLPath) :
    Option H :=
  match segments? url.escaped with
  | none => none
  | some raws =>
      if method ≠ "CONNECT" ∧ isClean raws = false then none
      else
        let candidates := handlers.filter fun h => (pattern h).matches method raws
        candidates.find? fun h =>
          candidates.all fun h' => coversSegments (pattern h').segments (pattern h).segments

/-- The handler is a registered one whose pattern matches the segments of the path. -/
theorem findHandler_spec {pattern : H → Pattern} {handlers : List H} {method : String}
    {url : URLPath} {h : H} (hfound : findHandler pattern handlers method url = some h) :
    h ∈ handlers ∧ ∃ raws, segments? url.escaped = some raws ∧
      (pattern h).allows method = true ∧ matchSegments (pattern h).segments raws = true := by
  unfold findHandler at hfound
  cases hraws : segments? url.escaped with
  | none => simp [hraws] at hfound
  | some raws =>
      simp only [hraws] at hfound
      split at hfound
      · cases hfound
      · have hmem := List.mem_of_find?_eq_some hfound
        rcases List.mem_filter.1 hmem with ⟨hregistered, hmatches⟩
        rw [Pattern.matches, Bool.and_eq_true] at hmatches
        exact ⟨hregistered, raws, rfl, hmatches.1, hmatches.2⟩

/-! ## Segments and the decoded path -/

theorem unescape_slash (cs : List Char) : unescape ('/' :: cs) = (unescape cs).map ('/' :: ·) := by
  rw [unescape.eq_def]
  simp

/-- Unescaping does not look across the end of a well-formed part. -/
theorem unescape_append {xs ys : List Char} (cs : List Char) (h : unescape xs = some ys) :
    unescape (xs ++ cs) = (unescape cs).map (ys ++ ·) := by
  -- The cases are those of `unescape`: the end, an escape, a broken escape, an ordinary character.
  induction xs using unescape.induct generalizing ys with
  | case1 =>
      have hys : ys = [] := by simpa [unescape] using h.symm
      subst hys
      simp
  | case2 a b rest ih =>
      simp only [unescape, if_true] at h
      rcases Option.bind_eq_some_iff.1 h with ⟨byte, hbyte, hrest⟩
      rcases Option.map_eq_some_iff.1 hrest with ⟨zs, hzs, rfl⟩
      simp [unescape, hbyte, ih hzs, Option.map_map, Function.comp_def]
  | case3 cs' hshort =>
      -- A broken escape does not decode at all.
      rw [unescape.eq_def] at h
      simp only [if_true] at h
      cases h
  | case4 c cs' hc ih =>
      rw [unescape.eq_def] at h
      simp only [if_neg hc] at h
      rcases Option.map_eq_some_iff.1 h with ⟨zs, hzs, rfl⟩
      rw [List.cons_append, unescape.eq_def]
      simp [hc, ih hzs, Option.map_map, Function.comp_def]

theorem intercalate_slash (first : List Char) (raws : List (List Char)) :
    ['/'].intercalate (first :: raws) = first ++ raws.flatMap fun raw => '/' :: raw := by
  induction raws generalizing first with
  | nil => simp
  | cons raw raws ih =>
      rw [List.intercalate_cons_cons, ih raw]
      simp

/-- A path is its segments, each after a slash. -/
theorem escaped_of_segments {escaped : List Char} {raws : List (List Char)}
    (h : segments? escaped = some raws) : escaped = raws.flatMap fun raw => '/' :: raw := by
  unfold segments? at h
  split at h
  · rename_i raws' hsplit
    cases h
    have hjoin : ['/'].intercalate (escaped.splitOn '/') = escaped := List.intercalate_splitOn '/'
    rw [hsplit] at hjoin
    exact hjoin.symm.trans (intercalate_slash [] raws)
  · cases h

/-- The text of a pattern up to its first wildcard. -/
def stem : List PathSegment → List Char
  | [] => []
  | .literal s :: ps => '/' :: (s ++ stem ps)
  | .wildcard _ :: _ => ['/']
  | .rest :: _ => ['/']

theorem slash_prefix_stem (p : PathSegment) (ps : List PathSegment) : ['/'] <+: stem (p :: ps) := by
  cases p with
  | literal s => exact ⟨s ++ stem ps, rfl⟩
  | wildcard name => exact List.prefix_rfl
  | rest => exact List.prefix_rfl

/-- The stem of a matching pattern is a prefix of the decoded path. -/
theorem stem_prefix_of_match {ps : List PathSegment} {raws : List (List Char)} {path : List Char}
    (hmatch : matchSegments ps raws = true)
    (hpath : unescape (raws.flatMap fun raw => '/' :: raw) = some path) : stem ps <+: path := by
  -- Pattern and segments are consumed together; the decoded path loses a segment in each round.
  induction ps generalizing raws path with
  | nil => exact List.nil_prefix
  | cons p ps ih =>
      cases raws with
      | nil => cases p <;> cases ps <;> cases hmatch
      | cons raw raws =>
          rw [List.flatMap_cons, List.cons_append, unescape_slash] at hpath
          rcases Option.map_eq_some_iff.1 hpath with ⟨tail, htail, rfl⟩
          cases p with
          | literal s =>
              -- The raw segment decodes to the literal, whatever follows it.
              simp only [matchSegments, Bool.and_eq_true, decide_eq_true_eq] at hmatch
              rw [unescape_append _ hmatch.1] at htail
              rcases Option.map_eq_some_iff.1 htail with ⟨more, hmore, rfl⟩
              have hrest := ih hmatch.2 hmore
              exact List.cons_prefix_cons.2 ⟨rfl, (List.prefix_append_right_inj s).2 hrest⟩
          | wildcard name => exact List.cons_prefix_cons.2 ⟨rfl, List.nil_prefix⟩
          | rest => exact List.cons_prefix_cons.2 ⟨rfl, List.nil_prefix⟩

theorem stem_prefix {pattern : H → Pattern} {handlers : List H} {method : String} {url : URLPath}
    {h : H} (hfound : findHandler pattern handlers method url = some h) :
    stem (pattern h).segments <+: url.path := by
  rcases (findHandler_spec hfound).2 with ⟨raws, hraws, _, hmatch⟩
  have hescaped := url.unescaped
  rw [escaped_of_segments hraws] at hescaped
  exact stem_prefix_of_match hmatch hescaped

end Go
end Pgaio
