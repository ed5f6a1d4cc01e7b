import Pgaio.Go.Net
import Mathlib.Data.List.DropRight

/-!
# Split — `strings.Split`, `strings.Join` and `strings.SplitN`

A text is taken apart at a separator, each piece is changed by itself, and the pieces are joined again.
As long as a piece gets no separator, the changed text falls apart into the changed pieces
(`split_mapPieces`), so what holds for one piece holds for the text.
-/

namespace Pgaio
namespace Go

/-- `strings.Split(s, sep)` for a single character. -/
def split (sep : Char) (s : String) : List String :=
  (s.toList.splitOn sep).map String.ofList

/-- `strings.Join(pieces, sep)` for a single character. -/
def join (sep : Char) (pieces : List String) : String :=
  String.ofList ([sep].intercalate (pieces.map String.toList))

/-- Each piece is changed by itself. -/
def mapPieces (sep : Char) (f : String → String) (s : String) : String :=
  join sep ((split sep s).map f)

section Pieces

variable {sep : Char} {f g : String → String}

theorem sep_notMem_of_mem_splitOn {s chars : List Char} (h : chars ∈ s.splitOn sep) :
    sep ∉ chars := by
  induction s generalizing chars with
  | nil =>
      rw [List.splitOn_nil, List.mem_singleton] at h
      exact h ▸ List.not_mem_nil
  | cons c s ih =>
      rw [List.splitOn_cons_eq_if_modifyHead] at h
      split at h
      · rcases List.mem_cons.1 h with rfl | hmem
        · exact List.not_mem_nil
        · exact ih hmem
      · rename_i hc
        cases hsplit : s.splitOn sep with
        | nil => exact absurd hsplit (List.splitOn_ne_nil _ _)
        | cons first rest =>
            rw [hsplit] at ih h
            rcases List.mem_cons.1 h with rfl | hmem
            · -- The first piece grows by a character that is no separator.
              have hfirst : sep ∉ first := ih List.mem_cons_self
              simpa [hfirst] using fun heq : sep = c => hc (beq_iff_eq.2 heq.symm)
            · exact ih (List.mem_cons_of_mem _ hmem)

theorem sep_notMem_of_mem_split {s piece : String} (h : piece ∈ split sep s) : sep ∉ piece.toList := by
  obtain ⟨chars, hchars, rfl⟩ := List.mem_map.1 h
  rw [String.toList_ofList]
  exact sep_notMem_of_mem_splitOn hchars

theorem split_ne_nil (s : String) : split sep s ≠ [] := by
  simp [split, List.splitOn_ne_nil]

theorem split_join {pieces : List String} (hne : pieces ≠ [])
    (h : ∀ piece ∈ pieces, sep ∉ piece.toList) : split sep (join sep pieces) = pieces := by
  have hsplit : ([sep].intercalate (pieces.map String.toList)).splitOn sep =
      pieces.map String.toList := by
    apply List.splitOn_intercalate
    · intro chars hchars
      obtain ⟨piece, hpiece, rfl⟩ := List.mem_map.1 hchars
      exact h piece hpiece
    · simpa using hne
  rw [split, join, String.toList_ofList, hsplit]
  simp [Function.comp_def]

/-- A changed text falls apart into the changed pieces. -/
theorem split_mapPieces (hf : ∀ piece : String, sep ∉ piece.toList → sep ∉ (f piece).toList)
    (s : String) : split sep (mapPieces sep f s) = (split sep s).map f := by
  apply split_join
  · simpa using split_ne_nil s
  · intro piece hpiece
    obtain ⟨old, hold, rfl⟩ := List.mem_map.1 hpiece
    exact hf old (sep_notMem_of_mem_split hold)

/-- Two changes, one after the other, are one change of each piece. -/
theorem mapPieces_mapPieces (hf : ∀ piece : String, sep ∉ piece.toList → sep ∉ (f piece).toList)
    (s : String) : mapPieces sep g (mapPieces sep f s) = mapPieces sep (fun piece => g (f piece)) s := by
  rw [mapPieces, split_mapPieces hf, List.map_map]
  rfl

theorem mapPieces_congr (h : ∀ piece : String, sep ∉ piece.toList → f piece = g piece) (s : String) :
    mapPieces sep f s = mapPieces sep g s := by
  have hpieces : (split sep s).map f = (split sep s).map g :=
    List.map_congr_left fun piece hpiece => h piece (sep_notMem_of_mem_split hpiece)
  rw [mapPieces, mapPieces, hpieces]

end Pieces

/-! ## The first and the last separator -/

theorem splitFirst_eq_some {c : Char} {s before after : List Char} :
    splitFirst c s = some (before, after) ↔ s = before ++ c :: after ∧ c ∉ before := by
  induction s generalizing before with
  | nil => simp [splitFirst]
  | cons d s ih =>
      by_cases hd : d = c
      · subst hd
        rw [splitFirst, if_pos rfl]
        cases before with
        | nil => simp
        | cons b before =>
            -- A text before the first separator does not begin with it.
            simp only [Option.some.injEq, Prod.mk.injEq, List.cons_append, List.cons.injEq]
            constructor
            · rintro ⟨hnil, -⟩
              cases hnil
            · rintro ⟨⟨rfl, -⟩, hnot⟩
              exact absurd List.mem_cons_self hnot
      · rw [splitFirst, if_neg hd]
        cases before with
        | nil => simp [hd]
        | cons b before =>
            constructor
            · intro h
              obtain ⟨⟨before', after'⟩, hrest, heq⟩ := Option.map_eq_some_iff.1 h
              cases heq
              obtain ⟨rfl, hnot⟩ := ih.1 hrest
              exact ⟨rfl, by simpa [hnot] using Ne.symm hd⟩
            · rintro ⟨heq, hnot⟩
              obtain ⟨rfl, rfl⟩ := List.cons.inj heq
              have hrest : splitFirst c (before ++ c :: after) = some (before, after) :=
                ih.2 ⟨rfl, fun hmem => hnot (List.mem_cons_of_mem _ hmem)⟩
              exact congrArg (Option.map _) hrest

theorem splitFirst_eq_none {c : Char} {s : List Char} : splitFirst c s = none ↔ c ∉ s := by
  induction s with
  | nil => simp [splitFirst]
  | cons d s ih =>
      by_cases hd : d = c
      · simp [splitFirst, hd]
      · simp [splitFirst, hd, ih, Ne.symm hd]

theorem splitLast_eq_some {c : Char} {s before after : List Char} :
    splitLast c s = some (before, after) ↔ s = before ++ c :: after ∧ c ∉ after := by
  unfold splitLast
  constructor
  · intro h
    obtain ⟨⟨after', before'⟩, hsplit, heq⟩ := Option.map_eq_some_iff.1 h
    cases heq
    obtain ⟨hs, hnot⟩ := splitFirst_eq_some.1 hsplit
    have hreverse := congrArg List.reverse hs
    exact ⟨by simpa using hreverse, by simpa using hnot⟩
  · rintro ⟨rfl, hnot⟩
    have hsplit : splitFirst c (before ++ c :: after).reverse = some (after.reverse, before.reverse) :=
      splitFirst_eq_some.2 ⟨by simp, by simpa using hnot⟩
    rw [hsplit]
    simp

/-! ## Trimming -/

/-- `strings.TrimPrefix`. -/
def trimPrefix (s pre : String) : String :=
  if hasPrefix s pre then String.ofList (s.toList.drop pre.toList.length) else s

theorem hasPrefix_append (pre rest : String) : hasPrefix (pre ++ rest) pre = true := by
  rw [hasPrefix, String.toList_append]
  exact List.isPrefixOf_iff_prefix.2 (List.prefix_append _ _)

theorem eq_append_of_hasPrefix {s pre : String} (h : hasPrefix s pre = true) :
    ∃ rest, s = pre ++ rest := by
  obtain ⟨rest, hrest⟩ := List.isPrefixOf_iff_prefix.1 h
  refine ⟨String.ofList rest, String.toList_inj.1 ?_⟩
  rw [String.toList_append, String.toList_ofList, hrest]

theorem trimPrefix_append (pre rest : String) : trimPrefix (pre ++ rest) pre = rest := by
  rw [trimPrefix, if_pos (hasPrefix_append pre rest), String.toList_append, List.drop_left,
    String.ofList_toList]

theorem toList_trimSpace (s : String) :
    (trimSpace s).toList = (s.toList.dropWhile isSpace).rdropWhile isSpace := by
  simp [trimSpace, List.rdropWhile]

/-- Around a character that is no blank, the two sides are trimmed apart. -/
theorem dropWhile_append_cons {p : Char → Bool} {c : Char} (hc : p c = false) (xs ys : List Char) :
    (xs ++ c :: ys).dropWhile p = xs.dropWhile p ++ c :: ys := by
  induction xs with
  | nil => simp [hc]
  | cons x xs ih =>
      by_cases hx : p x = true
      · simp [hx, ih]
      · simp [hx]

theorem rdropWhile_append_cons {p : Char → Bool} {c : Char} (hc : p c = false) (xs ys : List Char) :
    (xs ++ c :: ys).rdropWhile p = xs ++ c :: ys.rdropWhile p := by
  have hreverse : (xs ++ c :: ys).reverse = ys.reverse ++ c :: xs.reverse := by
    simp
  rw [List.rdropWhile, hreverse, dropWhile_append_cons hc]
  simp [List.rdropWhile]

theorem toList_trimSpace_around {s : String} {c : Char} {xs ys : List Char} (hc : isSpace c = false)
    (hs : s.toList = xs ++ c :: ys) :
    (trimSpace s).toList = xs.dropWhile isSpace ++ c :: ys.rdropWhile isSpace := by
  rw [toList_trimSpace, hs, dropWhile_append_cons hc, rdropWhile_append_cons hc]

/-- The two sides can be trimmed in any order. -/
theorem dropWhile_rdropWhile (p : Char → Bool) (xs : List Char) :
    (xs.rdropWhile p).dropWhile p = (xs.dropWhile p).rdropWhile p := by
  by_cases hall : ∀ c ∈ xs, p c = true
  · rw [List.rdropWhile_eq_nil_iff.2 hall, List.dropWhile_eq_nil_iff.2 hall]
    rfl
  · push Not at hall
    obtain ⟨c, hc, hblank⟩ := hall
    have hp : p c = false := by simpa using hblank
    obtain ⟨ys, zs, rfl⟩ := List.append_of_mem hc
    rw [rdropWhile_append_cons hp, dropWhile_append_cons hp, dropWhile_append_cons hp,
      rdropWhile_append_cons hp]

theorem trimSpace_trimSpace (s : String) : trimSpace (trimSpace s) = trimSpace s := by
  apply String.toList_inj.1
  rw [toList_trimSpace, toList_trimSpace, dropWhile_rdropWhile, List.dropWhile_idempotent,
    List.rdropWhile_idempotent]

theorem trimSpace_eq_self {s : String} (h : ∀ c ∈ s.toList, isSpace c = false) : trimSpace s = s := by
  have hdrop (xs : List Char) (hxs : ∀ c ∈ xs, isSpace c = false) : xs.dropWhile isSpace = xs := by
    cases xs with
    | nil => rfl
    | cons c rest => simp [hxs c List.mem_cons_self]
  apply String.toList_inj.1
  rw [toList_trimSpace, hdrop _ h, List.rdropWhile, hdrop _ fun c hc => h c (List.mem_reverse.1 hc),
    List.reverse_reverse]

/-- A number has nothing to trim. -/
theorem trimSpace_itoa (n : Int) : trimSpace (itoa n) = itoa n := by
  apply trimSpace_eq_self
  intro c hc
  rcases isDigit_or_hyphen_of_mem_itoa hc with hdigit | rfl
  · by_contra hblank
    have hnone : isDigit c = false := isDigit_of_isSpace (by simpa using hblank)
    rw [isDigit_of_charIsDigit hdigit] at hnone
    cases hnone
  · rfl

theorem trimSpace_append_blank (s : String) : trimSpace (s ++ " ") = trimSpace s := by
  have hblank : (s ++ " ").toList = s.toList ++ [' '] := String.toList_append
  apply String.toList_inj.1
  rw [toList_trimSpace, toList_trimSpace, hblank, ← dropWhile_rdropWhile,
    List.rdropWhile_concat_pos _ _ _ (by decide), dropWhile_rdropWhile]

/-- A trimmed text does not begin with a blank. -/
theorem dropWhile_of_trimmed {s : String} (h : trimSpace s = s) :
    s.toList.dropWhile isSpace = s.toList := by
  have hlist : (s.toList.dropWhile isSpace).rdropWhile isSpace = s.toList := by
    rw [← toList_trimSpace, h]
  have hlength := (List.rdropWhile_prefix isSpace (s.toList.dropWhile isSpace)).length_le
  rw [hlist] at hlength
  exact (List.dropWhile_suffix isSpace).eq_of_length_le hlength

theorem isSpace_of_trimmed {s : String} {c : Char} {rest : List Char} (h : trimSpace s = s)
    (hs : s.toList = c :: rest) : isSpace c = false := by
  have hdrop := dropWhile_of_trimmed h
  rw [hs] at hdrop
  by_contra hc
  rw [List.dropWhile_cons_of_pos (by simpa using hc)] at hdrop
  have hlength := (List.dropWhile_suffix (l := rest) isSpace).length_le
  rw [hdrop] at hlength
  exact absurd hlength (by simp)

theorem mem_of_mem_trimSpace {s : String} {c : Char} (h : c ∈ (trimSpace s).toList) : c ∈ s.toList := by
  rw [toList_trimSpace] at h
  exact (List.dropWhile_sublist isSpace).subset ((List.rdropWhile_prefix _ _).subset h)

end Go
end Pgaio
