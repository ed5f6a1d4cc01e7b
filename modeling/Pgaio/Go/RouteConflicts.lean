import Mathlib.Data.List.Pairwise
import Mathlib.Data.List.Perm.Basic
import Pgaio.Go.ServeMux

/-!
# RouteConflicts — when the handler of a request does not depend on the order of registration

`http.ServeMux` refuses two patterns that some request matches both, unless one of them is more specific.
Without such conflicts the handlers that match a request are in a row, each more specific than the one before,
so the most specific one exists and is the only one (`findHandler_eq`).
-/

namespace Pgaio
namespace Go

/-! ## The least element of a list -/

section Least

variable {α : Type} {R : α → α → Prop} {l : List α}

theorem exists_least (htrans : ∀ a b c, R a b → R b c → R a c) (htotal : ∀ a ∈ l, ∀ b ∈ l, R a b ∨ R b a)
    (hne : l ≠ []) : ∃ m ∈ l, ∀ x ∈ l, R x m := by
  induction l with
  | nil => exact absurd rfl hne
  | cons a l ih =>
      by_cases hl : l = []
      · subst hl
        refine ⟨a, List.mem_cons_self, fun x hx => ?_⟩
        rw [List.mem_singleton.1 hx]
        exact (htotal a List.mem_cons_self a List.mem_cons_self).elim id id
      · obtain ⟨m, hm, hleast⟩ := ih
          (fun b hb c hc => htotal b (List.mem_cons_of_mem a hb) c (List.mem_cons_of_mem a hc)) hl
        rcases htotal a List.mem_cons_self m (List.mem_cons_of_mem a hm) with ham | hma
        · refine ⟨m, List.mem_cons_of_mem a hm, fun x hx => ?_⟩
          rcases List.mem_cons.1 hx with rfl | hrest
          · exact ham
          · exact hleast x hrest
        · refine ⟨a, List.mem_cons_self, fun x hx => ?_⟩
          rcases List.mem_cons.1 hx with rfl | hrest
          · exact (htotal x List.mem_cons_self x List.mem_cons_self).elim id id
          · exact htrans x m a (hleast x hrest) hma

theorem find?_eq_some_of_unique {p : α → Bool} {m : α} (hm : m ∈ l) (hp : p m = true)
    (hunique : ∀ x ∈ l, p x = true → x = m) : l.find? p = some m := by
  cases hfind : l.find? p with
  | none => exact absurd hp (List.find?_eq_none.1 hfind m hm)
  | some x => rw [hunique x (List.mem_of_find?_eq_some hfind) (List.find?_some hfind)]

end Least

/-! ## Patterns that meet -/

/-- Some path matches both. -/
def overlapsSegments : List PathSegment → List PathSegment → Bool
  | [], [] => true
  | [.rest], _ :: _ => true
  | _ :: _, [.rest] => true
  | .literal s :: ps, .literal s' :: ps' => decide (s = s') && overlapsSegments ps ps'
  | .literal _ :: ps, .wildcard _ :: ps' => overlapsSegments ps ps'
  | .wildcard _ :: ps, .literal _ :: ps' => overlapsSegments ps ps'
  | .wildcard _ :: ps, .wildcard _ :: ps' => overlapsSegments ps ps'
  | _, _ => false

/-- Patterns of one method that meet while neither of them, or each of them, covers the other. -/
def conflicts (p q : Pattern) : Bool :=
  p.method = q.method && overlapsSegments p.segments q.segments &&
    coversSegments p.segments q.segments == coversSegments q.segments p.segments

theorem overlapsSegments_comm (ps qs : List PathSegment) : overlapsSegments ps qs = overlapsSegments qs ps := by
  induction ps generalizing qs with
  | nil => cases qs with
    | nil => rfl
    | cons q qs => cases q <;> cases qs <;> rfl
  | cons p ps ih =>
      cases qs with
      | nil => cases p <;> cases ps <;> rfl
      | cons q qs =>
          cases p <;> cases q <;> cases ps <;> cases qs <;> simp [overlapsSegments, ih, eq_comm]

theorem conflicts_comm (p q : Pattern) : conflicts p q = conflicts q p := by
  have hmethod : decide (p.method = q.method) = decide (q.method = p.method) := decide_eq_decide.2 eq_comm
  unfold conflicts
  rw [hmethod, overlapsSegments_comm, Bool.beq_comm]

/-- What a pattern and a path that it matches look like. -/
inductive Matched : List PathSegment → List (List Char) → Prop where
  | nil : Matched [] []
  | rest {raw : List Char} {raws : List (List Char)} : Matched [.rest] (raw :: raws)
  | literal {s raw : List Char} {ps : List PathSegment} {raws : List (List Char)} :
      unescape raw = some s → Matched ps raws → Matched (.literal s :: ps) (raw :: raws)
  | wildcard {name raw : List Char} {ps : List PathSegment} {raws : List (List Char)} :
      Matched ps raws → Matched (.wildcard name :: ps) (raw :: raws)

theorem matched_of_match {ps : List PathSegment} {raws : List (List Char)} (h : matchSegments ps raws = true) :
    Matched ps raws := by
  induction ps generalizing raws with
  | nil =>
      cases raws with
      | nil => exact .nil
      | cons raw raws => cases h
  | cons p ps ih =>
      cases raws with
      | nil => cases p <;> cases ps <;> cases h
      | cons raw raws =>
          cases p with
          | literal s =>
              simp only [matchSegments, Bool.and_eq_true, decide_eq_true_eq] at h
              exact .literal h.1 (ih h.2)
          | wildcard name =>
              simp only [matchSegments, Bool.and_eq_true] at h
              exact .wildcard (ih h.2)
          | rest =>
              cases ps with
              | nil => exact .rest
              | cons _ _ => cases h

theorem overlapsSegments_of_matched {ps qs : List PathSegment} {raws : List (List Char)}
    (hp : Matched ps raws) (hq : Matched qs raws) : overlapsSegments ps qs = true := by
  induction hp generalizing qs with
  | nil =>
      cases hq
      rfl
  | rest =>
      cases hq with
      | rest => rfl
      | literal _ _ => rfl
      | wildcard _ => rfl
  | @literal s raw ps raws hraw hps ih =>
      cases hq with
      | rest => rfl
      | literal hraw' hqs =>
          -- Both literals are what the segment stands for.
          cases hraw.symm.trans hraw'
          simp [overlapsSegments, ih hqs]
      | wildcard hqs => simp [overlapsSegments, ih hqs]
  | @wildcard name raw ps raws hps ih =>
      cases hq with
      | rest => rfl
      | literal _ hqs => simp [overlapsSegments, ih hqs]
      | wildcard hqs => simp [overlapsSegments, ih hqs]

/-- What a pattern and one that it covers look like. -/
inductive Covers : List PathSegment → List PathSegment → Prop where
  | nil : Covers [] []
  | rest {q : PathSegment} {qs : List PathSegment} : Covers [.rest] (q :: qs)
  | literal {s : List Char} {ps qs : List PathSegment} :
      Covers ps qs → Covers (.literal s :: ps) (.literal s :: qs)
  | narrows {name s : List Char} {ps qs : List PathSegment} :
      Covers ps qs → Covers (.wildcard name :: ps) (.literal s :: qs)
  | wildcard {name name' : List Char} {ps qs : List PathSegment} :
      Covers ps qs → Covers (.wildcard name :: ps) (.wildcard name' :: qs)

theorem Covers.coversSegments {ps qs : List PathSegment} (h : Covers ps qs) : coversSegments ps qs = true := by
  induction h with
  | nil => rfl
  | rest => rfl
  | literal _ ih => simp [Go.coversSegments, ih]
  | narrows _ ih => simp [Go.coversSegments, ih]
  | wildcard _ ih => simp [Go.coversSegments, ih]

theorem covers_of_coversSegments {ps qs : List PathSegment} (h : coversSegments ps qs = true) :
    Covers ps qs := by
  induction ps generalizing qs with
  | nil =>
      cases qs with
      | nil => exact .nil
      | cons q qs => cases h
  | cons p ps ih =>
      cases qs with
      | nil => cases p <;> cases ps <;> cases h
      | cons q qs =>
          cases p with
          | rest =>
              cases ps with
              | nil => exact .rest
              | cons _ _ => cases q <;> cases h
          | literal s =>
              cases q with
              | literal s' =>
                  simp only [coversSegments, Bool.and_eq_true, decide_eq_true_eq] at h
                  exact h.1 ▸ .literal (ih h.2)
              | wildcard name => cases h
              | rest => cases h
          | wildcard name =>
              cases q with
              | literal s =>
                  simp only [coversSegments] at h
                  exact .narrows (ih h)
              | wildcard name' =>
                  simp only [coversSegments] at h
                  exact .wildcard (ih h)
              | rest => cases h

theorem Covers.trans {ps qs rs : List PathSegment} (h : Covers ps qs) (h' : Covers qs rs) : Covers ps rs := by
  induction h generalizing rs with
  | nil => exact h'
  | rest => cases h' <;> exact .rest
  | literal _ ih =>
      cases h' with
      | literal h' => exact .literal (ih h')
  | narrows _ ih =>
      cases h' with
      | literal h' => exact .narrows (ih h')
  | wildcard _ ih =>
      cases h' with
      | narrows h' => exact .narrows (ih h')
      | wildcard h' => exact .wildcard (ih h')

/-! ## The handler of a request -/

/-- What `ServeMux` makes sure of while patterns are registered; `rest` stands at the end only, and no pattern
is for HEAD. -/
structure Registrable {H : Type} (pattern : H → Pattern) (handlers : List H) : Prop where
  wellFormed : ∀ h ∈ handlers, Covers (pattern h).segments (pattern h).segments
  method : ∀ h ∈ handlers, (pattern h).method ≠ "HEAD"
  noConflict : handlers.Pairwise fun h h' => conflicts (pattern h) (pattern h') = false

instance {H : Type} (pattern : H → Pattern) :
    Std.Symm fun h h' : H => conflicts (pattern h) (pattern h') = false where
  symm _ _ hnone := (conflicts_comm _ _).trans hnone

section Dispatch

variable {H : Type} {pattern : H → Pattern} {handlers handlers' : List H} {method : String}
variable {raws : List (List Char)} {h h' : H}

/-- Patterns that allow a method are for the same one. -/
theorem method_eq_of_allows {p q : Pattern} (hp : p.allows method = true) (hq : q.allows method = true)
    (hhead : p.method ≠ "HEAD" ∧ q.method ≠ "HEAD") : p.method = q.method := by
  simp only [Pattern.allows, Bool.or_eq_true, Bool.and_eq_true, decide_eq_true_eq] at hp hq
  rcases hp with hp | ⟨hp, rfl⟩
  · rcases hq with hq | ⟨hq, rfl⟩
    · exact hp.trans hq.symm
    · exact absurd hp hhead.1
  · rcases hq with hq | ⟨hq, -⟩
    · exact absurd hq hhead.2
    · exact hp.trans hq.symm

/-- Of two handlers that match a request, exactly one is more specific. -/
theorem covers_ne_of_matches (hreg : Registrable pattern handlers) (hmem : h ∈ handlers) (hmem' : h' ∈ handlers)
    (hne : h ≠ h') (hm : (pattern h).matches method raws = true)
    (hm' : (pattern h').matches method raws = true) :
    coversSegments (pattern h).segments (pattern h').segments ≠
      coversSegments (pattern h').segments (pattern h).segments := by
  rw [Pattern.matches, Bool.and_eq_true] at hm hm'
  have hmethod : (pattern h).method = (pattern h').method :=
    method_eq_of_allows hm.1 hm'.1 ⟨hreg.method h hmem, hreg.method h' hmem'⟩
  have hmatched := matched_of_match hm.2
  have hmatched' := matched_of_match hm'.2
  have hnone := hreg.noConflict.forall hmem hmem' hne
  simpa [conflicts, hmethod, overlapsSegments_of_matched hmatched hmatched'] using hnone

/-- A handler that matches the request, and all others that do cover it. -/
structure MostSpecific (pattern : H → Pattern) (handlers : List H) (method : String) (raws : List (List Char))
    (h : H) : Prop where
  mem : h ∈ handlers
  matched : (pattern h).matches method raws = true
  least : ∀ h' ∈ handlers, (pattern h').matches method raws = true →
    coversSegments (pattern h').segments (pattern h).segments = true

theorem exists_mostSpecific (hreg : Registrable pattern handlers) (hmem : h ∈ handlers)
    (hm : (pattern h).matches method raws = true) : ∃ best, MostSpecific pattern handlers method raws best := by
  have hcandidate : h ∈ handlers.filter fun h => (pattern h).matches method raws := List.mem_filter.2 ⟨hmem, hm⟩
  obtain ⟨best, hbest, hleast⟩ := exists_least
    (R := fun h h' => coversSegments (pattern h).segments (pattern h').segments = true)
    (l := handlers.filter fun h => (pattern h).matches method raws)
    (fun _ _ _ hab hbc => ((covers_of_coversSegments hab).trans (covers_of_coversSegments hbc)).coversSegments)
    (fun a ha b hb => by
      obtain ⟨hamem, ham⟩ := List.mem_filter.1 ha
      obtain ⟨hbmem, hbm⟩ := List.mem_filter.1 hb
      by_cases hab : a = b
      · rw [hab]
        exact Or.inl (hreg.wellFormed b hbmem).coversSegments
      · have hne := covers_ne_of_matches hreg hamem hbmem hab ham hbm
        cases hcovers : coversSegments (pattern a).segments (pattern b).segments with
        | true => exact Or.inl rfl
        | false => exact Or.inr (eq_true_of_ne_false fun hfalse => hne (hcovers.trans hfalse.symm)))
    (List.ne_nil_of_mem hcandidate)
  obtain ⟨hbestMem, hbestMatch⟩ := List.mem_filter.1 hbest
  exact ⟨best, hbestMem, hbestMatch, fun h' hmem' hm' => hleast h' (List.mem_filter.2 ⟨hmem', hm'⟩)⟩

theorem MostSpecific.unique (hreg : Registrable pattern handlers)
    (hbest : MostSpecific pattern handlers method raws h)
    (hbest' : MostSpecific pattern handlers method raws h') :
    h' = h := by
  by_contra hne
  refine covers_ne_of_matches hreg hbest'.mem hbest.mem hne hbest'.matched hbest.matched ?_
  rw [hbest.least h' hbest'.mem hbest'.matched, hbest'.least h hbest.mem hbest.matched]

/-- The handler that is found is the most specific one. -/
theorem findHandler_eq (hreg : Registrable pattern handlers) {url : URLPath}
    (hraws : segments? url.escaped = some raws)
    (hclean : method = "CONNECT" ∨ isClean raws = true) (hbest : MostSpecific pattern handlers method raws h) :
    findHandler pattern handlers method url = some h := by
  have hguard : ¬(method ≠ "CONNECT" ∧ isClean raws = false) := by
    rintro ⟨hconnect, hdirty⟩
    rcases hclean with heq | hclean
    · exact hconnect heq
    · rw [hclean] at hdirty
      cases hdirty
  unfold findHandler
  simp only [hraws, if_neg hguard]
  refine find?_eq_some_of_unique (List.mem_filter.2 ⟨hbest.mem, hbest.matched⟩) ?_ fun x hx hall => ?_
  · refine List.all_eq_true.2 fun h' hh' => ?_
    obtain ⟨hmem', hm'⟩ := List.mem_filter.1 hh'
    exact hbest.least h' hmem' hm'
  · obtain ⟨hxmem, hxm⟩ := List.mem_filter.1 hx
    refine hbest.unique hreg ⟨hxmem, hxm, fun h' hmem' hm' => ?_⟩
    exact List.all_eq_true.1 hall h' (List.mem_filter.2 ⟨hmem', hm'⟩)

theorem findHandler_eq_none {url : URLPath} (hraws : segments? url.escaped = some raws)
    (hnone : ∀ h ∈ handlers, (pattern h).matches method raws = false) :
    findHandler pattern handlers method url = none := by
  have hempty : handlers.filter (fun h => (pattern h).matches method raws) = [] :=
    List.filter_eq_nil_iff.2 fun h hmem => by simp [hnone h hmem]
  unfold findHandler
  simp [hraws, hempty]

theorem Registrable.perm (hreg : Registrable pattern handlers) (hperm : handlers'.Perm handlers) :
    Registrable pattern handlers' where
  wellFormed := fun h hmem => hreg.wellFormed h (hperm.mem_iff.1 hmem)
  method := fun h hmem => hreg.method h (hperm.mem_iff.1 hmem)
  noConflict := hperm.symm.pairwise hreg.noConflict fun hnone => (conflicts_comm _ _).trans hnone

theorem MostSpecific.perm (hbest : MostSpecific pattern handlers method raws h)
    (hperm : handlers'.Perm handlers) :
    MostSpecific pattern handlers' method raws h where
  mem := hperm.mem_iff.2 hbest.mem
  matched := hbest.matched
  least := fun h' hmem' => hbest.least h' (hperm.mem_iff.1 hmem')

/-- The order in which handlers are registered does not matter. -/
theorem findHandler_perm (hreg : Registrable pattern handlers) (hperm : handlers'.Perm handlers)
    (method : String)
    (url : URLPath) : findHandler pattern handlers' method url = findHandler pattern handlers method url := by
  cases hraws : segments? url.escaped with
  | none => simp [findHandler, hraws]
  | some raws =>
      by_cases hclean : method = "CONNECT" ∨ isClean raws = true
      · by_cases hany : ∃ h ∈ handlers, (pattern h).matches method raws = true
        · obtain ⟨h, hmem, hm⟩ := hany
          obtain ⟨best, hbest⟩ := exists_mostSpecific hreg hmem hm
          rw [findHandler_eq hreg hraws hclean hbest,
            findHandler_eq (hreg.perm hperm) hraws hclean (hbest.perm hperm)]
        · have hnone : ∀ h ∈ handlers, (pattern h).matches method raws = false := by
            intro h hmem
            by_contra hm
            exact hany ⟨h, hmem, eq_true_of_ne_false hm⟩
          rw [findHandler_eq_none hraws hnone,
            findHandler_eq_none hraws fun h hmem => hnone h (hperm.mem_iff.1 hmem)]
      · -- The mux redirects before it looks for a handler.
        rw [not_or] at hclean
        have hdirty : isClean raws = false := by simpa using hclean.2
        simp [findHandler, hraws, hclean.1, hdirty]

end Dispatch

end Go
end Pgaio
