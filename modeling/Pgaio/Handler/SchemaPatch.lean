import Mathlib.Data.List.Sort
import Mathlib.Data.String.Basic
import Pgaio.Handler.Schema

/-!
# SchemaPatch — a drift report determines the difference

The three lists of a report are read as a patch of the source: the objects to take away, those to
add, and those whose description is replaced.  `Determines` says what this asks of the lists, and
`drift_determines` that the lists of every two snapshots have it.

The lists are sorted by name and no name repeats, so a list is known by its members
(`eq_of_ascending`); the law for swapped arguments rests on this.
-/

namespace Pgaio
namespace Handler

open Go

/-! ## The statement -/

/-- The lists of one kind of object in a report. -/
structure KindDrift where
  onlyInSource : List OnlyEntry
  onlyInTarget : List OnlyEntry
  changed : List ChangedEntry
  deriving DecidableEq, Repr

def kindDrift (source target : StringMap) : KindDrift where
  onlyInSource := diffOnly source target
  onlyInTarget := diffOnly target source
  changed := diffChanged source target

def ChangedEntry.swap (e : ChangedEntry) : ChangedEntry where
  name := e.name
  sourceDetail := e.targetDetail
  targetDetail := e.sourceDetail

namespace KindDrift

/-- The report seen from the other side. -/
def swap (d : KindDrift) : KindDrift where
  onlyInSource := d.onlyInTarget
  onlyInTarget := d.onlyInSource
  changed := d.changed.map ChangedEntry.swap

/-- What the report makes of a map of the source. -/
def patch (d : KindDrift) (source : StringMap) : StringMap :=
  GoMap.patch (d.onlyInSource.map fun e => (e.name, e.detail))
    (d.onlyInTarget.map fun e => (e.name, e.detail))
    (d.changed.map fun e => (e.name, e.targetDetail)) source

end KindDrift

/-- Two maps that are equal as maps, whatever the order in which they were filled. -/
def SameMap (a b : StringMap) : Prop :=
  ∀ k, a.lookup k = b.lookup k

def Ascending {α : Type} (name : α → String) (xs : List α) : Prop :=
  xs.Pairwise fun x y => name x < name y

/-- The names of the three lists have nothing in common. -/
structure DisjointNames (d : KindDrift) : Prop where
  source_target : ∀ x ∈ d.onlyInSource, ∀ y ∈ d.onlyInTarget, x.name ≠ y.name
  source_changed : ∀ x ∈ d.onlyInSource, ∀ y ∈ d.changed, x.name ≠ y.name
  target_changed : ∀ x ∈ d.onlyInTarget, ∀ y ∈ d.changed, x.name ≠ y.name

/-- The report `d` of `source` against `target`. -/
structure Determines (source target : StringMap) (d : KindDrift) : Prop where
  disjoint : DisjointNames d
  source_ascending : Ascending OnlyEntry.name d.onlyInSource
  target_ascending : Ascending OnlyEntry.name d.onlyInTarget
  changed_ascending : Ascending ChangedEntry.name d.changed
  empty_iff :
    (d.onlyInSource = [] ∧ d.onlyInTarget = [] ∧ d.changed = []) ↔ SameMap source target
  swapped : kindDrift target source = d.swap
  patched : SameMap (d.patch source) target

/-! ## Sorted lists of names -/

section Names

variable {α : Type} {name : α → String}

theorem sortByName_perm (xs : List α) : (sortByName name xs).Perm xs :=
  List.mergeSort_perm xs _

/-- Names without repetition come out strictly ascending. -/
theorem sortByName_ascending {xs : List α} (hxs : (xs.map name).Nodup) :
    Ascending name (sortByName name xs) := by
  have hsorted : (sortByName name xs).Pairwise fun a b => decide (name a ≤ name b) := by
    apply List.pairwise_mergeSort
    · intro a b c hab hbc
      exact decide_eq_true (le_trans (of_decide_eq_true hab) (of_decide_eq_true hbc))
    · intro a b
      simpa using le_total (name a) (name b)
  have hnodup : ((sortByName name xs).map name).Nodup :=
    ((sortByName_perm xs).map name).nodup_iff.2 hxs
  -- Two places hold names that are in order and not equal.
  have hne : (sortByName name xs).Pairwise fun a b => name a ≠ name b :=
    List.pairwise_map.1 hnodup
  apply (hsorted.and hne).imp
  rintro a b ⟨hle, hab⟩
  exact lt_of_le_of_ne (of_decide_eq_true hle) hab

/-- An ascending list is known by its members. -/
theorem eq_of_ascending {xs ys : List α} (hxs : Ascending name xs) (hys : Ascending name ys)
    (hmem : ∀ x, x ∈ xs ↔ x ∈ ys) : xs = ys := by
  have : Std.Irrefl fun x y : α => name x < name y := ⟨fun x => lt_irrefl (name x)⟩
  exact hxs.eq_of_mem_iff hys hmem

end Names

theorem diffOnly_ascending (left right : StringMap) :
    Ascending OnlyEntry.name (diffOnly left right) := by
  apply sortByName_ascending
  rw [List.map_map]
  exact GoMap.missing_keys_nodup left right

theorem diffChanged_ascending (left right : StringMap) :
    Ascending ChangedEntry.name (diffChanged left right) := by
  apply sortByName_ascending
  rw [List.map_map]
  exact GoMap.changed_keys_nodup left right

/-! ## The three lists together -/

theorem disjointNames (source target : StringMap) : DisjointNames (kindDrift source target) := by
  -- A name of the source list is no key of the target, and the other way round.
  have hkey : ∀ {m : StringMap} {k v : String}, m.lookup k = some v → k ∈ m := by
    intro m k v h
    exact AList.lookup_isSome.1 (by simp [h])
  refine ⟨?_, ?_, ?_⟩
  · intro x hx y hy hname
    have hnot := (mem_diffOnly.1 hx).2
    rw [hname] at hnot
    exact hnot (hkey (mem_diffOnly.1 hy).1)
  · intro x hx y hy hname
    have hnot := (mem_diffOnly.1 hx).2
    rw [hname] at hnot
    exact hnot (hkey (mem_diffChanged.1 hy).2.1)
  · intro x hx y hy hname
    have hnot := (mem_diffOnly.1 hx).2
    rw [hname] at hnot
    exact hnot (hkey (mem_diffChanged.1 hy).1)

theorem diffChanged_swap (source target : StringMap) :
    diffChanged target source = (diffChanged source target).map ChangedEntry.swap := by
  apply eq_of_ascending (diffChanged_ascending target source)
  · -- The names stay where they are.
    exact List.pairwise_map.2 (diffChanged_ascending source target)
  · intro e
    rw [mem_diffChanged, List.mem_map]
    constructor
    · rintro ⟨htarget, hsource, hne⟩
      exact ⟨e.swap, mem_diffChanged.2 ⟨hsource, htarget, hne.symm⟩, rfl⟩
    · rintro ⟨e', hmem, rfl⟩
      obtain ⟨hsource, htarget, hne⟩ := mem_diffChanged.1 hmem
      exact ⟨htarget, hsource, hne.symm⟩

theorem kindDrift_swap (source target : StringMap) :
    kindDrift target source = (kindDrift source target).swap := by
  unfold kindDrift KindDrift.swap
  rw [diffChanged_swap]

/-! ## The report as a patch -/

theorem patch_kindDrift (source target : StringMap) :
    SameMap ((kindDrift source target).patch source) target := by
  have hpair : ∀ {left right : StringMap} (k v : String),
      (k, v) ∈ (diffOnly left right).map (fun e => (e.name, e.detail)) ↔
        left.lookup k = some v ∧ k ∉ right := by
    intro left right k v
    rw [List.mem_map]
    constructor
    · rintro ⟨e, he, hkv⟩
      cases hkv
      exact mem_diffOnly.1 he
    · intro h
      exact ⟨⟨k, v⟩, mem_diffOnly.2 h, rfl⟩
  intro k
  apply GoMap.lookup_patch
  · exact hpair
  · exact hpair
  · intro k w
    rw [List.mem_map]
    constructor
    · rintro ⟨e, he, hkw⟩
      cases hkw
      exact ⟨e.sourceDetail, mem_diffChanged.1 he⟩
    · rintro ⟨v, h⟩
      exact ⟨⟨k, v, w⟩, mem_diffChanged.2 h, rfl⟩

/-- The report of any two maps says exactly how they differ. -/
theorem drift_determines (source target : StringMap) :
    Determines source target (kindDrift source target) where
  disjoint := disjointNames source target
  source_ascending := diffOnly_ascending source target
  target_ascending := diffOnly_ascending target source
  changed_ascending := diffChanged_ascending source target
  empty_iff := diff_eq_nil_iff
  swapped := kindDrift_swap source target
  patched := patch_kindDrift source target

/-! ## All four kinds -/

/-- The parts of a summary, one for each kind of object. -/
def DriftSummary.kinds (s : DriftSummary) : List KindDrift :=
  [ { onlyInSource := s.tableOnlyInSource, onlyInTarget := s.tableOnlyInTarget,
      changed := s.tableChanged },
    { onlyInSource := s.columnOnlyInSource, onlyInTarget := s.columnOnlyInTarget,
      changed := s.columnChanged },
    { onlyInSource := s.indexOnlyInSource, onlyInTarget := s.indexOnlyInTarget,
      changed := s.indexChanged },
    { onlyInSource := s.extensionOnlyInSource, onlyInTarget := s.extensionOnlyInTarget,
      changed := s.extensionChanged } ]

/-- The maps of a snapshot in the order of the report. -/
def SchemaSnapshot.maps (s : SchemaSnapshot) : List StringMap :=
  [s.tables, s.columns, s.indexes, s.extensions]

/-- The summary of two snapshots determines the difference for every kind of object. -/
theorem summary_determines (source target : SchemaSnapshot) :
    List.Forall₂ (fun maps d => Determines maps.1 maps.2 d)
      (source.maps.zip target.maps) (driftSummary source target).kinds := by
  -- The parts of the summary are the four comparisons, in the order of the maps.
  have hkinds : (driftSummary source target).kinds =
      (source.maps.zip target.maps).map fun maps => kindDrift maps.1 maps.2 := rfl
  rw [hkinds, List.forall₂_map_right_iff, List.forall₂_same]
  intro maps _
  exact drift_determines maps.1 maps.2

end Handler
end Pgaio
