import Mathlib.Data.List.AList
import Mathlib.Data.List.Basic

/-!
# Maps — maps that a loop fills, and their comparison

A loop assigns `m[key] = value` for one entry after the other, so a later entry replaces an earlier
one with the same key.  Two maps are compared by three lists: the keys of one side only, those of
the other, and the keys with two different values.  The lists are empty together exactly when the
maps agree (`agree_iff`), and they turn the one map into the other (`lookup_patch`).
-/

namespace Pgaio
namespace Go

variable {K V : Type} [DecidableEq K]

/-- A Go map. -/
abbrev GoMap (K V : Type) := AList fun _ : K => V

namespace GoMap

/-- `m[key] = value` for the entries in turn. -/
def assignAll (entries : List (K × V)) (m : GoMap K V) : GoMap K V :=
  entries.foldl (fun m entry => m.insert entry.1 entry.2) m

/-- The map that the entries build up. -/
def ofEntries (entries : List (K × V)) : GoMap K V :=
  assignAll entries ∅

@[simp] theorem assignAll_nil (m : GoMap K V) : assignAll [] m = m := rfl

@[simp] theorem assignAll_cons (entry : K × V) (entries : List (K × V)) (m : GoMap K V) :
    assignAll (entry :: entries) m = assignAll entries (m.insert entry.1 entry.2) := rfl

/-- The last entry of a key counts. -/
theorem lookup_assignAll (entries : List (K × V)) (m : GoMap K V) (k : K) :
    (assignAll entries m).lookup k =
      ((entries.reverse.find? fun entry => entry.1 = k).map Prod.snd).or (m.lookup k) := by
  induction entries generalizing m with
  | nil => rfl
  | cons entry entries ih =>
      rw [assignAll_cons, ih, List.reverse_cons, List.find?_append]
      cases entries.reverse.find? fun entry => entry.1 = k with
      | some found => rfl
      | none =>
          by_cases hk : entry.1 = k
          · subst hk
            simp
          · simp [hk, AList.lookup_insert_ne (Ne.symm hk)]
/-- What is found was there before or comes from an entry. -/
theorem mem_of_lookup_assignAll {entries : List (K × V)} {m : GoMap K V} {k : K} {v : V}
    (h : (assignAll entries m).lookup k = some v) : (k, v) ∈ entries ∨ m.lookup k = some v := by
  induction entries generalizing m with
  | nil => exact Or.inr h
  | cons entry entries ih =>
      rcases ih h with hmem | hlookup
      · exact Or.inl (List.mem_cons_of_mem _ hmem)
      · by_cases hk : k = entry.1
        · subst hk
          have hv : entry.2 = v := by
            simpa using hlookup
          exact Or.inl (hv ▸ List.mem_cons_self)
        · exact Or.inr (by simpa [AList.lookup_insert_ne hk] using hlookup)

theorem mem_entries_of_lookup {entries : List (K × V)} {k : K} {v : V}
    (h : (ofEntries entries).lookup k = some v) : (k, v) ∈ entries := by
  rcases mem_of_lookup_assignAll h with hmem | hnone
  · exact hmem
  · simp at hnone

/-- Assignments to other keys do not count. -/
theorem lookup_assignAll_of_forall_ne {entries : List (K × V)} {m : GoMap K V} {k : K}
    (h : ∀ entry ∈ entries, k ≠ entry.1) : (assignAll entries m).lookup k = m.lookup k := by
  induction entries generalizing m with
  | nil => rfl
  | cons entry entries ih =>
      rw [assignAll_cons, ih fun e he => h e (List.mem_cons_of_mem _ he)]
      exact AList.lookup_insert_ne (h entry List.mem_cons_self)

/-- An assigned key holds its value when no other value is assigned to it. -/
theorem lookup_assignAll_of_mem {entries : List (K × V)} {m : GoMap K V} {k : K} {v : V}
    (h : (k, v) ∈ entries) (honly : ∀ v', (k, v') ∈ entries → v' = v) :
    (assignAll entries m).lookup k = some v := by
  induction entries generalizing m with
  | nil => exact absurd h List.not_mem_nil
  | cons entry entries ih =>
      rw [assignAll_cons]
      by_cases hlater : ∃ v', (k, v') ∈ entries
      · -- A later entry for the same key assigns the same value.
        obtain ⟨v', hv'⟩ := hlater
        rw [honly v' (List.mem_cons_of_mem _ hv')] at hv'
        exact ih hv' fun w hw => honly w (List.mem_cons_of_mem _ hw)
      · have hentry : entry = (k, v) := by
          rcases List.mem_cons.1 h with heq | hmem
          · exact heq.symm
          · exact absurd ⟨v, hmem⟩ hlater
        have hother : ∀ e ∈ entries, k ≠ e.1 := by
          rintro ⟨k', v'⟩ he rfl
          exact hlater ⟨v', he⟩
        rw [lookup_assignAll_of_forall_ne hother, hentry]
        exact AList.lookup_insert _

/-- An entry that shares its key with no other entry of a different value stays in the map. -/
theorem lookup_eq_of_mem {entries : List (K × V)} {k : K} {v : V} (h : (k, v) ∈ entries)
    (honly : ∀ v', (k, v') ∈ entries → v' = v) : (ofEntries entries).lookup k = some v :=
  lookup_assignAll_of_mem h honly

/-! ## Comparison -/

/-- The entries of `left` whose key `right` lacks, in the order of `left`. -/
def missing (left right : GoMap K V) : List (K × V) :=
  left.entries.filterMap fun entry =>
    if (right.lookup entry.1).isSome then none else some (entry.1, entry.2)

/-- The keys of both maps with different values, and these values. -/
def changed [DecidableEq V] (left right : GoMap K V) : List (K × V × V) :=
  left.entries.filterMap fun entry =>
    match right.lookup entry.1 with
    | none => none
    | some v => if entry.2 = v then none else some (entry.1, entry.2, v)

theorem mem_missing {left right : GoMap K V} {k : K} {v : V} :
    (k, v) ∈ missing left right ↔ left.lookup k = some v ∧ k ∉ right := by
  unfold missing
  rw [List.mem_filterMap]
  constructor
  · rintro ⟨⟨k', v'⟩, hmem, hif⟩
    dsimp only at hif
    split at hif
    · cases hif
    · rename_i hnone
      cases hif
      exact ⟨AList.mem_lookup_iff.2 hmem, fun hk => hnone (AList.lookup_isSome.2 hk)⟩
  · rintro ⟨hlookup, hnot⟩
    refine ⟨⟨k, v⟩, AList.mem_lookup_iff.1 hlookup, ?_⟩
    have hnone : ¬(right.lookup k).isSome := fun h => hnot (AList.lookup_isSome.1 h)
    exact if_neg hnone

theorem mem_changed [DecidableEq V] {left right : GoMap K V} {k : K} {v w : V} :
    (k, v, w) ∈ changed left right ↔
      left.lookup k = some v ∧ right.lookup k = some w ∧ v ≠ w := by
  unfold changed
  rw [List.mem_filterMap]
  constructor
  · rintro ⟨⟨k', v'⟩, hmem, hmatch⟩
    dsimp only at hmatch
    split at hmatch
    · cases hmatch
    · rename_i w' hright
      split at hmatch
      · cases hmatch
      · rename_i hne
        cases hmatch
        exact ⟨AList.mem_lookup_iff.2 hmem, hright, hne⟩
  · rintro ⟨hleft, hright, hne⟩
    refine ⟨⟨k, v⟩, AList.mem_lookup_iff.1 hleft, ?_⟩
    simp [hright, hne]

theorem missing_eq_nil {left right : GoMap K V} :
    missing left right = [] ↔ ∀ k ∈ left, k ∈ right := by
  rw [List.eq_nil_iff_forall_not_mem]
  constructor
  · intro h k hk
    obtain ⟨v, hv⟩ := Option.isSome_iff_exists.1 (AList.lookup_isSome.2 hk)
    by_contra hnot
    exact h (k, v) (mem_missing.2 ⟨hv, hnot⟩)
  · rintro h ⟨k, v⟩ hmem
    obtain ⟨hleft, hnot⟩ := mem_missing.1 hmem
    exact hnot (h k (AList.lookup_isSome.1 (by simp [hleft])))

theorem changed_eq_nil [DecidableEq V] {left right : GoMap K V} :
    changed left right = [] ↔
      ∀ k v w, left.lookup k = some v → right.lookup k = some w → v = w := by
  rw [List.eq_nil_iff_forall_not_mem]
  constructor
  · intro h k v w hleft hright
    by_contra hne
    exact h (k, v, w) (mem_changed.2 ⟨hleft, hright, hne⟩)
  · rintro h ⟨k, v, w⟩ hmem
    obtain ⟨hleft, hright, hne⟩ := mem_changed.1 hmem
    exact hne (h k v w hleft hright)

/-- The three lists of a comparison are empty exactly when the maps agree. -/
theorem agree_iff [DecidableEq V] {left right : GoMap K V} :
    (missing left right = [] ∧ missing right left = [] ∧ changed left right = []) ↔
      ∀ k, left.lookup k = right.lookup k := by
  rw [missing_eq_nil, missing_eq_nil, changed_eq_nil]
  constructor
  · rintro ⟨hleft, hright, hsame⟩ k
    cases hl : left.lookup k with
    | none =>
        have hnot : k ∉ right := fun hk => AList.lookup_eq_none.1 hl (hright k hk)
        exact (AList.lookup_eq_none.2 hnot).symm
    | some v =>
        have hk : k ∈ left := AList.lookup_isSome.1 (by simp [hl])
        obtain ⟨w, hw⟩ := Option.isSome_iff_exists.1 (AList.lookup_isSome.2 (hleft k hk))
        rw [hw, hsame k v w hl hw]
  · intro h
    refine ⟨fun k hk => ?_, fun k hk => ?_, fun k v w hl hr => ?_⟩
    · rw [← AList.lookup_isSome, ← h k]
      exact AList.lookup_isSome.2 hk
    · rw [← AList.lookup_isSome, h k]
      exact AList.lookup_isSome.2 hk
    · have hsome : some v = some w := by
        rw [← hl, ← hr, h k]
      exact Option.some.inj hsome

/-! ## The names of a comparison -/

/-- What a `filterMap` keeps has names from the list it reads. -/
theorem map_filterMap_sublist {α β γ : Type} {f : α → Option β} {name : β → γ} {key : α → γ}
    (hname : ∀ x y, f x = some y → name y = key x) (xs : List α) :
    ((xs.filterMap f).map name).Sublist (xs.map key) := by
  induction xs with
  | nil => exact List.Sublist.slnil
  | cons x xs ih =>
      cases hx : f x with
      | none =>
          rw [List.filterMap_cons_none hx]
          exact ih.cons (key x)
      | some y =>
          rw [List.filterMap_cons_some hx, List.map_cons, List.map_cons, hname x y hx]
          exact ih.cons_cons (key x)

theorem missing_keys_nodup (left right : GoMap K V) :
    ((missing left right).map Prod.fst).Nodup := by
  have hsub : ((missing left right).map Prod.fst).Sublist left.keys := by
    apply map_filterMap_sublist
    intro entry found h
    split at h
    · cases h
    · cases h
      rfl
  exact hsub.nodup left.keys_nodup

theorem changed_keys_nodup [DecidableEq V] (left right : GoMap K V) :
    ((changed left right).map Prod.fst).Nodup := by
  have hsub : ((changed left right).map Prod.fst).Sublist left.keys := by
    apply map_filterMap_sublist
    intro entry found h
    split at h
    · cases h
    · split at h
      · cases h
      · cases h
        rfl
  exact hsub.nodup left.keys_nodup

/-! ## A comparison as a patch -/

/-- `delete(m, key)` for the keys in turn. -/
def eraseAll (keys : List K) (m : GoMap K V) : GoMap K V :=
  keys.foldl (fun m key => m.erase key) m

theorem lookup_eraseAll (keys : List K) (m : GoMap K V) (k : K) :
    (eraseAll keys m).lookup k = if k ∈ keys then none else m.lookup k := by
  induction keys generalizing m with
  | nil => rfl
  | cons key keys ih =>
      have hstep : (eraseAll (key :: keys) m).lookup k =
          if k ∈ keys then none else (m.erase key).lookup k := ih (m.erase key)
      rw [hstep]
      by_cases hk : k = key
      · subst hk
        simp
      · simp [hk, AList.lookup_erase_ne hk]

/-- Take the keys of one side away, add those of the other side, and replace the values that
differ. -/
def patch (removed added replaced : List (K × V)) (m : GoMap K V) : GoMap K V :=
  assignAll replaced (assignAll added (eraseAll (removed.map Prod.fst) m))

/-- The three lists of a comparison, in any order, turn the left map into the right one. -/
theorem lookup_patch {left right : GoMap K V} {removed added replaced : List (K × V)}
    (hremoved : ∀ k v, (k, v) ∈ removed ↔ left.lookup k = some v ∧ k ∉ right)
    (hadded : ∀ k v, (k, v) ∈ added ↔ right.lookup k = some v ∧ k ∉ left)
    (hreplaced : ∀ k w, (k, w) ∈ replaced ↔
      ∃ v, left.lookup k = some v ∧ right.lookup k = some w ∧ v ≠ w) (k : K) :
    (patch removed added replaced left).lookup k = right.lookup k := by
  unfold patch
  cases hright : right.lookup k with
  | none =>
      -- Nothing assigns the key; if the left map has it, it is taken away.
      rw [lookup_assignAll_of_forall_ne, lookup_assignAll_of_forall_ne, lookup_eraseAll]
      · cases hleft : left.lookup k with
        | none => exact ite_self _
        | some v =>
            have hmem : (k, v) ∈ removed :=
              (hremoved k v).2 ⟨hleft, AList.lookup_eq_none.1 hright⟩
            exact if_pos (List.mem_map.2 ⟨(k, v), hmem, rfl⟩)
      · rintro ⟨k', v⟩ hmem rfl
        rw [((hadded k v).1 hmem).1] at hright
        cases hright
      · rintro ⟨k', w⟩ hmem rfl
        obtain ⟨v, -, hlookup, -⟩ := (hreplaced k w).1 hmem
        rw [hlookup] at hright
        cases hright
  | some w =>
      cases hleft : left.lookup k with
      | none =>
          -- The key is new: it is added, and not touched afterwards.
          have hnew : (k, w) ∈ added := (hadded k w).2 ⟨hright, AList.lookup_eq_none.1 hleft⟩
          rw [lookup_assignAll_of_forall_ne]
          · apply lookup_assignAll_of_mem hnew
            intro v' hv'
            rw [((hadded k v').1 hv').1] at hright
            exact Option.some.inj hright
          · rintro ⟨k', w'⟩ hmem rfl
            obtain ⟨v, hlookup, -, -⟩ := (hreplaced k w').1 hmem
            rw [hlookup] at hleft
            cases hleft
      | some v =>
          by_cases hsame : v = w
          · -- Both maps agree on the key: no list names it.
            subst hsame
            rw [lookup_assignAll_of_forall_ne, lookup_assignAll_of_forall_ne, lookup_eraseAll,
              if_neg, hleft]
            · intro hkey
              obtain ⟨⟨k', v'⟩, hmem, rfl⟩ := List.mem_map.1 hkey
              exact ((hremoved k' v').1 hmem).2 (AList.lookup_isSome.1 (by simp [hright]))
            · rintro ⟨k', v'⟩ hmem rfl
              exact ((hadded k v').1 hmem).2 (AList.lookup_isSome.1 (by simp [hleft]))
            · rintro ⟨k', w'⟩ hmem rfl
              obtain ⟨v', hl, hr, hne⟩ := (hreplaced k w').1 hmem
              rw [hleft, Option.some.injEq] at hl
              rw [hright, Option.some.injEq] at hr
              exact hne (hl.symm.trans hr)
          · apply lookup_assignAll_of_mem ((hreplaced k w).2 ⟨v, hleft, hright, hsame⟩)
            intro w' hw'
            obtain ⟨v', -, hr, -⟩ := (hreplaced k w').1 hw'
            rw [hright] at hr
            exact (Option.some.inj hr).symm

end GoMap
end Go
end Pgaio
