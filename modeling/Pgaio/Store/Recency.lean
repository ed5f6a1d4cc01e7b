import Mathlib.Data.List.AList

/-!
# Recency — a bounded map with a list of its keys, newest first

A store holds its latest insertions in a map and their keys, newest first, in a list; what exceeds
the bound is dropped from the end of the list.  The abstract side is the log of all insertions,
newest first, and `Keeps` says that map and list hold its first `cap` entries.  There is one rule for
each operation: `Keeps.insert`, `Keeps.dropOldest` and `Keeps.modify`.
-/

namespace Pgaio
namespace Store

variable {K V : Type} [DecidableEq K] {key : V → K} {cap : Nat}

/-- Change the entry of one key, if it is among the `cap` newest ones. -/
def modifyNewest (key : V → K) (cap : Nat) (k : K) (f : V → V) (log : List V) : List V :=
  (log.take cap).map (fun v => if key v = k then f v else v) ++ log.drop cap

section ModifyNewest

variable {k : K} {f : V → V} {log : List V}

theorem take_modifyNewest :
    (modifyNewest key cap k f log).take cap =
      (log.take cap).map fun v => if key v = k then f v else v := by
  rcases Nat.le_total cap log.length with hfull | hshort
  · refine List.take_left' ?_
    rw [List.length_map, List.length_take]
    exact Nat.min_eq_left hfull
  · simp [modifyNewest, List.take_of_length_le, hshort]

theorem drop_modifyNewest : (modifyNewest key cap k f log).drop cap = log.drop cap := by
  rcases Nat.le_total cap log.length with hfull | hshort
  · refine List.drop_left' ?_
    rw [List.length_map, List.length_take]
    exact Nat.min_eq_left hfull
  · simpa [modifyNewest, List.take_of_length_le hshort, List.drop_of_length_le hshort] using hshort

theorem length_modifyNewest : (modifyNewest key cap k f log).length = log.length := by
  simp [modifyNewest]
  omega

/-- What a change respects does not change. -/
theorem map_modifyNewest {B : Type} {g : V → B} (hf : ∀ v, g (f v) = g v) :
    (modifyNewest key cap k f log).map g = log.map g := by
  have hpoint : ∀ v, g (if key v = k then f v else v) = g v := by
    intro v
    split
    · exact hf v
    · rfl
  calc
    (modifyNewest key cap k f log).map g
        = (log.take cap).map g ++ (log.drop cap).map g := by
          simp [modifyNewest, Function.comp_def, hpoint]
    _ = log.map g := by rw [← List.map_append, List.take_append_drop]

end ModifyNewest

/-- Map and list hold the `cap` newest entries of the log. -/
structure Keeps (key : V → K) (cap : Nat) (entries : AList fun _ : K => V) (order : List K)
    (log : List V) : Prop where
  nodup : (log.map key).Nodup
  order_eq : order = (log.take cap).map key
  lookup_eq : ∀ k, entries.lookup k = (log.take cap).find? fun v => decide (key v = k)

theorem stored_or_dropped {log : List V} {v : V} (cap : Nat) (h : v ∈ log) :
    v ∈ log.take cap ∨ v ∈ log.drop cap := by
  rw [← List.take_append_drop cap log] at h
  exact List.mem_append.1 h

namespace Keeps

variable {entries : AList fun _ : K => V} {order : List K} {log : List V}

theorem empty : Keeps key cap ∅ [] [] where
  nodup := List.nodup_nil
  order_eq := by simp
  lookup_eq := by simp

theorem nodup_order (h : Keeps key cap entries order log) : order.Nodup := by
  rw [h.order_eq, List.map_take]
  exact h.nodup.sublist (List.take_sublist cap _)

theorem length_order (h : Keeps key cap entries order log) : order.length = min cap log.length := by
  rw [h.order_eq, List.length_map, List.length_take]

theorem lookup_of_mem (h : Keeps key cap entries order log) {v : V} (hv : v ∈ log.take cap) :
    entries.lookup (key v) = some v := by
  rw [h.lookup_eq]
  cases hfind : (log.take cap).find? fun v' => decide (key v' = key v) with
  | none => simpa using List.find?_eq_none.1 hfind v hv
  | some v' =>
      -- No other entry has the same key.
      have hkey : key v' = key v := by simpa using List.find?_some hfind
      have hmem := List.mem_of_mem_take (List.mem_of_find?_eq_some hfind)
      exact congrArg some (List.inj_on_of_nodup_map h.nodup hmem (List.mem_of_mem_take hv) hkey)

/-- What is stored under a key is one of the newest entries. -/
theorem mem_of_lookup (h : Keeps key cap entries order log) {k : K} {v : V}
    (hlookup : entries.lookup k = some v) : v ∈ log.take cap ∧ key v = k := by
  rw [h.lookup_eq] at hlookup
  exact ⟨List.mem_of_find?_eq_some hlookup, by simpa using List.find?_some hlookup⟩

/-- An entry is stored or was dropped, and a key belongs to one of them only. -/
theorem key_ne_of_dropped (h : Keeps key cap entries order log) {v v' : V}
    (hstored : v ∈ log.take cap) (hdropped : v' ∈ log.drop cap) : key v ≠ key v' := by
  have hnodup := h.nodup
  rw [← List.take_append_drop cap log, List.map_append] at hnodup
  exact (List.nodup_append.1 hnodup).2.2 _ (List.mem_map_of_mem hstored) _
    (List.mem_map_of_mem hdropped)

theorem lookup_ne_none_iff (h : Keeps key cap entries order log) {k : K} :
    entries.lookup k ≠ none ↔ k ∈ order := by
  rw [h.lookup_eq, h.order_eq, List.mem_map]
  simp

/-- The keys of the map are those of the list. -/
theorem mem_keys (h : Keeps key cap entries order log) {k : K} :
    k ∈ entries.keys ↔ k ∈ order := by
  rw [← h.lookup_ne_none_iff, Ne, AList.lookup_eq_none, not_not]
  exact AList.mem_keys

/-- Reading the entries along the list gives the newest entries of the log. -/
theorem filterMap_order (h : Keeps key cap entries order log) :
    order.filterMap (fun k => entries.lookup k) = log.take cap := by
  rw [h.order_eq, List.filterMap_map]
  calc
    (log.take cap).filterMap ((fun k => entries.lookup k) ∘ key)
        = (log.take cap).filterMap some :=
          List.filterMap_congr fun v hv => h.lookup_of_mem hv
    _ = log.take cap := List.filterMap_some

/-! ## The rules -/

theorem insert (h : Keeps key cap entries order log) {v : V} (hnew : key v ∉ log.map key) :
    Keeps key (cap + 1) (entries.insert (key v) v) (key v :: order) (v :: log) where
  nodup := List.nodup_cons.2 ⟨hnew, h.nodup⟩
  order_eq := by simp [h.order_eq]
  lookup_eq := by
    intro k
    by_cases hk : k = key v
    · subst hk
      simp [AList.lookup_insert]
    · rw [AList.lookup_insert_ne hk, h.lookup_eq]
      simp [Ne.symm hk]

/-- Below the bound nothing has to be dropped. -/
theorem shrink (h : Keeps key (cap + 1) entries order log) (hshort : log.length ≤ cap) :
    Keeps key cap entries order log := by
  have htake : log.take (cap + 1) = log.take cap := by
    rw [List.take_of_length_le hshort, List.take_of_length_le (Nat.le_succ_of_le hshort)]
  exact ⟨h.nodup, htake ▸ h.order_eq, htake ▸ h.lookup_eq⟩

/-- The last key of a list that exceeds the bound is that of the oldest entry. -/
theorem dropOldest (h : Keeps key (cap + 1) entries order log) (hfull : cap < log.length) :
    ∃ v, log.drop cap = v :: log.drop (cap + 1) ∧ order.getLast? = some (key v) ∧
      entries.lookup (key v) = some v ∧
        Keeps key cap (entries.erase (key v)) order.dropLast log := by
  have htake : log.take (cap + 1) = log.take cap ++ [log[cap]] := List.take_succ_eq_append_getElem hfull
  have hmem : log[cap] ∈ log.take (cap + 1) := by
    rw [htake]
    exact List.mem_append_right _ (List.mem_singleton.2 rfl)
  have horder : order = (log.take cap).map key ++ [key log[cap]] := by
    rw [h.order_eq, htake, List.map_append, List.map_singleton]
  -- The oldest key occurs once, so erasing it leaves all others.
  have hnot : key log[cap] ∉ (log.take cap).map key := by
    have hnodup := h.nodup_order
    rw [horder] at hnodup
    exact fun hold => (List.nodup_append.1 hnodup).2.2 _ hold _ (List.mem_singleton.2 rfl) rfl
  refine ⟨log[cap], List.drop_eq_getElem_cons hfull, by simp [horder], h.lookup_of_mem hmem,
    h.nodup, by simp [horder], fun k => ?_⟩
  by_cases hk : k = key log[cap]
  · subst hk
    rw [AList.lookup_erase]
    refine (List.find?_eq_none.2 fun v hv => ?_).symm
    have hne : key v ≠ key log[cap] := fun heq => hnot (heq ▸ List.mem_map_of_mem hv)
    simpa using hne
  · rw [AList.lookup_erase_ne hk, h.lookup_eq, htake, List.find?_append]
    simp [Ne.symm hk]

/-- The entry of one key changes in place. -/
theorem modify (h : Keeps key cap entries order log) {k : K} {f : V → V} {v : V}
    (hf : ∀ v, key (f v) = key v) (hlookup : entries.lookup k = some v) :
    Keeps key cap (entries.insert k (f v)) order (modifyNewest key cap k f log) where
  nodup := by
    rw [map_modifyNewest hf]
    exact h.nodup
  order_eq := by
    rw [h.order_eq, List.map_take, List.map_take, map_modifyNewest hf]
  lookup_eq := by
    intro k'
    -- A change keeps the keys, so the search stops at the same entry as before.
    have hkeys : ((fun v => decide (key v = k')) ∘ fun v => if key v = k then f v else v) =
        fun v => decide (key v = k') := by
      funext v
      by_cases hk : key v = k <;> simp [hk, hf]
    rw [take_modifyNewest, List.find?_map, hkeys, ← h.lookup_eq]
    by_cases hk : k' = k
    · subst hk
      have hkey : key v = k' := (h.mem_of_lookup hlookup).2
      rw [AList.lookup_insert, hlookup]
      simp [hkey]
    · rw [AList.lookup_insert_ne hk]
      cases hfind : entries.lookup k' with
      | none => rfl
      | some v' =>
          have hkey : key v' = k' := (h.mem_of_lookup hfind).2
          simp [hkey, hk]

/-- After a change the log has the new entry and all entries of other keys. -/
theorem mem_modifyNewest (h : Keeps key cap entries order log) {k : K} {f : V → V} {v v' : V}
    (hlookup : entries.lookup k = some v) :
    v' ∈ modifyNewest key cap k f log ↔ v' = f v ∨ v' ∈ log ∧ key v' ≠ k := by
  rcases h.mem_of_lookup hlookup with ⟨hv, hkey⟩
  constructor
  · intro hmem
    rcases List.mem_append.1 hmem with hnewest | hdropped
    · rcases List.mem_map.1 hnewest with ⟨w, hw, rfl⟩
      by_cases hwk : key w = k
      · have hsome := h.lookup_of_mem hw
        rw [hwk, hlookup] at hsome
        cases hsome
        exact Or.inl (if_pos hkey)
      · rw [if_neg hwk]
        exact Or.inr ⟨List.mem_of_mem_take hw, hwk⟩
    · -- An entry that was dropped has another key than one that is stored.
      refine Or.inr ⟨List.mem_of_mem_drop hdropped, fun hk => ?_⟩
      exact h.key_ne_of_dropped hv hdropped (hkey.trans hk.symm)
  · rintro (rfl | ⟨hmem, hne⟩)
    · exact List.mem_append_left _ (List.mem_map.2 ⟨v, hv, if_pos hkey⟩)
    · rcases stored_or_dropped cap hmem with hnewest | hdropped
      · exact List.mem_append_left _ (List.mem_map.2 ⟨v', hnewest, if_neg hne⟩)
      · exact List.mem_append_right _ hdropped

/-- A change of a key that is not stored is no change. -/
theorem modifyNewest_of_none (h : Keeps key cap entries order log) {k : K} {f : V → V}
    (hlookup : entries.lookup k = none) : modifyNewest key cap k f log = log := by
  have hnone : ∀ v ∈ log.take cap, key v ≠ k := by
    rw [h.lookup_eq] at hlookup
    simpa using hlookup
  have hsame : (log.take cap).map (fun v => if key v = k then f v else v) = log.take cap := by
    refine (List.map_congr_left fun v hv => ?_).trans (List.map_id _)
    exact if_neg (hnone v hv)
  rw [modifyNewest, hsame, List.take_append_drop]

end Keeps

/-! ## Listing -/

/-- Walk along the keys and gather the entries that are wanted, until there are `limit`. -/
def collect (find : K → Option V) (want : V → Bool) (limit : Nat) (result : List V) :
    List K → List V
  | [] => result
  | k :: ks =>
      match find k with
      | none => collect find want limit result ks
      | some v =>
          if want v then
            if limit ≤ result.length + 1 then result ++ [v]
            else collect find want limit (result ++ [v]) ks
          else collect find want limit result ks

omit [DecidableEq K] in
theorem collect_eq {find : K → Option V} {want : V → Bool} {limit : Nat} {result : List V}
    {ks : List K} (hroom : result.length < limit) :
    collect find want limit result ks =
      result ++ ((ks.filterMap find).filter want).take (limit - result.length) := by
  -- `result` is the accumulator of the walk, and there is room for at least one more entry in it.
  induction ks generalizing result with
  | nil => simp [collect]
  | cons k ks ih =>
      cases hfind : find k with
      | none => simp [collect, hfind, ih hroom]
      | some v =>
          by_cases hwant : want v = true
          · by_cases hlast : limit ≤ result.length + 1
            · have hone : limit - result.length = 1 := by omega
              simp [collect, hfind, hwant, hlast, hone]
            · have hmore : (result ++ [v]).length < limit := by
                simp
                omega
              have hcount : limit - result.length = (limit - (result.length + 1)) + 1 := by omega
              simp [collect, hfind, hwant, hlast, ih hmore, hcount]
          · simp [collect, hfind, hwant, ih hroom]

/-- Walking along the list of a store gives the newest entries that are wanted. -/
theorem Keeps.collect {entries : AList fun _ : K => V} {order : List K} {log : List V}
    (h : Keeps key cap entries order log) (want : V → Bool) {limit : Nat} (hlimit : 0 < limit) :
    collect (fun k => entries.lookup k) want limit [] order =
      ((log.take cap).filter want).take limit := by
  rw [collect_eq (by simpa using hlimit), h.filterMap_order]
  simp

end Store
end Pgaio
