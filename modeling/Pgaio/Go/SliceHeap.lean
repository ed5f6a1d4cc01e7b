import Mathlib.Data.List.Basic

/-!
# SliceHeap — slices over their backing arrays, and pointers to elements

A slice is a header: an array, a length and a capacity.  `append` writes into the array while there
is room; when there is none it moves the elements to a new, larger array.  A pointer `&s[i]` keeps
naming the array in which the element was when it was taken, so what is written through it is seen
in the slice only as long as the slice has not moved (`contents_update_same`,
`contents_update_other`).

The capacity of a new array is left to a parameter `grow`: the language promises only that there is
room for the new element.
-/

namespace Pgaio
namespace Go

/-- The backing arrays, by number; an array keeps the places that no slice has reached yet. -/
structure SliceHeap (α : Type) where
  arrays : List (List α) := []

structure SliceHeader where
  array : Nat
  len : Nat
  cap : Nat
  deriving DecidableEq, Repr

/-- `&s[i]`. -/
structure ElemPtr where
  array : Nat
  index : Nat
  deriving DecidableEq, Repr

namespace SliceHeader

/-- The nil slice; without capacity its array is never looked at. -/
def nil : SliceHeader where
  array := 0
  len := 0
  cap := 0

def ptr (s : SliceHeader) (i : Nat) : ElemPtr where
  array := s.array
  index := i

end SliceHeader

namespace SliceHeap

variable {α : Type}

/-- The elements of the slice. -/
def contents (h : SliceHeap α) (s : SliceHeader) : List α :=
  ((h.arrays[s.array]?).getD []).take s.len

/-- Assign to the element behind a pointer what `f` makes of it. -/
def update (h : SliceHeap α) (p : ElemPtr) (f : α → α) : SliceHeap α where
  arrays := h.arrays.modify p.array fun array => array.modify p.index f

/-- `s = append(s, x)`, where `grow` gives the capacity of the next array. -/
def append [Inhabited α] (grow : Nat → Nat) (h : SliceHeap α) (s : SliceHeader) (x : α) :
    SliceHeap α × SliceHeader :=
  if s.len < s.cap then
    (h.update (s.ptr s.len) fun _ => x, { s with len := s.len + 1 })
  else
    -- The elements move; the old array stays for the pointers into it.
    let array := h.contents s ++ x :: List.replicate (grow s.cap - (s.len + 1)) default
    ( { arrays := h.arrays ++ [array] },
      { array := h.arrays.length, len := s.len + 1, cap := grow s.cap } )

/-- The array of the slice is there, with room for its capacity. -/
structure Allocated (h : SliceHeap α) (s : SliceHeader) : Prop where
  len_le : s.len ≤ s.cap
  array : s.cap ≠ 0 → ∃ array, h.arrays[s.array]? = some array ∧ array.length = s.cap

theorem allocated_nil (h : SliceHeap α) : h.Allocated SliceHeader.nil where
  len_le := Nat.le_refl 0
  array := fun hcap => absurd rfl hcap

theorem contents_nil (h : SliceHeap α) : h.contents SliceHeader.nil = [] := by
  unfold contents SliceHeader.nil
  rw [List.take_zero]

theorem length_contents {h : SliceHeap α} {s : SliceHeader} (hs : h.Allocated s) :
    (h.contents s).length = s.len := by
  unfold contents
  rw [List.length_take]
  by_cases hcap : s.cap = 0
  · have hlen := hs.len_le
    omega
  · obtain ⟨array, harray, hlength⟩ := hs.array hcap
    rw [harray, Option.getD_some, hlength]
    exact Nat.min_eq_left hs.len_le

/-! ## Writing through a pointer -/

/-- A pointer into the array of the slice writes the element that the slice shows. -/
theorem contents_update_same (h : SliceHeap α) {s : SliceHeader} {p : ElemPtr} (f : α → α)
    (hp : p.array = s.array) : (h.update p f).contents s = (h.contents s).modify p.index f := by
  unfold contents update
  dsimp only
  rw [hp, List.getElem?_modify_eq]
  cases h.arrays[s.array]? with
  | none => simp
  | some array => exact List.take_modify f p.index s.len array

/-- A pointer into another array writes nothing that the slice shows. -/
theorem contents_update_other (h : SliceHeap α) {s : SliceHeader} {p : ElemPtr} (f : α → α)
    (hp : p.array ≠ s.array) : (h.update p f).contents s = h.contents s := by
  unfold contents update
  dsimp only
  rw [List.getElem?_modify_ne _ _ hp]

theorem Allocated.update {h : SliceHeap α} {s : SliceHeader} (hs : h.Allocated s) (p : ElemPtr)
    (f : α → α) : (h.update p f).Allocated s where
  len_le := hs.len_le
  array := by
    intro hcap
    obtain ⟨array, harray, hlength⟩ := hs.array hcap
    unfold SliceHeap.update
    dsimp only
    by_cases hp : p.array = s.array
    · refine ⟨array.modify p.index f, ?_, ?_⟩
      · rw [hp, List.getElem?_modify_eq, harray]
        rfl
      · rw [List.length_modify, hlength]
    · exact ⟨array, by rw [List.getElem?_modify_ne _ _ hp, harray], hlength⟩

/-! ## Appending -/

section Append

variable [Inhabited α] {grow : Nat → Nat} {h : SliceHeap α} {s : SliceHeader}

theorem append_room (hroom : s.len < s.cap) (x : α) :
    h.append grow s x = (h.update (s.ptr s.len) fun _ => x, { s with len := s.len + 1 }) :=
  if_pos hroom

theorem append_full (hfull : ¬s.len < s.cap) (x : α) :
    h.append grow s x =
      ( { arrays := h.arrays ++
            [h.contents s ++ x :: List.replicate (grow s.cap - (s.len + 1)) default] },
        { array := h.arrays.length, len := s.len + 1, cap := grow s.cap } ) :=
  if_neg hfull

theorem len_append (x : α) : (h.append grow s x).2.len = s.len + 1 := by
  unfold append
  split
  · rfl
  · rfl

theorem array_append_room (hroom : s.len < s.cap) (x : α) :
    (h.append grow s x).2.array = s.array := by
  rw [append_room hroom]

theorem array_append_full (hfull : ¬s.len < s.cap) (x : α) :
    (h.append grow s x).2.array = h.arrays.length := by
  rw [append_full hfull]

/-- The arrays are numbered in the order in which they are made, and none goes away. -/
theorem length_arrays_append (x : α) :
    (h.append grow s x).1.arrays.length =
      if s.len < s.cap then h.arrays.length else h.arrays.length + 1 := by
  unfold append
  split
  · exact List.length_modify _ _ _
  · exact List.length_append

theorem cap_append (x : α) :
    (h.append grow s x).2.cap = if s.len < s.cap then s.cap else grow s.cap := by
  unfold append
  split
  · rfl
  · rfl

/-- Whether the elements move or not, the slice shows them and the new one. -/
theorem contents_append (hs : h.Allocated s) (x : α) :
    (h.append grow s x).1.contents (h.append grow s x).2 = h.contents s ++ [x] := by
  by_cases hroom : s.len < s.cap
  · obtain ⟨array, harray, hcap⟩ := hs.array (by omega)
    have hlt : s.len < (array.modify s.len fun _ => x).length := by
      rw [List.length_modify, hcap]
      exact hroom
    have hold : (array.take s.len).modify s.len (fun _ => x) = array.take s.len :=
      List.modify_eq_self (List.length_take_le _ _)
    rw [append_room hroom]
    unfold contents update SliceHeader.ptr
    dsimp only
    rw [List.getElem?_modify_eq, harray, Option.map_eq_map, Option.map_some, Option.getD_some,
      Option.getD_some, List.take_succ_eq_append_getElem hlt, List.take_modify, hold,
      List.getElem_modify_eq]
  · have hlength := length_contents hs
    rw [append_full hroom]
    unfold contents at hlength ⊢
    dsimp only
    rw [List.getElem?_concat_length, Option.getD_some, List.append_cons, List.take_left']
    rw [List.length_append, hlength, List.length_singleton]

/-- `grow` gives room for one more element. -/
theorem Allocated.append (hs : h.Allocated s) (hgrow : ∀ cap, cap < grow cap) (x : α) :
    (h.append grow s x).1.Allocated (h.append grow s x).2 := by
  by_cases hroom : s.len < s.cap
  · have hupdate := hs.update (s.ptr s.len) fun _ => x
    rw [append_room hroom]
    exact ⟨hroom, hupdate.array⟩
  · have hlength := length_contents hs
    have hmore := hgrow s.cap
    have hlen := hs.len_le
    rw [append_full hroom]
    refine ⟨by dsimp only; omega, fun _ => ⟨_, List.getElem?_concat_length, ?_⟩⟩
    rw [List.length_append, hlength, List.length_cons, List.length_replicate]
    dsimp only
    omega

end Append

/-! ## A slice that grows from nil -/

/-- The capacity after `n` appends to the nil slice. -/
def capAfter (grow : Nat → Nat) : Nat → Nat
  | 0 => 0
  | n + 1 => if n < capAfter grow n then capAfter grow n else grow (capAfter grow n)

/-- The index of the element whose append was, of the first `n`, the last one to move the slice. -/
def lastMove (grow : Nat → Nat) : Nat → Nat
  | 0 => 0
  | n + 1 => if n < capAfter grow n then lastMove grow n else n

theorem lastMove_le (grow : Nat → Nat) (n : Nat) : lastMove grow n ≤ n := by
  induction n with
  | zero => exact Nat.le_refl 0
  | succ n ih =>
      unfold lastMove
      split
      · exact Nat.le_succ_of_le ih
      · exact Nat.le_succ n

end SliceHeap
end Go
end Pgaio
