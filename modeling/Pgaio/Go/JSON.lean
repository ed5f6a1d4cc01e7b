import Mathlib.Data.Finmap
import Mathlib.Data.Finset.Sort
import Mathlib.Data.String.Basic
import Pgaio.Go.Time

/-!
# JSON — `encoding/json` on documents

A document is what a JSON text says; the text itself is not modelled, and no object of a document
names a member twice.  A `Codec` is a Go type as the package sees it.  Decoding always works on a
value that is there already:

* null leaves a number, a string, a truth value or a struct as it is, and makes a slice or a map nil;
* the members of an object that are no field of the struct are ignored, a field that the object does
  not name keeps its value;
* the elements of an array are decoded over the elements of the slice;
* the members of an object are added to a map.

A value of the wrong type leaves its place as it is and decoding goes on; the first such error is
returned in the end.

`Restores c base x` says that decoding the document of `x` over `base` gives back `x`.
-/

namespace Pgaio
namespace Go

inductive JSON where
  | null
  | bool (b : Bool)
  /-- A number without a fraction and an exponent. -/
  | int (n : Int)
  /-- Any other number. -/
  | real (literal : String)
  | str (s : String)
  | arr (elements : List JSON)
  | obj (members : List (String × JSON))

/-- What an error says about the value. -/
def JSON.kind : JSON → String
  | .null => "null"
  | .bool _ => "bool"
  | .int _ => "number"
  | .real _ => "number"
  | .str _ => "string"
  | .arr _ => "array"
  | .obj _ => "object"

/-- `json.UnmarshalTypeError`: the innermost struct around the value and the path to it. -/
structure TypeError where
  value : String
  type : String
  struct : String := ""
  field : List String := []
  deriving DecidableEq, Repr

/-- `Error()`. -/
def TypeError.text (e : TypeError) : String :=
  "json: cannot unmarshal " ++ e.value ++
    (if e.struct = "" ∧ e.field = [] then " into Go value of type "
      else " into Go struct field " ++ e.struct ++ "." ++ String.intercalate "." e.field ++
        " of type ") ++ e.type

/-- The error has passed a field of the struct `name`. -/
def TypeError.inside (name : String) (e : TypeError) : TypeError :=
  { e with struct := if e.struct = "" then name else e.struct }

abbrev Decoded (α : Type) := α × Option TypeError

structure Codec (α : Type) where
  type : String
  zero : α
  encode : α → JSON
  decode : α → JSON → Decoded α

abbrev StringMap (β : Type) := Finmap fun _ : String => β

/-- The document of `x`, decoded over `base`, is `x` again. -/
def Codec.Restores {α : Type} (c : Codec α) (base x : α) : Prop :=
  c.decode base (c.encode x) = (x, none)

namespace Codec

variable {α β σ : Type}

/-- A value of the wrong type. -/
def mismatch (type : String) (base : α) (v : JSON) : Decoded α :=
  (base, some { value := v.kind, type := type })

/-! ## Basic types -/

def bool : Codec Bool where
  type := "bool"
  zero := false
  encode := .bool
  decode
    | base, .null => (base, none)
    | _, .bool b => (b, none)
    | base, v => mismatch "bool" base v

def string : Codec String where
  type := "string"
  zero := ""
  encode := .str
  decode
    | base, .null => (base, none)
    | _, .str s => (s, none)
    | base, v => mismatch "string" base v

def int : Codec Int where
  type := "int"
  zero := 0
  encode := .int
  decode
    | base, .null => (base, none)
    | base, .int n =>
        if IsInt64 n then (n, none)
        else (base, some { value := "number " ++ itoa n, type := "int" })
    | base, .real literal => (base, some { value := "number " ++ literal, type := "int" })
    | base, v => mismatch "int" base v

theorem int_restores (base : Int) {x : Int} (hx : IsInt64 x) : int.Restores base x := by
  unfold Restores
  exact if_pos hx

/-! ## Structs -/

end Codec

structure Field (σ : Type) where
  name : String
  encode : σ → JSON
  decode : σ → JSON → Decoded σ
  /-- The first struct with this field of the second one. -/
  copy : σ → σ → σ

/-- The letters that `foldName` does not distinguish, for names in ASCII: the long s and the Kelvin sign
are folded too. -/
def foldRune (c : Char) : Char :=
  if c = '\u017f' then 'S' else if c = '\u212a' then 'K' else c.toUpper

def foldName (name : String) : List Char :=
  name.toList.map foldRune

namespace Field

variable {α σ : Type} {fields : List (Field σ)} {f : Field σ} {s x : σ}

/-- The field `name` of a struct, of the type that `c` describes. -/
def of (name : String) (c : Codec α) (get : σ → α) (set : σ → α → σ) : Field σ where
  name := name
  encode s := c.encode (get s)
  decode s v :=
    let (value, err) := c.decode (get s) v
    (set s value, err.map fun e => { e with field := name :: e.field })
  copy s x := set s (get x)

/-- The field of a member: by its name, else by its name in other letters. -/
def lookup (fields : List (Field σ)) (key : String) : Option (Field σ) :=
  (fields.find? fun f => f.name = key) <|>
    fields.find? fun f => foldName f.name = foldName key

/-- One member of an object; the first error stays. -/
def store (fields : List (Field σ)) (acc : Decoded σ) (member : String × JSON) : Decoded σ :=
  match lookup fields member.1 with
  | none => acc
  | some f =>
      let (s, err) := f.decode acc.1 member.2
      (s, acc.2 <|> err)

/-- Storing what the document of `x` says about the field copies the field. -/
def Restores (f : Field σ) (s x : σ) : Prop :=
  f.decode s (f.encode x) = (f.copy s x, none)

theorem of_restores {name : String} {c : Codec α} {get : σ → α} {set : σ → α → σ}
    (h : c.Restores (get s) (get x)) : (of name c get set).Restores s x := by
  unfold Codec.Restores at h
  simp [Restores, of, h]

theorem lookup_self (hdistinct : (fields.map name).Nodup) (hf : f ∈ fields) :
    lookup fields f.name = some f := by
  have hfind : (fields.find? fun g => g.name = f.name) = some f := by
    induction fields with
    | nil => cases hf
    | cons g fields ih =>
        rw [List.map_cons, List.nodup_cons] at hdistinct
        rcases List.mem_cons.1 hf with rfl | hrest
        · simp
        · have hne : g.name ≠ f.name := by
            intro heq
            exact hdistinct.1 (heq ▸ List.mem_map_of_mem hrest)
          simpa [hne] using ih hdistinct.2 hrest
  simp [lookup, hfind]

theorem mem_of_lookup {key : String} (h : lookup fields key = some f) : f ∈ fields := by
  unfold lookup at h
  cases hfind : fields.find? fun g => g.name = key with
  | some g =>
      have hg : g = f := by simpa [hfind] using h
      exact hg ▸ List.mem_of_find?_eq_some hfind
  | none =>
      have hfolded : (fields.find? fun g => foldName g.name = foldName key) = some f := by
        simpa [hfind] using h
      exact List.mem_of_find?_eq_some hfolded

/-- Storing one field after the other takes `s` to `x`. -/
inductive RestoreAll : List (Field σ) → σ → σ → Prop where
  | done {s x : σ} : s = x → RestoreAll [] s x
  | next {f : Field σ} {fields : List (Field σ)} {s x : σ} :
      f.Restores s x → RestoreAll fields (f.copy s x) x → RestoreAll (f :: fields) s x

theorem foldl_store {part : List (Field σ)} (hdistinct : (fields.map name).Nodup)
    (hpart : ∀ f ∈ part, f ∈ fields) (h : RestoreAll part s x) :
    (part.map fun f => (f.name, f.encode x)).foldl (store fields) (s, none) = (x, none) := by
  induction h with
  | done heq => rw [heq]; rfl
  | @next f part s x hf _ ih =>
      have hlookup : lookup fields f.name = some f :=
        lookup_self hdistinct (hpart f List.mem_cons_self)
      have hstore : store fields (s, none) (f.name, f.encode x) = (f.copy s x, none) := by
        unfold Restores at hf
        simp [store, hlookup, hf]
      rw [List.map_cons, List.foldl_cons, hstore]
      exact ih fun g hg => hpart g (List.mem_cons_of_mem f hg)

end Field

namespace Codec

variable {α β σ : Type}

def struct (pkg name : String) (zero : σ) (fields : List (Field σ)) : Codec σ where
  type := pkg ++ "." ++ name
  zero := zero
  encode s := .obj (fields.map fun f => (f.name, f.encode s))
  decode
    | base, .null => (base, none)
    | base, .obj members =>
        let (s, err) := members.foldl (Field.store fields) (base, none)
        (s, err.map (TypeError.inside name))
    | base, v => mismatch (pkg ++ "." ++ name) base v

theorem struct_restores {pkg name : String} {zero base x : σ} {fields : List (Field σ)}
    (hdistinct : (fields.map Field.name).Nodup) (h : Field.RestoreAll fields base x) :
    (struct pkg name zero fields).Restores base x := by
  have hfold := Field.foldl_store hdistinct (fun _ hf => hf) h
  simp [Restores, struct, hfold]

/-! ## Slices -/

/-- The elements of an array over the elements that are there; further ones start from zero. -/
def decodeElements (c : Codec α) : List α → List JSON → Decoded (List α)
  | _, [] => ([], none)
  | bases, v :: vs =>
      let (x, err) := c.decode (bases.head?.getD c.zero) v
      let (xs, errs) := decodeElements c bases.tail vs
      (x :: xs, err <|> errs)

/-- A slice; `none` is nil. -/
def slice (c : Codec α) : Codec (Option (List α)) where
  type := "[]" ++ c.type
  zero := none
  encode
    | none => .null
    | some xs => .arr (xs.map c.encode)
  decode
    | _, .null => (none, none)
    | base, .arr vs =>
        let (xs, err) := decodeElements c (base.getD []) vs
        (some xs, err)
    | base, v => mismatch ("[]" ++ c.type) base v

theorem decodeElements_restores {c : Codec α} {xs : List α}
    (h : ∀ x ∈ xs, ∀ base, c.Restores base x) (bases : List α) :
    decodeElements c bases (xs.map c.encode) = (xs, none) := by
  induction xs generalizing bases with
  | nil => rfl
  | cons x xs ih =>
      have hhead := h x List.mem_cons_self (bases.head?.getD c.zero)
      have htail := ih (fun y hy => h y (List.mem_cons_of_mem x hy)) bases.tail
      unfold Restores at hhead
      simp [decodeElements, hhead, htail]

/-- Whatever was in the slice, nothing of it is left. -/
theorem slice_restores {c : Codec α} {base x : Option (List α)}
    (h : ∀ y ∈ x.getD [], ∀ base, c.Restores base y) : (slice c).Restores base x := by
  cases x with
  | none => rfl
  | some xs =>
      have helements : decodeElements c (base.getD []) (xs.map c.encode) = (xs, none) :=
        decodeElements_restores h (base.getD [])
      simp [Restores, slice, helements]

/-! ## Maps -/

/-- One member of an object, added to a map. -/
def insertMember (c : Codec β) (acc : Decoded (StringMap β)) (member : String × JSON) :
    Decoded (StringMap β) :=
  let (value, err) := c.decode c.zero member.2
  (acc.1.insert member.1 value, acc.2 <|> err)

/-- The member of a key. -/
def member? (c : Codec β) (m : StringMap β) (key : String) : Option (String × JSON) :=
  (m.lookup key).map fun value => (key, c.encode value)

/-- A map; `none` is nil.  The document lists its keys in their order. -/
def mapOf (c : Codec β) : Codec (Option (StringMap β)) where
  type := "map[string]" ++ c.type
  zero := none
  encode
    | none => .null
    | some m => .obj ((m.keys.sort).filterMap (member? c m))
  decode
    | _, .null => (none, none)
    | base, .obj members =>
        let (m, err) := members.foldl (insertMember c) (base.getD ∅, none)
        (some m, err)
    | base, v => mismatch ("map[string]" ++ c.type) base v

/-- The entries of `m` under `keys` take the place of those of `base`. -/
theorem foldl_insertMember {c : Codec β} (h : ∀ y, c.Restores c.zero y) (m : StringMap β)
    (keys : List String) (base : StringMap β) :
    ∃ m', (keys.filterMap (member? c m)).foldl (insertMember c) (base, none) = (m', none) ∧
      ∀ k, m'.lookup k = if k ∈ keys ∧ k ∈ m then m.lookup k else base.lookup k := by
  induction keys generalizing base with
  | nil => exact ⟨base, rfl, by simp⟩
  | cons key keys ih =>
      cases hkey : m.lookup key with
      | none =>
          obtain ⟨m', hfold, hlookup⟩ := ih base
          refine ⟨m', by simpa [member?, hkey] using hfold, ?_⟩
          have habsent : key ∉ m := Finmap.lookup_eq_none.1 hkey
          intro k
          rw [hlookup k]
          by_cases hk : k = key
          · subst hk
            simp [habsent]
          · simp [hk]
      | some value =>
          have hpresent : key ∈ m := Finmap.mem_of_lookup_eq_some hkey
          -- A value that was encoded is decoded to itself, so its member replaces the old one.
          have hinsert : insertMember c (base, none) (key, c.encode value) =
              (base.insert key value, none) := by
            have hvalue := h value
            unfold Restores at hvalue
            simp [insertMember, hvalue]
          obtain ⟨m', hfold, hlookup⟩ := ih (base.insert key value)
          refine ⟨m', by simpa [member?, hkey, hinsert] using hfold, ?_⟩
          intro k
          rw [hlookup k]
          by_cases hk : k = key
          · subst hk
            by_cases hmem : k ∈ keys
            · simp [hmem, hpresent]
            · simp [hmem, hpresent, hkey]
          · simp [hk, Finmap.lookup_insert_of_ne]

/-- A key that only the map before had is the one thing that could be left of it. -/
theorem mapOf_restores {c : Codec β} {base x : Option (StringMap β)}
    (h : ∀ y, c.Restores c.zero y)
    (hkeys : ∀ m, x = some m → ∀ k, k ∈ base.getD ∅ → k ∈ m) : (mapOf c).Restores base x := by
  cases x with
  | none => rfl
  | some m =>
      obtain ⟨m', hfold, hlookup⟩ := foldl_insertMember h m m.keys.sort (base.getD ∅)
      have hm' : m' = m := by
        apply Finmap.ext_lookup
        intro k
        rw [hlookup k]
        by_cases hk : k ∈ m
        · simp [hk, Finmap.mem_keys]
        · have hbase : k ∉ base.getD ∅ := fun hbase => hk (hkeys m rfl k hbase)
          simp [hk, Finmap.lookup_eq_none.2 hbase, Finmap.lookup_eq_none.2 hk]
      simp [Restores, mapOf, hfold, hm']

end Codec

/-! ## What decoding keeps -/

/-- Whatever the document says, decoding leads from values with `P` to values with `P`. -/
def Codec.Keeps {α : Type} (c : Codec α) (P : α → Prop) : Prop :=
  ∀ (base : α) (v : JSON), P base → P (c.decode base v).1

def Field.Keeps {σ : Type} (f : Field σ) (P : σ → Prop) : Prop :=
  ∀ (s : σ) (v : JSON), P s → P (f.decode s v).1

section Keeps

variable {α σ : Type} {P : σ → Prop} {Q : α → Prop} {c : Codec α}

theorem Codec.int_keeps : Codec.int.Keeps IsInt64 := by
  intro base v hbase
  cases v with
  | int n =>
      by_cases hn : IsInt64 n
      · simp [Codec.int, hn]
      · simpa [Codec.int, hn] using hbase
  | _ => exact hbase

theorem Field.of_keeps {name : String} {get : σ → α} {set : σ → α → σ} (h : c.Keeps Q)
    (hget : ∀ s, P s → Q (get s)) (hset : ∀ s x, P s → Q x → P (set s x)) :
    (Field.of name c get set).Keeps P := by
  intro s v hs
  exact hset s _ hs (h (get s) v (hget s hs))

/-- A field that `P` says nothing about. -/
theorem Field.of_keeps_free {name : String} {get : σ → α} {set : σ → α → σ}
    (hset : ∀ s x, P s → P (set s x)) : (Field.of name c get set).Keeps P :=
  fun s _ hs => hset s _ hs

theorem Field.foldl_store_keeps {fields : List (Field σ)} (h : ∀ f ∈ fields, f.Keeps P)
    (members : List (String × JSON)) (acc : Decoded σ) (hacc : P acc.1) :
    P (members.foldl (Field.store fields) acc).1 := by
  induction members generalizing acc with
  | nil => exact hacc
  | cons member members ih =>
      apply ih
      unfold Field.store
      cases hlookup : Field.lookup fields member.1 with
      | none => exact hacc
      | some f =>
          exact h f (mem_of_lookup hlookup) acc.1 member.2 hacc

theorem Codec.struct_keeps {pkg name : String} {zero : σ} {fields : List (Field σ)}
    (h : ∀ f ∈ fields, f.Keeps P) : (Codec.struct pkg name zero fields).Keeps P := by
  intro base v hbase
  cases v with
  | obj members => exact Field.foldl_store_keeps h members (base, none) hbase
  | _ => exact hbase

theorem Codec.decodeElements_keeps (h : c.Keeps Q) (hzero : Q c.zero) (vs : List JSON)
    (bases : List α) (hbases : ∀ x ∈ bases, Q x) : ∀ x ∈ (c.decodeElements bases vs).1, Q x := by
  induction vs generalizing bases with
  | nil => simp [decodeElements]
  | cons v vs ih =>
      intro x hx
      rcases List.mem_cons.1 hx with rfl | hrest
      · -- The element that was there, or zero.
        apply h
        cases bases with
        | nil => exact hzero
        | cons y ys => exact hbases y List.mem_cons_self
      · exact ih bases.tail (fun y hy => hbases y (List.mem_of_mem_tail hy)) x hrest

theorem Codec.slice_keeps (h : c.Keeps Q) (hzero : Q c.zero) :
    (Codec.slice c).Keeps fun xs => ∀ x ∈ xs.getD [], Q x := by
  intro base v hbase
  cases v with
  | null => simp [slice]
  | arr vs => exact decodeElements_keeps h hzero vs (base.getD []) hbase
  | _ => exact hbase

end Keeps

/-! ## What it says that there is no error -/

/-- If decoding the document of a value succeeds, the value has `P`. -/
def Codec.Guards {α : Type} (c : Codec α) (P : α → Prop) : Prop :=
  ∀ base x, (c.decode base (c.encode x)).2 = none → P x

def Field.Guards {σ : Type} (f : Field σ) (P : σ → Prop) : Prop :=
  ∀ s x, (f.decode s (f.encode x)).2 = none → P x

section Guards

variable {α σ : Type} {P : σ → Prop} {Q : α → Prop} {c : Codec α}

theorem Codec.int_guards : Codec.int.Guards IsInt64 := by
  intro base n h
  by_contra hn
  simp [Codec.int, hn] at h

theorem Field.of_guards {name : String} {get : σ → α} {set : σ → α → σ} (h : c.Guards Q) :
    (Field.of name c get set).Guards fun x => Q (get x) := by
  intro s x hnone
  exact h (get s) (get x) (Option.map_eq_none_iff.1 hnone)

/-- An error stays until the end. -/
theorem Field.error_of_foldl_store {fields : List (Field σ)} {members : List (String × JSON)} {acc : Decoded σ}
    (h : (members.foldl (Field.store fields) acc).2 = none) : acc.2 = none := by
  induction members generalizing acc with
  | nil => exact h
  | cons member members ih =>
      have hstore := ih h
      unfold Field.store at hstore
      cases hlookup : Field.lookup fields member.1 with
      | none => simpa [hlookup] using hstore
      | some f =>
          simp only [hlookup] at hstore
          exact ((Option.orElse_eq_none _ _).1 hstore).1

theorem Field.guards_of_foldl_store {fields part : List (Field σ)} {s x : σ}
    (hdistinct : (fields.map Field.name).Nodup) (hpart : ∀ f ∈ part, f ∈ fields)
    (h : ((part.map fun f => (f.name, f.encode x)).foldl (Field.store fields) (s, none)).2 = none) :
    ∀ f ∈ part, f.Guards P → P x := by
  induction part generalizing s with
  | nil => simp
  | cons g part ih =>
      have hlookup : Field.lookup fields g.name = some g :=
        Field.lookup_self hdistinct (hpart g List.mem_cons_self)
      have hstore : Field.store fields (s, none) (g.name, g.encode x) = g.decode s (g.encode x) := by
        simp [Field.store, hlookup]
      rw [List.map_cons, List.foldl_cons, hstore] at h
      -- The field itself has given no error, so the others start without one.
      have hhead : (g.decode s (g.encode x)).2 = none := Field.error_of_foldl_store h
      intro f hf hguards
      rcases List.mem_cons.1 hf with rfl | hrest
      · exact hguards s x hhead
      · have hpair : g.decode s (g.encode x) = ((g.decode s (g.encode x)).1, none) :=
          Prod.ext rfl hhead
        rw [hpair] at h
        exact ih (fun f hf => hpart f (List.mem_cons_of_mem g hf)) h f hrest hguards

theorem Codec.struct_guards {pkg name : String} {zero : σ} {fields : List (Field σ)} {f : Field σ}
    (hdistinct : (fields.map Field.name).Nodup) (hf : f ∈ fields) (h : f.Guards P) :
    (Codec.struct pkg name zero fields).Guards P := by
  intro base x hnone
  have hfold := Option.map_eq_none_iff.1 hnone
  exact Field.guards_of_foldl_store hdistinct (fun _ hg => hg) hfold f hf h

theorem Codec.decodeElements_guards (h : c.Guards Q) {xs : List α} (bases : List α)
    (hnone : (c.decodeElements bases (xs.map c.encode)).2 = none) : ∀ x ∈ xs, Q x := by
  induction xs generalizing bases with
  | nil => simp
  | cons y ys ih =>
      obtain ⟨hhead, htail⟩ := (Option.orElse_eq_none _ _).1 hnone
      intro x hx
      rcases List.mem_cons.1 hx with rfl | hrest
      · exact h _ _ hhead
      · exact ih bases.tail htail x hrest

theorem Codec.slice_guards (h : c.Guards Q) :
    (Codec.slice c).Guards fun xs => ∀ x ∈ xs.getD [], Q x := by
  intro base xs hnone
  cases xs with
  | none => simp
  | some xs =>
      exact Codec.decodeElements_guards h (base.getD []) hnone

end Guards

end Go
end Pgaio
