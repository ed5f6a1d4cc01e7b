import Mathlib.Algebra.Ring.Int.Defs
import Pgaio.Go.Format
import Pgaio.Go.Split
import Mathlib.Data.List.Nodup

/-!
# S3 — listing a bucket

`ListObjects` goes through the objects of a bucket and folds those that lie deeper than the prefix into
directory entries.  Folding is a function of the key (`foldedDir`), and a directory folds into itself
(`foldedDir_foldedDir`), so an entry for a directory is never an entry for an object.
-/

namespace Pgaio
namespace Service

open Go

/-- `humanBytes`, the loop over the units. -/
def humanScale : Nat → Int → Int → Nat → Int × Nat
  | 0, _, div, exp => (div, exp)
  | left + 1, n, div, exp =>
      if 1024 ≤ n then humanScale left (n / 1024) (div * 1024) (exp + 1) else (div, exp)

/-- `humanBytes`; a 64-bit number has at most six units. -/
def humanBytes (b : Int) : String :=
  if b < 1024 then itoa b ++ " B"
  else
    let (div, exp) := humanScale 6 (b / 1024) 1024 0
    formatFixed 1 (Float.ofInt b / Float.ofInt div) ++ " " ++
      String.singleton ("KMGTPE".toList.getD exp 'K') ++ "B"

/-- What the client reads of an object. -/
structure ObjectInfo where
  key : String
  size : Int
  lastModified : Time
deriving DecidableEq

structure S3Object where
  key : String
  size : Int := 0
  lastModified : Time := 0
  isDir : Bool
  sizeHuman : String := ""
deriving DecidableEq

structure S3ListResponse where
  objects : List S3Object
  pre : String
  bucket : String
  totalSize : String
  totalCount : Nat
deriving DecidableEq

/-- The variables of the loop in `ListObjects`. -/
structure ListVars where
  objects : List S3Object := []
  totalSize : Int := 0
  seenDirs : List String := []
deriving DecidableEq

/-- The key up to and including the first `/`. -/
def upToSlash (key : String) : Option String :=
  (splitFirst '/' key.toList).map fun (before, _) => String.ofList before ++ "/"

/-- `dirKey`, for an object that lies in a directory. -/
def foldedDir (pre delimiter key : String) : Option String :=
  if delimiter ≠ "" ∧ pre ≠ "" then
    let relKey := trimPrefix key pre
    (upToSlash relKey).map fun dir => pre ++ dir
  else if delimiter ≠ "" ∧ pre = "" then upToSlash key
  else none

def dirEntry (dirKey : String) : S3Object where
  key := dirKey
  isDir := true

def ObjectInfo.entry (obj : ObjectInfo) : S3Object where
  key := obj.key
  size := obj.size
  lastModified := obj.lastModified
  isDir := false
  sizeHuman := humanBytes obj.size

/-- One object of the listing. -/
def listStep (pre delimiter : String) (vars : ListVars) (obj : ObjectInfo) : ListVars :=
  match foldedDir pre delimiter obj.key with
  | some dirKey =>
      if dirKey ∈ vars.seenDirs then vars
      else
        { vars with
          seenDirs := dirKey :: vars.seenDirs
          objects := vars.objects ++ [dirEntry dirKey] }
  | none =>
      -- The prefix itself is skipped.
      if obj.key = pre then vars
      else
        { vars with
          totalSize := wrapInt64 (vars.totalSize + obj.size)
          objects := vars.objects ++ [obj.entry] }

/-- The loop of `ListObjects` over what the client sends, an object or an error. -/
def listLoop (pre delimiter : String) : ListVars → List (Except String ObjectInfo) → Except String ListVars
  | vars, [] => .ok vars
  | _, .error err :: _ => .error ("failed to list objects: " ++ err)
  | vars, .ok obj :: rest => listLoop pre delimiter (listStep pre delimiter vars obj) rest

def listObjects (bucket pre delimiter : String) (sent : List (Except String ObjectInfo)) :
    Except String S3ListResponse :=
  (listLoop pre delimiter {} sent).map fun vars =>
    { objects := vars.objects
      pre := pre
      bucket := bucket
      totalSize := humanBytes vars.totalSize
      totalCount := vars.objects.length }

/-! ## Folding a key -/

theorem upToSlash_eq_some {key dir : String} :
    upToSlash key = some dir ↔
      ∃ before after : String, key = before ++ "/" ++ after ∧ '/' ∉ before.toList ∧ dir = before ++ "/" := by
  unfold upToSlash
  constructor
  · intro h
    obtain ⟨⟨before, after⟩, hsplit, rfl⟩ := Option.map_eq_some_iff.1 h
    obtain ⟨hkey, hnot⟩ := splitFirst_eq_some.1 hsplit
    refine ⟨String.ofList before, String.ofList after, String.toList_inj.1 ?_, by simpa using hnot, rfl⟩
    rw [hkey]
    simp
  · rintro ⟨before, after, rfl, hnot, rfl⟩
    have hsplit : splitFirst '/' (before ++ "/" ++ after).toList = some (before.toList, after.toList) :=
      splitFirst_eq_some.2 ⟨by simp, hnot⟩
    rw [hsplit]
    simp

theorem upToSlash_eq_none {key : String} : upToSlash key = none ↔ '/' ∉ key.toList := by
  rw [upToSlash, Option.map_eq_none_iff, splitFirst_eq_none]

/-- A directory is the directory of its own name. -/
theorem upToSlash_upToSlash {key dir : String} (h : upToSlash key = some dir) :
    upToSlash dir = some dir := by
  obtain ⟨before, after, -, hnot, rfl⟩ := upToSlash_eq_some.1 h
  exact upToSlash_eq_some.2 ⟨before, "", by simp, hnot, rfl⟩

/-- With a delimiter both branches fold what follows the prefix. -/
theorem foldedDir_append (pre rest : String) :
    foldedDir pre "/" (pre ++ rest) = (upToSlash rest).map fun dir => pre ++ dir := by
  unfold foldedDir
  by_cases hpre : pre = ""
  · subst hpre
    simp
  · rw [if_pos ⟨by decide, hpre⟩, trimPrefix_append]

theorem foldedDir_foldedDir {pre key dir : String} (hkey : hasPrefix key pre = true)
    (h : foldedDir pre "/" key = some dir) : foldedDir pre "/" dir = some dir := by
  obtain ⟨rest, rfl⟩ := eq_append_of_hasPrefix hkey
  rw [foldedDir_append] at h
  obtain ⟨inner, hinner, rfl⟩ := Option.map_eq_some_iff.1 h
  rw [foldedDir_append, upToSlash_upToSlash hinner, Option.map_some]

theorem foldedDir_self (pre : String) : foldedDir pre "/" pre = none := by
  have hempty := foldedDir_append pre ""
  rwa [String.append_empty, upToSlash_eq_none.2 (by simp), Option.map_none] at hempty

/-! ## Entries -/

/-- The entry that an object leaves in the listing. -/
def entryOf (pre : String) (obj : ObjectInfo) : S3Object :=
  match foldedDir pre "/" obj.key with
  | some dirKey => dirEntry dirKey
  | none => obj.entry

/-- The object itself when no `/` follows the prefix, and otherwise its directory. -/
def Represents (pre : String) (e : S3Object) (obj : ObjectInfo) : Prop :=
  ∃ rest, obj.key = pre ++ rest ∧
    ('/' ∉ rest.toList ∧ e = obj.entry ∨
      ∃ before after : String, rest = before ++ "/" ++ after ∧ '/' ∉ before.toList ∧
        e = dirEntry (pre ++ before ++ "/"))

theorem represents_iff {pre : String} {e : S3Object} {obj : ObjectInfo}
    (hkey : hasPrefix obj.key pre = true) : Represents pre e obj ↔ e = entryOf pre obj := by
  obtain ⟨rest, hrest⟩ := eq_append_of_hasPrefix hkey
  have hfold : foldedDir pre "/" obj.key = (upToSlash rest).map fun dir => pre ++ dir := by
    rw [hrest, foldedDir_append]
  have honly : Represents pre e obj ↔
      ('/' ∉ rest.toList ∧ e = obj.entry ∨
        ∃ before after : String, rest = before ++ "/" ++ after ∧ '/' ∉ before.toList ∧
          e = dirEntry (pre ++ before ++ "/")) := by
    unfold Represents
    simp only [hrest, String.append_right_inj, exists_eq_left']
  rw [honly, entryOf, hfold]
  cases hslash : upToSlash rest with
  | none =>
      have hnot := upToSlash_eq_none.1 hslash
      constructor
      · rintro (⟨-, rfl⟩ | ⟨before, after, rfl, -⟩)
        · rfl
        · exact absurd (by simp) hnot
      · rintro rfl
        exact Or.inl ⟨hnot, rfl⟩
  | some dir =>
      obtain ⟨before, after, hbefore, hnot, rfl⟩ := upToSlash_eq_some.1 hslash
      constructor
      · rintro (⟨hno, -⟩ | ⟨before', after', hbefore', hnot', rfl⟩)
        · rw [upToSlash_eq_none.2 hno] at hslash
          cases hslash
        · -- The first `/` is the same one.
          have hsame := upToSlash_eq_some.2 ⟨before', after', hbefore', hnot', rfl⟩
          rw [hslash, Option.some.injEq] at hsame
          simp only [Option.map_some, hsame, String.append_assoc]
      · rintro rfl
        exact Or.inr ⟨before, after, hbefore, hnot, by simp only [Option.map_some, String.append_assoc]⟩

/-- Two objects with one entry key are the same object or lie in the same directory. -/
theorem entryOf_key_eq {pre : String} {obj obj' : ObjectInfo} (hkey : hasPrefix obj.key pre = true)
    (hkey' : hasPrefix obj'.key pre = true) (h : (entryOf pre obj).key = (entryOf pre obj').key) :
    obj.key = obj'.key ∨ ∃ dirKey, foldedDir pre "/" obj.key = some dirKey ∧
      foldedDir pre "/" obj'.key = some dirKey := by
  unfold entryOf at h
  cases hdir : foldedDir pre "/" obj.key with
  | none =>
      cases hdir' : foldedDir pre "/" obj'.key with
      | none =>
          rw [hdir, hdir'] at h
          exact Or.inl h
      | some dirKey' =>
          rw [hdir, hdir'] at h
          have hagain := foldedDir_foldedDir hkey' hdir'
          have hsame : obj.key = dirKey' := h
          rw [← hsame, hdir] at hagain
          cases hagain
  | some dirKey =>
      cases hdir' : foldedDir pre "/" obj'.key with
      | none =>
          -- A directory folds into itself, so it is not a key that stays as it is.
          rw [hdir, hdir'] at h
          have hagain := foldedDir_foldedDir hkey hdir
          have hsame : dirKey = obj'.key := h
          rw [hsame, hdir'] at hagain
          cases hagain
      | some dirKey' =>
          rw [hdir, hdir'] at h
          have hsame : dirKey = dirKey' := h
          exact Or.inr ⟨dirKey, rfl, by rw [hsame]⟩

/-! ## The loop -/

/-- The sizes of the entries that are objects. -/
def objectSizes (objects : List S3Object) : Int :=
  ((objects.filter fun e => !e.isDir).map S3Object.size).sum

/-- What holds after the objects `done`. -/
structure ListInv (pre : String) (done : List ObjectInfo) (vars : ListVars) : Prop where
  keys : (vars.objects.map S3Object.key).Nodup
  dirs : ∀ dirKey, dirKey ∈ vars.seenDirs ↔ dirEntry dirKey ∈ vars.objects
  entries : ∀ e, e ∈ vars.objects ↔ ∃ obj ∈ done, obj.key ≠ pre ∧ e = entryOf pre obj
  total : vars.totalSize = wrapInt64 (objectSizes vars.objects)

theorem objectSizes_append (objects : List S3Object) (e : S3Object) :
    objectSizes (objects ++ [e]) = objectSizes objects + if e.isDir then 0 else e.size := by
  unfold objectSizes
  cases hdir : e.isDir with
  | true => simp [hdir]
  | false => simp [hdir]

theorem wrapInt64_add (a b : Int) : wrapInt64 (wrapInt64 a + b) = wrapInt64 (a + b) :=
  Int.bmod_add_bmod

namespace ListInv

variable {pre : String} {done : List ObjectInfo} {vars : ListVars} {obj : ObjectInfo}

/-- An object that is not folded into a known directory has a new entry. -/
theorem entryOf_key_notMem (h : ListInv pre done vars)
    (hdone : ∀ o ∈ done, hasPrefix o.key pre = true) (hobj : hasPrefix obj.key pre = true)
    (hnew : obj.key ∉ done.map ObjectInfo.key)
    (hseen : ∀ dirKey, foldedDir pre "/" obj.key = some dirKey → dirKey ∉ vars.seenDirs) :
    (entryOf pre obj).key ∉ vars.objects.map S3Object.key := by
  intro hmem
  obtain ⟨e, he, hkey⟩ := List.mem_map.1 hmem
  obtain ⟨obj', hobj', -, rfl⟩ := (h.entries e).1 he
  rcases entryOf_key_eq (hdone obj' hobj') hobj hkey with heq | ⟨dirKey, hdir', hdir⟩
  · exact hnew (List.mem_map.2 ⟨obj', hobj', heq⟩)
  · rw [entryOf, hdir'] at he
    exact hseen dirKey hdir ((h.dirs dirKey).2 he)

/-- An object that has no entry, or one that is there already. -/
theorem skip (h : ListInv pre done vars) (hobj : obj.key = pre ∨ entryOf pre obj ∈ vars.objects) :
    ListInv pre (done ++ [obj]) vars := by
  refine ⟨h.keys, h.dirs, fun e => ?_, h.total⟩
  rw [h.entries e]
  constructor
  · rintro ⟨o, ho, hne, heq⟩
    exact ⟨o, List.mem_append_left _ ho, hne, heq⟩
  · rintro ⟨o, ho, hne, heq⟩
    rcases List.mem_append.1 ho with hmem | hmem
    · exact ⟨o, hmem, hne, heq⟩
    · obtain rfl := List.mem_singleton.1 hmem
      rcases hobj with hkey | hlisted
      · exact absurd hkey hne
      · rw [heq]
        exact (h.entries _).1 hlisted

/-- An object with a new entry. -/
theorem append (h : ListInv pre done vars) {e : S3Object} {totalSize : Int} {seenDirs : List String}
    (hkey : obj.key ≠ pre) (he : entryOf pre obj = e) (hnew : e.key ∉ vars.objects.map S3Object.key)
    (hdirs : ∀ dirKey, dirKey ∈ seenDirs ↔ dirEntry dirKey ∈ vars.objects ∨ dirEntry dirKey = e)
    (htotal : totalSize = wrapInt64 (objectSizes (vars.objects ++ [e]))) :
    ListInv pre (done ++ [obj])
      { objects := vars.objects ++ [e], totalSize := totalSize, seenDirs := seenDirs } := by
  refine ⟨?_, fun dirKey => ?_, fun e' => ?_, htotal⟩
  · rw [List.map_append, List.map_singleton, ← List.concat_eq_append]
    exact List.Nodup.concat hnew h.keys
  · rw [List.mem_append, List.mem_singleton]
    exact hdirs dirKey
  · rw [List.mem_append, List.mem_singleton, h.entries e']
    constructor
    · rintro (⟨o, ho, hne, heq⟩ | heq)
      · exact ⟨o, List.mem_append_left _ ho, hne, heq⟩
      · exact ⟨obj, by simp, hkey, heq.trans he.symm⟩
    · rintro ⟨o, ho, hne, heq⟩
      rcases List.mem_append.1 ho with hmem | hmem
      · exact Or.inl ⟨o, hmem, hne, heq⟩
      · obtain rfl := List.mem_singleton.1 hmem
        exact Or.inr (heq.trans he)

theorem step (h : ListInv pre done vars) (hdone : ∀ o ∈ done, hasPrefix o.key pre = true)
    (hobj : hasPrefix obj.key pre = true) (hnew : obj.key ∉ done.map ObjectInfo.key) :
    ListInv pre (done ++ [obj]) (listStep pre "/" vars obj) := by
  have hfresh := h.entryOf_key_notMem hdone hobj hnew
  unfold listStep
  cases hdir : foldedDir pre "/" obj.key with
  | some dirKey =>
      have hentry : entryOf pre obj = dirEntry dirKey := by
        rw [entryOf, hdir]
      by_cases hseen : dirKey ∈ vars.seenDirs
      · -- The directory is listed already.
        simp only [if_pos hseen]
        refine h.skip (Or.inr ?_)
        rw [hentry]
        exact (h.dirs dirKey).1 hseen
      · -- The first object of its directory adds the entry.
        simp only [if_neg hseen]
        have hkey : obj.key ≠ pre := by
          rintro heq
          rw [heq, foldedDir_self] at hdir
          cases hdir
        have hnotMem := hfresh fun d hd => by
          obtain rfl := Option.some.inj (hdir.symm.trans hd)
          exact hseen
        rw [hentry] at hnotMem
        refine h.append hkey hentry hnotMem (fun d => ?_) ?_
        · rw [List.mem_cons, h.dirs d, or_comm]
          exact or_congr Iff.rfl ⟨fun heq => congrArg dirEntry heq, congrArg S3Object.key⟩
        · rw [objectSizes_append]
          simpa [dirEntry] using h.total
  | none =>
      by_cases hkey : obj.key = pre
      · -- The prefix itself is skipped.
        simp only [if_pos hkey]
        exact h.skip (Or.inl hkey)
      · simp only [if_neg hkey]
        have hentry : entryOf pre obj = obj.entry := by
          rw [entryOf, hdir]
        have hnotMem := hfresh fun d hd => by
          rw [hdir] at hd
          cases hd
        rw [hentry] at hnotMem
        refine h.append hkey hentry hnotMem (fun d => ?_) ?_
        · -- An entry of an object is no directory.
          rw [h.dirs d, or_iff_left]
          intro heq
          cases congrArg S3Object.isDir heq
        · rw [objectSizes_append, h.total, wrapInt64_add]
          rfl

end ListInv

/-- What holds after all objects. -/
theorem foldl_listStep_inv {pre : String} {objs done : List ObjectInfo} {vars : ListVars}
    (h : ListInv pre done vars) (hpre : ∀ o ∈ done ++ objs, hasPrefix o.key pre = true)
    (hdistinct : ((done ++ objs).map ObjectInfo.key).Nodup) :
    ListInv pre (done ++ objs) (objs.foldl (listStep pre "/") vars) := by
  induction objs generalizing done vars with
  | nil => rwa [List.append_nil]
  | cons obj objs ih =>
      have hsplit : done ++ obj :: objs = (done ++ [obj]) ++ objs := by
        simp
      rw [hsplit] at hpre hdistinct ⊢
      apply ih _ hpre hdistinct
      apply h.step
      · exact fun o ho => hpre o (by simp [ho])
      · exact hpre obj (by simp)
      · rw [List.map_append, List.map_append, List.append_assoc] at hdistinct
        intro hmem
        exact (List.nodup_append.1 hdistinct).2.2 _ hmem obj.key (by simp) rfl

theorem listLoop_ok (pre delimiter : String) (vars : ListVars) (objs : List ObjectInfo) :
    listLoop pre delimiter vars (objs.map .ok) = .ok (objs.foldl (listStep pre delimiter) vars) := by
  induction objs generalizing vars with
  | nil => rfl
  | cons obj objs ih => exact ih (listStep pre delimiter vars obj)

theorem listObjects_folds {bucket pre : String} {objs : List ObjectInfo}
    (hpre : ∀ obj ∈ objs, hasPrefix obj.key pre = true) (hdistinct : (objs.map ObjectInfo.key).Nodup) :
    ∃ response, listObjects bucket pre "/" (objs.map .ok) = .ok response ∧
      (response.objects.map S3Object.key).Nodup ∧
      (∀ obj ∈ objs, obj.key ≠ pre → ∃! e, e ∈ response.objects ∧ Represents pre e obj) ∧
      (∀ e ∈ response.objects, ∃ obj ∈ objs, obj.key ≠ pre ∧ Represents pre e obj) ∧
      response.totalCount = response.objects.length ∧
      response.totalSize = humanBytes (wrapInt64 (objectSizes response.objects)) ∧
      (IsInt64 (objectSizes response.objects) →
        response.totalSize = humanBytes (objectSizes response.objects)) := by
  have hinv : ListInv pre objs (objs.foldl (listStep pre "/") {}) :=
    @foldl_listStep_inv pre objs [] {} ⟨List.nodup_nil, by simp, by simp, rfl⟩ hpre hdistinct
  generalize hvars : objs.foldl (listStep pre "/") {} = vars at hinv
  refine ⟨_, by rw [listObjects, listLoop_ok, hvars]; rfl, hinv.keys, fun obj hobj hne => ?_,
    fun e he => ?_, rfl, ?_, fun hfits => ?_⟩
  · refine ⟨entryOf pre obj, ⟨(hinv.entries _).2 ⟨obj, hobj, hne, rfl⟩, ?_⟩, fun e he => ?_⟩
    · exact (represents_iff (hpre obj hobj)).2 rfl
    · exact (represents_iff (hpre obj hobj)).1 he.2
  · obtain ⟨obj, hobj, hne, heq⟩ := (hinv.entries e).1 he
    exact ⟨obj, hobj, hne, (represents_iff (hpre obj hobj)).2 heq⟩
  · dsimp only
    rw [hinv.total]
  · dsimp only at hfits ⊢
    rw [hinv.total, wrapInt64_eq_iff.2 hfits]

/-- A marker for the prefix, an object and two objects of one directory. -/
def walObjects : List ObjectInfo :=
  [⟨"wal/", 0, 0⟩, ⟨"wal/b/2", 4, 0⟩, ⟨"wal/a", 2, 0⟩, ⟨"wal/b/1", 8, 0⟩]

theorem listObjects_folds_walObjects :
    ∃ response, listObjects "backups" "wal/" "/" (walObjects.map .ok) = .ok response ∧
      response.totalSize = humanBytes (wrapInt64 (objectSizes response.objects)) := by
  obtain ⟨response, hresponse, -, -, -, -, htotal, -⟩ :=
    @listObjects_folds "backups" "wal/" walObjects
      (List.forall_iff_forall_mem.1 (by decide)) (by decide)
  exact ⟨response, hresponse, htotal⟩

/-- Two objects of 4 EiB each have no total in 64 bits. -/
theorem listLoop_total_wraps :
    ¬ ∀ (pre : String) (objs : List ObjectInfo) (vars : ListVars),
      (∀ obj ∈ objs, hasPrefix obj.key pre = true ∧ IsInt64 obj.size) →
      (objs.map ObjectInfo.key).Nodup →
      listLoop pre "/" {} (objs.map .ok) = .ok vars →
      vars.totalSize = objectSizes vars.objects := by
  intro h
  have hwrapped := h "" [⟨"a", 2 ^ 62, 0⟩, ⟨"b", 2 ^ 62, 0⟩] _
    (List.forall_iff_forall_mem.1 (by decide)) (by decide) (listLoop_ok _ _ _ _)
  revert hwrapped
  decide

end Service
end Pgaio
