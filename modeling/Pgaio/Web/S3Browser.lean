import Pgaio.Service.S3
import Pgaio.Web.RowButtons
import Mathlib.Data.List.Dedup

/-!
# S3Browser — which objects of a bucket can be found

`s3.js` shows one directory at a time: it asks `ListObjects` for the entries below `currentPrefix`, hides those
without a name of their own, and writes a link for each directory and for each part of the path.  An object
can be found, and its buttons work, exactly when no part of its key is empty or special in a string literal
(`s3_browser_finds`).
-/

namespace Pgaio
namespace Web

open Go Service Text.Html Text.JavaScript

/-! ## What the storage sends -/

/-- An object, or what it is rolled up into: the common prefix up to the delimiter. -/
def rolledUp (pre : String) (obj : ObjectInfo) : ObjectInfo :=
  match upToSlash (trimPrefix obj.key pre) with
  | some dir => { key := pre ++ dir, size := 0, lastModified := 0 }
  | none => obj

/-- What the client sends for a prefix when it does not list recursively: everything below the prefix,
rolled up, and nothing twice. -/
structure Sends (stored : List ObjectInfo) (sent : String → List ObjectInfo) : Prop where
  distinct : ∀ pre, ((sent pre).map ObjectInfo.key).Nodup
  mem : ∀ pre o, o ∈ sent pre ↔ ∃ obj ∈ stored, hasPrefix obj.key pre = true ∧ o = rolledUp pre obj

/-- `S3Handler.ListObjects`. -/
def handleListObjects (bucket pre delimiter : String) (sent : List (Except String ObjectInfo)) :
    Except String S3ListResponse :=
  listObjects bucket pre (if delimiter = "" then "/" else delimiter) sent

/-! ## The page -/

/-- `text.replace(pattern, '')`. -/
def eraseFirst (pattern : List Char) : List Char → List Char
  | [] => []
  | c :: text =>
      if pattern.isPrefixOf (c :: text) then (c :: text).drop pattern.length
      else c :: eraseFirst pattern text

def shownName (currentPrefix key : String) : List Char :=
  eraseFirst currentPrefix.toList key.toList

/-- `sorted`: the entries with a name, directories first. -/
def sortedRows (currentPrefix : String) (items : List S3Object) : List S3Object :=
  let filtered := items.filter fun obj =>
    shownName currentPrefix obj.key ≠ [] && shownName currentPrefix obj.key ≠ ['/']
  filtered.filter S3Object.isDir ++ filtered.filter fun obj => !obj.isDir

/-- The rows after `loadObjects`. -/
def page (bucket : String) (sent : String → List ObjectInfo) (currentPrefix : String) : List S3Object :=
  match handleListObjects bucket currentPrefix "" ((sent currentPrefix).map .ok) with
  | .ok response => sortedRows currentPrefix response.objects
  | .error _ => []

/-- The loop of `renderBreadcrumb` over the parts that are left. -/
def crumbPaths : String → List String → List String
  | _, [] => []
  | path, p :: parts => (path ++ p ++ "/") :: crumbPaths (path ++ p ++ "/") parts

def breadcrumb (currentPrefix : String) : List String :=
  "" :: crumbPaths "" ((split '/' currentPrefix).filter fun p => p ≠ "")

/-! ## Links -/

/-- The link opens the directory that it is written for. -/
def Opens (others : References) (escapes : Escapes) (key : String) : Prop :=
  ActsOn others escapes (navigateOnclick key.toList) "S3Browser.navigate" [key.toList] ";return false"

/-- Both buttons in the row of the object are about the object. -/
def Works (others : References) (escapes : Escapes) (key : String) : Prop :=
  ActsOn others escapes (downloadOnclick key.toList) "S3Browser.download" [key.toList] "" ∧
    ActsOn others escapes (deleteOnclick key.toList) "S3Browser.deleteObj" [key.toList] ""

/-- The directories that can be opened from the root, link by link. -/
inductive Reached (others : References) (escapes : Escapes) (bucket : String)
    (sent : String → List ObjectInfo) : String → Prop where
  | root : Reached others escapes bucket sent ""
  | row {currentPrefix : String} {obj : S3Object} :
      Reached others escapes bucket sent currentPrefix → obj ∈ page bucket sent currentPrefix →
        obj.isDir = true → Opens others escapes obj.key → Reached others escapes bucket sent obj.key
  | crumb {currentPrefix pre : String} :
      Reached others escapes bucket sent currentPrefix → pre ∈ breadcrumb currentPrefix →
        Opens others escapes pre → Reached others escapes bucket sent pre

/-! ## Rows -/

variable {others : References} {escapes : Escapes} {bucket : String} {stored : List ObjectInfo}
variable {sent : String → List ObjectInfo}

theorem eraseFirst_append (pattern rest : List Char) : eraseFirst pattern (pattern ++ rest) = rest := by
  cases htext : pattern ++ rest with
  | nil =>
      rw [List.append_eq_nil_iff] at htext
      simp [htext.2, eraseFirst]
  | cons c text =>
      have hprefix : pattern.isPrefixOf (c :: text) = true := by
        rw [← htext, List.isPrefixOf_iff_prefix]
        exact List.prefix_append pattern rest
      rw [eraseFirst, if_pos hprefix, ← htext, List.drop_left]

theorem shownName_append (pre rest : String) : shownName pre (pre ++ rest) = rest.toList := by
  rw [shownName, String.toList_append, eraseFirst_append]

theorem rolledUp_append (pre rest : String) (obj : ObjectInfo) (hkey : obj.key = pre ++ rest) :
    (upToSlash rest = none ∧ rolledUp pre obj = obj) ∨
      ∃ dir, upToSlash rest = some dir ∧
        rolledUp pre obj = { key := pre ++ dir, size := 0, lastModified := 0 } := by
  unfold rolledUp
  rw [hkey, trimPrefix_append]
  cases upToSlash rest with
  | none => exact .inl ⟨rfl, rfl⟩
  | some dir => exact .inr ⟨dir, rfl, rfl⟩

/-- Rolling up changes nothing in the listing. -/
theorem entryOf_rolledUp {pre : String} {obj : ObjectInfo} (hpre : hasPrefix obj.key pre = true) :
    entryOf pre (rolledUp pre obj) = entryOf pre obj ∧ hasPrefix (rolledUp pre obj).key pre = true ∧
      ((rolledUp pre obj).key = pre ↔ obj.key = pre) := by
  obtain ⟨rest, hkey⟩ := eq_append_of_hasPrefix hpre
  rcases rolledUp_append pre rest obj hkey with ⟨-, hsame⟩ | ⟨dir, hdir, hrolled⟩
  · rw [hsame]
    exact ⟨rfl, hpre, Iff.rfl⟩
  · obtain ⟨before, after, -, -, rfl⟩ := upToSlash_eq_some.1 hdir
    have hne : rest ≠ "" := by
      rintro rfl
      rw [upToSlash_eq_none.2 (by simp)] at hdir
      cases hdir
    rw [hrolled]
    refine ⟨?_, hasPrefix_append _ _, ?_⟩
    · rw [entryOf, entryOf, foldedDir_append, upToSlash_upToSlash hdir, hkey, foldedDir_append, hdir]
      rfl
    · rw [hkey]
      exact iff_of_false (by simp) (by simpa using hne)

/-- The rows of a page, in terms of what is stored. -/
theorem mem_page (hsends : Sends stored sent) {pre : String} {e : S3Object} :
    e ∈ page bucket sent pre ↔
      (∃ obj ∈ stored, hasPrefix obj.key pre = true ∧ obj.key ≠ pre ∧ e = entryOf pre obj) ∧
        shownName pre e.key ≠ [] ∧ shownName pre e.key ≠ ['/'] := by
  have hpre : ∀ o ∈ [] ++ sent pre, hasPrefix o.key pre = true := by
    intro o ho
    obtain ⟨obj, -, hobj, rfl⟩ := (hsends.mem pre o).1 ho
    exact (entryOf_rolledUp hobj).2.1
  have hinv : ListInv pre ([] ++ sent pre) ((sent pre).foldl (listStep pre "/") {}) :=
    foldl_listStep_inv ⟨List.nodup_nil, by simp, by simp, rfl⟩ hpre (hsends.distinct pre)
  have hentries : e ∈ ((sent pre).foldl (listStep pre "/") {}).objects ↔
      ∃ obj ∈ stored, hasPrefix obj.key pre = true ∧ obj.key ≠ pre ∧ e = entryOf pre obj := by
    rw [hinv.entries, List.nil_append]
    constructor
    · rintro ⟨o, ho, hne, rfl⟩
      obtain ⟨obj, hobj, hbelow, rfl⟩ := (hsends.mem pre o).1 ho
      obtain ⟨hentry, -, hkey⟩ := entryOf_rolledUp hbelow
      exact ⟨obj, hobj, hbelow, fun heq => hne (hkey.2 heq), hentry⟩
    · rintro ⟨obj, hobj, hbelow, hne, rfl⟩
      obtain ⟨hentry, -, hkey⟩ := entryOf_rolledUp hbelow
      exact ⟨_, (hsends.mem pre _).2 ⟨obj, hobj, hbelow, rfl⟩, fun heq => hne (hkey.1 heq), hentry.symm⟩
  have hpage : page bucket sent pre =
      sortedRows pre ((sent pre).foldl (listStep pre "/") {}).objects := by
    simp [page, handleListObjects, listObjects, listLoop_ok, Except.map]
  have hrows : ∀ items, e ∈ sortedRows pre items ↔
      e ∈ items ∧ shownName pre e.key ≠ [] ∧ shownName pre e.key ≠ ['/'] := by
    intro items
    simp only [sortedRows, List.mem_append, List.mem_filter, Bool.and_eq_true, decide_eq_true_eq]
    cases e.isDir <;> simp
  rw [hpage, hrows, hentries]

/-! ## Paths -/

/-- The directory with these parts. -/
def dirPath : List String → String
  | [] => ""
  | p :: parts => p ++ "/" ++ dirPath parts

theorem dirPath_append (parts more : List String) :
    dirPath (parts ++ more) = dirPath parts ++ dirPath more := by
  induction parts with
  | nil => exact (String.empty_append).symm
  | cons p parts ih => simp only [List.cons_append, dirPath, ih, String.append_assoc]

theorem dirPath_concat (parts : List String) (p : String) :
    dirPath (parts ++ [p]) = dirPath parts ++ p ++ "/" := by
  simp only [dirPath_append, dirPath, String.append_empty, String.append_assoc]

theorem join_concat (parts : List String) (name : String) :
    join '/' (parts ++ [name]) = dirPath parts ++ name := by
  induction parts with
  | nil => simp [join, dirPath]
  | cons p parts ih =>
      apply String.toList_inj.1
      have hrest :
          (['/'].intercalate ((parts ++ [name]).map String.toList)) = (dirPath parts ++ name).toList := by
        rw [← ih, join, String.toList_ofList]
      cases hmore : (parts ++ [name]).map String.toList with
      | nil => simp at hmore
      | cons first more =>
          rw [join, String.toList_ofList, List.cons_append, List.map_cons, hmore,
            List.intercalate_cons_cons, ← hmore, hrest]
          simp [dirPath]

/-- The parts of a key, and what it has behind the last one. -/
theorem split_dirPath {parts : List String} {name : String} (hparts : ∀ p ∈ parts, '/' ∉ p.toList)
    (hname : '/' ∉ name.toList) : split '/' (dirPath parts ++ name) = parts ++ [name] := by
  rw [← join_concat]
  refine split_join (by simp) fun p hp => ?_
  rcases List.mem_append.1 hp with hpart | hlast
  · exact hparts p hpart
  · exact List.mem_singleton.1 hlast ▸ hname

theorem exists_dirPath (key : String) :
    ∃ parts name, key = dirPath parts ++ name ∧ split '/' key = parts ++ [name] := by
  rcases List.eq_nil_or_concat (split '/' key) with hnil | ⟨parts, name, hsplit⟩
  · exact absurd hnil (split_ne_nil key)
  · rw [List.concat_eq_append] at hsplit
    refine ⟨parts, name, ?_, hsplit⟩
    rw [← join_concat, ← hsplit, join, split, List.map_map]
    have hid : (String.toList ∘ String.ofList) = id := funext fun _ => String.toList_ofList
    rw [hid, List.map_id, List.intercalate_splitOn, String.ofList_toList]

/-- Not empty, and nothing in it is special in a string literal. -/
structure Good (part : String) : Prop where
  ne : part ≠ ""
  slash : '/' ∉ part.toList
  unspecial : Unspecial part.toList

theorem unspecial_append {xs ys : List Char} : Unspecial (xs ++ ys) ↔ Unspecial xs ∧ Unspecial ys := by
  simp only [Unspecial, List.mem_append]
  constructor
  · exact fun h => ⟨fun c hc => h c (.inl hc), fun c hc => h c (.inr hc)⟩
  · rintro ⟨hx, hy⟩ c (hc | hc)
    · exact hx c hc
    · exact hy c hc

theorem unspecial_slash : Unspecial "/".toList := by
  intro c hc
  rw [show "/".toList = ['/'] from rfl, List.mem_singleton] at hc
  subst hc
  exact ⟨⟨by decide, by decide, by decide, by decide⟩, by decide⟩

theorem unspecial_dirPath {parts : List String} :
    Unspecial (dirPath parts).toList ↔ ∀ p ∈ parts, Unspecial p.toList := by
  induction parts with
  | nil => simp [dirPath, Unspecial]
  | cons p parts ih =>
      rw [dirPath, String.toList_append, String.toList_append, unspecial_append, unspecial_append, ih,
        List.forall_mem_cons]
      exact and_congr_left fun _ => and_iff_left unspecial_slash

/-! ## Directories -/

theorem opens_iff {key : String} : Opens others escapes key ↔ Unspecial key.toList := by
  unfold Opens navigateOnclick
  rw [actsOn_iff_unspecial others escapes renders_escHtml (by decide) (by decide) (by decide) (by simp),
    List.forall_mem_singleton]

theorem works_iff {key : String} : Works others escapes key ↔ Unspecial key.toList := by
  have hcalls (callee : String) (hcallee : Plain callee.toList) :
      ActsOn others escapes (onclick escHtml callee [key.toList] "") callee [key.toList] "" ↔
        Unspecial key.toList := by
    rw [actsOn_iff_unspecial others escapes renders_escHtml hcallee (by decide) List.not_mem_nil (by simp),
      List.forall_mem_singleton]
  unfold Works downloadOnclick deleteOnclick
  rw [hcalls _ (by decide), hcalls _ (by decide), and_self]

/-- A row for a directory. -/
theorem dir_of_page (hsends : Sends stored sent) {pre : String} {e : S3Object}
    (he : e ∈ page bucket sent pre) (hdir : e.isDir = true) :
    ∃ p, e.key = pre ++ p ++ "/" ∧ p ≠ "" ∧ '/' ∉ p.toList := by
  obtain ⟨⟨obj, hobj, hbelow, hne, rfl⟩, -, hname⟩ := (mem_page hsends).1 he
  rcases (represents_iff hbelow).2 rfl with ⟨rest, hkey, ⟨-, hentry⟩ | ⟨before, after, rfl, hslash, hentry⟩⟩
  · rw [hentry] at hdir
    cases hdir
  · refine ⟨before, by rw [hentry]; rfl, ?_, hslash⟩
    rintro rfl
    rw [hentry] at hname
    apply hname
    show shownName pre (pre ++ "" ++ "/") = ['/']
    rw [String.append_empty, shownName_append]
    rfl

/-- A row for an object. -/
theorem name_of_page (hsends : Sends stored sent) {pre : String} {obj : ObjectInfo}
    (he : obj.entry ∈ page bucket sent pre) :
    ∃ name, obj.key = pre ++ name ∧ name ≠ "" ∧ '/' ∉ name.toList := by
  obtain ⟨⟨obj', hobj', hbelow, hne, hentry⟩, -⟩ := (mem_page hsends).1 he
  rcases (represents_iff hbelow).2 hentry with ⟨rest, hkey, ⟨hslash, hsame⟩ | ⟨before, after, -, -, hdir⟩⟩
  · have hkeys : obj.key = obj'.key := congrArg S3Object.key hsame
    refine ⟨rest, hkeys.trans hkey, ?_, hslash⟩
    rintro rfl
    exact hne (by simpa using hkey)
  · cases congrArg S3Object.isDir hdir

theorem mem_crumbPaths {parts : List String} {path pre : String} (h : pre ∈ crumbPaths path parts) :
    ∃ first rest, parts = first ++ rest ∧ pre = path ++ dirPath first := by
  induction parts generalizing path with
  | nil => cases h
  | cons p parts ih =>
      rcases List.mem_cons.1 h with rfl | hmore
      · exact ⟨[p], parts, rfl, by simp [dirPath, String.append_assoc]⟩
      · obtain ⟨first, rest, rfl, rfl⟩ := ih hmore
        exact ⟨p :: first, rest, rfl, by simp only [dirPath, String.append_assoc]⟩

/-- The breadcrumb leads to the directories above. -/
theorem mem_breadcrumb {parts : List String} (hgood : ∀ p ∈ parts, Good p) {pre : String}
    (h : pre ∈ breadcrumb (dirPath parts)) : ∃ first, pre = dirPath first ∧ ∀ p ∈ first, Good p := by
  have hsplit : split '/' (dirPath parts) = parts ++ [""] := by
    have hempty : split '/' (dirPath parts ++ "") = parts ++ [""] :=
      split_dirPath (fun p hp => (hgood p hp).slash) (by simp)
    rwa [String.append_empty] at hempty
  have hparts : (parts ++ [""]).filter (fun p => p ≠ "") = parts := by
    rw [List.filter_append, List.filter_eq_self.2 fun p hp => by simpa using (hgood p hp).ne]
    simp
  rw [breadcrumb, hsplit, hparts] at h
  rcases List.mem_cons.1 h with rfl | hcrumb
  · exact ⟨[], rfl, by simp⟩
  · obtain ⟨first, rest, rfl, rfl⟩ := mem_crumbPaths hcrumb
    exact ⟨first, String.empty_append, fun p hp => hgood p (List.mem_append_left _ hp)⟩

theorem good_of_reached (hsends : Sends stored sent) {pre : String}
    (h : Reached others escapes bucket sent pre) :
    ∃ parts, pre = dirPath parts ∧ ∀ p ∈ parts, Good p := by
  induction h with
  | root => exact ⟨[], rfl, by simp⟩
  | @row currentPrefix obj hreached hobj hdir hopens ih =>
      obtain ⟨parts, rfl, hgood⟩ := ih
      obtain ⟨p, hkey, hne, hslash⟩ := dir_of_page hsends hobj hdir
      have hunspecial := opens_iff.1 hopens
      rw [hkey, ← dirPath_concat, unspecial_dirPath] at hunspecial
      refine ⟨parts ++ [p], by rw [hkey, dirPath_concat], fun q hq => ?_⟩
      rcases List.mem_append.1 hq with hold | hnew
      · exact hgood q hold
      · obtain rfl := List.mem_singleton.1 hnew
        exact ⟨hne, hslash, hunspecial q hq⟩
  | crumb hreached hcrumb hopens ih =>
      obtain ⟨parts, rfl, hgood⟩ := ih
      exact mem_breadcrumb hgood hcrumb

/-- The directories above an object can be opened one after the other. -/
theorem reached_of_good (hsends : Sends stored sent) {parts : List String} (hgood : ∀ p ∈ parts, Good p)
    {obj : ObjectInfo} (hobj : obj ∈ stored) {rest : String} (hkey : obj.key = dirPath parts ++ rest) :
    Reached others escapes bucket sent (dirPath parts) := by
  induction parts using List.reverseRecOn generalizing rest with
  | nil => exact .root
  | append_singleton parts p ih =>
      have hp : Good p := hgood p (by simp)
      have hsplit : obj.key = dirPath parts ++ (p ++ "/" ++ rest) := by
        rw [hkey, dirPath_concat]
        simp only [String.append_assoc]
      have habove := ih (fun q hq => hgood q (List.mem_append_left _ hq)) hsplit
      have hbelow : hasPrefix obj.key (dirPath parts) = true := hsplit ▸ hasPrefix_append _ _
      have hentry : dirEntry (dirPath (parts ++ [p])) = entryOf (dirPath parts) obj := by
        refine (represents_iff hbelow).1 ⟨_, hsplit, .inr ⟨p, rest, rfl, hp.slash, ?_⟩⟩
        rw [dirPath_concat]
      have hshown : shownName (dirPath parts) (dirPath (parts ++ [p])) = p.toList ++ ['/'] := by
        rw [dirPath_concat, String.append_assoc, shownName_append, String.toList_append]
        rfl
      have hrow : dirEntry (dirPath (parts ++ [p])) ∈ page bucket sent (dirPath parts) := by
        refine (mem_page hsends).2 ⟨⟨obj, hobj, hbelow, ?_, hentry⟩, ?_, ?_⟩
        · rw [hsplit]
          simp
        · show shownName (dirPath parts) (dirPath (parts ++ [p])) ≠ []
          simp [hshown]
        · show shownName (dirPath parts) (dirPath (parts ++ [p])) ≠ ['/']
          rw [hshown]
          simpa using hp.ne
      refine Reached.row habove hrow rfl (opens_iff.2 ?_)
      show Unspecial (dirPath (parts ++ [p])).toList
      exact unspecial_dirPath.2 fun q hq => (hgood q hq).unspecial

/-! ## Objects -/

/-- The row of an object is on the page of its directory. -/
theorem object_on_page (hsends : Sends stored sent) {obj : ObjectInfo} (hobj : obj ∈ stored) {pre name : String}
    (hkey : obj.key = pre ++ name) (hne : name ≠ "") (hslash : '/' ∉ name.toList) :
    obj.entry ∈ page bucket sent pre := by
  have hbelow : hasPrefix obj.key pre = true := hkey ▸ hasPrefix_append _ _
  have hshown : shownName pre obj.key = name.toList := by
    rw [hkey, shownName_append]
  refine (mem_page hsends).2
    ⟨⟨obj, hobj, hbelow, ?_, (represents_iff hbelow).1 ⟨name, hkey, .inl ⟨hslash, rfl⟩⟩⟩, ?_, ?_⟩
  · rw [hkey]
    simpa using hne
  · show shownName pre obj.key ≠ []
    rw [hshown]
    simpa using hne
  · show shownName pre obj.key ≠ ['/']
    rw [hshown]
    intro heq
    rw [heq] at hslash
    exact hslash (List.mem_singleton_self _)

/-- A stored object has its row, with buttons that work, on exactly one page that can be opened, if and only
if each part of its key is non-empty and has nothing special in it. -/
theorem s3_browser_finds (hsends : Sends stored sent) {obj : ObjectInfo} (hobj : obj ∈ stored) :
    (∃! pre, Reached others escapes bucket sent pre ∧ obj.entry ∈ page bucket sent pre ∧
        Works others escapes obj.key) ↔
      ∀ part ∈ split '/' obj.key, part ≠ "" ∧ Unspecial part.toList := by
  constructor
  · rintro ⟨pre, ⟨hreached, hrow, hworks⟩, -⟩
    obtain ⟨parts, rfl, hgood⟩ := good_of_reached hsends hreached
    obtain ⟨name, hkey, hne, hslash⟩ := name_of_page hsends hrow
    have hunspecial := works_iff.1 hworks
    rw [hkey, String.toList_append, unspecial_append] at hunspecial
    rw [hkey, split_dirPath (fun p hp => (hgood p hp).slash) hslash]
    intro part hpart
    rcases List.mem_append.1 hpart with hdir | hlast
    · exact ⟨(hgood part hdir).ne, (hgood part hdir).unspecial⟩
    · rw [List.mem_singleton.1 hlast]
      exact ⟨hne, hunspecial.2⟩
  · intro hparts
    obtain ⟨parts, name, hkey, hsplit⟩ := exists_dirPath obj.key
    have hgood : ∀ part ∈ parts ++ [name], Good part := by
      intro part hpart
      rw [← hsplit] at hpart
      exact ⟨(hparts part hpart).1, sep_notMem_of_mem_split hpart, (hparts part hpart).2⟩
    have hdirs : ∀ part ∈ parts, Good part := fun part hpart => hgood part (List.mem_append_left _ hpart)
    have hname : Good name := hgood name (by simp)
    have hworks : Works others escapes obj.key := by
      rw [works_iff, hkey, String.toList_append, unspecial_append, unspecial_dirPath]
      exact ⟨fun part hpart => (hdirs part hpart).unspecial, hname.unspecial⟩
    refine ⟨dirPath parts, ⟨reached_of_good hsends hdirs hobj hkey,
      object_on_page hsends hobj hkey hname.ne hname.slash, hworks⟩, ?_⟩
    -- Another page with this row has the same parts before the name.
    rintro pre ⟨hreached, hrow, -⟩
    obtain ⟨parts', rfl, hgood'⟩ := good_of_reached hsends hreached
    obtain ⟨name', hkey', -, hslash'⟩ := name_of_page hsends hrow
    have hsplit' := split_dirPath (fun p hp => (hgood' p hp).slash) hslash'
    rw [← hkey', hsplit] at hsplit'
    rw [(List.append_inj' hsplit' rfl).1]

/-! ## A storage that sends so -/

/-- The keys of a bucket are distinct, so there is such a listing. -/
theorem sends_dedup (hdistinct : (stored.map ObjectInfo.key).Nodup) :
    Sends stored fun pre => ((stored.filter fun obj => hasPrefix obj.key pre).map (rolledUp pre)).dedup := by
  constructor
  · intro pre
    refine List.Nodup.map_on ?_ (List.nodup_dedup _)
    intro o ho o' ho' hkeys
    rw [List.mem_dedup, List.mem_map] at ho ho'
    obtain ⟨obj, hobj, rfl⟩ := ho
    obtain ⟨obj', hobj', rfl⟩ := ho'
    obtain ⟨hmem, hbelow⟩ := List.mem_filter.1 hobj
    obtain ⟨hmem', hbelow'⟩ := List.mem_filter.1 hobj'
    obtain ⟨rest, hkey⟩ := eq_append_of_hasPrefix hbelow
    obtain ⟨rest', hkey'⟩ := eq_append_of_hasPrefix hbelow'
    rcases rolledUp_append pre rest obj hkey with ⟨hnone, hsame⟩ | ⟨dir, hdir, hrolled⟩
    · rcases rolledUp_append pre rest' obj' hkey' with ⟨-, hsame'⟩ | ⟨dir', hdir', hrolled'⟩
      · rw [hsame, hsame'] at hkeys ⊢
        exact List.inj_on_of_nodup_map hdistinct hmem hmem' hkeys
      · -- A directory has a delimiter behind the prefix, and an object here has none.
        rw [hsame, hrolled', hkey, String.append_right_inj] at hkeys
        rw [hkeys, upToSlash_upToSlash hdir'] at hnone
        cases hnone
    · rcases rolledUp_append pre rest' obj' hkey' with ⟨hnone', hsame'⟩ | ⟨dir', hdir', hrolled'⟩
      · rw [hrolled, hsame', hkey', String.append_right_inj] at hkeys
        rw [← hkeys, upToSlash_upToSlash hdir] at hnone'
        cases hnone'
      · rw [hrolled, hrolled'] at hkeys ⊢
        exact congrArg (fun key => ({ key := key, size := 0, lastModified := 0 } : ObjectInfo)) hkeys
  · intro pre o
    rw [List.mem_dedup, List.mem_map]
    constructor
    · rintro ⟨obj, hobj, rfl⟩
      obtain ⟨hmem, hbelow⟩ := List.mem_filter.1 hobj
      exact ⟨obj, hmem, hbelow, rfl⟩
    · rintro ⟨obj, hmem, hbelow, rfl⟩
      exact ⟨obj, List.mem_filter.2 ⟨hmem, hbelow⟩, rfl⟩

/-- An object without a name between two slashes cannot be found, and the one beside it can. -/
theorem s3_browser_finds_base :
    let stored : List ObjectInfo := [⟨"wal//seg", 1, 0⟩, ⟨"wal/base/seg", 2, 0⟩]
    let sent := fun pre => ((stored.filter fun obj => hasPrefix obj.key pre).map (rolledUp pre)).dedup
    (∃! pre, Reached (fun _ => none) selfEscapes "backups" sent pre ∧
        (⟨"wal/base/seg", 2, 0⟩ : ObjectInfo).entry ∈ page "backups" sent pre ∧
          Works (fun _ => none) selfEscapes "wal/base/seg") ∧
      ¬∃! pre, Reached (fun _ => none) selfEscapes "backups" sent pre ∧
        (⟨"wal//seg", 1, 0⟩ : ObjectInfo).entry ∈ page "backups" sent pre ∧
          Works (fun _ => none) selfEscapes "wal//seg" := by
  intro stored sent
  have hsends : Sends stored sent := sends_dedup (by decide)
  refine ⟨(s3_browser_finds hsends (by decide)).2 ?_, fun h => ?_⟩
  · have hsplit : split '/' "wal/base/seg" = ["wal", "base", "seg"] := by decide
    rw [show (⟨"wal/base/seg", 2, 0⟩ : ObjectInfo).key = "wal/base/seg" from rfl, hsplit]
    simp [Unspecial, Ordinary, nul]
  · exact ((s3_browser_finds hsends (by decide)).1 h "" (by decide)).1 rfl

end Web
end Pgaio
