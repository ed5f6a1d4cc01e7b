import Pgaio.Go.Split
import Pgaio.Text.Base64

/-!
# DashboardPassword — the password of the dashboard over the starts of the process

`NewPasswordAuth`, `loadPassword` and `generatePassword` of `service/auth.go`.  A configured password is taken
as it is; otherwise that of the file, and if there is none, a new one that is stored first.  `password_kept`
says that starts without a configured password agree on it, whatever comes between them.
-/

namespace Pgaio
namespace Service

open Go Text

/-- What the file holds; `none` if it does not exist. -/
abbrev PasswordFile := Option String

/-- How `os.WriteFile` ends. -/
inductive PasswordWrite where
  | written
  /-- `left` is what the file holds now. -/
  | failed (err : String) (left : PasswordFile)

/-- What a start finds: the variable `PGAIO_PASSWORD`, an error of `os.ReadFile` other than that there is no
file, what `rand.Read` supplies, and how the file is written. -/
structure Start where
  configured : String := ""
  readError : Option String := none
  random : Except String (Vector UInt8 24) := .ok (Vector.replicate 24 0)
  write : PasswordWrite := .written

def generatePassword (s : Start) : Except String String :=
  match s.random with
  | .error err => .error ("generate dashboard password: " ++ err)
  | .ok b => .ok (Base64.rawURLEncode b.toList)

/-- The password and whether it was generated, and what the file holds afterwards. -/
def loadPassword (file : PasswordFile) (configuredPassword : String) (s : Start) :
    Except String (String × Bool) × PasswordFile :=
  if configuredPassword ≠ "" then (.ok (configuredPassword, false), file)
  else
    match s.readError with
    | some err => (.error ("read dashboard password: " ++ err), file)
    | none =>
        if trimSpace (file.getD "") ≠ "" then (.ok (trimSpace (file.getD ""), false), file)
        else
          match generatePassword s with
          | .error err => (.error err, file)
          | .ok password =>
              match s.write with
              | .written => (.ok (password, true), some (password ++ "\n"))
              | .failed err left => (.error ("persist generated dashboard password: " ++ err), left)

/-- `NewPasswordAuth`: the password of the process, or the error with which it ends. -/
def start (file : PasswordFile) (s : Start) : Except String (String × Bool) × PasswordFile :=
  loadPassword file (trimSpace s.configured) s

/-- The file after these starts, the first one first. -/
def fileAfter (file : PasswordFile) (starts : List Start) : PasswordFile :=
  starts.foldl (fun file s => (start file s).2) file

/-! ## One start -/

variable {file : PasswordFile} {s : Start} {password : String} {generated : Bool}

/-- The file holds this password. -/
def Holds (password : String) (file : PasswordFile) : Prop :=
  trimSpace (file.getD "") = password ∧ password ≠ ""

theorem isSpace_urlAlphabet : ∀ c ∈ Base64.urlAlphabet, isSpace c = false := by
  have hall : Base64.urlAlphabet.all (fun c => !isSpace c) = true := by decide
  exact fun c hc => by simpa using List.all_eq_true.1 hall c hc

theorem trimSpace_line (s : String) : trimSpace (s ++ "\n") = trimSpace s := by
  have hline : (s ++ "\n").toList = s.toList ++ ['\n'] := String.toList_append
  apply String.toList_inj.1
  rw [toList_trimSpace, toList_trimSpace, hline, ← dropWhile_rdropWhile,
    List.rdropWhile_concat_pos _ _ _ (by decide), dropWhile_rdropWhile]

/-- A generated password has no space, so it is read back from its line. -/
theorem holds_generated (b : Vector UInt8 24) :
    Holds (Base64.rawURLEncode b.toList) (some (Base64.rawURLEncode b.toList ++ "\n")) := by
  have hne : b.toList ≠ [] := by
    intro h
    have hlength := congrArg List.length h
    simp at hlength
  have htrimmed : trimSpace (Base64.rawURLEncode b.toList) = Base64.rawURLEncode b.toList :=
    trimSpace_eq_self fun c hc => isSpace_urlAlphabet c (Base64.mem_urlAlphabet hc)
  exact ⟨(trimSpace_line _).trans htrimmed, Base64.rawURLEncode_ne_empty hne⟩

/-- A start without a configured password that succeeds leaves its password in the file. -/
theorem holds_of_start (h : (start file s).1 = .ok (password, generated))
    (hblank : trimSpace s.configured = "") : Holds password (start file s).2 := by
  unfold start loadPassword at h ⊢
  rw [if_neg (not_not.2 hblank)] at h ⊢
  cases hread : s.readError with
  | some err =>
      rw [hread] at h
      cases h
  | none =>
      simp only [hread] at h ⊢
      by_cases hfile : trimSpace (file.getD "") ≠ ""
      · rw [if_pos hfile] at h ⊢
        cases h
        exact ⟨rfl, hfile⟩
      · rw [if_neg hfile] at h ⊢
        unfold generatePassword at h ⊢
        cases hrandom : s.random with
        | error err =>
            rw [hrandom] at h
            cases h
        | ok b =>
            cases hwrite : s.write with
            | failed err left =>
                simp only [hrandom, hwrite] at h
                cases h
            | written =>
                simp only [hrandom, hwrite] at h ⊢
                cases h
                exact holds_generated b

/-- Once there is a password, no start touches the file, and a start without a configured one uses it. -/
theorem start_of_holds (h : Holds password file) (s : Start) :
    (start file s).2 = file ∧ ∀ used generated, (start file s).1 = .ok (used, generated) →
      generated = false ∧ used = if trimSpace s.configured = "" then password else trimSpace s.configured := by
  obtain ⟨htrim, hne⟩ := h
  unfold start loadPassword
  by_cases hblank : trimSpace s.configured = ""
  · rw [if_neg (not_not.2 hblank), if_pos hblank]
    cases s.readError with
    | some err => exact ⟨rfl, fun _ _ hok => by cases hok⟩
    | none =>
        simp only [htrim, ne_eq, hne, not_false_eq_true, if_true]
        refine ⟨trivial, fun used generated hok => ?_⟩
        cases hok
        exact ⟨rfl, rfl⟩
  · rw [if_pos hblank, if_neg hblank]
    refine ⟨rfl, fun used generated hok => ?_⟩
    cases hok
    exact ⟨rfl, rfl⟩

/-! ## Any number of starts -/

theorem fileAfter_append (file : PasswordFile) (starts more : List Start) :
    fileAfter file (starts ++ more) = fileAfter (fileAfter file starts) more :=
  List.foldl_append

theorem fileAfter_cons (file : PasswordFile) (s : Start) (starts : List Start) :
    fileAfter file (s :: starts) = fileAfter (start file s).2 starts := rfl

theorem holds_fileAfter (h : Holds password file) (starts : List Start) :
    Holds password (fileAfter file starts) := by
  induction starts generalizing file with
  | nil => exact h
  | cons s starts ih =>
      have hsame : (start file s).2 = file := (start_of_holds h s).1
      rw [fileAfter_cons, hsame]
      exact ih h

/-- After the first start without a configured password that succeeds, every later one uses the same password
and none is generated again, whatever starts lie between them and however these end.  The password has no
space around it and is not empty. -/
theorem password_kept (file : PasswordFile) (before between : List Start) {first later : Start}
    {password password' : String} {generated generated' : Bool} (hblank : trimSpace first.configured = "")
    (hfirst : (start (fileAfter file before) first).1 = .ok (password, generated))
    (hlater : (start (fileAfter file (before ++ first :: between)) later).1 = .ok (password', generated')) :
    generated' = false ∧ trimSpace password = password ∧ password ≠ "" ∧
      password' = if trimSpace later.configured = "" then password else trimSpace later.configured := by
  have hstored := holds_of_start hfirst hblank
  have hfile : fileAfter file (before ++ first :: between) =
      fileAfter (start (fileAfter file before) first).2 between := by
    rw [fileAfter_append, fileAfter_cons]
  have hkept := holds_fileAfter hstored between
  rw [← hfile] at hkept
  obtain ⟨hfresh, hused⟩ := (start_of_holds hkept later).2 _ _ hlater
  refine ⟨hfresh, ?_, hkept.2, hused⟩
  rw [← hkept.1]
  exact trimSpace_trimSpace _

/-- A disk that was full for one start, then a generated password, a configured one, and the file again. -/
theorem password_kept_generated :
    let full : Start := { write := .failed "no space left on device" (some "") }
    let denied : Start := { readError := some "permission denied" }
    (start (fileAfter none [full, {}, { configured := " secret " }, denied]) {}).1 =
        .ok ("AAAAAAAAAAAAAAAAAAAAAAAAAAAAAAAA", false) ∧
      "AAAAAAAAAAAAAAAAAAAAAAAAAAAAAAAA" ≠ "" := by
  intro full denied
  have hfirst : (start (fileAfter none [full]) { : Start }).1 =
      .ok ("AAAAAAAAAAAAAAAAAAAAAAAAAAAAAAAA", true) := by decide +kernel
  have hlater : (start (fileAfter none ([full] ++ { : Start } :: [{ configured := " secret " }, denied]))
      { : Start }).1 = .ok ("AAAAAAAAAAAAAAAAAAAAAAAAAAAAAAAA", false) := by decide +kernel
  have hkept := password_kept none [full] [{ configured := " secret " }, denied] (by decide) hfirst hlater
  exact ⟨hlater, hkept.2.2.1⟩

end Service
end Pgaio
