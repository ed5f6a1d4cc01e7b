import Pgaio.Go.Time
import Mathlib.Data.List.AList

/-!
# Auth — the password and the sessions of the dashboard

`PasswordAuth` of `service/auth.go`.  Every exported method runs under the mutex of the service, so a
call is one atomic step.  A call reads the clock once or twice; its readings are the arguments `now`
and `later`.  `sliding_expiry` says which validations succeed, in terms of the calls made before.
-/

namespace Pgaio
namespace Service

open Go

def sessionTTL : Duration := 15 * Duration.minute

structure PasswordAuth where
  password : String
  sessions : AList (fun _ : String => Time) := ∅

/-- `hex.EncodeToString`. -/
def hexEncode (b : List UInt8) : String :=
  String.ofList (b.flatMap fun byte =>
    [Nat.digitChar (byte.toNat / 16), Nat.digitChar (byte.toNat % 16)])

/-- How a call of `Login` ends. -/
inductive LoginResult where
  | session (sessionID : String)
  | refused (error : String)
  /-- The source of randomness failed. -/
  | panicked
  deriving DecidableEq, Repr

namespace PasswordAuth

/-- One round of the loop of `createSessionLocked`. -/
def deleteExpired (now : Time) (sessions : AList fun _ : String => Time) (key : String) :
    AList fun _ : String => Time :=
  match sessions.lookup key with
  | none => sessions
  | some expiry => if now.after expiry then sessions.erase key else sessions

/-- `b` is what `rand.Read` supplied. -/
def createSessionLocked (a : PasswordAuth) (b : Option (Vector UInt8 32)) (now later : Time) :
    LoginResult × PasswordAuth :=
  match b with
  | none => (.panicked, a)
  | some b =>
      let id := hexEncode b.toList
      let sessions := a.sessions.insert id (now + sessionTTL)
      (.session id, { a with sessions := sessions.keys.foldl (deleteExpired later) sessions })

def login (a : PasswordAuth) (password : String) (b : Option (Vector UInt8 32))
    (now later : Time) : LoginResult × PasswordAuth :=
  if password ≠ a.password then (.refused "invalid password", a)
  else a.createSessionLocked b now later

def validateSession (a : PasswordAuth) (sessionID : String) (now later : Time) :
    Bool × PasswordAuth :=
  if sessionID = "" then (false, a)
  else
    match a.sessions.lookup sessionID with
    | none => (false, a)
    | some expiry =>
        if now.after expiry then (false, { a with sessions := a.sessions.erase sessionID })
        else (true, { a with sessions := a.sessions.insert sessionID (later + sessionTTL) })

def checkSession (a : PasswordAuth) (sessionID : String) (now : Time) : Bool :=
  if sessionID = "" then false
  else
    match a.sessions.lookup sessionID with
    | none => false
    | some expiry => expiry.after now

end PasswordAuth

def newPasswordAuth (password : String) : PasswordAuth :=
  { password := password }

/-! ## Calls and histories -/

inductive AuthCall where
  | login (password : String) (b : Option (Vector UInt8 32)) (now later : Time)
  | validateSession (sessionID : String) (now later : Time)
  | checkSession (sessionID : String) (now : Time)
  deriving DecidableEq

inductive AuthAnswer where
  | login (result : LoginResult)
  | valid (ok : Bool)
  deriving DecidableEq

namespace AuthCall

def exec (a : PasswordAuth) : AuthCall → AuthAnswer × PasswordAuth
  | .login password b now later =>
      let (result, a') := a.login password b now later
      (.login result, a')
  | .validateSession sessionID now later =>
      let (ok, a') := a.validateSession sessionID now later
      (.valid ok, a')
  | .checkSession sessionID now => (.valid (a.checkSession sessionID now), a)

/-- The readings of the clock, in order. -/
def readings : AuthCall → List Time
  | .login _ _ now later => [now, later]
  | .validateSession _ now later => [now, later]
  | .checkSession _ now => [now]

/-- The session ID that a caller passed. -/
def sessionID? : AuthCall → Option String
  | .login _ _ _ _ => none
  | .validateSession sessionID _ _ => some sessionID
  | .checkSession sessionID _ => some sessionID

end AuthCall

/-- The calls that were made, each with its answer, oldest first. -/
abbrev AuthHistory := List (AuthCall × AuthAnswer)

namespace PasswordAuth

/-- The service after a sequence of calls. -/
def after (a : PasswordAuth) (calls : List AuthCall) : PasswordAuth :=
  calls.foldl (fun a call => (call.exec a).2) a

/-- Each call with the answer it gets in turn. -/
def history (a : PasswordAuth) : List AuthCall → AuthHistory
  | [] => []
  | call :: calls => (call, (call.exec a).1) :: (call.exec a).2.history calls

end PasswordAuth

namespace AuthHistory

/-- The time up to which an entry keeps a session alive starts here: at the login that returned the
session or at a successful validation. -/
def activeAt (id : String) : AuthCall × AuthAnswer → Option Time
  | (.login _ _ now _, .login (.session sessionID)) => if sessionID = id then some now else none
  | (.validateSession sessionID _ later, .valid true) =>
      if sessionID = id then some later else none
  | _ => none

def activeTimes (h : AuthHistory) (id : String) : List Time :=
  h.filterMap (activeAt id)

/-- A login returned this session. -/
def LoggedIn (h : AuthHistory) (id : String) : Prop :=
  ∃ call, (call, AuthAnswer.login (.session id)) ∈ h

/-- A caller passed this session ID or received it. -/
def Mentions (h : AuthHistory) (id : String) : Prop :=
  LoggedIn h id ∨ ∃ entry ∈ h, entry.1.sessionID? = some id

end AuthHistory

/-- The latest of some times. -/
def IsLatest (last : Time) (times : List Time) : Prop :=
  last ∈ times ∧ ∀ t ∈ times, t ≤ last

/-- The clock does not go back. -/
def Timely (calls : List AuthCall) : Prop :=
  (calls.flatMap AuthCall.readings).Pairwise (· ≤ ·)

instance (calls : List AuthCall) : Decidable (Timely calls) :=
  inferInstanceAs (Decidable (List.Pairwise _ _))

/-- Every session ID that a login returns is new. -/
def FreshIDs (a : PasswordAuth) (calls : List AuthCall) : Prop :=
  ∀ (before after : List AuthCall) (call : AuthCall) (id : String),
    calls = before ++ call :: after → (call.exec (a.after before)).1 = .login (.session id) →
      ¬ AuthHistory.Mentions (a.history before) id

end Service
end Pgaio
