import Pgaio.Concurrency.Program
import Pgaio.Go.ServeMux

/-!
# Gate — the two checks in front of the API

`ServeHTTP` and `routes` of `server/server.go`, and `SessionMiddleware` of `handler/auth.go`.  The
outer check goes by a prefix of the decoded path, the dispatch behind it by the segments of the
escaped path; some routes are protected a second time.  `api_gate` says that no handler under `/api/`
but the login runs without a validated session.
-/

namespace Pgaio
namespace Server

open Go Concurrency

/-- The names of the header and of the query are in canonical form, in the order received. -/
structure Request where
  method : String
  url : URLPath
  header : List (String × String) := []
  query : List (String × String) := []

/-- `Header.Get` and `Values.Get`: the first value, or an empty text. -/
def firstValue (values : List (String × String)) (name : String) : String :=
  ((values.find? fun entry => entry.1 == name).map Prod.snd).getD ""

/-- The session ID that `SessionMiddleware` takes from a request. -/
def Request.sessionID (r : Request) : String :=
  let sessionID := firstValue r.header "X-Session-Id"
  if sessionID = "" then firstValue r.query "session_id" else sessionID

/-- What was registered with the mux; `protect` says whether the handler is wrapped. -/
structure Route where
  pattern : String
  protect : Bool
  deriving DecidableEq, Repr

/-- Login is the only API endpoint that does not require a session. -/
def login : Route := { pattern := "POST /api/auth/login", protect := false }

def routes : List Route :=
  [ login,
    { pattern := "GET /api/settings", protect := false },
    { pattern := "POST /api/settings", protect := true },
    { pattern := "GET /api/backups/schedule", protect := false },
    { pattern := "GET /api/dashboard/stats", protect := false },
    { pattern := "GET /api/dashboard/ws", protect := false },
    { pattern := "POST /api/dashboard/cancel/{pid}", protect := true },
    { pattern := "POST /api/dashboard/terminate/{pid}", protect := true },
    { pattern := "GET /api/backups", protect := false },
    { pattern := "POST /api/backups/trigger", protect := true },
    { pattern := "POST /api/backups/restore", protect := true },
    { pattern := "POST /api/backups/verify", protect := true },
    { pattern := "GET /api/s3/objects", protect := false },
    { pattern := "DELETE /api/s3/objects", protect := true },
    { pattern := "GET /api/s3/download", protect := false },
    { pattern := "GET /api/pgbouncer/stats", protect := false },
    { pattern := "POST /api/pgbouncer/pause", protect := true },
    { pattern := "POST /api/pgbouncer/resume", protect := true },
    { pattern := "POST /api/pgbouncer/reload", protect := true },
    { pattern := "POST /api/pgbouncer/kill", protect := true },
    { pattern := "GET /api/logs", protect := false },
    { pattern := "GET /api/logs/ws", protect := false },
    { pattern := "GET /api/config", protect := false },
    { pattern := "POST /api/config/set", protect := true },
    { pattern := "POST /api/config/restart", protect := true },
    { pattern := "GET /api/server/overview", protect := false },
    { pattern := "POST /api/sql/execute", protect := true },
    { pattern := "GET /api/sql/snippets", protect := false },
    { pattern := "GET /api/sql/history", protect := false },
    { pattern := "DELETE /api/sql/history", protect := true },
    { pattern := "GET /api/sql/schema", protect := false },
    { pattern := "GET /api/queries/slow", protect := false },
    { pattern := "POST /api/queries/explain", protect := true },
    { pattern := "POST /api/queries/reset", protect := true },
    { pattern := "GET /api/queries/plans", protect := false },
    { pattern := "GET /api/queries/plans/{id}", protect := false },
    { pattern := "GET /api/maintenance/plan", protect := false },
    { pattern := "GET /api/schema/drift", protect := false },
    { pattern := "GET /api/vacuum/stats", protect := false },
    { pattern := "GET /api/vacuum/bloat", protect := false },
    { pattern := "POST /api/vacuum/trigger", protect := true },
    { pattern := "GET /api/repack/tables", protect := false },
    { pattern := "POST /api/repack/run", protect := true },
    { pattern := "GET /api/repack/status", protect := false },
    { pattern := "POST /api/repack/cancel", protect := true },
    { pattern := "GET /api/locks", protect := false },
    { pattern := "GET /api/locks/tree", protect := false },
    { pattern := "GET /api/roles/overview", protect := false },
    { pattern := "GET /api/indexes/advice", protect := false },
    { pattern := "GET /api/extensions", protect := false },
    { pattern := "POST /api/extensions/install", protect := true },
    { pattern := "POST /api/extensions/uninstall", protect := true },
    { pattern := "GET /api/database/export", protect := true },
    { pattern := "POST /api/database/import", protect := true },
    { pattern := "GET /api/database/list", protect := false },
    { pattern := "GET /api/jobs", protect := false },
    { pattern := "GET /api/jobs/{id}", protect := false },
    { pattern := "GET /api/jobs/{id}/download", protect := true },
    { pattern := "GET /api/alerts", protect := false },
    { pattern := "POST /api/alerts/test", protect := true },
    { pattern := "GET /api/tuner/system", protect := false },
    { pattern := "POST /api/tuner/analyze", protect := false },
    { pattern := "POST /api/tuner/apply", protect := true },
    { pattern := "GET /", protect := false } ]

inductive GateAct where
  | validateSession (sessionID : String)
  /-- The handler of a route, inside all wrappers. -/
  | runHandler (route : Route)
  deriving DecidableEq, Repr

@[reducible] def GateAct.Resp : GateAct → Type
  | .validateSession _ => Bool
  | .runHandler _ => Unit

/-- Who answered a request. -/
inductive Answer where
  | preflight
  | unauthorized (error : String)
  /-- A redirect or an error of the mux itself. -/
  | mux
  | handler
  deriving DecidableEq, Repr

abbrev GateProgram := Program GateAct GateAct.Resp Answer

abbrev GateTrace := List (Event GateAct GateAct.Resp)

/-- `SessionMiddleware`. -/
def sessionMiddleware (r : Request) (next : GateProgram) : GateProgram :=
  let sessionID := r.sessionID
  if sessionID = "" then pure (.unauthorized "session required")
  else do
    let valid ← Program.perform (GateAct.validateSession sessionID)
    if valid then next else pure (.unauthorized "session expired")

def Route.handle (route : Route) : GateProgram := do
  let _ ← Program.perform (GateAct.runHandler route)
  pure .handler

/-- The handler as it was registered. -/
def Route.registered (route : Route) (r : Request) : GateProgram :=
  if route.protect then sessionMiddleware r route.handle else route.handle

def Route.parsed (route : Route) : Pattern :=
  parsePattern route.pattern

def muxServeHTTP (r : Request) : GateProgram :=
  match findHandler Route.parsed routes r.method r.url with
  | none => pure .mux
  | some route => route.registered r

def apiPrefix : List Char := "/api/".toList

def loginPath : List Char := "/api/auth/login".toList

/-- The condition of the outer check. -/
def needsSession (r : Request) : Bool :=
  apiPrefix.isPrefixOf r.url.path && !(r.method == "POST" && r.url.path == loginPath)

/-- `ServeHTTP`. -/
def serveHTTP (r : Request) : GateProgram :=
  if r.method = "OPTIONS" then pure .preflight
  else if needsSession r then sessionMiddleware r (muxServeHTTP r)
  else muxServeHTTP r

/-! ## Routes under `/api/` -/

/-- The path of the pattern is below `/api/`. -/
def Route.underAPI (route : Route) : Bool :=
  match route.parsed.segments with
  | .literal s :: _ :: _ => s == "api".toList
  | _ => false

/-- A request that a route under `/api/` matches has a path under `/api/`. -/
theorem apiPrefix_of_underAPI {route : Route} {path : List Char}
    (hapi : route.underAPI = true) (hstem : stem route.parsed.segments <+: path) :
    apiPrefix.isPrefixOf path = true := by
  unfold Route.underAPI at hapi
  split at hapi
  · rename_i s p ps hsegments
    rw [hsegments] at hstem
    have hs : s = "api".toList := by simpa using hapi
    rcases slash_prefix_stem p ps with ⟨below, hbelow⟩
    have hpattern : apiPrefix <+: stem (.literal s :: p :: ps) := by
      refine ⟨below, ?_⟩
      rw [stem, ← hbelow, hs]
      rfl
    exact List.isPrefixOf_iff_prefix.2 (hpattern.trans hstem)
  · cases hapi

/-- No other API route for POST matches the path of the login. -/
theorem login_of_loginPath :
    ∀ route ∈ routes, route.underAPI = true → route.parsed.allows "POST" = true →
      (stem route.parsed.segments).isPrefixOf loginPath = true → route = login := by
  decide +kernel

/-- A request that reaches a protected part of the API is subject to the outer check. -/
theorem needsSession_of_found {r : Request} {route : Route}
    (hfound : findHandler Route.parsed routes r.method r.url = some route)
    (hapi : route.underAPI = true) (hlogin : route ≠ login) : needsSession r = true := by
  rcases findHandler_spec hfound with ⟨hregistered, _, _, hallows, _⟩
  have hstem := stem_prefix hfound
  have hbelow := apiPrefix_of_underAPI hapi hstem
  refine Bool.and_eq_true_iff.2 ⟨hbelow, ?_⟩
  -- Otherwise the decoded path would be that of the login, and its route the only one to match.
  by_contra hpost
  simp only [Bool.not_eq_true', Bool.not_eq_false, Bool.and_eq_true, beq_iff_eq] at hpost
  rw [hpost.1] at hallows
  rw [hpost.2] at hstem
  exact hlogin (login_of_loginPath route hregistered hapi hallows (List.isPrefixOf_iff_prefix.2 hstem))

/-! ## The gate -/

/-- What must have happened before a handler runs. -/
def Admitted (r : Request) (past : GateTrace) : GateAct → Prop
  | .validateSession _ => True
  | .runHandler route =>
      route.underAPI = true → route ≠ login → ⟨.validateSession r.sessionID, true⟩ ∈ past

/-- The middleware runs what it wraps after a successful validation only. -/
theorem wp_sessionMiddleware {r : Request} {next : GateProgram}
    {past : GateTrace}
    (hnext : ∀ past, ⟨.validateSession r.sessionID, true⟩ ∈ past →
      next.wp (Admitted r) (fun _ _ => True) past) :
    (sessionMiddleware r next).wp (Admitted r) (fun _ _ => True) past := by
  simp only [sessionMiddleware]
  split
  · exact trivial
  · refine Program.wp_perform trivial fun valid => ?_
    cases valid with
    | false => exact trivial
    | true => exact hnext _ (List.mem_append_right past (List.mem_singleton.2 rfl))

theorem wp_registered {r : Request} {route : Route} {past : GateTrace}
    (hroute : Admitted r past (.runHandler route)) :
    (route.registered r).wp (Admitted r) (fun _ _ => True) past := by
  unfold Route.registered
  split
  · -- A protected route validates the session a second time.
    refine wp_sessionMiddleware fun past hvalid => ?_
    exact Program.wp_perform (fun _ _ => hvalid) fun _ => trivial
  · exact Program.wp_perform hroute fun _ => trivial

theorem wp_muxServeHTTP {r : Request} {past : GateTrace}
    (hpast : needsSession r = true → ⟨.validateSession r.sessionID, true⟩ ∈ past) :
    (muxServeHTTP r).wp (Admitted r) (fun _ _ => True) past := by
  unfold muxServeHTTP
  cases hfound : findHandler Route.parsed routes r.method r.url with
  | none => exact trivial
  | some route =>
      refine wp_registered fun hapi hlogin => ?_
      exact hpast (needsSession_of_found hfound hapi hlogin)

theorem wp_serveHTTP (r : Request) : (serveHTTP r).wp (Admitted r) (fun _ _ => True) [] := by
  unfold serveHTTP
  split
  · exact trivial
  · split
    · exact wp_sessionMiddleware fun past hvalid => wp_muxServeHTTP fun _ => hvalid
    · -- The outer check lets the request through, so no protected route is found.
      rename_i hopen
      exact wp_muxServeHTTP fun hneeds => absurd hneeds hopen

/-- Whenever the handler of an API route other than the login runs, the session of the request has
been validated. -/
theorem api_gate {r : Request} {route : Route} {before after : GateTrace}
    {rest : GateProgram}
    (hrun : Program.Path (serveHTTP r) (before ++ ⟨.runHandler route, ()⟩ :: after) rest)
    (hapi : route.underAPI = true) (hlogin : route ≠ login) :
    ⟨.validateSession r.sessionID, true⟩ ∈ before :=
  Program.inv_of_path hrun (wp_serveHTTP r) hapi hlogin

def jobsRequest : Request where
  method := "GET"
  url := { escaped := "/api/jobs".toList, path := "/api/jobs".toList, unescaped := by decide +kernel }
  header := [("X-Session-Id", "5e55")]

def jobsRoute : Route := { pattern := "GET /api/jobs", protect := false }

/-- A request that needs a session and has a route. -/
theorem serveHTTP_of_found {r : Request} {route : Route} (hmethod : r.method ≠ "OPTIONS")
    (hneeds : needsSession r = true)
    (hfound : findHandler Route.parsed routes r.method r.url = some route) :
    serveHTTP r = sessionMiddleware r (route.registered r) := by
  simp only [serveHTTP, if_neg hmethod, hneeds, if_true, muxServeHTTP, hfound]

theorem serveHTTP_jobsRequest :
    serveHTTP jobsRequest = .act (.validateSession "5e55") fun valid =>
      if valid = true then .act (.runHandler jobsRoute) fun _ => .done .handler
      else .done (.unauthorized "session expired") := by
  have hneeds : needsSession jobsRequest = true := by decide +kernel
  have hfound : findHandler Route.parsed routes jobsRequest.method jobsRequest.url =
      some jobsRoute := by decide +kernel
  have hid : jobsRequest.sessionID = "5e55" := by decide +kernel
  rw [serveHTTP_of_found (by decide) hneeds hfound]
  simp [sessionMiddleware, hid, Route.registered, Route.handle, jobsRoute, Program.perform]

/-- A listing of the jobs runs after the validation of its session. -/
theorem api_gate_jobsRequest :
    (⟨.validateSession jobsRequest.sessionID, true⟩ : Event GateAct GateAct.Resp) ∈
      [⟨.validateSession "5e55", true⟩] := by
  have hrun : Program.Path (serveHTTP jobsRequest)
      ([⟨.validateSession "5e55", true⟩] ++ ⟨.runHandler jobsRoute, ()⟩ :: []) (.done .handler) := by
    have hvalid : Program.Path (serveHTTP jobsRequest) [⟨.validateSession "5e55", true⟩]
        (.act (.runHandler jobsRoute) fun _ => .done .handler) := by
      have hstart := Program.Path.refl (p := serveHTTP jobsRequest)
      rw [serveHTTP_jobsRequest] at hstart ⊢
      exact hstart.snoc true
    exact hvalid.snoc ()
  exact api_gate hrun (by decide +kernel) (by decide)

end Server
end Pgaio
