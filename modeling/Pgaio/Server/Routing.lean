import Pgaio.Go.RouteConflicts
import Pgaio.Server.Gate

/-!
# Routing — the routes of the server do not get in each other's way

`routes` of `server/server.go` registers all handlers when the process starts; two patterns in conflict would
end it with a panic.  `dispatch` says that in whatever order this is done there is no conflict, and that a
request then reaches the same handler, the most specific one of those that match it.
-/

namespace Pgaio
namespace Server

open Go

theorem registrable_routes : Registrable Route.parsed routes := by
  have hall : (∀ route ∈ routes, coversSegments route.parsed.segments route.parsed.segments = true ∧
      route.parsed.method ≠ "HEAD") ∧
      routes.Pairwise fun route route' => conflicts route.parsed route'.parsed = false := by decide +kernel
  exact {
    wellFormed := fun route hroute => covers_of_coversSegments (hall.1 route hroute).1
    method := fun route hroute => (hall.1 route hroute).2
    noConflict := hall.2 }

/-- How requests are dispatched after the handlers were registered in some order. -/
structure Dispatched (handlers : List Route) (r : Request) : Prop where
  /-- No pattern is refused. -/
  registered : handlers.Pairwise fun route route' => conflicts route.parsed route'.parsed = false
  same : findHandler Route.parsed handlers r.method r.url = findHandler Route.parsed routes r.method r.url
  /-- A handler that matches gives way to none but a more specific one. -/
  mostSpecific : ∀ raws route, segments? r.url.escaped = some raws →
    (r.method = "CONNECT" ∨ isClean raws = true) → route ∈ routes →
      route.parsed.matches r.method raws = true →
        ∃ best ∈ routes, findHandler Route.parsed handlers r.method r.url = some best ∧
          best.parsed.matches r.method raws = true ∧
          ∀ other ∈ routes, other.parsed.matches r.method raws = true → other ≠ best →
            coversSegments other.parsed.segments best.parsed.segments = true ∧
              coversSegments best.parsed.segments other.parsed.segments = false
  /-- The mux answers no request for a page itself, but for paths that it redirects. -/
  page : ∀ raws, segments? r.url.escaped = some raws → isClean raws = true →
    r.method = "GET" ∨ r.method = "HEAD" →
      (findHandler Route.parsed handlers r.method r.url).isSome = true

def staticRoute : Route := { pattern := "GET /", protect := false }

theorem staticRoute_matches {method : String} {raws : List (List Char)} (hraws : raws ≠ [])
    (hmethod : method = "GET" ∨ method = "HEAD") : staticRoute.parsed.matches method raws = true := by
  have hparsed : staticRoute.parsed = { method := "GET", segments := [.rest] } := by decide +kernel
  rw [hparsed, Pattern.matches, Bool.and_eq_true]
  cases raws with
  | nil => exact absurd rfl hraws
  | cons raw raws =>
      refine ⟨?_, rfl⟩
      rcases hmethod with rfl | rfl <;> rfl

/-- The table of routes is one of rules, not of an order. -/
theorem dispatch {handlers : List Route} (hperm : handlers.Perm routes) (r : Request) :
    Dispatched handlers r := by
  have hreg := registrable_routes.perm hperm
  have hfind : ∀ {raws : List (List Char)} (route : Route), segments? r.url.escaped = some raws →
      (r.method = "CONNECT" ∨ isClean raws = true) → route ∈ routes →
        route.parsed.matches r.method raws = true →
          ∃ best, MostSpecific Route.parsed routes r.method raws best ∧
            findHandler Route.parsed handlers r.method r.url = some best := by
    intro raws route hraws hclean hroute hmatches
    obtain ⟨best, hbest⟩ := exists_mostSpecific registrable_routes hroute hmatches
    exact ⟨best, hbest, findHandler_eq hreg hraws hclean (hbest.perm hperm)⟩
  refine ⟨hreg.noConflict, findHandler_perm registrable_routes hperm _ _, ?_, ?_⟩
  · intro raws route hraws hclean hroute hmatches
    obtain ⟨best, hbest, hfound⟩ := hfind route hraws hclean hroute hmatches
    refine ⟨best, hbest.mem, hfound, hbest.matched, fun other hother hmatch hne => ?_⟩
    have hcovers := hbest.least other hother hmatch
    have hother' := covers_ne_of_matches registrable_routes hother hbest.mem hne hmatch hbest.matched
    rw [hcovers] at hother'
    exact ⟨hcovers, by simpa using hother'.symm⟩
  · intro raws hraws hclean hmethod
    have hne : raws ≠ [] := by
      rintro rfl
      cases hclean
    obtain ⟨best, -, hfound⟩ :=
      hfind staticRoute hraws (Or.inr hclean) (by decide) (staticRoute_matches hne hmethod)
    rw [hfound]
    rfl

theorem dispatch_reversed :
    findHandler Route.parsed routes.reverse jobsRequest.method jobsRequest.url = some jobsRoute := by
  rw [(dispatch (List.reverse_perm routes) jobsRequest).same]
  decide +kernel

end Server
end Pgaio
