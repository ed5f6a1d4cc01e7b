import Pgaio.Go.Split
import Pgaio.Service.ConnText

/-!
# AdminAddress — one address, read twice

`PGBOUNCER_ADMIN_ADDR` names the endpoint of the default pgbouncer profile and that of the admin
console.  `splitHostPort` takes the first for itself, with defaults for what is missing, and `connect`
asks `net.SplitHostPort` for the second and ignores its error.  They agree on `host:port` and on
nothing else (`default_endpoint_iff`).
-/

namespace Pgaio
namespace Service

open Go

/-- The profile and the console have one endpoint, and it is complete. -/
structure SameEndpoint (profile : String × Int) (console : String × String) : Prop where
  host : profile.1 = console.1
  port : strconvAtoi console.2 = some profile.2
  host_ne : profile.1 ≠ ""
  port_ne : console.2 ≠ ""

/-- `host:port` without blanks in front, brackets or further colons. -/
structure PlainAddress (addr host port : String) : Prop where
  text : addr = host ++ ":" ++ port
  host_ne : host ≠ ""
  noMark : ':' ∉ host.toList ∧ '[' ∉ host.toList ∧ ']' ∉ host.toList
  noBlank : host.toList.dropWhile isSpace = host.toList
  number : (strconvAtoi port).isSome = true

/-! ## The port -/

theorem mem_port {port : String} {c : Char} (h : (strconvAtoi port).isSome = true)
    (hc : c ∈ port.toList) : c = '-' ∨ c = '+' ∨ isDigit c = true := by
  obtain ⟨n, hn⟩ := Option.isSome_iff_exists.1 h
  unfold strconvAtoi at hn
  simp only [Option.ite_none_left_eq_some, not_or, Bool.not_eq_false] at hn
  obtain ⟨⟨-, hdigits⟩, -⟩ := hn
  rw [List.all_eq_true] at hdigits
  split at hdigits
  · rename_i hsign
    cases hport : port.toList with
    | nil =>
        rw [hport] at hc
        cases hc
    | cons d rest =>
        rw [hport] at hsign hdigits hc
        -- Only the first character can be a sign.
        rcases List.mem_cons.1 hc with rfl | hmem
        · rcases hsign with heq | heq
          · exact Or.inl (Option.some.inj heq)
          · exact Or.inr (Or.inl (Option.some.inj heq))
        · exact Or.inr (Or.inr (hdigits c hmem))
  · exact Or.inr (Or.inr (hdigits c hc))

theorem port_ne_empty {port : String} (h : (strconvAtoi port).isSome = true) : port ≠ "" := by
  rintro rfl
  exact absurd h (by decide)

/-- A number has no blank, no colon and no bracket in it. -/
theorem notMem_port {port : String} (h : (strconvAtoi port).isSome = true) {c : Char}
    (hsign : c ≠ '-' ∧ c ≠ '+') (hdigit : isDigit c = false) : c ∉ port.toList := by
  intro hc
  rcases mem_port h hc with heq | heq | heq
  · exact hsign.1 heq
  · exact hsign.2 heq
  · rw [hdigit] at heq
    cases heq

theorem rdropWhile_port {port : String} (h : (strconvAtoi port).isSome = true) :
    port.toList.rdropWhile isSpace = port.toList := by
  rw [List.rdropWhile_eq_self_iff]
  intro hne hblank
  have hdigit := isDigit_of_isSpace hblank
  refine notMem_port h ⟨?_, ?_⟩ hdigit (List.getLast_mem hne)
  · intro heq
    rw [heq] at hblank
    exact absurd hblank (by decide)
  · intro heq
    rw [heq] at hblank
    exact absurd hblank (by decide)

/-! ## The two readers -/

section Readers

variable {host port : String}

/-- `splitHostPort` trims the text before it looks for the colon. -/
theorem splitHostPort_one_colon (hhost : ':' ∉ host.toList) (hport : ':' ∉ port.toList)
    (defHost : String) (defPort : Int) :
    splitHostPort (host ++ ":" ++ port) defHost defPort =
      (String.ofList (host.toList.dropWhile isSpace),
        (strconvAtoi (String.ofList (port.toList.rdropWhile isSpace))).getD defPort) := by
  have htext : (host ++ ":" ++ port).toList = host.toList ++ ':' :: port.toList := by
    simp
  have htrimmed := toList_trimSpace_around (by decide) htext
  have hne : trimSpace (host ++ ":" ++ port) ≠ "" := by
    intro h
    rw [h] at htrimmed
    simp at htrimmed
  have hleft : ':' ∉ host.toList.dropWhile isSpace := fun h =>
    hhost ((List.dropWhile_sublist _).subset h)
  have hright : ':' ∉ port.toList.rdropWhile isSpace := fun h =>
    hport ((List.rdropWhile_prefix _ _).subset h)
  have hsplit : (trimSpace (host ++ ":" ++ port)).toList.splitOn ':' =
      [host.toList.dropWhile isSpace, port.toList.rdropWhile isSpace] := by
    rw [htrimmed, List.splitOn_append_cons_self_of_not_mem hleft, List.splitOn_eq_singleton hright]
  unfold splitHostPort
  dsimp only
  rw [if_neg hne, hsplit]

theorem net_splitHostPort_plain {addr : String} (h : PlainAddress addr host port) :
    Net.splitHostPort addr = .ok (host, port) := by
  obtain ⟨rfl, hne, ⟨hcolon, hopen, hclose⟩, -, hnumber⟩ := h
  have htext : (host ++ ":" ++ port).toList = host.toList ++ ':' :: port.toList := by
    simp
  have hlast : splitLast ':' (host ++ ":" ++ port).toList = some (host.toList, port.toList) :=
    splitLast_eq_some.2 ⟨htext, notMem_port hnumber (by decide) (by decide)⟩
  have hnotOpen : '[' ∉ (host ++ ":" ++ port).toList := by
    rw [htext]
    simp [hopen, notMem_port hnumber (c := '[') (by decide) (by decide)]
  have hnotClose : ']' ∉ (host ++ ":" ++ port).toList := by
    rw [htext]
    simp [hclose, notMem_port hnumber (c := ']') (by decide) (by decide)]
  have hhead : (host ++ ":" ++ port).toList.head? ≠ some '[' := fun h =>
    hnotOpen (List.mem_of_mem_head? h)
  unfold Net.splitHostPort
  dsimp only
  rw [hlast]
  dsimp only
  rw [if_neg hhead, if_neg hcolon, if_neg hnotOpen, if_neg hnotClose, String.ofList_toList,
    String.ofList_toList]

/-- What `net.SplitHostPort` accepts is `host:port`, or the host of a text that begins with a bracket. -/
theorem net_splitHostPort_ok {addr : String} (h : Net.splitHostPort addr = .ok (host, port)) :
    (addr = host ++ ":" ++ port ∧ ':' ∉ port.toList ∧
        ':' ∉ host.toList ∧ '[' ∉ host.toList ∧ ']' ∉ host.toList) ∨
      (addr.toList.head? = some '[' ∧ '[' ∉ host.toList) := by
  unfold Net.splitHostPort at h
  dsimp only at h
  split at h
  · cases h
  · rename_i before after hlast
    obtain ⟨htext, hnotPort⟩ := splitLast_eq_some.1 hlast
    split at h
    · -- In brackets.
      rename_i hhead
      split at h
      · cases h
      · rename_i bracketed rest hfirst
        obtain ⟨hbracketed, -⟩ := splitFirst_eq_some.1 hfirst
        split at h
        · cases h
        · split at h
          · split at h
            · cases h
            · rename_i hopen
              split at h
              · cases h
              · cases h
                refine Or.inr ⟨hhead, fun hmem => hopen ?_⟩
                rw [String.toList_ofList] at hmem
                rw [hbracketed]
                cases bracketed with
                | nil => cases hmem
                | cons c bracketed => exact List.mem_append_left _ hmem
          · split at h
            · cases h
            · cases h
    · split at h
      · cases h
      · rename_i hcolon
        split at h
        · cases h
        · rename_i hopen
          split at h
          · cases h
          · rename_i hclose
            cases h
            rw [htext, List.mem_append, not_or] at hopen hclose
            refine Or.inl ⟨String.toList_inj.1 ?_, by simpa using hnotPort, by simpa using hcolon,
              by simpa using hopen.1, by simpa using hclose.1⟩
            rw [htext]
            simp

/-- A bracket in front stays in the profile. -/
theorem head_splitHostPort {addr : String} (h : addr.toList.head? = some '[') (defHost : String)
    (defPort : Int) : (splitHostPort addr defHost defPort).1.toList.head? = some '[' := by
  obtain ⟨rest, hrest⟩ := List.head?_eq_some_iff.1 h
  have htrimmed : (trimSpace addr).toList = '[' :: rest.rdropWhile isSpace :=
    @toList_trimSpace_around addr '[' [] rest (by decide) hrest
  have hne : trimSpace addr ≠ "" := by
    intro hempty
    rw [hempty] at htrimmed
    cases htrimmed
  unfold splitHostPort
  dsimp only
  rw [if_neg hne]
  split
  · rename_i first second hsplit
    rw [htrimmed, List.splitOn_cons_eq_if_modifyHead, if_neg (by decide)] at hsplit
    cases hrest : (rest.rdropWhile isSpace).splitOn ':' with
    | nil => exact absurd hrest (List.splitOn_ne_nil _ _)
    | cons piece pieces =>
        rw [hrest] at hsplit
        cases hsplit
        simp
  · rw [htrimmed]
    rfl

end Readers

/-! ## The two endpoints -/

/-- The endpoints that an address gives the profile and the console. -/
def profileEndpoint (addr : String) : String × Int :=
  splitHostPort addr "127.0.0.1" 6432

theorem sameEndpoint_of_plain {addr host port : String} (h : PlainAddress addr host port) :
    SameEndpoint (profileEndpoint addr) (host, port) := by
  have hcolon := notMem_port h.number (c := ':') (by decide) (by decide)
  obtain ⟨n, hn⟩ := Option.isSome_iff_exists.1 h.number
  have hprofile : profileEndpoint addr = (host, n) := by
    rw [profileEndpoint, h.text, splitHostPort_one_colon h.noMark.1 hcolon, h.noBlank,
      rdropWhile_port h.number, String.ofList_toList, String.ofList_toList, hn]
    rfl
  rw [hprofile]
  exact ⟨rfl, hn, h.host_ne, port_ne_empty h.number⟩

theorem plain_of_sameEndpoint {addr host port : String} (hok : Net.splitHostPort addr = .ok (host, port))
    (h : SameEndpoint (profileEndpoint addr) (host, port)) : PlainAddress addr host port := by
  have hhost : (profileEndpoint addr).1 = host := h.host
  rcases net_splitHostPort_ok hok with ⟨htext, hport, hmark⟩ | ⟨hhead, hnot⟩
  · refine ⟨htext, hhost ▸ h.host_ne, hmark, ?_, Option.isSome_iff_exists.2 ⟨_, h.port⟩⟩
    rw [profileEndpoint, htext, splitHostPort_one_colon hmark.1 hport] at hhost
    rw [← String.toList_inj, String.toList_ofList] at hhost
    exact hhost
  · -- The profile keeps the bracket that the console takes away.
    have hbracket := head_splitHostPort hhead "127.0.0.1" 6432
    rw [show splitHostPort addr "127.0.0.1" 6432 = profileEndpoint addr from rfl, hhost] at hbracket
    exact absurd (List.mem_of_mem_head? hbracket) hnot

theorem endpoint_of_ok {addr adminUser adminPass : String} {endpoint : String × String}
    (hne : addr ≠ "") (hok : Net.splitHostPort addr = .ok endpoint) :
    (newPgBouncer addr adminUser adminPass).endpoint = endpoint := by
  simp only [PgBouncer.endpoint, newPgBouncer, if_neg hne, hok]

/-- The error is ignored. -/
theorem endpoint_of_error {addr adminUser adminPass err : String} (hne : addr ≠ "")
    (herr : Net.splitHostPort addr = .error err) :
    (newPgBouncer addr adminUser adminPass).endpoint = ("", "") := by
  simp only [PgBouncer.endpoint, newPgBouncer, if_neg hne, herr]

theorem default_endpoint_iff (env : ConnEnv) (adminUser adminPass : String) :
    SameEndpoint (env.pgbouncerTransaction.host, env.pgbouncerTransaction.port)
        (newPgBouncer (getEnv env.pgbouncerAdminAddr "127.0.0.1:6432") adminUser adminPass).endpoint ↔
      env.pgbouncerAdminAddr = "" ∨ ∃ host port, PlainAddress env.pgbouncerAdminAddr host port := by
  have hprofile : (env.pgbouncerTransaction.host, env.pgbouncerTransaction.port) =
      profileEndpoint (getEnv env.pgbouncerAdminAddr "127.0.0.1:6432") := by
    unfold ConnEnv.pgbouncerTransaction profileEndpoint
    dsimp only
  rw [hprofile]
  by_cases hempty : env.pgbouncerAdminAddr = ""
  · -- Both readers get the default.
    have haddr : getEnv env.pgbouncerAdminAddr "127.0.0.1:6432" = "127.0.0.1:6432" := by
      rw [getEnv, if_neg (by simp [hempty])]
    have hconsole : (newPgBouncer "127.0.0.1:6432" adminUser adminPass).endpoint =
        ("127.0.0.1", "6432") :=
      endpoint_of_ok (by decide) (by decide +kernel)
    have hdefault : profileEndpoint "127.0.0.1:6432" = ("127.0.0.1", 6432) := by
      decide +kernel
    rw [haddr, hconsole, hdefault]
    have hport : strconvAtoi "6432" = some 6432 := by
      decide +kernel
    exact ⟨fun _ => Or.inl hempty, fun _ => ⟨rfl, hport, by simp, by simp⟩⟩
  · have haddr : getEnv env.pgbouncerAdminAddr "127.0.0.1:6432" = env.pgbouncerAdminAddr := by
      rw [getEnv, if_pos hempty]
    rw [haddr, or_iff_right hempty]
    constructor
    · intro h
      cases hok : Net.splitHostPort env.pgbouncerAdminAddr with
      | error err =>
          -- The console goes on without a host and a port.
          rw [endpoint_of_error hempty hok] at h
          exact absurd rfl h.port_ne
      | ok endpoint =>
          rw [endpoint_of_ok hempty hok] at h
          exact ⟨endpoint.1, endpoint.2, plain_of_sameEndpoint hok h⟩
    · rintro ⟨host, port, hplain⟩
      rw [endpoint_of_ok hempty (net_splitHostPort_plain hplain)]
      exact sameEndpoint_of_plain hplain

/-- Without a port the profile takes the default one, and the console gets no endpoint at all. -/
theorem default_endpoint_without_port :
    ¬ ∀ (env : ConnEnv) (adminUser adminPass : String),
      SameEndpoint (env.pgbouncerTransaction.host, env.pgbouncerTransaction.port)
        (newPgBouncer (getEnv env.pgbouncerAdminAddr "127.0.0.1:6432") adminUser adminPass).endpoint := by
  intro h
  have hconsole : (newPgBouncer (getEnv "pgbouncer.internal" "127.0.0.1:6432") "" "").endpoint =
      ("", "") := by
    decide +kernel
  have hsame := h { pgbouncerAdminAddr := "pgbouncer.internal" } "" ""
  rw [hconsole] at hsame
  exact hsame.port_ne rfl

end Service
end Pgaio
