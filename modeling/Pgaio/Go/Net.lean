import Pgaio.Go.Strings

/-!
# Net — `net.SplitHostPort`
-/

namespace Pgaio
namespace Go

/-- The text before and after the first such character. -/
def splitFirst (c : Char) : List Char → Option (List Char × List Char)
  | [] => none
  | d :: s =>
      if d = c then some ([], s) else (splitFirst c s).map fun (before, rest) => (d :: before, rest)

/-- The text before and after the last such character. -/
def splitLast (c : Char) (s : List Char) : Option (List Char × List Char) :=
  (splitFirst c s.reverse).map fun (after, before) => (before.reverse, after.reverse)

namespace Net

/-- The text of an `AddrError`. -/
def addrError (addr why : String) : String :=
  "address " ++ addr ++ ": " ++ why

def missingPort : String := "missing port in address"
def tooManyColons : String := "too many colons in address"

/-- The host and the port of `host:port` and `[host]:port`. -/
def splitHostPort (hostport : String) : Except String (String × String) :=
  let s := hostport.toList
  -- The port starts after the last colon.
  match splitLast ':' s with
  | none => .error (addrError hostport missingPort)
  | some (before, port) =>
      if s.head? = some '[' then
        match splitFirst ']' s with
        | none => .error (addrError hostport "missing ']' in address")
        | some (bracketed, rest) =>
            if rest = [] then .error (addrError hostport missingPort)
            else if bracketed.length + 1 = before.length then
              -- The bracket closes just before the last colon.
              if '[' ∈ s.tail then .error (addrError hostport "unexpected '[' in address")
              else if ']' ∈ rest then .error (addrError hostport "unexpected ']' in address")
              else .ok (String.ofList bracketed.tail, String.ofList port)
            else if rest.head? = some ':' then .error (addrError hostport tooManyColons)
            else .error (addrError hostport missingPort)
      else if ':' ∈ before then .error (addrError hostport tooManyColons)
      else if '[' ∈ s then .error (addrError hostport "unexpected '[' in address")
      else if ']' ∈ s then .error (addrError hostport "unexpected ']' in address")
      else .ok (String.ofList before, String.ofList port)

example : splitHostPort "[::1]:6432" = .ok ("::1", "6432") := by decide +kernel

end Net
end Go
end Pgaio
