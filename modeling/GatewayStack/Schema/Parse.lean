import GatewayStack.Schema.Descriptor
import GatewayStack.StableSort

/-!
# Reading a list of descriptors

Every descriptor is read on its own; those that are accepted are then checked
against one another, since two of them may not claim the same path and verb,
and a CORS preflight claims `OPTIONS` on its path. Rejected descriptors claim
nothing.

The check goes over the accepted proxies twice. The first pass notes where a
route is claimed first and where the preflight of a path is enabled first, and
finds the routes that are claimed again. The second pass finds the proxies that
claim the verb of a preflight, which may be enabled behind them. In the end all
errors are sorted by the positions of their descriptors.
-/

namespace GatewayStack.Schema

/-- An accepted proxy and its position in the configured list. -/
abbrev Placed := Nat × ServiceProxy

/-- Reads the descriptors of a list one by one, from some position on: the
accepted proxies, with their positions, and what is wrong with the others. -/
def readFrom (start : Nat) : List Json → List Placed × List SchemaError
  | [] => ([], [])
  | descriptor :: rest =>
    let (placed, rejected) := readFrom (start + 1) rest
    match readDescriptor descriptor with
    | .ok proxy => ((start, proxy) :: placed, rejected)
    | .error violation => (placed, ⟨start, violation⟩ :: rejected)

/-- Positions by key. -/
abbrev Positions (κ : Type) := List (κ × Nat)

/-- Notes a position under a key that has none so far. -/
def Positions.note {κ : Type} [BEq κ] (positions : Positions κ) (key : κ)
    (index : Nat) : Positions κ :=
  match positions.lookup key with
  | some _ => positions
  | none => (key, index) :: positions

/-- What the first pass has noted. -/
structure Noted where
  /-- Where the verb of a path is claimed first. -/
  routes : Positions (String × Verb)
  /-- Where the preflight of a path is enabled first. -/
  preflights : Positions String

namespace Noted

def none : Noted := ⟨[], []⟩

def add (noted : Noted) (index : Nat) (proxy : ServiceProxy) : Noted where
  routes := noted.routes.note (proxy.path, proxy.http.verb) index
  preflights :=
    if proxy.http.cors.isSome then noted.preflights.note proxy.path index
    else noted.preflights

/-- The route of a proxy is claimed already. -/
def duplicate? (noted : Noted) (index : Nat) (proxy : ServiceProxy) :
    Option SchemaError :=
  (noted.routes.lookup (proxy.path, proxy.http.verb)).map fun first =>
    ⟨index, some proxy.service, ["method"],
      .duplicateRoute first proxy.path proxy.http.verb⟩

/-- A proxy claims the verb of a preflight that it or another one enables. -/
def conflict? (noted : Noted) (index : Nat) (proxy : ServiceProxy) :
    Option SchemaError :=
  if proxy.http.verb = .options then
    (noted.preflights.lookup proxy.path).map fun enabledBy =>
      let field := if enabledBy = index then "cors" else "method"
      ⟨index, some proxy.service, [field],
        .preflightConflict enabledBy proxy.path⟩
  else Option.none

end Noted

/-- The first pass, with what was noted before: the routes that are claimed
again, and what is noted in the end. -/
def firstPass (noted : Noted) : List Placed → List SchemaError × Noted
  | [] => ([], noted)
  | (index, proxy) :: rest =>
    let (errors, all) := firstPass (noted.add index proxy) rest
    ((noted.duplicate? index proxy).toList ++ errors, all)

/-- The second pass, with everything noted. -/
def secondPass (noted : Noted) : List Placed → List SchemaError
  | [] => []
  | (index, proxy) :: rest =>
    (noted.conflict? index proxy).toList ++ secondPass noted rest

/-- The routes that accepted proxies share. -/
def routeConflicts (placed : List Placed) : List SchemaError :=
  let (duplicates, noted) := firstPass Noted.none placed
  duplicates ++ secondPass noted placed

/-- The accepted proxies of a list, and everything that is wrong with it in the
order of the descriptors. -/
def check (descriptors : List Json) : List Placed × List SchemaError :=
  let (placed, rejected) := readFrom 0 descriptors
  (placed, StableSort.sort SchemaError.index
    (rejected ++ routeConflicts placed))

end Schema

/-- The proxies that a list of descriptors describes, or everything that is
wrong with it. -/
def parse (descriptors : List Json) :
    Except ValidationError (List ServiceProxy) :=
  match Schema.check descriptors with
  | (placed, []) => .ok (placed.map Prod.snd)
  | (_, first :: others) => .error ⟨first, others⟩

end GatewayStack
