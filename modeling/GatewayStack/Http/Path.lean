/-!
# Request paths

A path is normalized by taking away one slash at each end. What remains is cut
into segments at every slash, so inner slashes that follow one another leave
empty segments between them.

The functions work on lists of characters; `strip` is the one that callers
apply to a configured path.
-/

namespace GatewayStack.Path

/-- The text without one slash at its front. -/
def dropLeading : List Char → List Char
  | '/' :: rest => rest
  | text => text

def dropTrailing : List Char → List Char
  | [] => []
  | ['/'] => []
  | c :: rest => c :: dropTrailing rest

/-- The characters of a path without one slash at its front and one at its
end. -/
def stripChars (path : List Char) : List Char := dropTrailing (dropLeading path)

def strip (path : String) : String := String.ofList (stripChars path.toList)

/-- What stands between the slashes, one segment more than there are slashes. -/
def segments : List Char → List (List Char)
  | [] => [[]]
  | c :: rest =>
    if c = '/' then [] :: segments rest
    else
      match segments rest with
      | [] => [[c]]
      | segment :: more => (c :: segment) :: more

def slashes (path : List Char) : Nat := path.count '/'

/-- Everything before the last slash; empty when there is none. -/
def parent (path : List Char) : List Char :=
  match path.reverse.dropWhile (· ≠ '/') with
  | [] => []
  | _ :: before => before.reverse

/-- Everything after the last slash; the whole path when there is none. -/
def leaf (path : List Char) : List Char :=
  (path.reverse.takeWhile (· ≠ '/')).reverse

/-- Appends segments one by one to a path and lists every stage. A slash goes
in front of a segment only when something is before it. -/
def extensions (path : List Char) : List (List Char) → List (List Char)
  | [] => []
  | segment :: more =>
    let next := if path = [] then segment else path ++ '/' :: segment
    next :: extensions next more

/-- The path cut off at the end of each of its segments, shortest first. -/
def prefixes (path : List Char) : List (List Char) :=
  extensions [] (segments path)

end GatewayStack.Path
