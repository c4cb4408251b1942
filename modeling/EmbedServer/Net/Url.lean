/-
Where a client sends its requests.

An address has a host, a port and a target: the path and the query that the server is shown.  On the
way into the target, steps that stand for no or for the upper directory are taken, and bytes that may
not stand for themselves are written as `%` and two digits.
-/
import EmbedServer.Net.Address
import EmbedServer.Text.Percent

namespace EmbedServer.Net

structure Url where
  host : String
  port : Nat
  /-- Path and query. -/
  target : String
  deriving DecidableEq, Repr

namespace Url

/-- Whether a character is a visible ASCII character other than those given. -/
def isVisibleBut (others : List Char) (c : Char) : Bool :=
  decide (0x21 ≤ c.toNat ∧ c.toNat ≤ 0x7E) && !others.contains c

/-- The characters that stand for themselves in a path. -/
def isPathChar : Char → Bool := isVisibleBut ['"', '#', '<', '>', '?', Char.ofNat 0x60, '{', '}']

/-- The characters that stand for themselves in a query. -/
def isQueryChar : Char → Bool := isVisibleBut ['"', '#', '<', '>', Char.ofNat 0x27]

/-- Whether a character separates the parts of a path. -/
def isSlash (c : Char) : Bool := c = '/' || c = '\\'

/-- The parts of a path between slashes; always at least one. -/
def segments : List Char → List (List Char)
  | [] => [[]]
  | c :: rest =>
    if isSlash c then [] :: segments rest
    else match segments rest with
      | first :: more => (c :: first) :: more
      | [] => [[c]]

/-- A part of a path in which escaped dots are dots. -/
def dotted (segment : List Char) : List Char :=
  match segment.map Char.toLower with
  | '%' :: '2' :: 'e' :: rest => '.' :: dottedEnd rest
  | cs => dottedEnd cs
where
  /-- The same from the second place on. -/
  dottedEnd : List Char → List Char
    | ['.', '%', '2', 'e'] => ['.', '.']
    | ['%', '2', 'e'] => ['.']
    | cs => cs

/-- Takes the steps of a path; `done` are the parts so far, the last one first. -/
def resolve (done : List (List Char)) : List (List Char) → List (List Char)
  | [] => done.reverse
  | [last] =>
    if dotted last = ['.'] then ([] :: done).reverse
    else if dotted last = ['.', '.'] then ([] :: done.drop 1).reverse
    else (last :: done).reverse
  | part :: more =>
    if dotted part = ['.'] then resolve done more
    else if dotted part = ['.', '.'] then resolve (done.drop 1) more
    else resolve (part :: done) more

/-- The path that a text spells, starting with a slash. -/
def path (cs : List Char) : List Char :=
  let cs := match cs with
    | c :: rest => if isSlash c then rest else c :: rest
    | [] => []
  (resolve [] (segments cs)).flatMap fun part => '/' :: Text.Percent.encode isPathChar part

/-- The target in what follows the authority. -/
def targetOf (cs : List Char) : String :=
  let cs := cs.takeWhile (· != '#')
  let query := match cs.dropWhile (· != '?') with
    | [] => []
    | mark :: rest => mark :: Text.Percent.encode isQueryChar rest
  String.ofList (path (cs.takeWhile (· != '?')) ++ query)

/-- The characters that no host has. -/
def isForbiddenInHost (c : Char) : Bool :=
  decide (c.toNat ≤ 0x20 ∨ c.toNat = 0x7F)
    || ['#', '/', '<', '>', '?', '@', '[', '\\', ']', '^', '|', '%', ':'].contains c

/-- The host and the port of an authority, for a scheme with the given port. -/
def readAuthority? (otherwise : Nat) (cs : List Char) : Option (String × Nat) := do
  let cs := (cs.reverse.takeWhile (· != '@')).reverse
  let host := cs.takeWhile (· != ':')
  if host.isEmpty || host.any isForbiddenInHost then none
  else
    let port ← match cs.dropWhile (· != ':') with
      | [] | [_] => some otherwise
      | _ :: digits => number? 65536 digits
    some (String.ofList (host.map Char.toLower), port)

/-- The address that a text spells, if it is one that can be reached over HTTP. -/
def read? (text : String) : Option Url := do
  let isEdge (c : Char) : Bool := decide (c.toNat ≤ 0x20)
  let cs := Text.dropEndWhile isEdge (text.toList.dropWhile isEdge)
  let cs := cs.filter fun c => c != '\t' && c != '\n' && c != '\r'
  let scheme := String.ofList ((cs.takeWhile (· != ':')).map Char.toLower)
  let otherwise ← if scheme = "http" then some 80 else if scheme = "https" then some 443 else none
  let rest := (cs.dropWhile (· != ':')).drop 1
  if rest.isEmpty then none
  else
    let rest := rest.dropWhile isSlash
    let isEnd (c : Char) : Bool := isSlash c || c = '?' || c = '#'
    let (host, port) ← readAuthority? otherwise (rest.takeWhile (!isEnd ·))
    some ⟨host, port, targetOf (rest.dropWhile (!isEnd ·))⟩

end Url

end EmbedServer.Net
