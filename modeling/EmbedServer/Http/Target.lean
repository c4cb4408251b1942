/-
The target of a request: what it asks for on the server.

A target is a path with an optional query.  It may come with a scheme and an authority in front,
which the server does not look at; a mark-off for the client alone is dropped.  An authority by
itself is a target without a path.
-/
import EmbedServer.Text.Blank
import EmbedServer.Text.Percent

namespace EmbedServer.Http

structure Target where
  path : String
  query : Option String
  deriving DecidableEq, Repr

namespace Target

/-- Whether a character is beyond ASCII or deletes. -/
def isBeyond (c : Char) : Bool := decide (0x7F ≤ c.toNat)

/-- Whether a path may hold a character. -/
def isPathChar (c : Char) : Bool :=
  isBeyond c || (decide (0x21 ≤ c.toNat) && !(['#', '<', '>', '?', Char.ofNat 0x60].contains c))

/-- Whether a query may hold a character. -/
def isQueryChar (c : Char) : Bool :=
  isBeyond c || (decide (0x21 ≤ c.toNat) && !(['"', '#', '<', '>'].contains c))

/-- The target that starts with its path; the path may be left out. -/
def ofPath? (cs : List Char) : Option Target :=
  let cs := cs.takeWhile (· != '#')
  let path := cs.takeWhile (· != '?')
  let query := match cs.dropWhile (· != '?') with
    | [] => none
    | _ :: rest => some rest
  if path.all isPathChar && (query.getD []).all isQueryChar then
    some ⟨if path.isEmpty then "/" else String.ofList path, query.map String.ofList⟩
  else none

/-- Whether a scheme may hold a character. -/
def isSchemeChar (c : Char) : Bool := c.isAlphanum || c = '+' || c = '-' || c = '.'

/-- Whether an authority may hold a character. -/
def isAuthorityChar (c : Char) : Bool :=
  c.isAlphanum || ['!', '$', '&', Char.ofNat 0x27, '(', ')', '*', '+', ',', '-', '.', ':', ';', '=',
    '@', '[', ']', '_', '~'].contains c

/-- Whether a text is an authority: perhaps a user, then a host, perhaps with a port. -/
def isAuthority (cs : List Char) : Bool :=
  let user := cs.contains '@'
  let place := (cs.reverse.takeWhile (· != '@')).reverse
  let named := place.takeWhile (· != ']')
  let port := if place.contains ']' then place.drop named.length else place
  !cs.isEmpty && (!user || !place.isEmpty)
    && (cs.take (cs.length - place.length)).all (fun c => isAuthorityChar c || c = '%')
    && place.all isAuthorityChar
    && cs.count '[' == cs.count ']' && cs.count '[' ≤ 1
    && port.count ':' ≤ 1

/-- The longest target a request can have. -/
def maxLength : Nat := 65534

/-- The target that a text spells. -/
def read? (text : String) : Option Target :=
  if maxLength < text.utf8ByteSize then none
  else match text.toList with
    | '/' :: rest => ofPath? ('/' :: rest)
    | ['*'] => some ⟨"*", none⟩
    | cs =>
      let scheme := cs.takeWhile isSchemeChar
      match scheme, cs.drop scheme.length with
      | _ :: _, ':' :: '/' :: '/' :: rest =>
        let isEnd (c : Char) : Bool := c = '/' || c = '?' || c = '#'
        if isAuthority (rest.takeWhile (!isEnd ·)) then ofPath? (rest.dropWhile (!isEnd ·)) else none
      | _, _ => if isAuthority cs then some ⟨"", none⟩ else none

/-- The parameters in a query, in order.  A plus sign stands for a space, and bytes that spell no
text are replaced. -/
def parameters (t : Target) : List (String × String) :=
  ((Text.splitAt '&' (t.query.getD "").toList).filter (!·.isEmpty)).map fun part =>
    let name := part.takeWhile (· != '=')
    (plain name, plain (part.drop (name.length + 1)))
where
  /-- The text that a name or a value stands for. -/
  plain (cs : List Char) : String :=
    let spaced := String.ofList (cs.map fun c => if c = '+' then ' ' else c)
    Utf8.decodeLossy (Text.Percent.decode (Utf8.encode spaced))

end Target

end EmbedServer.Http
