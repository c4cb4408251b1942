/-
The other side of the wire, as a client knows it.

A client posts JSON text and gets a status and a body, or nothing at all: the peer may not be there,
or may hang up.
-/
import EmbedServer.Http.Status
import EmbedServer.Net.Url

namespace EmbedServer.Http

/-- What a client sends. -/
structure Posting where
  url : Net.Url
  authorization : Option String
  body : String
  deriving DecidableEq, Repr

/-- What a client gets. -/
structure Received where
  status : Status
  body : List UInt8
  deriving DecidableEq, Repr

/-- The bytes that count as the body. -/
def Received.content (r : Received) : List UInt8 := if r.status.hasBody then r.body else []

/-- A peer with a state. -/
structure Peer (σ : Type) where
  answer : σ → Posting → σ × Option Received

/-- A peer that is not there. -/
def Peer.absent : Peer Unit := ⟨fun _ _ => ((), none)⟩

/-- A peer at one host and port that answers from a script, the last answer over and over, and
remembers what it was sent.  Nobody answers for other hosts and ports. -/
def Peer.scripted (host : String) (port : Nat) (answers : List (Option Received)) :
    Peer (List Posting) where
  answer seen p :=
    if p.url.host = host ∧ p.url.port = port then
      (seen ++ [p], ((answers[seen.length]?.or answers.getLast?).getD (some ⟨200, []⟩)))
    else (seen, none)

/-- Whether a header can hold a character. -/
def isHeaderChar (c : Char) : Bool := decide ((0x20 ≤ c.toNat ∧ c.toNat ≠ 0x7F) ∨ c = '\t')

/-- The header that presents a token; none if no header can hold it.  Blanks at the end of a header
do not travel. -/
def bearer? (token : String) : Option String :=
  if token.toList.all isHeaderChar then
    some (String.ofList (Text.dropEndWhile (fun c => c = ' ' || c = '\t')
      ("Bearer " ++ token).toList))
  else none

end EmbedServer.Http
