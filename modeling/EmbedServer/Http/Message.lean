/-
Requests as the server gets them, and the responses it gives.

A request's names are in lower case, and its body comes in pieces; how it was cut makes no difference
to what it says.  A response has its body as a whole, or follows a key and never says how long it
will be.
-/
import EmbedServer.Call.Context
import EmbedServer.Call.Message
import EmbedServer.Http.Peer
import EmbedServer.Http.Target

namespace EmbedServer.Http

/-- A header: its name and the bytes of its value. -/
abbrev Header := String × List UInt8

/-- Whether a name may hold a character. -/
def isNameChar (c : Char) : Bool :=
  c.isAlphanum || ['!', '#', '$', '%', '&', Char.ofNat 0x27, '*', '+', '-', '.', '^', '_',
    Char.ofNat 0x60, '|', '~'].contains c

/-- Whether a text can name a method or a header. -/
def isName (s : String) : Bool := !s.isEmpty && s.toList.all isNameChar

/-- Whether a value may hold a byte. -/
def isValueByte (b : UInt8) : Bool := (0x20 ≤ b && b != 0x7F) || b = 9

/-- Whether a byte is visible in ASCII, or a blank. -/
def isPlainByte (b : UInt8) : Bool := (0x20 ≤ b && b < 0x7F) || b = 9

/-- The text of a value of plain bytes. -/
def plainText? (value : List UInt8) : Option String :=
  if value.all isPlainByte then some (Utf8.decodeLossy value) else none

structure Request where
  method : String
  target : Target
  headers : List Header
  /-- The pieces of the body. -/
  pieces : List (List UInt8)
  deriving DecidableEq, Repr

namespace Request

/-- A request with this method, target and these headers, if it can be one. -/
def read? (method target : String) (headers : List Header) (pieces : List (List UInt8)) :
    Option Request := do
  let target ← Target.read? target
  if isName method && headers.all fun h => isName h.1 && h.2.all isValueByte then
    some ⟨method, target, headers.map fun h => (Text.lower h.1, h.2), pieces⟩
  else none

/-- The first value of a header. -/
def header? (r : Request) (name : String) : Option (List UInt8) := r.headers.lookup name

/-- The body in one piece. -/
def body (r : Request) : List UInt8 := r.pieces.flatten

/-- What calls learn of the headers: the last plain value under each name, but no credentials. -/
def metadata (r : Request) : Call.Metadata :=
  r.headers.foldl (fun m (name, value) =>
    if name = "authorization" then m
    else match plainText? value with
      | some s => m.set name s
      | none => m) []

end Request

/-- What a response says after its headers. -/
inductive Content where
  | whole (text : String)
  /-- Whatever becomes of a key. -/
  | following (key : String)
  deriving DecidableEq, Repr

structure Response where
  status : Status
  headers : List (String × String)
  content : Content
  deriving DecidableEq, Repr

namespace Response

/-- A response with a text whose length is told. -/
def ofText (status : Status) (headers : List (String × String)) (text : String) : Response :=
  ⟨status, headers ++ [("content-length", toString text.utf8ByteSize)], .whole text⟩

/-- A response that is nothing but its status. -/
def empty (status : Status) (headers : List (String × String)) : Response :=
  ofText status headers ""

def plain (status : Status) (text : String) : Response :=
  ofText status [("content-type", "text/plain; charset=utf-8")] text

def json (status : Status) (v : Json.Value) : Response :=
  ofText status [("content-type", "application/json")] v.render

/-- The response that carries an error of the services. -/
def ofError (e : Call.Error) : Response := json e.code.httpStatus e.toJson

/-- A response that follows a key. -/
def events (key : String) : Response :=
  ⟨200, [("content-type", "text/event-stream"), ("cache-control", "no-cache")], .following key⟩

/-- The response without what comes after the headers. -/
def headOnly (r : Response) : Response := { r with content := .whole "" }

/-- The response as a client gets it, if it is a whole one. -/
def received? (r : Response) : Option Received :=
  match r.content with
  | .whole text => some ⟨r.status, Utf8.encode text⟩
  | .following _ => none

end Response

end EmbedServer.Http
