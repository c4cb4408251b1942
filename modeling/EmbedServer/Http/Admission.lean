/-
Which bodies get in.

A limit on the size of bodies is held up in two places.  A declared size over the limit refuses the
request before anybody looks at it.  After that, no more bytes are taken than the limit and the
declared size allow; a body that brings more cannot be read.  What can be read must be said to be
JSON and must be the message that the route takes.
-/
import EmbedServer.Http.ContentType

namespace EmbedServer.Http

/-- The size that a request declares, if that is a number a machine word can hold. -/
def Request.declared? (r : Request) : Option Nat := do
  let text ← plainText? (← r.header? "content-length")
  let digits := match text.toList with
    | '+' :: rest => rest
    | cs => cs
  Net.number? UInt64.size digits

/-- How bodies are limited; a limit of zero is none. -/
abbrev Limit := Nat

/-- Whether a request is refused for the size it declares. -/
def Request.declaresTooMuch (r : Request) (limit : Limit) : Bool :=
  limit != 0 && r.declared?.any (limit < ·)

/-- How many bytes are taken at most; `none` if any number is. -/
def Request.allowance? (r : Request) (limit : Limit) : Option Nat :=
  if limit = 0 then none else some (min limit (r.declared?.getD limit))

/-- Whether the body brings more bytes than are taken. -/
def Request.overflows (r : Request) (limit : Limit) : Bool :=
  (r.allowance? limit).any (· < r.body.length)

/-- Why a body is not the message that was expected. -/
inductive Rejection where
  | notJson
  | tooLong
  | malformed (input : List UInt8) (e : Json.Failure)

namespace Rejection

/-- The path to the offending part, and what is wrong with it. -/
def describe (input : List UInt8) (e : Json.Failure) : String :=
  match Json.describePath e.path with
  | "" => e.message input
  | path => path ++ ": " ++ e.message input

def message : Rejection → String
  | .notJson => "Expected request with `Content-Type: application/json`"
  | .tooLong => "Failed to buffer the request body: length limit exceeded"
  | .malformed input e =>
    (match e.fault.category with
      | .shape => "Failed to deserialize the JSON body into the target type: "
      | _ => "Failed to parse the request body as JSON: ") ++ describe input e

end Rejection

/-- The message in the body of a request.  What follows it in the body does not matter. -/
def Request.readBody {α : Type} (r : Request) (limit : Limit) (shape : Json.Reader α) :
    Except Rejection α :=
  if !r.saysJson then .error .notJson
  else if r.overflows limit then .error .tooLong
  else match Json.Reader.runFront shape r.body with
    | .ok a => .ok a
    | .error e => .error (.malformed r.body e)

end EmbedServer.Http
