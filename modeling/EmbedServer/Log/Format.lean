/-
How events are written: as JSON objects, or as lines for people to read.

A line has the level, the message, and the fields with their names.  Texts in fields are quoted.  In
messages the characters that could steer a terminal are written by their numbers.
-/
import EmbedServer.Json.Value
import EmbedServer.Log

namespace EmbedServer.Log

inductive Format where
  | json
  | line
  deriving DecidableEq, Repr

/-- The format of a name. -/
def Format.ofName (name : String) : Format := if name = "json" then .json else .line

/-- Something written to the log. -/
inductive Entry where
  | object (v : Json.Value)
  | line (text : String)

/-- The text of an entry, as it is written. -/
def Entry.text : Entry → String
  | .object v => v.render
  | .line text => text

/-- A field's value in JSON. -/
def Value.toJson : Value → Json.Value
  | .text s | .shown s => .text s
  | .flag b => .flag b
  | .whole n => .whole n

/-- An event in JSON. -/
def Event.toJson (e : Event) : Json.Value :=
  .object [("level", .text e.level.name),
    ("fields", .object (("message", .text e.message) :: e.fields.map fun (k, v) => (k, v.toJson))),
    ("target", .text e.origin.target)]

/-- A character of a message. -/
def messageChar (c : Char) : List Char :=
  let n := c.toNat
  if n = 0x1B || n = 0x07 || n = 0x08 || n = 0x0C || n = 0x7F then
    ['\\', 'x'] ++ (if n < 16 then ['0'] else []) ++ Nat.toDigits 16 n
  else if 0x80 ≤ n && n ≤ 0x9F then ['\\', 'u', '\x7b'] ++ Nat.toDigits 16 n ++ ['\x7d']
  else [c]

/-- A field's value on a line. -/
def Value.onLine : Value → String
  | .text s => Text.quoted s
  | v => v.plain

/-- A level, five characters wide. -/
def Level.padded (l : Level) : String :=
  String.ofList (List.replicate (5 - l.name.length) ' ') ++ l.name

/-- An event on a line. -/
def Event.line (e : Event) : String :=
  e.level.padded ++ " " ++ String.ofList (e.message.toList.flatMap messageChar)
    ++ String.join (e.fields.map fun (k, v) => " " ++ k ++ "=" ++ v.onLine)

/-- An event in a format. -/
def Event.inFormat (e : Event) : Format → Entry
  | .json => .object e.toJson
  | .line => .line e.line

end EmbedServer.Log
