/-
What can be wrong with JSON text.

A fault is noticed at a byte.  For a fault seen before a byte is taken, the position counts that byte
as well.  Lines and columns are worked out from the whole input only when a message is made.
-/
import EmbedServer.Schema.Mismatch

namespace EmbedServer.Json

/-- The cause of a failure to read. -/
inductive Fault where
  | endInList
  | endInObject
  | endInText
  | endInValue
  | expectedColon
  | expectedListComma
  | expectedObjectComma
  | expectedWord
  | expectedValue
  | invalidEscape
  | invalidNumber
  | numberOutOfRange
  | invalidCharacter
  | controlCharacter
  | keyNotText
  | loneSurrogate
  | trailingComma
  | trailingCharacters
  | unfinishedPair
  | mismatch (m : Schema.Mismatch)

/-- The three classes of faults: the text is wrong, it stops too early, or it is JSON of another
shape. -/
inductive Fault.Category where
  | wording
  | ending
  | shape
  deriving DecidableEq, Repr

namespace Fault

def category : Fault → Category
  | .endInList | .endInObject | .endInText | .endInValue => .ending
  | .mismatch _ => .shape
  | _ => .wording

def message : Fault → String
  | .endInList => "EOF while parsing a list"
  | .endInObject => "EOF while parsing an object"
  | .endInText => "EOF while parsing a string"
  | .endInValue => "EOF while parsing a value"
  | .expectedColon => "expected `:`"
  | .expectedListComma => "expected `,` or `]`"
  | .expectedObjectComma => "expected `,` or `\x7d`"
  | .expectedWord => "expected ident"
  | .expectedValue => "expected value"
  | .invalidEscape => "invalid escape"
  | .invalidNumber => "invalid number"
  | .numberOutOfRange => "number out of range"
  | .invalidCharacter => "invalid unicode code point"
  | .controlCharacter => "control character (\\u0000-\\u001F) found while parsing a string"
  | .keyNotText => "key must be a string"
  | .loneSurrogate => "lone leading surrogate in hex escape"
  | .trailingComma => "trailing comma"
  | .trailingCharacters => "trailing characters"
  | .unfinishedPair => "unexpected end of hex escape"
  | .mismatch m => m.describe Decimal.json

end Fault

/-- One step from a value to a part of it. -/
inductive Step where
  | field (name : String)
  | item (index : Nat)

/-- Where in a value a part stands, from the outside in; nothing for the whole value. -/
def describePath : List Step → String
  | [] => ""
  | .field name :: rest => name ++ describeRest rest
  | .item index :: rest => "[" ++ toString index ++ "]" ++ describeRest rest
where
  /-- The steps after the first. -/
  describeRest : List Step → String
    | [] => ""
    | .field name :: rest => "." ++ name ++ describeRest rest
    | .item index :: rest => "[" ++ toString index ++ "]" ++ describeRest rest

/-- A fault, the number of bytes up to and including the place it was noticed at, and the part of
the value that was being read. -/
structure Failure where
  fault : Fault
  offset : Nat
  path : List Step := []

/-- The failure with one more step in front of its path. -/
def Failure.within (step : Step) (e : Failure) : Failure := { e with path := step :: e.path }

/-- A line and a column, both counted in bytes; the first line is 1. -/
structure Position where
  line : Nat
  column : Nat
  deriving DecidableEq, Repr

/-- The position after the bytes of `seen`. -/
def Position.after (seen : List UInt8) : Position :=
  seen.foldl (fun p b => if b = 10 then ⟨p.line + 1, 0⟩ else ⟨p.line, p.column + 1⟩) ⟨1, 0⟩

/-- The failure in words, with the line and column it has in `input`. -/
def Failure.message (input : List UInt8) (e : Failure) : String :=
  let p := Position.after (input.take e.offset)
  e.fault.message ++ " at line " ++ toString p.line ++ " column " ++ toString p.column

end EmbedServer.Json
