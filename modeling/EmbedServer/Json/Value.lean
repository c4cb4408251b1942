/-
JSON values and their text.

The text has no white space and keeps the order of the fields.  Quotes, backslashes and control
characters are escaped; every other character stands for itself.
-/
import EmbedServer.Decimal.Style
import EmbedServer.Json.Typed

namespace EmbedServer.Json

/-- A JSON value.  A whole number and a double are told apart. -/
inductive Value where
  | null
  | flag (b : Bool)
  | whole (n : Int)
  | real (x : Float)
  | text (s : String)
  | list (items : List Value)
  | object (fields : List (String × Value))
  deriving Inhabited

/-- How one character is written inside quotes. -/
def escapedChar (c : Char) : List Char :=
  if c = '"' then ['\\', '"']
  else if c = '\\' then ['\\', '\\']
  else if c.toNat = 8 then ['\\', 'b']
  else if c.toNat = 12 then ['\\', 'f']
  else if c = '\n' then ['\\', 'n']
  else if c = '\r' then ['\\', 'r']
  else if c = '\t' then ['\\', 't']
  else if c.toNat < 32 then
    ['\\', 'u', '0', '0', Nat.digitChar (c.toNat / 16), Nat.digitChar (c.toNat % 16)]
  else [c]

/-- A text between quotes. -/
def quote (s : String) : String := String.ofList ('"' :: s.toList.flatMap escapedChar ++ ['"'])

namespace Value

mutual

/-- The text of a value. -/
def render : Value → String
  | .null => "null"
  | .flag b => if b then "true" else "false"
  | .whole n => toString n
  | .real x => Decimal.json.text x
  | .text s => quote s
  | .list items => "[" ++ String.intercalate "," (renderItems items) ++ "]"
  | .object fields => "\x7b" ++ String.intercalate "," (renderFields fields) ++ "\x7d"

/-- The texts of the items of a list. -/
def renderItems : List Value → List String
  | [] => []
  | v :: vs => v.render :: renderItems vs

/-- The texts of the fields of an object. -/
def renderFields : List (String × Value) → List String
  | [] => []
  | (name, v) :: rest => (quote name ++ ":" ++ v.render) :: renderFields rest

end

/-- A list of numbers. -/
def reals (xs : List Float) : Value := .list (xs.map .real)

/-- The text, or null. -/
def ofOption (s : Option String) : Value := s.elim .null .text

/-- The value of a field; of two with one name the later one counts. -/
def get? (v : Value) (name : String) : Option Value :=
  match v with
  | .object fields => fields.reverse.lookup name
  | _ => none

/-- What the value is called in a message. -/
def found : Value → Schema.Found
  | .null => .null
  | .flag b => .flag b
  | .whole n => .whole n
  | .real x => .real x
  | .text s => .text s
  | .list _ => .list
  | .object _ => .table

end Value

/-- The number that a JSON number denotes. -/
def Value.ofNumber : Reader.Number → Value
  | .whole n => .whole n
  | .real x => .real x

namespace Reader

/-- Any value; `fuel` bounds how deep it nests. -/
def value : (fuel : Nat) → Reader Value
  | 0 => fail .expectedValue
  | fuel + 1 => do
    let b ← start
    if b = 110 then
      advance
      word [117, 108, 108]
      pure .null
    else if b = 116 || b = 102 then .flag <$> flag
    else if b = 45 || isDigit b then Value.ofNumber <$> number "a number"
    else if b = 34 then .text <$> text
    else if b = 91 then .list <$> list (value fuel)
    else if b = 123 then
      advance
      let c ← get
      let fields ← members fuel (c.rest.length + 1) true
      advance
      pure (.object fields)
    else failNext .expectedValue
where
  /-- The members of an object, up to its closing bracket. -/
  members (fuel : Nat) : (count : Nat) → (first : Bool) → Reader (List (String × Value))
    | 0, _ => fail .endInObject
    | count + 1, first => do
      if ← anotherKey first then
        advance
        let key ← quoted
        colon
        let v ← value fuel
        let more ← members fuel count false
        pure ((key, v) :: more)
      else pure []

end Reader

/-- The value that a text spells. -/
def parse (input : List UInt8) : Except Failure Value :=
  Reader.run (Reader.value (input.length + 1)) input

end EmbedServer.Json
