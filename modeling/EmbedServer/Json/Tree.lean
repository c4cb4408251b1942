/-
Reading a JSON value that is already in memory into the shape that is asked for.

A failure has no position here.  The fields of an object are taken in the order of their names, and
of two fields with one name the later one counts, so a field is never met twice.
-/
import EmbedServer.Json.Value

namespace EmbedServer.Json

open Schema

/-- A reader of values. -/
def FromValue (α : Type) : Type := Value → Except Mismatch α

namespace FromValue

instance : Functor FromValue where
  map f r := fun v => match r v with
    | .ok a => .ok (f a)
    | .error e => .error e

/-- The value has another kind than `expected`. -/
def refuse {α : Type} (v : Value) (expected : String) : Except Mismatch α :=
  .error (.kind v.found expected)

def text : FromValue String
  | .text s => .ok s
  | v => refuse v "a string"

def flag : FromValue Bool
  | .flag b => .ok b
  | v => refuse v "a boolean"

def natural (w : Width) : FromValue Nat
  | .whole n => if w.fits n then .ok n.toNat else .error (.range (.whole n) w.name)
  | v => refuse v w.name

def double : FromValue Float
  | .whole n => .ok (if n < 0 then -(n.natAbs.toUInt64.toFloat) else n.natAbs.toUInt64.toFloat)
  | .real x => .ok x
  | v => refuse v "f64"

def optional {α : Type} (r : FromValue α) : FromValue (Option α)
  | .null => .ok none
  | v => match r v with
    | .ok a => .ok (some a)
    | .error e => .error e

def list {α : Type} (r : FromValue α) : FromValue (List α)
  | .list items => items.mapM r
  | v => refuse v "a sequence"

def choice {α : Type} (choices : List (String × α)) : FromValue α
  | .text s => pick s
  | .object [(s, .null)] => pick s
  | .object [(s, v)] => pick s >>= fun _ => refuse v "unit"
  | .object _ => .error (.range .table "map with a single key")
  | v => refuse v "string or map"
where
  /-- The choice named by a word. -/
  pick (s : String) : Except Mismatch α :=
    match choices.lookup s with
    | some a => .ok a
    | none => .error (.choice s (choices.map Prod.fst))

/-- The members of an object sorted by name, each name once, with its last value. -/
def sortedMembers (members : List (String × Value)) : List (String × Value) :=
  members.foldl insert []
where
  /-- Puts a member in its place, over an earlier one of the same name. -/
  insert : List (String × Value) → String × Value → List (String × Value)
    | [], m => [m]
    | n :: rest, m =>
      if m.1 < n.1 then m :: n :: rest
      else if m.1 = n.1 then m :: rest
      else n :: insert rest m

/-- The members that are fields of the record, applied to it in turn. -/
def applyMembers {α : Type} (fields : List (Field FromValue α)) :
    List (String × Value) → α → Except Mismatch α
  | [], a => .ok a
  | (name, v) :: rest, a =>
    match fields.find? (·.name == name) with
    | none => applyMembers fields rest a
    | some f => match f.read v with
      | .ok set => applyMembers fields rest (set a)
      | .error e => .error e

/-- The items of a list as the record's fields in order. -/
def applyItems {α : Type} (expected : String) :
    List (Field FromValue α) → List Value → (index : Nat) → α → Except Mismatch α
  | [], _, _, a => .ok a
  | f :: more, v :: rest, index, a => match f.read v with
    | .ok set => applyItems expected more rest (index + 1) (set a)
    | .error e => .error e
  | f :: more, [], index, a =>
    if f.presence = .free then applyItems expected more [] (index + 1) a
    else .error (.length index expected)

def record {α : Type} (name : String) (init : α) (fields : List (Field FromValue α)) : FromValue α
  | .object members =>
    match applyMembers fields (sortedMembers members) init with
    | .error e => .error e
    | .ok a => match missingField fields (members.map Prod.fst) with
      | some field => .error (.missing field)
      | none => .ok a
  | .list items =>
    match applyItems (describeLength name fields.length) fields items 0 init with
    | .error e => .error e
    | .ok a =>
      if items.length ≤ fields.length then .ok a
      else .error (.length items.length "fewer elements in array")
  | v => refuse v ("struct " ++ name)

instance : Source FromValue where
  text := text
  flag := flag
  natural := natural
  real := double
  optional := optional
  list := list
  choice _ := choice
  record := record

end FromValue

end EmbedServer.Json
