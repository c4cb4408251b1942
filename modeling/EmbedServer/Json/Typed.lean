/-
Reading JSON text straight into the shape that is asked for.

Records are accepted both as objects and as lists of their fields in order; unknown fields are
skipped.  When a value turns out to have another kind, it is still read far enough to be named, so a
fault inside it wins over the wrong kind.  A fault of the record as a whole (a field missing or
given twice, a list too short) is placed where reading stands once its closing bracket, if that
comes next, has been taken.
-/
import EmbedServer.Json.Reader
import EmbedServer.Schema.Source

namespace EmbedServer.Json.Reader

open Schema

/-- The next token's first byte; the text must not end here. -/
def start : Reader UInt8 := do
  match ← token with
  | some b => pure b
  | none => failNext .endInValue

/-- Refuses the value that begins with byte `b` because `expected` was asked for. -/
def refuse {α : Type} (b : UInt8) (expected : String) : Reader α := do
  if b = 110 then
    advance
    word [117, 108, 108]
    fail (.mismatch (.kind .null expected))
  else if b = 116 then
    advance
    word [114, 117, 101]
    fail (.mismatch (.kind (.flag true) expected))
  else if b = 102 then
    advance
    word [97, 108, 115, 101]
    fail (.mismatch (.kind (.flag false) expected))
  else if b = 45 then
    advance
    refuseNumber (← unsignedNumber false)
  else if isDigit b then refuseNumber (← unsignedNumber true)
  else if b = 34 then
    advance
    let s ← quoted
    fail (.mismatch (.kind (.text s) expected))
  else if b = 91 then fail (.mismatch (.kind .list expected))
  else if b = 123 then fail (.mismatch (.kind .table expected))
  else failNext .expectedValue
where
  /-- Refuses a number that has been read. -/
  refuseNumber : Number → Reader α
    | .whole n => fail (.mismatch (.kind (.whole n) expected))
    | .real x => fail (.mismatch (.kind (.real x) expected))

/-- A text. -/
def text : Reader String := do
  let b ← start
  if b = 34 then
    advance
    quoted
  else refuse b "a string"

/-- A truth value. -/
def flag : Reader Bool := do
  let b ← start
  if b = 116 then
    advance
    word [114, 117, 101]
    pure true
  else if b = 102 then
    advance
    word [97, 108, 115, 101]
    pure false
  else refuse b "a boolean"

/-- A number; anything else is refused as not being `expected`. -/
def number (expected : String) : Reader Number := do
  let b ← start
  if b = 45 then
    advance
    unsignedNumber false
  else if isDigit b then unsignedNumber true
  else refuse b expected

/-- A whole number that fits the width. -/
def natural (w : Width) : Reader Nat := do
  match ← number w.name with
  | .whole n =>
    if w.fits n then pure n.toNat else fail (.mismatch (.range (.whole n) w.name))
  | .real x => fail (.mismatch (.kind (.real x) w.name))

/-- A double; whole numbers are taken as the nearest one. -/
def double : Reader Float := do
  match ← number "f64" with
  | .whole n => pure (if n < 0 then -(n.natAbs.toUInt64.toFloat) else n.natAbs.toUInt64.toFloat)
  | .real x => pure x

/-- A value or null. -/
def optional {α : Type} (r : Reader α) : Reader (Option α) := do
  match ← token with
  | some 110 =>
    advance
    word [117, 108, 108]
    pure none
  | _ => some <$> r

/-- The failure of `r` gets one more step in front of its path. -/
def inside {α : Type} (step : Step) (r : Reader α) : Reader α := fun c =>
  match r c with
  | .ok a => .ok a
  | .error e => .error (e.within step)

/-- Whether another item of a list follows; at its closing bracket, none does. -/
def anotherItem (first : Bool) : Reader Bool := do
  match ← token with
  | none => failNext .endInList
  | some b =>
    if b = 93 then pure false
    else if first then pure true
    else if b = 44 then
      advance
      match ← token with
      | some 93 => failNext .trailingComma
      | some _ => pure true
      | none => failNext .endInValue
    else failNext .expectedListComma

/-- The closing bracket of a list of which nothing more is wanted. -/
def closeList : Reader Unit := do
  match ← token with
  | some 93 => advance
  | some 44 =>
    advance
    match ← token with
    | some 93 => failNext .trailingComma
    | _ => failNext .trailingCharacters
  | some _ => failNext .trailingCharacters
  | none => failNext .endInList

/-- The items of a list, numbered from `index`, up to its closing bracket; `fuel` bounds their
number. -/
def items {α : Type} (r : Reader α) : (fuel index : Nat) → Reader (List α)
  | 0, _ => fail .endInList
  | fuel + 1, index => do
    if ← anotherItem (index = 0) then
      let a ← inside (.item index) r
      let more ← items r fuel (index + 1)
      pure (a :: more)
    else pure []

/-- A list. -/
def list {α : Type} (r : Reader α) : Reader (List α) := do
  let b ← start
  if b = 91 then
    advance
    let c ← get
    let as ← items r (c.rest.length + 1) 0
    closeList
    pure as
  else refuse b "a sequence"

/-- Whether another key of an object follows; its opening quote is not taken. -/
def anotherKey (first : Bool) : Reader Bool := do
  match ← token with
  | none => failNext .endInObject
  | some b =>
    if b = 125 then pure false
    else if first then
      if b = 34 then pure true else failNext .keyNotText
    else if b = 44 then
      advance
      match ← token with
      | some 34 => pure true
      | some 125 => failNext .trailingComma
      | some _ => failNext .keyNotText
      | none => failNext .endInValue
    else failNext .expectedObjectComma

/-- The colon after a key. -/
def colon : Reader Unit := do
  match ← token with
  | some 58 => advance
  | some _ => failNext .expectedColon
  | none => failNext .endInObject

/-- Fails with a fault of the whole object or list, past its closing bracket if that comes next. -/
def failWhole {α : Type} (closing : UInt8) (m : Mismatch) : Reader α := do
  match ← token with
  | some b => if b = closing then advance
  | none => pure ()
  fail (.mismatch m)

/-- The fields of an object, in any order, up to its closing bracket; `seen` are the names of those
already read, and `fuel` bounds their number. -/
def fieldsByName {α : Type} (fields : List (Field Reader α)) :
    (fuel : Nat) → (seen : List String) → α → Reader α
  | 0, _, _ => fail .endInObject
  | fuel + 1, seen, a => do
    if ← anotherKey seen.isEmpty then
      advance
      let key ← quoted
      match fields.find? (·.name == key) with
      | none =>
        colon
        inside (.field key) skip
        fieldsByName fields fuel (key :: seen) a
      | some f =>
        if seen.contains key then failWhole 125 (.duplicate key)
        else
          colon
          let set ← inside (.field key) f.read
          fieldsByName fields fuel (key :: seen) (set a)
    else
      match missingField fields seen with
      | some name => failWhole 125 (.missing name)
      | none => pure a

/-- The fields of a record given as a list, from the `index`th on; `expected` describes the record
for a list that is too short. -/
def fieldsInOrder {α : Type} (expected : String) :
    List (Field Reader α) → (index : Nat) → α → Reader α
  | [], _, a => pure a
  | f :: more, index, a => do
    if ← anotherItem (index = 0) then
      let set ← inside (.item index) f.read
      fieldsInOrder expected more (index + 1) (set a)
    else if f.presence = .free then fieldsInOrder expected more (index + 1) a
    else failWhole 93 (.length index expected)

/-- A record, as an object or as a list. -/
def record {α : Type} (name : String) (init : α) (fields : List (Field Reader α)) : Reader α := do
  let b ← start
  if b = 123 then
    advance
    let c ← get
    let a ← fieldsByName fields (c.rest.length + 1) [] init
    advance
    pure a
  else if b = 91 then
    advance
    let a ← fieldsInOrder (describeLength name fields.length) fields 0 init
    closeList
    pure a
  else refuse b ("struct " ++ name)

/-- The word of an enumeration, in quotes. -/
def choiceWord {α : Type} (choices : List (String × α)) : Reader α := do
  let b ← start
  if b = 34 then
    advance
    let s ← quoted
    match choices.lookup s with
    | some a => pure a
    | none => fail (.mismatch (.choice s (choices.map Prod.fst)))
  else refuse b "variant identifier"

/-- A choice, as a word or as an object from the word to null. -/
def choice {α : Type} (choices : List (String × α)) : Reader α := do
  match ← token with
  | none => failNext .endInValue
  | some b =>
    if b = 34 then choiceWord choices
    else if b = 123 then
      advance
      let a ← choiceWord choices
      colon
      let n ← start
      if n = 110 then
        advance
        word [117, 108, 108]
        match ← token with
        | some 125 => advance; pure a
        | some _ => fail .expectedValue
        | none => fail .endInObject
      else refuse n "unit"
    else failNext .expectedValue

instance : Source Reader where
  text := text
  flag := flag
  natural := natural
  real := double
  optional := optional
  list := list
  choice _ := choice
  record := record

/-- The value at the start of a text; what follows it is not looked at. -/
def runFront {α : Type} (r : Reader α) (input : List UInt8) : Except Failure α :=
  match r (Cursor.ofBytes input) with
  | .ok (a, _) => .ok a
  | .error e => .error e

/-- The value that makes up a whole text, but for white space around it. -/
def run {α : Type} (r : Reader α) (input : List UInt8) : Except Failure α :=
  runFront (do
    let a ← r
    match ← token with
    | none => pure a
    | some _ => failNext .trailingCharacters) input

end EmbedServer.Json.Reader
