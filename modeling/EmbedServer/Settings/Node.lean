/-
The tree in which the sources of settings are layered, and how values are taken from it.

Sources differ in what kinds of values they can hold, so the tree converts: numbers are read from
texts, truth values and fractions, texts from numbers and truth values, truth values from numbers
and from words such as "on".  A whole number asked for in fewer bits than it has loses the high
ones; a fraction is rounded, a half away from zero, and cut off at the ends of the range.

A value that cannot be converted is reported with its key and with the source it came from.  A value
that is no list or record at all, where one is asked for, is reported without them.
-/
import EmbedServer.Schema.Mismatch
import EmbedServer.Schema.Source
import EmbedServer.Decimal.Reader
import EmbedServer.Text.Blank

namespace EmbedServer.Settings

/-- A value without parts. -/
inductive Scalar where
  | nil
  | flag (b : Bool)
  | whole (n : Int)
  | real (x : Float)
  | text (s : String)
  deriving Inhabited

/-- A value with the source it came from.  A table put together by layering has no source. -/
inductive Node where
  | scalar (origin : Option String) (s : Scalar)
  | list (origin : Option String) (items : List Node)
  | table (origin : Option String) (entries : List (String × Node))
  deriving Inhabited

/-- Why settings could not be loaded. -/
inductive LoadError where
  /-- A value that cannot be converted. -/
  | conversion (found expected : String) (key : Option String) (origin : Option String)
  /-- A value of the wrong shape. -/
  | mismatch (m : Schema.Mismatch)
  /-- A choice given by something that is no word. -/
  | noChoice (name : String)
  /-- A word that is none of the choices. -/
  | unknownChoice (name word : String)
  | fileMissing (path : String)
  | malformed

def LoadError.message : LoadError → String
  | .conversion found expected key origin =>
    "invalid type: " ++ found ++ ", expected " ++ expected
      ++ (key.map fun k => " for key " ++ Schema.ticked k).getD ""
      ++ (origin.map (" in " ++ ·)).getD ""
  | .mismatch m => m.describe Decimal.pointed
  | .noChoice name =>
    "value of enum " ++ name
      ++ " should be represented by either string or table with exactly one key"
  | .unknownChoice name word =>
    "enum " ++ name ++ " does not have variant constructor " ++ word
  | .fileMissing path => "configuration file \"" ++ path ++ "\" not found"
  | .malformed => "TOML syntax error"

/-- The error one key further out. -/
def LoadError.under (key : String) : LoadError → LoadError
  | .conversion found expected inner origin =>
    .conversion found expected (some (join (inner.getD ""))) origin
  | e => e
where
  /-- The key in front of the rest of a path. -/
  join (inner : String) : String :=
    if inner.isEmpty || Text.startsWith inner "[" then key ++ inner else key ++ "." ++ inner

/-- The error one item further out. -/
def LoadError.underItem (index : Nat) : LoadError → LoadError
  | .conversion found expected inner origin =>
    .conversion found expected (some ("[" ++ toString index ++ "]" ++ inner.getD "")) origin
  | e => e

namespace Node

def origin : Node → Option String
  | .scalar o _ | .list o _ | .table o _ => o

/-- What the value is called where it cannot be converted. -/
def describe : Node → String
  | .scalar _ .nil => "unit value"
  | .scalar _ (.flag b) => "boolean `" ++ toString b ++ "`"
  | .scalar _ (.whole n) => "integer 64 bit `" ++ toString n ++ "`"
  | .scalar _ (.real x) => "floating point `" ++ Decimal.plain.text x ++ "`"
  | .scalar _ (.text s) => "string " ++ Text.quoted s
  | .list .. => "sequence"
  | .table .. => "map"

/-- What the value is called where it has the wrong shape. -/
def found : Node → Schema.Found
  | .scalar _ .nil => .null
  | .scalar _ (.flag b) => .flag b
  | .scalar _ (.whole n) => .whole n
  | .scalar _ (.real x) => .real x
  | .scalar _ (.text s) => .text s
  | .list .. => .list
  | .table .. => .table

end Node

/-- The truth value that a word stands for, in any case. -/
def wordFlag? (s : String) : Option Bool :=
  let w := Text.lower s
  if w = "true" ∨ w = "on" ∨ w = "yes" then some true
  else if w = "false" ∨ w = "off" ∨ w = "no" then some false
  else none

/-- A reader of nodes. -/
def FromNode (α : Type) : Type := Node → Except LoadError α

namespace FromNode

instance : Functor FromNode where
  map f r := fun v => match r v with
    | .ok a => .ok (f a)
    | .error e => .error e

/-- The value cannot be converted. -/
def refuse {α : Type} (v : Node) (expected : String) : Except LoadError α :=
  .error (.conversion v.describe expected none v.origin)

/-- The value has the wrong shape. -/
def mismatch {α : Type} (v : Node) (expected : String) : Except LoadError α :=
  .error (.mismatch (.kind v.found expected))

def text : FromNode String
  | .scalar _ (.text s) => .ok s
  | .scalar _ (.flag b) => .ok (toString b)
  | .scalar _ (.whole n) => .ok (toString n)
  | .scalar _ (.real x) => .ok (Decimal.plain.text x)
  | v => refuse v "a string"

def flag : FromNode Bool
  | .scalar _ (.flag b) => .ok b
  | .scalar _ (.whole n) => .ok (n != 0)
  | .scalar _ (.real x) => .ok (!(x == 0.0))
  | .scalar o (.text s) =>
    let w := Text.lower s
    if w = "1" then .ok true
    else if w = "0" then .ok false
    else match wordFlag? s with
      | some b => .ok b
      | none => refuse (.scalar o (.text w)) "a boolean"
  | v => refuse v "a boolean"

/-- A number of up to sixty-four bits in plain digits, with an optional plus sign. -/
def digits? (s : String) : Option Nat :=
  let ds := match s.toList with
    | '+' :: rest => rest
    | cs => cs
  if ds.isEmpty || !ds.all Char.isDigit then none
  else
    let n := Decimal.ofDigits ds
    if n < UInt64.size then some n else none

/-- A whole number of sixty-four bits. -/
def unsigned : FromNode Nat
  | .scalar o (.whole n) =>
    if 0 ≤ n then .ok n.toNat
    else refuse (.scalar o (.whole n)) "an unsigned 64 bit or less integer"
  | .scalar _ (.flag b) => .ok (if b then 1 else 0)
  | .scalar _ (.real x) => .ok x.round.toUInt64.toNat
  | .scalar o (.text s) =>
    match wordFlag? s with
    | some b => .ok (if b then 1 else 0)
    | none => match digits? s with
      | some n => .ok n
      | none => refuse (.scalar o (.text s)) "an integer"
  | v => refuse v "an integer"

/-- A whole number; the bits that do not fit are dropped. -/
def natural (w : Schema.Width) : FromNode Nat := fun v =>
  match unsigned v with
  | .ok n => .ok (n % w.count)
  | .error e => .error e

/-- The double nearest to a whole number. -/
def ofWhole (n : Int) : Float :=
  if n < 0 then -(n.natAbs.toUInt64.toFloat) else n.natAbs.toUInt64.toFloat

def double : FromNode Float
  | .scalar _ (.real x) => .ok x
  | .scalar _ (.whole n) => .ok (ofWhole n)
  | .scalar _ (.flag b) => .ok (if b then 1.0 else 0.0)
  | .scalar o (.text s) =>
    match wordFlag? s with
    | some b => .ok (if b then 1.0 else 0.0)
    | none => match Decimal.readFloat? s.toList with
      | some x => .ok x
      | none => refuse (.scalar o (.text s)) "a floating point"
  | v => refuse v "a floating point"

def optional {α : Type} (r : FromNode α) : FromNode (Option α)
  | .scalar _ .nil => .ok none
  | v => match r v with
    | .ok a => .ok (some a)
    | .error e => .error e

/-- The items of a list, numbered from `index`. -/
def items {α : Type} (r : FromNode α) : (index : Nat) → List Node → Except LoadError (List α)
  | _, [] => .ok []
  | index, v :: rest =>
    match r v with
    | .error e => .error (e.underItem index)
    | .ok a => match items r (index + 1) rest with
      | .error e => .error e
      | .ok as => .ok (a :: as)

def list {α : Type} (r : FromNode α) : FromNode (List α)
  | .list _ vs => items r 0 vs
  | v => mismatch v "a sequence"

def choice {α : Type} (name : String) (choices : List (String × α)) : FromNode α
  | .scalar _ (.text s) => pick s
  | .table _ [(s, _)] => pick s
  | _ => .error (.noChoice name)
where
  /-- The choice named by a word. -/
  pick (s : String) : Except LoadError α :=
    match choices.lookup s with
    | some a => .ok a
    | none => .error (.unknownChoice name s)

/-- The entries that are fields of the record, applied to it in turn. -/
def applyEntries {α : Type} (fields : List (Schema.Field FromNode α)) :
    List (String × Node) → α → Except LoadError α
  | [], a => .ok a
  | (key, v) :: rest, a =>
    match fields.find? (·.name == key) with
    | none => applyEntries fields rest a
    | some f => match f.read v with
      | .ok set => applyEntries fields rest (set a)
      | .error e => .error (e.under key)

/-- The items of a list as the record's fields in order; items beyond the last field are ignored. -/
def applyItems {α : Type} (expected : String) :
    List (Schema.Field FromNode α) → List Node → (index : Nat) → α → Except LoadError α
  | [], _, _, a => .ok a
  | f :: more, v :: rest, index, a => match f.read v with
    | .ok set => applyItems expected more rest (index + 1) (set a)
    | .error e => .error (e.underItem index)
  | f :: more, [], index, a =>
    if f.presence = .free then applyItems expected more [] (index + 1) a
    else .error (.mismatch (.length index expected))

def record {α : Type} (name : String) (init : α) (fields : List (Schema.Field FromNode α)) :
    FromNode α
  | .table _ entries =>
    match applyEntries fields entries init with
    | .error e => .error e
    | .ok a => match Schema.missingField fields (entries.map Prod.fst) with
      | some field => .error (.mismatch (.missing field))
      | none => .ok a
  | .list _ vs => applyItems (Schema.describeLength name fields.length) fields vs 0 init
  | v => mismatch v ("struct " ++ name)

instance : Schema.Source FromNode where
  text := text
  flag := flag
  natural := natural
  real := double
  optional := optional
  list := list
  choice := choice
  record := record

end FromNode

end EmbedServer.Settings
