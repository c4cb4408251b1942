/-
Layering the sources of settings into one tree.

A source is a list of keys with values.  A key may be a path: names between points, and item numbers
in brackets; a key that is no path is taken as one name.  Later sources win, name by name: a table
is merged into what is there, anything else replaces it.  What is in the way of a path is replaced
by what the path needs.

Environment variables are a source.  A variable counts if its name, in any case, begins with the
program's prefix and two underscores; two underscores further on separate the names of a path.  Its
text is taken as a truth value if it is one, else as a whole number of sixty-four bits, else as a
fraction, else as a text.
-/
import EmbedServer.Settings.Node
import EmbedServer.Toml.Reader

namespace EmbedServer.Settings

/-- One step of a path. -/
inductive PathStep where
  | name (s : String)
  | item (index : Int)
  deriving DecidableEq, Repr

/-! ### Paths -/

/-- Characters of a name in a path. -/
def isNameChar (c : Char) : Bool := c.isAlphanum || c == ' ' || c == '_' || c == '-'

/-- The number of an item: digits with an optional minus sign, and spaces around them. -/
def itemNumber? (cs : List Char) : Option Int :=
  let body := Text.dropEndWhile (· == ' ') (cs.dropWhile (· == ' '))
  match body with
  | '-' :: ds => if ds.isEmpty || !ds.all Char.isDigit then none else some (-(Decimal.ofDigits ds : Int))
  | ds => if ds.isEmpty || !ds.all Char.isDigit then none else some (Decimal.ofDigits ds : Int)

/-- The further steps of a path; `fuel` bounds their number. -/
def pathSteps? : (fuel : Nat) → List Char → Option (List PathStep)
  | _, [] => some []
  | 0, _ => none
  | fuel + 1, '.' :: rest =>
    let name := rest.takeWhile isNameChar
    if name.isEmpty then none
    else (pathSteps? fuel (rest.drop name.length)).map (.name (String.ofList name) :: ·)
  | fuel + 1, '[' :: rest =>
    let inner := rest.takeWhile (· != ']')
    match rest.drop inner.length, itemNumber? inner with
    | ']' :: more, some index => (pathSteps? fuel more).map (.item index :: ·)
    | _, _ => none
  | _, _ => none

/-- The steps of a path; a text that is no path is a single name. -/
def pathOf (key : String) : List PathStep :=
  let cs := key.toList
  let name := cs.takeWhile isNameChar
  if name.isEmpty then [.name key]
  else match pathSteps? cs.length (cs.drop name.length) with
    | some steps => .name (String.ofList name) :: steps
    | none => [.name key]

/-! ### Writing into the tree -/

/-- The entries of a table, or none for anything else. -/
def entriesOf : Node → List (String × Node)
  | .table _ entries => entries
  | _ => []

/-- The source of a table that is kept, or none for anything else. -/
def tableOrigin : Node → Option String
  | .table o _ => o
  | _ => none

/-- The entry of a key replaced, or added at the end. -/
def putEntry (key : String) (v : Node) : List (String × Node) → List (String × Node)
  | [] => [(key, v)]
  | (k, w) :: rest => if k = key then (k, v) :: rest else (k, w) :: putEntry key v rest

mutual

/-- The node that stands under a key once `value` has been written there over `old`. -/
def merge (old : Option Node) : (value : Node) → Node
  | .table _ entries =>
    let base := old.getD (.table none [])
    .table (tableOrigin base) (mergeEntries (entriesOf base) entries)
  | v => v

/-- Entries written over others, one after the other. -/
def mergeEntries (old : List (String × Node)) : List (String × Node) → List (String × Node)
  | [] => old
  | (key, v) :: rest => mergeEntries (putEntry key (merge (old.lookup key) v) old) rest

end

/-- The place of an item, counted from the end if the number is negative. -/
def itemPlace (index : Int) (length : Nat) : Nat :=
  if index < 0 then (length - index.natAbs) else index.toNat

/-- The items with the one at `place` replaced; missing items in front of it are empty. -/
def putItem (place : Nat) (v : Node) (items : List Node) : List Node :=
  let padded := items ++ List.replicate (place + 1 - items.length) (.scalar none .nil)
  padded.set place v

/-- Writes a value under a path. -/
def write (value : Node) : List PathStep → Option Node → Node
  | [], old => merge old value
  | .name key :: rest, old =>
    let base := old.getD (.table none [])
    let entries := entriesOf base
    .table (tableOrigin base) (putEntry key (write value rest (entries.lookup key)) entries)
  | .item index :: rest, old =>
    let (o, items) := match old with
      | some (.list o items) => (o, items)
      | _ => (none, [])
    let place := itemPlace index items.length
    .list o (putItem place (match rest with
      | [] => value
      | _ => write value rest items[place]?) items)

/-! ### Sources -/

/-- Keys with values. -/
abbrev Layer := List (String × Node)

/-- All layers written into one tree, the later ones over the earlier ones. -/
def layered (layers : List Layer) : Node :=
  layers.flatten.foldl (fun tree (key, v) => write v (pathOf key) (some tree)) (.table none [])

mutual

/-- A document's value as a node. -/
def ofToml (origin : Option String) : Toml.Value → Node
  | .text s => .scalar origin (.text s)
  | .whole n => .scalar origin (.whole n)
  | .real x => .scalar origin (.real x)
  | .flag b => .scalar origin (.flag b)
  | .date s => .scalar origin (.text s)
  | .list items _ => .list origin (ofTomlItems origin items)
  | .table _ entries => .table origin (ofTomlEntries origin entries)

/-- A document's items as nodes. -/
def ofTomlItems (origin : Option String) : List Toml.Value → List Node
  | [] => []
  | v :: vs => ofToml origin v :: ofTomlItems origin vs

/-- A document's entries as nodes. -/
def ofTomlEntries (origin : Option String) : List (String × Toml.Value) → List (String × Node)
  | [] => []
  | (key, v) :: rest => (key, ofToml origin v) :: ofTomlEntries origin rest

end

/-- The layer of a document; `origin` names the file it was read from. -/
def documentLayer (origin : Option String) (text : String) : Except LoadError Layer :=
  match Toml.parse text with
  | some entries => .ok (ofTomlEntries origin entries)
  | none => .error .malformed

/-- The text of an environment variable, taken as what it looks like. -/
def ofVariable (text : String) : Scalar :=
  let lower := Text.lower text
  if lower = "true" then .flag true
  else if lower = "false" then .flag false
  else
    let whole := (Decimal.readInt? text.toList).filter fun n =>
      -0x8000000000000000 ≤ n && n < 0x8000000000000000
    match whole with
    | some n => .whole n
    | none => match Decimal.readFloat? text.toList with
      | some x => .real x
      | none => .text text

/-- Two underscores at a time become points, from the front. -/
def separate : List Char → List Char
  | '_' :: '_' :: rest => '.' :: separate rest
  | c :: rest => c :: separate rest
  | [] => []

/-- The name under which an environment variable is a setting. -/
def variableKey? (name : String) : Option String :=
  (Text.dropStart? (Text.lower name) "softgrep__").map fun rest =>
    String.ofList (separate rest.toList)

/-- The layer of an environment. -/
def environmentLayer (environment : List (String × String)) : Layer :=
  environment.filterMap fun (name, text) =>
    (variableKey? name).map fun key => (key, .scalar (some "the environment") (ofVariable text))

end EmbedServer.Settings
