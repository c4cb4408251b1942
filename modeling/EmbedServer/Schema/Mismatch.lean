/-
How a value can fail to have the shape that is asked of it.

A `Mismatch` is the cause alone; where the value stood is added by the format that was being read.
-/
import EmbedServer.Decimal.Style
import EmbedServer.Text.Quoted

namespace EmbedServer.Schema

/-- What was met in place of the value asked for. -/
inductive Found where
  | null
  | flag (b : Bool)
  | whole (n : Int)
  | real (x : Float)
  | text (s : String)
  | list
  | table

/-- What was met, in words; `style` writes its numbers. -/
def Found.describe (style : Decimal.Style) : Found → String
  | .null => "null"
  | .flag b => "boolean `" ++ (if b then "true" else "false") ++ "`"
  | .whole n => "integer `" ++ toString n ++ "`"
  | .real x => "floating point `" ++ style.text x ++ "`"
  | .text s => "string " ++ Text.quoted s
  | .list => "sequence"
  | .table => "map"

/-- The cause of a failure. -/
inductive Mismatch where
  /-- A value of another kind. -/
  | kind (found : Found) (expected : String)
  /-- A value of the right kind out of range. -/
  | range (found : Found) (expected : String)
  /-- A list of the wrong length. -/
  | length (count : Nat) (expected : String)
  /-- A word that is none of the choices. -/
  | choice (word : String) (choices : List String)
  | missing (field : String)
  | duplicate (field : String)

/-- A name between grave accents. -/
def ticked (name : String) : String := "`" ++ name ++ "`"

/-- The choices, as a message lists them. -/
def describeChoices : List String → String
  | [] => "there are no variants"
  | [a] => "expected " ++ ticked a
  | [a, b] => "expected " ++ ticked a ++ " or " ++ ticked b
  | names => "expected one of " ++ String.intercalate ", " (names.map ticked)

def Mismatch.describe (style : Decimal.Style) : Mismatch → String
  | .kind found expected => "invalid type: " ++ found.describe style ++ ", expected " ++ expected
  | .range found expected => "invalid value: " ++ found.describe style ++ ", expected " ++ expected
  | .length count expected => "invalid length " ++ toString count ++ ", expected " ++ expected
  | .choice word choices => "unknown variant " ++ ticked word ++ ", " ++ describeChoices choices
  | .missing field => "missing field " ++ ticked field
  | .duplicate field => "duplicate field " ++ ticked field

end EmbedServer.Schema
