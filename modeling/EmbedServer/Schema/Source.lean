/-
Shapes of records, said once for every format they are read from.

A format gives readers for the plain values and ways to combine them; a record type then lists its
fields against any format.  A field's reader yields a change to the record, so that the fields of a
record may be of different types and come in any order.
-/

namespace EmbedServer.Schema

/-- The widths of unsigned numbers. -/
inductive Width where
  | w16
  | w32
  | w64
  | size
  deriving DecidableEq, Repr

namespace Width

/-- How many numbers there are. -/
def count : Width → Nat
  | .w16 => UInt16.size
  | .w32 => UInt32.size
  | .w64 | .size => UInt64.size

/-- The name a message uses. -/
def name : Width → String
  | .w16 => "u16"
  | .w32 => "u32"
  | .w64 => "u64"
  | .size => "usize"

/-- Whether a number fits. -/
def fits (w : Width) (n : Int) : Bool := 0 ≤ n && n < w.count

end Width

/-- When a field may be left out. -/
inductive Presence where
  /-- Never. -/
  | required
  /-- Where fields are named, but not where they are listed in order. -/
  | named
  /-- Always; the record's start value stands. -/
  | free
  deriving DecidableEq, Repr

/-- One field of a record: reading it yields a change to the record. -/
structure Field (R : Type → Type) (α : Type) where
  name : String
  presence : Presence
  read : R (α → α)

/-- A field whose value is put in its place by `set`. -/
def Field.of {R : Type → Type} [Functor R] {α β : Type} (name : String) (presence : Presence)
    (read : R β) (set : β → α → α) : Field R α :=
  ⟨name, presence, set <$> read⟩

/-- What a format can read. -/
class Source (R : Type → Type) extends Functor R where
  text : R String
  flag : R Bool
  natural : Width → R Nat
  real : R Float
  optional : {α : Type} → R α → R (Option α)
  list : {α : Type} → R α → R (List α)
  /-- One of several words, for an enumeration of the given name. -/
  choice : {α : Type} → (name : String) → List (String × α) → R α
  /-- A record of the given name, from its start value. -/
  record : {α : Type} → (name : String) → (start : α) → List (Field R α) → R α

/-- The fields of a record that are required where fields are named, but were not seen; the first
of them is the one to report. -/
def missingField {R : Type → Type} {α : Type} (fields : List (Field R α)) (seen : List String) :
    Option String :=
  (fields.find? fun f => f.presence == .required && !seen.contains f.name).map Field.name

/-- A record's name and the number of its fields, as a message about a list's length gives them. -/
def describeLength (name : String) (count : Nat) : String :=
  "struct " ++ name ++ " with " ++ toString count ++ (if count = 1 then " element" else " elements")

end EmbedServer.Schema
