/-
The values of a TOML document, and how its tables come together.

A table remembers how it came about: named only as the parent of another one, opened by a header,
spelled by dotted keys, or written inline.  A header may open a table once, and only one that so far
was merely a parent; dotted keys extend only what dotted keys of the same section began; inline
tables are closed.  No key is given twice.
-/

namespace EmbedServer.Toml

/-- How a table came about. -/
inductive Making where
  | parent
  | header
  | dotted
  | inline
  deriving DecidableEq, Repr

inductive Value where
  | text (s : String)
  | whole (n : Int)
  | real (x : Float)
  | flag (b : Bool)
  /-- A date or a time of day, as text. -/
  | date (s : String)
  /-- A list; `tables` marks one whose items were opened by headers. -/
  | list (items : List Value) (tables : Bool)
  | table (making : Making) (entries : List (String × Value))
  deriving Inhabited

abbrev Entries := List (String × Value)

namespace Entries

/-- The entry of a key replaced. -/
def put (key : String) (v : Value) (entries : Entries) : Entries :=
  entries.map fun (k, w) => if k = key then (k, v) else (k, w)

/-- Adds one entry under a dotted key. -/
def addDotted (v : Value) : List String → Entries → Option Entries
  | [], _ => none
  | [key], entries => if (entries.lookup key).isSome then none else some (entries ++ [(key, v)])
  | key :: rest, entries =>
    match entries.lookup key with
    | none => (addDotted v rest []).map fun inner => entries ++ [(key, .table .dotted inner)]
    | some (.table .dotted inner) =>
      (addDotted v rest inner).map fun inner => put key (.table .dotted inner) entries
    | some _ => none

/-- Adds entries none of which may be there already. -/
def addAll (entries more : Entries) : Option Entries :=
  if more.any fun (k, _) => (entries.lookup k).isSome then none else some (entries ++ more)

/-- Opens the table named by a header and gives it its entries; `item` headers begin a new item of
a list of tables. -/
def addSection (item : Bool) (section_ : Entries) : List String → Entries → Option Entries
  | [], _ => none
  | [key], entries =>
    let opened := Value.table .header section_
    match entries.lookup key with
    | none => some (entries ++ [(key, if item then .list [opened] true else opened)])
    | some (.table .parent inner) =>
      if item then none
      else (addAll inner section_).map fun inner => put key (.table .header inner) entries
    | some (.list items true) =>
      if item then some (put key (.list (items ++ [opened]) true) entries) else none
    | some _ => none
  | key :: rest, entries =>
    match entries.lookup key with
    | none =>
      (addSection item section_ rest []).map fun inner => entries ++ [(key, .table .parent inner)]
    | some (.table making inner) =>
      if making = .parent ∨ making = .header then
        (addSection item section_ rest inner).map fun inner => put key (.table making inner) entries
      else none
    | some (.list items true) =>
      match items.getLast? with
      | some (.table making inner) =>
        (addSection item section_ rest inner).map fun inner =>
          put key (.list (items.dropLast ++ [.table making inner]) true) entries
      | _ => none
    | some _ => none

end Entries

end EmbedServer.Toml
