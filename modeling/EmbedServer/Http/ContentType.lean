/-
Media types: a type, a subtype that may end in a suffix, and parameters.

Only their form is looked at here, and whether they mean JSON.
-/
import EmbedServer.Http.Message

namespace EmbedServer.Http

structure MediaType where
  type : String
  subtype : String
  suffix : Option String
  deriving DecidableEq, Repr

namespace MediaType

/-- Whether a character may stand in a quoted value. -/
def isQuotedChar (c : Char) : Bool := decide (0x20 ≤ c.toNat ∧ c.toNat ≠ 0x7F)

/-- What follows a quoted value of which the first character has been taken. -/
def afterQuoted? : List Char → Option (List Char)
  | [] => none
  | c :: rest => if c = '"' then some rest else if isQuotedChar c then afterQuoted? rest else none

/-- What follows the value of a parameter: nothing, or what comes after the next semicolon. -/
def afterValue? : List Char → Option (List Char)
  | '"' :: first :: rest => do
    if isQuotedChar first then
      match (← afterQuoted? rest).dropWhile (· = ' ') with
      | [] => some []
      | ';' :: more => some more
      | _ => none
    else none
  | cs =>
    let value := cs.takeWhile isNameChar
    match cs.drop value.length with
    | [] => some []
    | ';' :: more => if value.isEmpty then none else some more
    | _ => none

/-- Whether a text is a list of parameters; `fuel` bounds their number. -/
def areParameters : (fuel : Nat) → List Char → Bool
  | 0, cs => cs.isEmpty
  | fuel + 1, cs =>
    match cs.dropWhile (· = ' ') with
    | [] => true
    | cs =>
      let name := cs.takeWhile isNameChar
      match cs.drop name.length with
      | '=' :: value =>
        !name.isEmpty && (match afterValue? value with
          | some rest => areParameters fuel rest
          | none => false)
      | _ => false

/-- The parts of a subtype around its last plus sign; one at the very front is no separator. -/
def splitSuffix (cs : List Char) : List Char × Option (List Char) :=
  let tail := (cs.reverse.takeWhile (· != '+')).reverse
  let stem := cs.take (cs.length - tail.length - 1)
  if stem.isEmpty then (cs, none) else (stem, some tail)

/-- The media type that a text spells. -/
def read? (text : String) : Option MediaType :=
  let cs := (Text.lower text).toList
  let type := cs.takeWhile isNameChar
  match type, cs.drop type.length with
  | _ :: _, '/' :: rest =>
    let subtype := rest.takeWhile isNameChar
    let (stem, suffix) := splitSuffix subtype
    let m : MediaType := ⟨String.ofList type, String.ofList stem, suffix.map String.ofList⟩
    match rest.drop subtype.length with
    | [] => some m
    | ';' :: parameters =>
      if !subtype.isEmpty && areParameters (parameters.length + 1) parameters then some m else none
    | _ => none
  | _, _ => none

/-- Whether the type means JSON. -/
def isJson (m : MediaType) : Bool :=
  m.type == "application" && (m.subtype == "json" || m.suffix == some "json")

end MediaType

/-- Whether a request says that its body is JSON. -/
def Request.saysJson (r : Request) : Bool :=
  (do
    let value ← r.header? "content-type"
    let text ← plainText? value
    MediaType.read? text).any MediaType.isJson

end EmbedServer.Http
