/-
Socket addresses: four or eight groups and a port, and their text.

Of the zero groups of a long address the longest run of at least two, the first of them if there are
several, is left out; an address that stands for a short one ends in that one's text.
-/
import EmbedServer.Text.Blank
import EmbedServer.Decimal.Reader

namespace EmbedServer.Net

/-- The address of a host. -/
inductive Host where
  | v4 (groups : List Nat)
  | v6 (groups : List Nat)
  deriving DecidableEq, Repr

structure SocketAddress where
  host : Host
  port : Nat
  deriving DecidableEq, Repr

/-- The groups of a short address in text. -/
def dotted (groups : List Nat) : String := String.intercalate "." (groups.map toString)

/-- Groups of a long address between colons. -/
def colons (groups : List Nat) : String :=
  String.intercalate ":" (groups.map fun n => String.ofList (Nat.toDigits 16 n))

/-- The length of the run of zeros at the front. -/
def zerosAtFront (groups : List Nat) : Nat := (groups.takeWhile (· == 0)).length

/-- The first of the longest runs of zeros, as its start and its length. -/
def longestZeros (groups : List Nat) : Nat × Nat :=
  (List.range groups.length).foldl
    (fun best i =>
      let length := zerosAtFront (groups.drop i)
      if best.2 < length then (i, length) else best)
    (0, 0)

def Host.text : Host → String
  | .v4 groups => dotted groups
  | .v6 groups =>
    match groups with
    | [0, 0, 0, 0, 0, 0xFFFF, high, low] =>
      "::ffff:" ++ dotted [high / 256, high % 256, low / 256, low % 256]
    | _ =>
      let (start, length) := longestZeros groups
      if length < 2 then colons groups
      else colons (groups.take start) ++ "::" ++ colons (groups.drop (start + length))

def SocketAddress.text (a : SocketAddress) : String :=
  match a.host with
  | .v4 _ => a.host.text ++ ":" ++ toString a.port
  | .v6 _ => "[" ++ a.host.text ++ "]:" ++ toString a.port

/-- A number below `limit` in plain digits. -/
def number? (limit : Nat) (ds : List Char) : Option Nat :=
  if ds.isEmpty || !ds.all Char.isDigit then none
  else
    let n := Decimal.ofDigits ds
    if n < limit then some n else none

/-- One group of a short address; it has no zeros in front. -/
def octet? (ds : List Char) : Option Nat :=
  if 1 < ds.length && ds.head? == some '0' then none else number? 256 ds

/-- The groups of a short address. -/
def readV4? (text : List Char) : Option (List Nat) :=
  let parts := Text.splitAt '.' text
  if parts.length = 4 then parts.mapM octet? else none

/-- The value of a hexadecimal digit. -/
def hexDigit? (c : Char) : Option Nat :=
  if c.isDigit then some (c.toNat - 48)
  else if 'a' ≤ c && c ≤ 'f' then some (c.toNat - 87)
  else if 'A' ≤ c && c ≤ 'F' then some (c.toNat - 55)
  else none

/-- One group of a long address. -/
def group? (ds : List Char) : Option Nat :=
  if ds.isEmpty || 4 < ds.length then none
  else ds.foldlM (fun n c => (hexDigit? c).map fun d => n * 16 + d) 0

/-- The groups on one side of a long address; the last may be a short address. -/
def groups? : List (List Char) → Option (List Nat)
  | [] => some []
  | [last] =>
    match readV4? last with
    | some [a, b, c, d] => some [a * 256 + b, c * 256 + d]
    | _ => (group? last).map fun g => [g]
  | g :: rest => do
    let n ← group? g
    let more ← groups? rest
    pure (n :: more)

/-- The two sides of the first double colon. -/
def splitGap : List Char → Option (List Char × List Char)
  | ':' :: ':' :: rest => some ([], rest)
  | c :: rest => (splitGap rest).map fun (left, right) => (c :: left, right)
  | [] => none

/-- The groups on one side of a gap; there may be none. -/
def side? (text : List Char) : Option (List Nat) :=
  if text.isEmpty then some [] else groups? (Text.splitAt ':' text)

/-- The groups of a long address. -/
def readV6? (text : List Char) : Option (List Nat) :=
  match splitGap text with
  | none => do
    let gs ← groups? (Text.splitAt ':' text)
    if gs.length = 8 then pure gs else none
  | some (left, right) => do
    let l ← side? left
    let r ← side? right
    if l.length + r.length < 8 then
      pure (l ++ List.replicate (8 - l.length - r.length) 0 ++ r)
    else none

/-- The text in front of the last colon, and the text behind it. -/
def splitPort? (text : List Char) : Option (List Char × List Char) :=
  match (Text.splitAt ':' text).reverse with
  | port :: first :: more => some ((List.intersperse [':'] (first :: more).reverse).flatten, port)
  | _ => none

/-- Reads a socket address. -/
def SocketAddress.read? (text : String) : Option SocketAddress := do
  let (host, port) ← splitPort? text.toList
  let port ← number? 65536 port
  match host with
  | '[' :: inner =>
    match inner.reverse with
    | ']' :: body => (readV6? body.reverse).map fun gs => ⟨.v6 gs, port⟩
    | _ => none
  | _ => (readV4? host).map fun gs => ⟨.v4 gs, port⟩

end EmbedServer.Net
