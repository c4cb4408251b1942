/-
From the text of an address to a place to listen at.

A text is an address as such, or a host and a port; a host is a number in one of the old notations,
a long address, or the machine's own name.  Other names are not known here.  Only the machine's own
addresses can be listened at, and only where nobody listens yet.
-/
import EmbedServer.Net.Address

namespace EmbedServer.Net

/-- The value of a digit in a base up to sixteen. -/
def digitIn? (base : Nat) (c : Char) : Option Nat := (hexDigit? c).filter (· < base)

/-- A number in a base. -/
def numberIn? (base : Nat) (ds : List Char) : Option Nat :=
  if ds.isEmpty then none
  else ds.foldl (fun n c => do pure ((← n) * base + (← digitIn? base c))) (some 0)

/-- A number in base ten, eight after a zero, or sixteen after a zero and an `x`. -/
def oldNumber? : List Char → Option Nat
  | '0' :: 'x' :: ds | '0' :: 'X' :: ds => numberIn? 16 ds
  | '0' :: ds => if ds.isEmpty then some 0 else numberIn? 8 ds
  | ds => numberIn? 10 ds

/-- The groups of a short address of which the last number written fills all that remain. -/
def fill (last : Nat) : (count : Nat) → List Nat
  | 0 => []
  | n + 1 => last / Nat.pow 256 n % 256 :: fill last n

/-- A short address in one of the old notations. -/
def readOld? (text : List Char) : Option (List Nat) := do
  let numbers ← (Text.splitAt '.' text).mapM oldNumber?
  let firsts := numbers.dropLast
  let last ← numbers.getLast?
  let rest := 4 - firsts.length
  if firsts.length ≤ 3 ∧ firsts.all (· < 256) ∧ last < Nat.pow 256 rest then
    some (firsts ++ fill last rest)
  else none

/-- The address of a host. -/
def lookup? (host : String) : Option Host :=
  if Text.lower host = "localhost" then some (.v4 [127, 0, 0, 1])
  else match readOld? host.toList with
    | some groups => some (.v4 groups)
    | none => (readV6? host.toList).map .v6

/-- A port, perhaps with a plus sign. -/
def port? (text : List Char) : Option Nat :=
  match text with
  | '+' :: ds => number? 65536 ds
  | ds => number? 65536 ds

/-- The address that a text stands for, or why it stands for none. -/
def resolve (text : String) : Except String SocketAddress :=
  match SocketAddress.read? text with
  | some a => .ok a
  | none =>
    let cs := text.toList
    if !cs.contains ':' then .error "invalid socket address"
    else
      let port := (cs.reverse.takeWhile (· != ':')).reverse
      let host := String.ofList (cs.take (cs.length - port.length - 1))
      match port? port, lookup? host with
      | none, _ => .error "invalid port value"
      | some p, some h => .ok ⟨h, p⟩
      | some _, none =>
        .error "failed to lookup address information: Name or service not known"

/-- Whether an address is the machine's own. -/
def Host.isOwn : Host → Bool
  | .v4 (first :: _) => first == 127 || first == 0
  | .v4 [] => false
  | .v6 groups => groups == [0, 0, 0, 0, 0, 0, 0, 0] || groups == [0, 0, 0, 0, 0, 0, 0, 1]

/-- What is known of the machine: where somebody listens already, and a port that is free. -/
structure Machine where
  taken : List SocketAddress
  freePort : Nat
  deriving DecidableEq, Repr

/-- The place where listening at an address comes to be, or why it cannot be. -/
def Machine.listen (m : Machine) (a : SocketAddress) : Except String SocketAddress :=
  if !a.host.isOwn then .error "Cannot assign requested address (os error 99)"
  else if a.port = 0 then .ok { a with port := m.freePort }
  else if m.taken.contains a then .error "Address already in use (os error 98)"
  else .ok a

end EmbedServer.Net
