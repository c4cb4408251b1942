/-
Bytes written as `%` and two digits.

Writing leaves the characters alone that the place allows and writes the bytes of all others.
Reading takes back every such triple; a `%` without two digits behind it stands for itself.
-/
import EmbedServer.Text.Utf8

namespace EmbedServer.Text.Percent

/-- A byte as `%` and two digits. -/
def encodeByte (b : UInt8) : List Char :=
  ['%', (Nat.digitChar (b.toNat / 16)).toUpper, (Nat.digitChar (b.toNat % 16)).toUpper]

/-- A text in which only the characters that `plain` accepts stand for themselves. -/
def encode (plain : Char → Bool) (cs : List Char) : List Char :=
  cs.flatMap fun c =>
    if plain c then [c] else (Utf8.encode (String.singleton c)).flatMap encodeByte

/-- The value of a digit in base sixteen. -/
def digit? (b : UInt8) : Option UInt8 :=
  if 48 ≤ b && b ≤ 57 then some (b - 48)
  else if 97 ≤ b && b ≤ 102 then some (b - 87)
  else if 65 ≤ b && b ≤ 70 then some (b - 55)
  else none

/-- The byte that two digits spell. -/
def pair? (high low : UInt8) : Option UInt8 := do
  let h ← digit? high
  let l ← digit? low
  some (h * 16 + l)

/-- The bytes that bytes stand for; the first `skip` of them have been read already. -/
def decodeFrom : (skip : Nat) → List UInt8 → List UInt8
  | _, [] => []
  | n + 1, _ :: rest => decodeFrom n rest
  | 0, b :: rest =>
    match b, rest with
    | 37, high :: low :: _ =>
      match pair? high low with
      | some v => v :: decodeFrom 2 rest
      | none => b :: decodeFrom 0 rest
    | _, _ => b :: decodeFrom 0 rest

def decode (bytes : List UInt8) : List UInt8 := decodeFrom 0 bytes

end EmbedServer.Text.Percent
