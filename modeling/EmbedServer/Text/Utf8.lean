/-
Byte sequences as text.

The leading byte of a character fixes how many bytes follow it and which values the second one may
take; every later byte is a tail.  `lead` reads one character off the front.  Reading strictly
refuses a sequence in which `lead` fails anywhere; reading leniently puts the replacement character
for each longest run of bytes that could have begun a character.

Both readers recurse on the bytes themselves: the count of bytes that the last character has already
claimed goes along as an argument.
-/

namespace EmbedServer.Utf8

/-- Whether a byte continues a character. -/
def isTail (b : UInt8) : Bool := 0x80 ≤ b && b ≤ 0xBF

/-- The low six bits of a tail. -/
def payload (b : UInt8) : Nat := b.toNat % 0x40

/-- The bounds on the second byte of a three-byte character. -/
def bounds3 (b : UInt8) : UInt8 × UInt8 :=
  if b = 0xE0 then (0xA0, 0xBF) else if b = 0xED then (0x80, 0x9F) else (0x80, 0xBF)

/-- The bounds on the second byte of a four-byte character. -/
def bounds4 (b : UInt8) : UInt8 × UInt8 :=
  if b = 0xF0 then (0x90, 0xBF) else if b = 0xF4 then (0x80, 0x8F) else (0x80, 0xBF)

/-- The character that begins at byte `b`, and how many of the bytes after it belong to it.  Without
a character, the count is that of the bytes that could still have continued one. -/
def lead (b : UInt8) (rest : List UInt8) : Option Char × Nat :=
  if b < 0x80 then (some (Char.ofNat b.toNat), 0)
  else if 0xC2 ≤ b && b ≤ 0xDF then
    match rest with
    | c :: _ =>
      if isTail c then (some (Char.ofNat (b.toNat % 0x20 * 0x40 + payload c)), 1) else (none, 0)
    | [] => (none, 0)
  else if 0xE0 ≤ b && b ≤ 0xEF then
    match rest with
    | c :: r =>
      if (bounds3 b).1 ≤ c && c ≤ (bounds3 b).2 then
        match r with
        | d :: _ =>
          if isTail d then
            (some (Char.ofNat (b.toNat % 0x10 * 0x1000 + payload c * 0x40 + payload d)), 2)
          else (none, 1)
        | [] => (none, 1)
      else (none, 0)
    | [] => (none, 0)
  else if 0xF0 ≤ b && b ≤ 0xF4 then
    match rest with
    | c :: r =>
      if (bounds4 b).1 ≤ c && c ≤ (bounds4 b).2 then
        match r with
        | d :: s =>
          if isTail d then
            match s with
            | e :: _ =>
              if isTail e then
                (some (Char.ofNat (b.toNat % 0x08 * 0x40000 + payload c * 0x1000
                  + payload d * 0x40 + payload e)), 3)
              else (none, 2)
            | [] => (none, 2)
          else (none, 1)
        | [] => (none, 1)
      else (none, 0)
    | [] => (none, 0)
  else (none, 0)

/-- Strict reading; `claimed` bytes at the front belong to the character before. -/
def decodeFrom? : (claimed : Nat) → List UInt8 → Option (List Char)
  | _, [] => some []
  | n + 1, _ :: rest => decodeFrom? n rest
  | 0, b :: rest =>
    match lead b rest with
    | (some c, n) => (decodeFrom? n rest).map (c :: ·)
    | (none, _) => none

/-- The text that a byte sequence spells, if every character in it is well formed. -/
def decode? (bytes : List UInt8) : Option String :=
  (decodeFrom? 0 bytes).map String.ofList

/-- The character that stands for bytes that spell none. -/
def replacement : Char := Char.ofNat 0xFFFD

/-- Lenient reading; `claimed` bytes at the front belong to the character before. -/
def decodeLossyFrom : (claimed : Nat) → List UInt8 → List Char
  | _, [] => []
  | n + 1, _ :: rest => decodeLossyFrom n rest
  | 0, b :: rest => (lead b rest).1.getD replacement :: decodeLossyFrom (lead b rest).2 rest

/-- The text that a byte sequence spells, with the replacement character where it spells none. -/
def decodeLossy (bytes : List UInt8) : String :=
  String.ofList (decodeLossyFrom 0 bytes)

/-- The bytes of a text. -/
def encode (text : String) : List UInt8 := text.toUTF8.toList

end EmbedServer.Utf8
