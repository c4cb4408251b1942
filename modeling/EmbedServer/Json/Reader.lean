/-
Reading JSON text, one byte at a time.

A reader takes a cursor (the bytes still to come and how many have gone by) and gives a value with
the cursor after it, or a failure.  This module has the readers for single tokens: white space,
words, numbers, quoted text; and the skipping of a whole value that nobody asked for, which checks
its form but neither the range of its numbers nor the characters of its texts.

Whole numbers are exact up to sixty-four bits.  A longer one, or one with a point or an exponent,
becomes a double: its leading digits, as many as fit in sixty-four bits, are scaled by a power of
ten in floating point.
-/
import EmbedServer.Json.Fault
import EmbedServer.Text.Utf8
import EmbedServer.Decimal.Reader

namespace EmbedServer.Json

/-- The bytes still to come, and how many have gone by. -/
structure Cursor where
  rest : List UInt8
  passed : Nat

/-- The start of a text. -/
def Cursor.ofBytes (bytes : List UInt8) : Cursor := ⟨bytes, 0⟩

abbrev Reader := StateT Cursor (Except Failure)

namespace Reader

/-- Fails at the last byte taken. -/
def fail {α : Type} (fault : Fault) : Reader α := fun c => .error ⟨fault, c.passed, []⟩

/-- Fails at the next byte, if there is one. -/
def failNext {α : Type} (fault : Fault) : Reader α := fun c =>
  .error ⟨fault, if c.rest.isEmpty then c.passed else c.passed + 1, []⟩

/-- The next byte, not taken. -/
def peek : Reader (Option UInt8) := fun c => .ok (c.rest.head?, c)

/-- Takes the next byte, if there is one. -/
def advance : Reader Unit := fun c =>
  match c.rest with
  | [] => .ok ((), c)
  | _ :: rest => .ok ((), ⟨rest, c.passed + 1⟩)

/-- The next byte, taken. -/
def next : Reader (Option UInt8) := fun c =>
  match c.rest with
  | [] => .ok (none, c)
  | b :: rest => .ok (some b, ⟨rest, c.passed + 1⟩)

/-- Takes bytes as long as they satisfy `p`. -/
def takeWhile (p : UInt8 → Bool) : Reader (List UInt8) := fun c =>
  let taken := c.rest.takeWhile p
  .ok (taken, ⟨c.rest.dropWhile p, c.passed + taken.length⟩)

end Reader

/-- White space between tokens. -/
def isSpace (b : UInt8) : Bool := b == 32 || b == 10 || b == 9 || b == 13

def isDigit (b : UInt8) : Bool := 48 ≤ b && b ≤ 57

/-- The value of a hexadecimal digit. -/
def hexValue (b : UInt8) : Option Nat :=
  if 48 ≤ b && b ≤ 57 then some (b.toNat - 48)
  else if 97 ≤ b && b ≤ 102 then some (b.toNat - 87)
  else if 65 ≤ b && b ≤ 70 then some (b.toNat - 55)
  else none

namespace Reader

/-- The next byte after white space, not taken. -/
def token : Reader (Option UInt8) := do
  let _ ← takeWhile isSpace
  peek

/-- The remaining bytes of a word such as `null`. -/
def word : List UInt8 → Reader Unit
  | [] => pure ()
  | expected :: more => do
    match ← next with
    | none => fail .endInValue
    | some b => if b = expected then word more else fail .expectedWord

/-! ### Numbers -/

/-- A number as it is written: whole and within sixty-four bits, or a double. -/
inductive Number where
  | whole (n : Int)
  | real (x : Float)

/-- The double `significand · 10 ^ exponent`, scaled in steps that stay within range; `fuel` bounds
the number of steps. -/
def scale : (fuel : Nat) → Float → Int → Option Float
  | 0, _, _ => none
  | fuel + 1, x, exponent =>
    if exponent.natAbs ≤ 308 then
      let power := Float.ofScientific 1 false exponent.natAbs
      if 0 ≤ exponent then
        let y := x * power
        if y.isInf then none else some y
      else some (x / power)
    else if x == 0.0 then some x
    else if 0 ≤ exponent then none
    else scale fuel (x / 1e308) (exponent + 308)

/-- A number of digits of 64 bits, times a power of ten. -/
def real (positive : Bool) (significand : Nat) (exponent : Int) : Reader Number :=
  match scale (exponent.natAbs / 308 + 2) significand.toUInt64.toFloat exponent with
  | none => fail .numberOutOfRange
  | some x => pure (.real (if positive then x else -x))

/-- The digits of an exponent past the first; an exponent beyond thirty-one bits decides the number
by itself. -/
def exponentDigits (bytes : List UInt8) : Nat :=
  bytes.foldl (fun n b => n * 10 + (b.toNat - 48)) 0

/-- The exponent of a number, from its letter on. -/
def exponent (positive : Bool) (significand : Nat) (start : Int) : Reader Number := do
  advance
  let up ← do
    match ← peek with
    | some 43 => advance; pure true
    | some 45 => advance; pure false
    | _ => pure true
  match ← next with
  | none => fail .endInValue
  | some first =>
    if !isDigit first then fail .invalidNumber
    else
      let c ← get
      let more ← takeWhile isDigit
      let value := exponentDigits (first :: more)
      if value < 0x80000000 then
        real positive significand (if up then start + value else start - value)
      else if significand ≠ 0 && up then
        -- The fault is noticed at the digit that leaves the range.
        let fits := (List.range (more.length + 1)).takeWhile fun k =>
          exponentDigits (first :: more.take k) < 0x80000000
        set (Cursor.mk (c.rest.drop fits.length) (c.passed + fits.length))
        fail .numberOutOfRange
      else pure (.real (if positive then 0.0 else -0.0))

/-- Whether a number can be extended by a digit within sixty-four bits. -/
def roomFor (significand : Nat) (digit : UInt8) : Bool :=
  significand * 10 + (digit.toNat - 48) < UInt64.size

/-- The digits that fit in sixty-four bits after `significand`, and how many they are. -/
def leading : (significand count : Nat) → List UInt8 → Nat × Nat
  | n, k, [] => (n, k)
  | n, k, d :: ds => if roomFor n d then leading (n * 10 + (d.toNat - 48)) (k + 1) ds else (n, k)

/-- The fraction of a number, from its point on.  Digits that no longer fit are dropped. -/
def fraction (positive : Bool) (significand : Nat) (start : Int) : Reader Number := do
  advance
  let ds ← takeWhile isDigit
  if ds.isEmpty then
    match ← peek with
    | some _ => failNext .invalidNumber
    | none => failNext .endInValue
  else
    let (n, k) := leading significand 0 ds
    match ← peek with
    | some 101 | some 69 => exponent positive n (start - k)
    | _ => real positive n (start - k)

/-- A number, from its first digit on. -/
def unsignedNumber (positive : Bool) : Reader Number := do
  match ← next with
  | none => fail .endInValue
  | some first =>
    if first = 48 then
      match ← peek with
      | some b => if isDigit b then failNext .invalidNumber else finish 0 0
      | none => finish 0 0
    else if isDigit first then
      let ds ← takeWhile isDigit
      let (n, k) := leading 0 0 (first :: ds)
      finish n (ds.length + 1 - k)
    else fail .invalidNumber
where
  /-- What follows the whole part, of which `dropped` digits did not fit. -/
  finish (n dropped : Nat) : Reader Number := do
    match ← peek with
    | some 46 => fraction positive n dropped
    | some 101 | some 69 => exponent positive n dropped
    | _ =>
      if 0 < dropped then real positive n dropped
      else if positive then pure (.whole n)
      else if n = 0 || 0x8000000000000000 < n then pure (.real (-(n.toUInt64.toFloat)))
      else pure (.whole (-n))

/-! ### Quoted text -/

/-- The four hexadecimal digits of an escape. -/
def hexEscape : Reader Nat := fun c =>
  match c.rest with
  | a :: b :: d :: e :: rest =>
    let after : Cursor := ⟨rest, c.passed + 4⟩
    match hexValue a, hexValue b, hexValue d, hexValue e with
    | some a, some b, some d, some e => .ok (((a * 16 + b) * 16 + d) * 16 + e, after)
    | _, _, _, _ => fail .invalidEscape after
  | rest => fail .endInText ⟨[], c.passed + rest.length⟩

/-- Takes one given byte of the second half of a pair. -/
def pairByte (expected : UInt8) : Reader Unit := do
  match ← next with
  | none => fail .endInText
  | some b => if b = expected then pure () else fail .unfinishedPair

/-- The character of an escape by number, after the letter `u`.  A high surrogate needs a low one
right after it. -/
def numberedEscape : Reader Char := do
  let n ← hexEscape
  if 0xDC00 ≤ n && n ≤ 0xDFFF then fail .loneSurrogate
  else if n < 0xD800 || 0xDBFF < n then pure (Char.ofNat n)
  else
    pairByte 92
    pairByte 117
    let low ← hexEscape
    if low < 0xDC00 || 0xDFFF < low then fail .loneSurrogate
    else pure (Char.ofNat ((n - 0xD800) * 0x400 + (low - 0xDC00) + 0x10000))

/-- The bytes that an escape stands for, after the backslash. -/
def escape : Reader (List UInt8) := do
  match ← next with
  | none => fail .endInText
  | some b =>
    if b = 34 || b = 92 || b = 47 then pure [b]
    else if b = 98 then pure [8]
    else if b = 102 then pure [12]
    else if b = 110 then pure [10]
    else if b = 114 then pure [13]
    else if b = 116 then pure [9]
    else if b = 117 then return String.utf8EncodeChar (← numberedEscape)
    else fail .invalidEscape

/-- Bytes that stand for themselves inside quotes. -/
def isPlain (b : UInt8) : Bool := 32 ≤ b && b ≠ 34 && b ≠ 92

/-- The bytes of a quoted text after its opening quote; `parts` holds the pieces before, the latest
first, and `fuel` bounds the number of pieces. -/
def quotedBytes : (fuel : Nat) → (parts : List (List UInt8)) → Reader (List UInt8)
  | 0, _ => fail .endInText
  | fuel + 1, parts => do
    let plain ← takeWhile isPlain
    match ← peek with
    | none => fail .endInText
    | some 34 =>
      let bytes := (plain :: parts).reverse.flatten
      pure bytes
    | some 92 =>
      advance
      let e ← escape
      quotedBytes fuel (e :: plain :: parts)
    | some _ =>
      advance
      fail .controlCharacter

/-- A quoted text, after its opening quote.  Its bytes are checked at the closing quote. -/
def quoted : Reader String := do
  let c ← get
  let bytes ← quotedBytes (c.rest.length + 1) []
  match Utf8.decode? bytes with
  | none => fail .invalidCharacter
  | some s =>
    advance
    pure s

/-! ### Values nobody asked for -/

/-- Skips an escape, after the backslash. -/
def skipEscape : Reader Unit := do
  match ← next with
  | none => fail .endInText
  | some b =>
    if b = 34 || b = 92 || b = 47 || b = 98 || b = 102 || b = 110 || b = 114 || b = 116 then pure ()
    else if b = 117 then
      let _ ← hexEscape
      pure ()
    else fail .invalidEscape

/-- Skips a quoted text, after its opening quote. -/
def skipQuoted : (fuel : Nat) → Reader Unit
  | 0 => fail .endInText
  | fuel + 1 => do
    let _ ← takeWhile isPlain
    match ← peek with
    | none => fail .endInText
    | some 34 => advance
    | some 92 =>
      advance
      skipEscape
      skipQuoted fuel
    | some _ => fail .controlCharacter

/-- Skips the exponent of a number, from its letter on. -/
def skipExponent : Reader Unit := do
  advance
  match ← peek with
  | some 43 | some 45 => advance
  | _ => pure ()
  match ← next with
  | some b =>
    if isDigit b then
      let _ ← takeWhile isDigit
      pure ()
    else fail .invalidNumber
  | none => fail .invalidNumber

/-- Skips a number, from its first digit on. -/
def skipNumber : Reader Unit := do
  match ← next with
  | none => fail .invalidNumber
  | some first =>
    if first = 48 then
      match ← peek with
      | some b => if isDigit b then failNext .invalidNumber else pure ()
      | none => pure ()
    else if isDigit first then
      let _ ← takeWhile isDigit
      pure ()
    else fail .invalidNumber
    match ← peek with
    | some 46 =>
      advance
      let ds ← takeWhile isDigit
      if ds.isEmpty then failNext .invalidNumber
      else
        match ← peek with
        | some 101 | some 69 => skipExponent
        | _ => pure ()
    | some 101 | some 69 => skipExponent
    | _ => pure ()

/-- The two kinds of brackets. -/
inductive Bracket where
  | list
  | object
  deriving DecidableEq

/-- What skipping expects next. -/
inductive Expect where
  /-- A value. -/
  | value
  /-- A comma or a closing bracket; right after an opening bracket no comma. -/
  | more (comma : Bool)

/-- Skips a key and its colon. -/
def skipKey : Reader Unit := do
  match ← token with
  | some 34 =>
    advance
    let c ← get
    skipQuoted (c.rest.length + 1)
    match ← token with
    | some 58 => advance
    | some _ => failNext .expectedColon
    | none => failNext .endInObject
  | some _ => failNext .keyNotText
  | none => failNext .endInObject

/-- Skips to the end of the outermost value.  `inside` holds the brackets that are open, the
innermost first; `fuel` bounds the number of steps. -/
def skipFrom : (fuel : Nat) → (inside : List Bracket) → Expect → Reader Unit
  | 0, _, _ => fail .endInValue
  | fuel + 1, inside, .value => do
    match ← token with
    | none => failNext .endInValue
    | some b =>
      if b = 110 then advance; word [117, 108, 108]; skipFrom fuel inside (.more true)
      else if b = 116 then advance; word [114, 117, 101]; skipFrom fuel inside (.more true)
      else if b = 102 then advance; word [97, 108, 115, 101]; skipFrom fuel inside (.more true)
      else if b = 45 then advance; skipNumber; skipFrom fuel inside (.more true)
      else if isDigit b then skipNumber; skipFrom fuel inside (.more true)
      else if b = 34 then
        advance
        let c ← get
        skipQuoted (c.rest.length + 1)
        skipFrom fuel inside (.more true)
      else if b = 91 then advance; skipFrom fuel (.list :: inside) (.more false)
      else if b = 123 then advance; skipFrom fuel (.object :: inside) (.more false)
      else failNext .expectedValue
  | _ + 1, [], .more _ => pure ()
  | fuel + 1, innermost :: outer, .more comma => do
    let enter : Reader Unit := do
      if innermost = .object then skipKey
      skipFrom fuel (innermost :: outer) .value
    match ← token with
    | none => failNext (if innermost = .list then .endInList else .endInObject)
    | some b =>
      if b = 44 && comma then advance; enter
      else if b = 93 && innermost = .list || b = 125 && innermost = .object then
        advance
        skipFrom fuel outer (.more true)
      else if comma then
        failNext (if innermost = .list then .expectedListComma else .expectedObjectComma)
      else enter

/-- Skips one value. -/
def skip : Reader Unit := do
  let c ← get
  skipFrom (2 * c.rest.length + 4) [] .value

end Reader

end EmbedServer.Json
