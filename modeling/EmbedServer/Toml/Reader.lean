/-
Reading a TOML document.

The document is a sequence of lines: blank ones, headers in brackets, and keys with values.  A
section is the keys after a header; it is put into the document as a whole.  Numbers may have single
underscores between digits; a whole one has at most sixty-four bits with its sign, and may be given
in base two, eight or sixteen; a fraction has digits on both sides of its point.
-/
import EmbedServer.Toml.Token
import EmbedServer.Toml.Value
import EmbedServer.Toml.Date

namespace EmbedServer.Toml

/-- A reader over the remaining characters; it fails where the document is malformed. -/
abbrev Reader := StateT (List Char) Option

namespace Reader

/-- The next token, not taken; `none` at the end of the document. -/
def peek : Reader (Option Token) := fun cs =>
  if cs.isEmpty then some (none, cs) else (token? cs).map fun (t, _) => (some t, cs)

/-- Takes a token; the document must not end here. -/
def next : Reader Token := fun cs => token? cs

/-- Takes the next token if it is the given one. -/
def eat (t : Token) : Reader Bool := do
  if (← peek) = some t then
    let _ ← next
    pure true
  else pure false

/-- Takes the given token. -/
def expect (t : Token) : Reader Unit := do
  if (← next) = t then pure () else failure

/-- Skips spaces and tabs. -/
def spaces : Reader Unit := do
  match ← peek with
  | some (.space _) =>
    let _ ← next
    pure ()
  | _ => pure ()

/-- The end of a line or of the document. -/
def lineEnd : Reader Unit := do
  match ← peek with
  | none => pure ()
  | some _ => expect .newline

/-- Takes a comment with the end of its line, if one comes next. -/
def comment : Reader Bool := do
  if ← eat .comment then
    lineEnd
    pure true
  else pure false

/-- Skips blank lines and comments; `fuel` bounds their number. -/
def blankLines : (fuel : Nat) → Reader Unit
  | 0 => failure
  | fuel + 1 => do
    spaces
    if ← eat .newline then blankLines fuel
    else if ← comment then blankLines fuel
    else pure ()

/-- Skips blank lines and comments. -/
def blank : Reader Unit := fun cs => blankLines (cs.length + 1) cs

/-- One part of a key. -/
def keyPart : Reader String := do
  match ← next with
  | .word cs => pure (String.ofList cs)
  | .text cs false => pure (String.ofList cs)
  | _ => failure

/-- The further parts of a dotted key; `fuel` bounds their number. -/
def keyParts : (fuel : Nat) → Reader (List String)
  | 0 => failure
  | fuel + 1 => do
    spaces
    if ← eat .period then
      spaces
      let part ← keyPart
      let more ← keyParts fuel
      pure (part :: more)
    else pure []

/-- A dotted key and the spaces after it. -/
def key : Reader (List String) := do
  let first ← keyPart
  let cs ← get
  let more ← keyParts (cs.length + 1)
  pure (first :: more)

/-! ### Numbers -/

/-- Digits and the underscores between them, from the front of a word. -/
structure DigitScan where
  first : Bool := true
  leadingZero : Bool := false
  underscore : Bool := false

/-- Takes digits up to the first character that is none; `none` for a misplaced underscore or a zero
in front.  The result is the digits and what follows them. -/
def scanDigits (radix : Nat) (zeros : Bool) : DigitScan → List Char → Option (List Char × List Char)
  | s, [] => if s.first || s.underscore then none else some ([], [])
  | s, c :: rest =>
    let isDigit := match hexDigit? c with
      | some d => decide (d < radix)
      | none => false
    if c == '0' && s.first then
      (scanDigits radix zeros ⟨false, true, s.underscore⟩ rest).map fun (ds, r) => (c :: ds, r)
    else if isDigit then
      if !s.first && s.leadingZero && !zeros then none
      else (scanDigits radix zeros ⟨false, s.leadingZero, false⟩ rest).map fun (ds, r) => (c :: ds, r)
    else if c == '_' && s.first then none
    else if c == '_' && !s.underscore then scanDigits radix zeros ⟨false, s.leadingZero, true⟩ rest
    else if s.first || s.underscore then none
    else some ([], c :: rest)

/-- The digits at the front of a word, after an optional sign, and what follows them. -/
def scanSigned (word : List Char) : Option (Bool × List Char × List Char) :=
  let (negative, body) := match word with
    | '-' :: rest => (true, rest)
    | '+' :: rest => (false, rest)
    | rest => (false, rest)
  (scanDigits 10 false {} body).map fun (ds, rest) => (negative, ds, rest)

/-- The number that digits spell in some base. -/
def ofDigits (radix : Nat) (ds : List Char) : Nat :=
  ds.foldl (fun n c => n * radix + (hexDigit? c).getD 0) 0

/-- A whole number within sixty-four bits with its sign. -/
def whole? (n : Int) : Option Value :=
  if -0x8000000000000000 ≤ n ∧ n < 0x8000000000000000 then some (.whole n) else none

/-- A whole number in base two, eight or sixteen. -/
def inBase (radix : Nat) (word : List Char) : Option Value :=
  match scanDigits radix true {} word with
  | some (ds, []) => whole? (ofDigits radix ds)
  | _ => none

/-- A whole number in base ten. -/
def decimal (word : List Char) : Option Value :=
  match scanSigned word with
  | some (negative, ds, []) =>
    whole? (if negative then -(ofDigits 10 ds : Int) else (ofDigits 10 ds : Int))
  | _ => none

/-- The exponent of a number: the rest of a word from its letter on, and possibly a sign and a word
after it. -/
def exponentPart : List Char → Reader Int
  | [] => pure 0
  | c :: rest =>
    if c = 'e' ∨ c = 'E' then
      match rest with
      | [] => do
        let _ ← eat .plus
        match ← next with
        | .word cs =>
          match scanDigits 10 true {} cs with
          | some (ds, []) => pure (ofDigits 10 ds)
          | _ => failure
        | _ => failure
      | _ =>
        let (negative, body) := Decimal.takeSign rest
        match scanDigits 10 true {} body with
        | some (ds, []) => pure (if negative then -(ofDigits 10 ds : Int) else (ofDigits 10 ds : Int))
        | _ => failure
    else failure

/-- A number with a fraction or an exponent; `after` is the word behind the point. -/
def fractional (word : List Char) (after : Option (List Char)) : Reader Value := do
  let (negative, ds, rest) ← liftM (scanSigned word)
  let (fraction, rest) ← match after with
    | none => pure ([], rest)
    | some cs => if rest.isEmpty then liftM (scanDigits 10 true {} cs) else failure
  let exponent ← exponentPart rest
  let x := Decimal.nearest (ofDigits 10 (ds ++ fraction)) (exponent - (fraction.length : Int))
  if x.isFinite then pure (.real (if negative then -x else x)) else failure

/-- A number that begins with a word. -/
def number (word : List Char) : Reader Value := do
  match word with
  | '0' :: 'x' :: ds => liftM (inBase 16 ds)
  | '0' :: 'o' :: ds => liftM (inBase 8 ds)
  | '0' :: 'b' :: ds => liftM (inBase 2 ds)
  | _ =>
    if word.contains 'e' || word.contains 'E' then fractional word none
    else if ← eat .period then
      match ← next with
      | .word cs => fractional word (some cs)
      | _ => failure
    else if word = "inf".toList then pure (.real (1.0 / 0.0))
    else if word = "-inf".toList then pure (.real (-1.0 / 0.0))
    else if word = "nan".toList || word = "-nan".toList then pure (.real (0.0 / 0.0))
    else liftM (decimal word)

/-! ### Dates -/

/-- Takes a word of a date. -/
def dateWord : Reader Unit := do
  match ← next with
  | .word _ => pure ()
  | _ => failure

/-- The part of a date after its first word, which may go on after one space. -/
def dateRest (colonTaken : Bool) : Reader Unit := do
  let cs ← get
  match token? cs with
  | some (.space [' '], more) =>
    match token? more with
    | some (.word _, rest) => set rest
    | _ => pure ()
  | _ => pure ()
  if colonTaken || (← eat .colon) then
    dateWord
    expect .colon
    dateWord
    if ← eat .period then dateWord
    if ← eat .plus then dateWord
    if ← eat .colon then dateWord

/-- A date that begins with a word; `all` are the characters from that word on. -/
def date (all : List Char) (colonTaken : Bool) : Reader Value := do
  dateRest colonTaken
  let rest ← get
  match Date.read? (all.take (all.length - rest.length)) with
  | some d => pure (.date d.text)
  | none => failure

/-- Whether a word has an exponent letter with a minus sign after it. -/
def hasSmallExponent (word : List Char) : Bool :=
  (word.zip word.tail).any fun (c, d) => (c == 'e' || c == 'E') && d == '-'

/-- Whether a word begins a date rather than a number. -/
def beginsDate (word : List Char) : Bool :=
  word.contains 'T' || word.contains 't' || (word.tail.contains '-' && !hasSmallExponent word)

/-- A number or a date that begins with a word; `all` are the characters from that word on. -/
def numberOrDate (all word : List Char) : Reader Value := do
  if beginsDate word then date all false
  else if ← eat .colon then date all true
  else number word

/-- A value that is a bare word or begins with one. -/
def bare (all word : List Char) : Reader Value := do
  if word = "true".toList then pure (.flag true)
  else if word = "false".toList then pure (.flag false)
  else if word = "inf".toList || word = "nan".toList then numberOrDate all word
  else match word with
    | c :: _ => if c = '-' || c.isDigit then numberOrDate all word else failure
    | [] => failure

/-! ### Values -/

/-- A value; `fuel` bounds the brackets and the items inside. -/
def value : (fuel : Nat) → Reader Value
  | 0 => failure
  | fuel + 1 => do
    let all ← get
    match ← next with
    | .text cs _ => pure (.text (String.ofList cs))
    | .word cs => bare all cs
    | .plus =>
      match ← next with
      | .word cs => number cs
      | _ => failure
    | .leftBracket => (.list · false) <$> items fuel
    | .leftBrace =>
      spaces
      if ← eat .rightBrace then pure (.table .inline [])
      else (.table .inline ·) <$> pairs fuel []
    | _ => failure
where
  /-- The items of a list up to its closing bracket. -/
  items : (fuel : Nat) → Reader (List Value)
    | 0 => failure
    | fuel + 1 => do
      blank
      if ← eat .rightBracket then pure []
      else
        let v ← value fuel
        blank
        if ← eat .comma then (v :: ·) <$> items fuel
        else
          expect .rightBracket
          pure [v]
  /-- The entries of an inline table up to its closing brace. -/
  pairs : (fuel : Nat) → Entries → Reader Entries
    | 0, _ => failure
    | fuel + 1, entries => do
      let k ← key
      spaces
      expect .equals
      spaces
      let v ← value fuel
      let entries ← liftM (Entries.addDotted v k entries)
      spaces
      if ← eat .rightBrace then pure entries
      else
        expect .comma
        spaces
        pairs fuel entries

/-! ### The document -/

/-- A header after its opening bracket: whether it begins an item, and its key. -/
def header : Reader (Bool × List String) := do
  let item ← eat .leftBracket
  spaces
  let k ← key
  expect .rightBracket
  if item then expect .rightBracket
  spaces
  if ← comment then pure () else lineEnd
  pure (item, k)

/-- A key with its value. -/
def assignment : Reader (List String × Value) := do
  let k ← key
  spaces
  expect .equals
  spaces
  let v ← fun cs => value (cs.length + 1) cs
  spaces
  if ← comment then pure () else lineEnd
  pure (k, v)

/-- A section under way: its header, if it has one, and its entries so far. -/
structure Section where
  header : Option (Bool × List String)
  entries : Entries

/-- Puts a finished section into the document. -/
def Section.close (s : Section) (root : Entries) : Option Entries :=
  match s.header with
  | none => Entries.addAll root s.entries
  | some (item, k) => Entries.addSection item s.entries k root

/-- The lines of a document; `fuel` bounds their number. -/
def lines : (fuel : Nat) → (root : Entries) → Section → Reader Entries
  | 0, _, _ => failure
  | fuel + 1, root, s => do
    blank
    match ← peek with
    | none => liftM (s.close root)
    | some .leftBracket =>
      let _ ← next
      let h ← header
      let root ← liftM (s.close root)
      lines fuel root ⟨some h, []⟩
    | some _ =>
      let (k, v) ← assignment
      let entries ← liftM (Entries.addDotted v k s.entries)
      lines fuel root { s with entries := entries }

end Reader

/-- The entries of a document, if it is well formed.  A byte-order mark in front is ignored. -/
def parse (text : String) : Option Entries :=
  let cs := foldLineEnds text.toList
  let cs := if cs.head? = some (Char.ofNat 0xFEFF) then cs.tail else cs
  ((Reader.lines (cs.length + 2) [] ⟨none, []⟩).run cs).map Prod.fst

end EmbedServer.Toml
