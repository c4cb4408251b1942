/-
The tokens of a TOML document.

A token is read off the front of the remaining characters.  Line ends of two characters are folded
into one before anything is read.  Nothing here says what is wrong with a document, only that
something is.
-/
import EmbedServer.Text.Blank

namespace EmbedServer.Toml

/-- A token.  A bare word may be a key, a number or a part of one. -/
inductive Token where
  | space (cs : List Char)
  | newline
  | comment
  | equals
  | period
  | comma
  | colon
  | plus
  | leftBrace
  | rightBrace
  | leftBracket
  | rightBracket
  | word (cs : List Char)
  | text (cs : List Char) (multiline : Bool)
  deriving DecidableEq, Repr

/-- Characters of bare words. -/
def isWordChar (c : Char) : Bool := c.isAlphanum || c == '-' || c == '_'

/-- Characters of a comment. -/
def isCommentChar (c : Char) : Bool := c == '\t' || 0x20 ≤ c.toNat

/-- Characters that stand for themselves inside quotes. -/
def isTextChar (c : Char) : Bool := c == '\t' || (0x20 ≤ c.toNat && c.toNat != 0x7F)

/-- A carriage return right before a line feed is dropped. -/
def foldLineEnds : List Char → List Char
  | '\r' :: '\n' :: rest => '\n' :: foldLineEnds rest
  | c :: rest => c :: foldLineEnds rest
  | [] => []

/-- The value of a hexadecimal digit. -/
def hexDigit? (c : Char) : Option Nat :=
  if c.isDigit then some (c.toNat - 48)
  else if 'a' ≤ c && c ≤ 'f' then some (c.toNat - 87)
  else if 'A' ≤ c && c ≤ 'F' then some (c.toNat - 55)
  else none

/-- The character whose number is spelled by `count` hexadecimal digits. -/
def hexChar? : (count n : Nat) → List Char → Option (Char × List Char)
  | 0, n, rest => if n < 0xD800 ∨ (0xDFFF < n ∧ n < 0x110000) then some (Char.ofNat n, rest) else none
  | count + 1, n, c :: rest => (hexDigit? c).bind fun d => hexChar? count (n * 16 + d) rest
  | _ + 1, _, [] => none

/-- What follows a line break that a backslash hides: all white space after it is hidden as well. -/
def afterHiddenBreak (rest : List Char) : List Char :=
  rest.dropWhile fun c => c == ' ' || c == '\t' || c == '\n'

/-- What an escape stands for, after the backslash. -/
def escape? (multiline : Bool) : List Char → Option (List Char × List Char)
  | [] => none
  | c :: rest =>
    if c = '"' ∨ c = '\\' then some ([c], rest)
    else if c = 'b' then some ([Char.ofNat 8], rest)
    else if c = 'f' then some ([Char.ofNat 12], rest)
    else if c = 'n' then some (['\n'], rest)
    else if c = 'r' then some (['\r'], rest)
    else if c = 't' then some (['\t'], rest)
    else if c = 'u' then (hexChar? 4 0 rest).map fun (c, rest) => ([c], rest)
    else if c = 'U' then (hexChar? 8 0 rest).map fun (c, rest) => ([c], rest)
    else if multiline then
      if c = '\n' then some ([], afterHiddenBreak rest)
      else if c = ' ' ∨ c = '\t' then
        match rest.dropWhile fun d => d == ' ' || d == '\t' with
        | '\n' :: more => some ([], afterHiddenBreak more)
        | _ => none
      else none
    else none

/-- The rest of a text after its opening quotes; `literal` texts have no escapes.  `done` holds the
characters so far, the latest first, and `fuel` bounds the number of steps. -/
def textBody? (delim : Char) (literal multiline : Bool) :
    (fuel : Nat) → (done : List Char) → List Char → Option (List Char × List Char)
  | 0, _, _ => none
  | _ + 1, _, [] => none
  | fuel + 1, done, c :: rest =>
    if c = delim then
      if multiline then
        match rest with
        | d :: e :: more =>
          if d = delim ∧ e = delim then some (done.reverse, more)
          else textBody? delim literal multiline fuel (c :: done) rest
        | _ => textBody? delim literal multiline fuel (c :: done) rest
      else some (done.reverse, rest)
    else if c = '\n' then
      if multiline then textBody? delim literal multiline fuel (c :: done) rest else none
    else if c = '\\' ∧ !literal then
      match escape? multiline rest with
      | some (cs, rest) => textBody? delim literal multiline fuel (cs.reverse ++ done) rest
      | none => none
    else if isTextChar c then textBody? delim literal multiline fuel (c :: done) rest
    else none

/-- A quoted text, after its first quote. -/
def text? (delim : Char) (literal : Bool) (rest : List Char) : Option (Token × List Char) :=
  let body (multiline : Bool) (rest : List Char) : Option (Token × List Char) :=
    (textBody? delim literal multiline (rest.length + 1) [] rest).map fun (cs, rest) =>
      (.text cs multiline, rest)
  match rest with
  | d :: more =>
    if d = delim then
      match more with
      | e :: inner =>
        if e = delim then
          match inner with
          | '\n' :: afterBreak => body true afterBreak
          | _ => body true inner
        else some (.text [] false, more)
      | [] => some (.text [] false, more)
    else body false rest
  | [] => none

/-- The token at the front of a document and what follows it; `none` where there is none, although
characters are left. -/
def token? : List Char → Option (Token × List Char)
  | [] => none
  | c :: rest =>
    if c = '\n' then some (.newline, rest)
    else if c = ' ' ∨ c = '\t' then
      let more := rest.takeWhile fun d => d == ' ' || d == '\t'
      some (.space (c :: more), rest.drop more.length)
    else if c = '#' then some (.comment, rest.dropWhile isCommentChar)
    else if c = '=' then some (.equals, rest)
    else if c = '.' then some (.period, rest)
    else if c = ',' then some (.comma, rest)
    else if c = ':' then some (.colon, rest)
    else if c = '+' then some (.plus, rest)
    else if c = '\x7b' then some (.leftBrace, rest)
    else if c = '\x7d' then some (.rightBrace, rest)
    else if c = '[' then some (.leftBracket, rest)
    else if c = ']' then some (.rightBracket, rest)
    else if c = '\'' then text? '\'' true rest
    else if c = '"' then text? '"' false rest
    else if isWordChar c then some (.word (c :: rest.takeWhile isWordChar), rest.dropWhile isWordChar)
    else none

end EmbedServer.Toml
