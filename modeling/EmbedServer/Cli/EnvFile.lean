/-
Environment files: variables for a program, one assignment a line.

A line may be empty, a comment, or a name, an equals sign and a value; `export` may stand in front.
A line goes on where a quotation is open.  A value is plain text up to a blank, and parts of it may
be quoted: strongly, so that everything in the quotation is meant as it stands, or weakly, so that
escapes and variables still count.  Variables have the value that the environment gives them, or
else an earlier line.

The first line that cannot be read ends the reading.  What stood before it counts, and a variable
that the environment has already keeps its value.
-/
import EmbedServer.Text.Blank

namespace EmbedServer.Cli.EnvFile

/-! ### Lines -/

/-- Where in a line one is, as far as its end is concerned. -/
inductive Place where
  | plain
  | blank
  | escape
  | weak
  | weakEscape
  | strong
  | strongEscape
  deriving DecidableEq, Repr

/-- A quote of the strong kind. -/
def strongQuote : Char := Char.ofNat 0x27

/-- What a character opens outside quotations. -/
def Place.opened (c : Char) : Place :=
  if c = '\\' then .escape
  else if c = '"' then .weak
  else if c = strongQuote then .strong
  else .plain

/-- The place after one more character. -/
def Place.step (c : Char) : Place → Place
  | .blank => .opened c
  | .plain => if Text.isBlank c && c != '\n' && c != '\r' then .blank else .opened c
  | .escape => .plain
  | .weak => if c = '\\' then .weakEscape else if c = '"' then .plain else .weak
  | .weakEscape => .weak
  | .strong => if c = '\\' then .strongEscape else if c = strongQuote then .plain else .strong
  | .strongEscape => .strong

/-- A stretch of text up to a comment in it, and the place at its end; `none` after a comment. -/
def Place.walk : Place → List Char → List Char × Option Place
  | p, [] => ([], some p)
  | p, c :: rest =>
    if p = .blank ∧ c = '#' then ([], none)
    else
      let (kept, last) := (p.step c).walk rest
      (c :: kept, last)

/-- The text cut behind each line feed. -/
def physicalLines : List Char → List (List Char)
  | [] => []
  | c :: rest =>
    if c = '\n' then ['\n'] :: physicalLines rest
    else match physicalLines rest with
      | line :: more => (c :: line) :: more
      | [] => [[c]]

/-- A line without its line feed, and without a carriage return before that. -/
def withoutLineEnd (line : List Char) : List Char :=
  match line.reverse with
  | '\n' :: '\r' :: rest | '\n' :: rest => rest.reverse
  | _ => line

/-- The lines, each with those that continue it; `begun` is the part of a line that has been read,
and `p` the place at its end.  A line that never ends is none. -/
def lines (begun : List Char) (p : Place) : List (List Char) → List (List Char)
  | [] => []
  | line :: rest =>
    let all := begun ++ line
    if (all.dropWhile Text.isBlank).head? = some '#' then lines [] .plain rest
    else match p.walk line with
      | (kept, none) => (begun ++ kept) :: lines [] .plain rest
      | (_, some .plain) => withoutLineEnd all :: lines [] .plain rest
      | (_, some q) => lines all q rest

/-! ### Values -/

/-- Where in a value one is.  In the middle of an escape or of a variable's name, `quoted` says
whether that stands in a weak quotation. -/
inductive Mode where
  | bare
  | weak
  | strong
  /-- Behind the value, where only a comment may follow. -/
  | behind
  | escaped (quoted : Bool)
  | named (quoted : Bool) (name : List Char)
  | braced (quoted : Bool) (name : List Char)

/-- The mode around an escape or a name. -/
def Mode.around (quoted : Bool) : Mode := if quoted then .weak else .bare

/-- The character that an escape stands for. -/
def unescape? (c : Char) : Option Char :=
  if c = 'n' then some '\n'
  else if c = '\\' || c = strongQuote || c = '"' || c = '$' || c = ' ' then some c
  else none

/-- Reads a value; `out` is what has been read of it. -/
def value? (meaning : String → String) (out : List Char) : Mode → List Char → Option (List Char)
  | .bare, [] | .behind, [] | .escaped false, [] => some out
  | .named false name, [] => some (out ++ (meaning (String.ofList name)).toList)
  | _, [] => none
  | .behind, c :: rest =>
    if c = ' ' || c = '\t' then value? meaning out .behind rest
    else if c = '#' then some out
    else none
  | .escaped quoted, c :: rest =>
    match unescape? c with
    | some d => value? meaning (out ++ [d]) (.around quoted) rest
    | none => none
  | .strong, c :: rest =>
    if c = strongQuote then value? meaning out .bare rest
    else value? meaning (out ++ [c]) .strong rest
  | .named quoted name, c :: rest =>
    if c.isAlphanum then value? meaning out (.named quoted (name ++ [c])) rest
    else if c = '\x7b' && name.isEmpty then value? meaning out (.braced quoted []) rest
    else
      let out := out ++ (meaning (String.ofList name)).toList
      if c = '$' then value? meaning out (.named quoted []) rest
      else value? meaning (out ++ [c]) (.around quoted) rest
  | .braced quoted name, c :: rest =>
    if c = '\x7d' then
      value? meaning (out ++ (meaning (String.ofList name)).toList) (.around quoted) rest
    else value? meaning out (.braced quoted (name ++ [c])) rest
  | .weak, c :: rest =>
    if c = '$' then value? meaning out (.named true []) rest
    else if c = '"' then value? meaning out .bare rest
    else if c = '\\' then value? meaning out (.escaped true) rest
    else value? meaning (out ++ [c]) .weak rest
  | .bare, c :: rest =>
    if c = '$' then value? meaning out (.named false []) rest
    else if c = strongQuote then value? meaning out .strong rest
    else if c = '"' then value? meaning out .weak rest
    else if c = '\\' then value? meaning out (.escaped false) rest
    else if c = ' ' || c = '\t' then value? meaning out .behind rest
    else value? meaning (out ++ [c]) .bare rest

/-! ### Assignments -/

/-- A name at the front of a line, and the rest. -/
def name? (line : List Char) : Option (String × List Char) :=
  match line with
  | c :: _ =>
    if c.isAlpha || c = '_' then
      let name := line.takeWhile fun c => c.isAlphanum || c = '_' || c = '.'
      some (String.ofList name, line.drop name.length)
    else none
  | [] => none

/-- The rest of a line behind blanks and an equals sign. -/
def equals? (line : List Char) : Option (List Char) :=
  match line.dropWhile Text.isBlank with
  | '=' :: rest => some rest
  | _ => none

/-- What a line says. -/
inductive Line where
  | nothing
  | assignment (name value : String)
  | malformed
  deriving DecidableEq, Repr

/-- Reads a line. -/
def Line.read (meaning : String → String) (text : List Char) : Line :=
  let empty (cs : List Char) : Bool := cs.isEmpty || cs.head? == some '#'
  let line := (Text.dropEndWhile Text.isBlank text).dropWhile Text.isBlank
  if empty line then .nothing
  else
    let assigned := do
      let (name, rest) ← name? line
      match equals? rest with
      | some rest => pure (name, rest)
      | none =>
        if name = "export" then
          let (name, rest) ← name? (rest.dropWhile Text.isBlank)
          pure (name, ← equals? rest)
        else none
    match assigned with
    | none => .malformed
    | some (name, rest) =>
      let rest := rest.dropWhile Text.isBlank
      if empty rest then .assignment name ""
      else match value? meaning [] .bare rest with
        | some value => .assignment name (String.ofList value)
        | none => .malformed

/-- The environment after the lines of a file; `earlier` is what the lines so far assign. -/
def extendWith (earlier environment : List (String × String)) :
    List (List Char) → List (String × String)
  | [] => environment
  | line :: rest =>
    let meaning (name : String) : String :=
      ((environment.lookup name).or (earlier.lookup name)).getD ""
    match Line.read meaning line with
    | .malformed => environment
    | .nothing => extendWith earlier environment rest
    | .assignment name value =>
      extendWith ((name, value) :: earlier)
        (if (environment.lookup name).isSome then environment else environment ++ [(name, value)])
        rest

/-- The environment with the variables that a file adds to it. -/
def extend (environment : List (String × String)) (file : String) : List (String × String) :=
  let text := match file.toList with
    | '\ufeff' :: rest => rest
    | cs => cs
  extendWith [] environment (lines [] .plain (physicalLines text))

end EmbedServer.Cli.EnvFile
