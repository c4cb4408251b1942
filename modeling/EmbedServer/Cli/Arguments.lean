/-
The command line: what may stand on it, how it is read, and what is said when it cannot be.

Arguments are read from left to right.  The value of an option is attached to it or is the next
argument; it is looked at when the argument after it is reached, so a mistake further on can be
reported first.  Asking for help or for the version ends the reading.  Options that are not given
take their values from the environment.
-/
import EmbedServer.Decimal.Reader
import EmbedServer.Text.Similarity

namespace EmbedServer.Cli

/-! ### Options -/

/-- An option. -/
inductive Flag where
  | host
  | port
  | config
  | help
  | version
  deriving DecidableEq, Repr

namespace Flag

def all : List Flag := [.host, .port, .config, .help, .version]

/-- The long name. -/
def word : Flag → String
  | .host => "host"
  | .port => "port"
  | .config => "config"
  | .help => "help"
  | .version => "version"

/-- The short name. -/
def letter? : Flag → Option Char
  | .host => none
  | .port => some 'p'
  | .config => some 'c'
  | .help => some 'h'
  | .version => some 'V'

/-- What the value is called, for an option that has one. -/
def operand? : Flag → Option String
  | .host => some "HOST"
  | .port => some "PORT"
  | .config => some "CONFIG"
  | .help | .version => none

/-- The environment variable that stands in for the option. -/
def source? : Flag → Option String
  | .host => some "SOFTGREP_HOST"
  | .port => some "SOFTGREP_PORT"
  | .config => some "CONFIG_PATH"
  | .help | .version => none

def purpose : Flag → String
  | .host => "Host to listen on (overrides config)"
  | .port => "Port to listen on (overrides config)"
  | .config => "Path to a TOML configuration file"
  | .help => "Print help"
  | .version => "Print version"

/-- The option as it is shown. -/
def shown (f : Flag) : String :=
  "--" ++ f.word ++ f.operand?.elim "" fun operand => " <" ++ operand ++ ">"

def ofWord? (word : String) : Option Flag := all.find? (·.word == word)

def ofLetter? (c : Char) : Option Flag := all.find? (·.letter? == some c)

end Flag

/-! ### Messages -/

/-- The name of the program. -/
def programName : String := "softgrep-server"

def programVersion : String := "0.1.0"

/-- What is printed for the version. -/
def versionLine : String := programName ++ " " ++ programVersion

/-- How to call the program: with some options, or in general. -/
def usage (given : List Flag) : String :=
  "Usage: " ++ programName ++ " "
    ++ if given.isEmpty then "[OPTIONS]" else String.intercalate " " (given.map Flag.shown)

/-- A text filled up with blanks. -/
def padded (width : Nat) (text : String) : String :=
  text ++ String.ofList (List.replicate (width - text.length) ' ')

/-- The line about an option. -/
def helpLine (environment : List (String × String)) (f : Flag) : String :=
  let width := (Flag.all.map fun f => f.shown.length).foldl max 0
  let short := f.letter?.elim "    " fun c => String.ofList ['-', c, ',', ' ']
  let source := f.source?.elim "" fun name =>
    " [env: " ++ name ++ "=" ++ (environment.lookup name).getD "" ++ "]"
  "  " ++ short ++ padded width f.shown ++ "  " ++ f.purpose ++ source

/-- What is printed for help; it shows what the environment says. -/
def helpLines (environment : List (String × String)) : List String :=
  ["Embedding model server for softgrep", "", usage [], "", "Options:"]
    ++ Flag.all.map (helpLine environment)

/-- Why a text is no port. -/
inductive PortFault where
  | empty
  | notDigit
  | tooLarge
  | tooSmall
  | outside (n : Int)
  deriving DecidableEq, Repr

def PortFault.message : PortFault → String
  | .empty => "cannot parse integer from empty string"
  | .notDigit => "invalid digit found in string"
  | .tooLarge => "number too large to fit in target type"
  | .tooSmall => "number too small to fit in target type"
  | .outside n => toString n ++ " is not in 0..=65535"

/-- Why the arguments cannot be read. -/
inductive ArgumentError where
  /-- `similar` is an option with a like name, `given` what a better call would hold. -/
  | unknown (argument : String) (similar : Option Flag) (given : List Flag)
  | surplusValue (f : Flag) (value : String) (given : List Flag)
  | missingValue (f : Flag)
  | badPort (value : String) (fault : PortFault)
  | repeated (f : Flag)
  deriving DecidableEq, Repr

/-- A text in single quotes. -/
def singleQuoted (text : String) : String := "'" ++ text ++ "'"

/-- What is wrong, and perhaps how to call the program. -/
def ArgumentError.parts : ArgumentError → List String
  | .unknown argument similar given =>
    ["unexpected argument " ++ singleQuoted argument ++ " found"]
      ++ (similar.toList.map fun f =>
        "  tip: a similar argument exists: " ++ singleQuoted ("--" ++ f.word))
      ++ [usage given]
  | .surplusValue f value given =>
    ["unexpected value " ++ singleQuoted value ++ " for " ++ singleQuoted f.shown
        ++ " found; no more were expected",
      usage given]
  | .missingValue f =>
    ["a value is required for " ++ singleQuoted f.shown ++ " but none was supplied"]
  | .badPort value fault =>
    ["invalid value " ++ singleQuoted value ++ " for " ++ singleQuoted Flag.port.shown ++ ": "
      ++ fault.message]
  | .repeated f =>
    ["the argument " ++ singleQuoted f.shown ++ " cannot be used multiple times", usage []]

def ArgumentError.message (e : ArgumentError) : String :=
  "error: " ++ String.intercalate "\n\n" (e.parts ++ ["For more information, try '--help'."])
    ++ "\n"

/-! ### Values -/

/-- What the options say. -/
structure Options where
  host : Option String
  port : Option Nat
  config : Option String
  deriving DecidableEq, Repr

def Options.empty : Options := ⟨none, none, none⟩

/-- A whole number of sixty-four bits.  Whatever makes it impossible first counts: a character that
is no digit, or a digit that makes the number too big. -/
def readWord (text : String) : Except PortFault Int :=
  let cs := text.toList
  let (negative, ds) := Decimal.takeSign cs
  let n : Nat := Decimal.ofDigits (ds.takeWhile Char.isDigit)
  if cs.isEmpty then .error .empty
  else if negative && 0x8000000000000000 < n then .error .tooSmall
  else if !negative && 0x8000000000000000 ≤ n then .error .tooLarge
  else if ds.isEmpty || !ds.all Char.isDigit then .error .notDigit
  else .ok (if negative then -(n : Int) else (n : Int))

def readPort (text : String) : Except PortFault Nat := do
  let n ← readWord text
  if 0 ≤ n ∧ n ≤ 65535 then .ok n.toNat else .error (.outside n)

/-- The options with the value of one more. -/
def Options.put (o : Options) (f : Flag) (value : String) : Except ArgumentError Options :=
  match f with
  | .host => .ok { o with host := some value }
  | .port =>
    match readPort value with
    | .ok port => .ok { o with port := some port }
    | .error fault => .error (.badPort value fault)
  | .config =>
    if value.isEmpty then .error (.missingValue .config) else .ok { o with config := some value }
  | .help | .version => .ok o

/-! ### Reading -/

/-- Why reading ends early. -/
inductive Halt where
  | help
  | version
  | error (e : ArgumentError)
  deriving DecidableEq, Repr

/-- What has been read so far. -/
structure Reading where
  options : Options
  /-- The options whose values have been looked at, in order. -/
  given : List Flag
  /-- The option whose value is still to be looked at, with the value if it has come. -/
  waiting : Option (Flag × Option String)
  deriving DecidableEq, Repr

namespace Reading

def start : Reading := ⟨.empty, [], none⟩

/-- Looks at the value of an option.  What has been read is known even if the value is wrong. -/
def take (r : Reading) (f : Flag) (value : Option String) : Reading × Option ArgumentError :=
  match value with
  | none => (r, some (.missingValue f))
  | some v =>
    if r.given.contains f then ({ r with given := r.given.erase f }, some (.repeated f))
    else
      let r := { r with given := r.given ++ [f] }
      match r.options.put f v with
      | .ok options => ({ r with options }, none)
      | .error e => (r, some e)

/-- Looks at the value that is waiting. -/
def settle (r : Reading) : Reading × Option ArgumentError :=
  match r.waiting with
  | none => (r, none)
  | some (f, value) => { r with waiting := none }.take f value

/-- What has been read, or the end of the reading. -/
def orHalt : Reading × Option ArgumentError → Except Halt Reading
  | (r, none) => .ok r
  | (_, some e) => .error (.error e)

/-- Reads an option, with a value if one is attached. -/
def option (r : Reading) (f : Flag) (attached : Option String) : Except Halt Reading := do
  let settled ← orHalt r.settle
  match f, attached with
  | .help, _ => .error .help
  | .version, _ => .error .version
  | f, none => .ok { settled with waiting := some (f, none) }
  | f, value => orHalt (settled.take f value)

/-- The error for an option that does not exist.  Mistakes in what stands before it do not count. -/
def unknownWord (r : Reading) (word : String) : ArgumentError :=
  let given := r.settle.1.given
  let similar := Text.mostSimilar? word (Flag.all.map fun f => (f.word, f))
  .unknown ("--" ++ word) similar
    (given ++ (similar.toList.filter fun f => !given.contains f))

/-- Reads an option by its long name. -/
def long (r : Reading) (text : List Char) : Except Halt Reading :=
  let word := text.takeWhile (· != '=')
  let attached := (text.drop word.length).tail?.map String.ofList
  match Flag.ofWord? (String.ofList word) with
  | none => .error (.error (r.unknownWord (String.ofList word)))
  | some f =>
    match f.operand?, attached with
    | none, some value => .error (.error (.surplusValue f value (r.given ++ [f])))
    | _, _ => r.option f attached

/-- Reads options by their short names.  The rest behind one that has a value is the value. -/
def short (r : Reading) : List Char → Except Halt Reading
  | [] => .ok r
  | c :: rest =>
    match Flag.ofLetter? c with
    | none => .error (.error (.unknown (String.ofList ['-', c]) none []))
    | some f =>
      match f.operand?, rest with
      | none, _ => do
        let r ← r.option f none
        r.short rest
      | some _, [] => r.option f none
      | some _, '=' :: value | some _, value => r.option f (some (String.ofList value))

/-- Reads an argument. -/
def next (r : Reading) (argument : String) : Except Halt Reading :=
  match argument.toList with
  | '-' :: '-' :: word => r.long word
  | '-' :: c :: letters => r.short (c :: letters)
  | _ =>
    match r.waiting with
    | some (f, none) => .ok { r with waiting := some (f, some argument) }
    | _ => .error (.error (.unknown argument none []))

/-- Reads the arguments.  Behind two dashes there are no options, and nothing else may stand. -/
def arguments (r : Reading) : List String → Except Halt Reading
  | [] => orHalt r.settle
  | a :: rest =>
    if a = "--" then
      match rest with
      | [] => orHalt r.settle
      | b :: _ => .error (.error (.unknown b none []))
    else do
      let r ← r.next a
      r.arguments rest

/-- Fills in an option from the environment, if it was not given. -/
def fill (environment : List (String × String)) (r : Reading) (f : Flag) : Except Halt Reading :=
  match r.given.contains f, f.source?.bind (fun name => environment.lookup name) with
  | false, some value => orHalt (r.take f (some value))
  | _, _ => .ok r

end Reading

/-- The options that the arguments and the environment give. -/
def readOptions (arguments : List String) (environment : List (String × String)) :
    Except Halt Options := do
  let r ← Reading.start.arguments arguments
  let r ← Flag.all.foldlM (Reading.fill environment) r
  pure r.options

end EmbedServer.Cli
