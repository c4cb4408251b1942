/-
Which events are written.

A filter is a list of directives.  A directive sets the mildest level that is written, for all parts
of the server or for those whose names begin with its target.  The directive with the longest target
that an event's origin begins with decides, the later of two with the same target; an event that no
directive is about is not written.

Directives are written with commas between them.  One is a level, a target, or a target, an equals
sign and a level.  A target in front of a bracket is about the inside of spans, which events here
never are.
-/
import EmbedServer.Log
import EmbedServer.Net.Address

namespace EmbedServer.Log

/-- A bound on levels; `none` lets nothing through. -/
abbrev Bound := Option Level

/-- Whether a level is within a bound. -/
def Bound.admits (b : Bound) (l : Level) : Bool := b.any fun b => b.rank ≤ l.rank

structure Directive where
  /-- What the names of the parts begin with; `none` is about all parts. -/
  target : Option String
  /-- Whether only the inside of spans is meant. -/
  inSpans : Bool
  bound : Bound
  deriving DecidableEq, Repr

/-- Why a text is no directive. -/
inductive DirectiveFault where
  | malformed
  | level
  deriving DecidableEq, Repr

def DirectiveFault.message : DirectiveFault → String
  | .malformed => "invalid filter directive"
  | .level =>
    "error parsing level filter: expected one of \"off\", \"error\", \"warn\", \"info\", \"debug\", \"trace\", or a number 0-5"

/-! ### Reading -/

/-- The bounds by name, in the order of their numbers. -/
def boundNames : List (String × Bound) :=
  [("off", none), ("error", some .error), ("warn", some .warn), ("info", some .info),
    ("debug", some .debug), ("trace", some .trace)]

/-- The bound that a text names, in any case or by number. -/
def readBound? (text : String) : Option Bound :=
  let digits := match text.toList with
    | '+' :: ds => ds
    | ds => ds
  match Net.number? 6 digits with
  | some n => boundNames[n]?.map Prod.snd
  | none => boundNames.lookup (Text.lower text)

/-- The bound behind an equals sign; without a name everything is written. -/
def readBehind (text : List Char) : Except DirectiveFault Bound :=
  if text.isEmpty then .ok (some .trace)
  else match readBound? (String.ofList text) with
    | some b => .ok b
    | none => .error .level

/-- Whether a target can begin with a character. -/
def startsTarget (c : Char) : Bool :=
  c.isAlphanum || c == '-' || c == ':' || c == '_' || (128 ≤ c.toNat && !Text.isBlank c)

/-- What follows the opening bracket of a span. -/
def readSpan (target : Option String) (text : List Char) : Except DirectiveFault Directive :=
  match text.dropWhile (· != ']') with
  | [']'] => .ok ⟨target, true, some .trace⟩
  | ']' :: '=' :: level => (readBehind level).map fun b => ⟨target, true, b⟩
  | _ => .error .malformed

/-- Reads a directive. -/
def Directive.read (text : String) : Except DirectiveFault Directive :=
  let cs := text.toList
  match cs.dropWhile Text.isBlank with
  | [] => .error .malformed
  | '[' :: span => readSpan none span
  | c :: _ =>
    let target := cs.takeWhile fun c => c != '=' && c != '['
    if !startsTarget c then .error .malformed
    else match cs.drop target.length with
      | '=' :: level =>
        if cs.head? == some c then
          (readBehind level).map fun b => ⟨some (String.ofList target), false, b⟩
        else .error .level
      | '[' :: span => readSpan (some (String.ofList target)) span
      | _ => match readBound? text with
        | some b => .ok ⟨none, false, b⟩
        | none => .ok ⟨some text, false, some .trace⟩

/-! ### Filters -/

abbrev Filter := List Directive

namespace Filter

/-- The filter that lets only errors through. -/
def errorsOnly : Filter := [⟨none, false, some .error⟩]

/-- Directives, or the filter for none at all. -/
def ofDirectives (ds : List Directive) : Filter := if ds.isEmpty then errorsOnly else ds

/-- Reads a filter of which every directive must be in order. -/
def read? (text : String) : Option Filter :=
  if text.isEmpty then some errorsOnly
  else ((Text.pieces ',' text).mapM fun piece => (Directive.read piece).toOption).map ofDirectives

/-- Reads a filter and leaves out the directives that are not in order; they are reported. -/
def readLossy (text : String) : Filter × List (String × DirectiveFault) :=
  let read := ((Text.pieces ',' text).filter (!·.isEmpty)).map fun piece =>
    (piece, Directive.read piece)
  (ofDirectives (read.filterMap fun (_, d) => d.toOption),
    read.filterMap fun (piece, d) =>
      match d with
      | .ok _ => none
      | .error fault => some (piece, fault))

end Filter

/-- Whether a directive is about an event. -/
def Directive.concerns (d : Directive) (e : Event) : Bool :=
  !d.inSpans && d.target.all (Text.startsWith e.origin.target)

/-- How narrow a directive is. -/
def Directive.width (d : Directive) : Nat := d.target.elim 0 (·.length + 1)

/-- The directive that decides about an event. -/
def Filter.deciding? (f : Filter) (e : Event) : Option Directive :=
  (f.filter (·.concerns e)).foldl (fun best d =>
    match best with
    | some b => if d.width < b.width then some b else some d
    | none => some d) none

/-- Whether a filter lets an event through. -/
def Filter.admits (f : Filter) (e : Event) : Bool :=
  (f.deciding? e).any fun d => d.bound.admits e.level

end EmbedServer.Log
