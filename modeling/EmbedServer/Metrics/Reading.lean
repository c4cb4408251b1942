/-
What an exported text shows.

A line shows a figure: the name of a series, with its labels if it has any, a blank, and the value.  Lines
that begin with a number sign are comments.  The buckets of a histogram are the series that are named
after it with `_bucket` and carry their bound as the label `le`.
-/

namespace EmbedServer.Metrics

/-- The series and the value that a line shows, as they are written. -/
def figure? (line : List Char) : Option (String × String) :=
  match line with
  | [] | '#' :: _ => none
  | _ =>
    let series := line.takeWhile (· != ' ')
    some (String.ofList series, String.ofList (line.drop (series.length + 1)))

/-- The figures of a text, in order. -/
def figures (text : String) : List (String × String) := (text.toList.splitOn '\n').filterMap figure?

/-- The values shown for a series. -/
def valuesOf (text series : String) : List String :=
  ((figures text).filter (·.1 == series)).map Prod.snd

/-- The figures whose series are named after a histogram. -/
def blockOf (text name : String) : List (String × String) :=
  (figures text).filter fun f => (name ++ "_").toList.isPrefixOf f.1.toList

/-- The bound in the name of a series, if it is the name of a bucket of a histogram. -/
def bound? (name series : String) : Option String :=
  let stem := (name ++ "_bucket\x7ble=\"").toList
  if stem.isPrefixOf series.toList then
    some (String.ofList ((series.toList.drop stem.length).takeWhile (· != '"')))
  else none

/-- The buckets shown for a histogram, by bound and in order. -/
def bucketsOf (text name : String) : List (String × String) :=
  (figures text).filterMap fun f => (bound? name f.1).map fun bound => (bound, f.2)

end EmbedServer.Metrics
