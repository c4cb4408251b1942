/-
What is known about one call while it passes through the stages.
-/
import EmbedServer.Duration

namespace EmbedServer.Call

/-- Names with values, each name once. -/
abbrev Metadata := List (String × String)

namespace Metadata

def get? (m : Metadata) (name : String) : Option String := m.lookup name

/-- Sets the value of a name. -/
def set (m : Metadata) (name value : String) : Metadata :=
  m.filter (fun p => p.1 != name) ++ [(name, value)]

end Metadata

structure Context where
  method : String
  metadata : Metadata
  deriving DecidableEq, Repr

end EmbedServer.Call
