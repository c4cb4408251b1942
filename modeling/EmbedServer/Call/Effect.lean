/-
What a call leaves behind besides its answer: log events, trace lines, and samples to count.
-/
import EmbedServer.Log
import EmbedServer.Metrics.Collector

namespace EmbedServer.Call

inductive Effect where
  | log (e : Log.Event)
  | trace (line : String)
  | sample (s : Metrics.Sample)
  deriving DecidableEq, Repr

namespace Effect

/-- The log events among effects. -/
def events (fx : List Effect) : List Log.Event :=
  fx.filterMap fun | .log e => some e | _ => none

/-- The trace lines among effects. -/
def traces (fx : List Effect) : List String :=
  fx.filterMap fun | .trace line => some line | _ => none

/-- The samples among effects. -/
def samples (fx : List Effect) : List Metrics.Sample :=
  fx.filterMap fun | .sample s => some s | _ => none

end Effect

end EmbedServer.Call
