/-
The counters of a server, and their export.

Everything that is counted arrives as a `Sample`; a collector is what remains of the samples seen so
far.  All counters have sixty-four bits and wrap around.
-/
import EmbedServer.Metrics.Histogram
import EmbedServer.Duration
import EmbedServer.Decimal.Style

namespace EmbedServer.Metrics

/-- Something to count. -/
inductive Sample where
  /-- A call left the stages after this long. -/
  | request (elapsed : Duration)
  /-- A computation ended, one way or another, after this long. -/
  | backend (elapsed : Duration)
  | error
  | cancelled
  /-- A computation was admitted. -/
  | started
  /-- An admitted computation was answered or given up. -/
  | finished
  deriving DecidableEq, Repr

structure Collector where
  requests : UInt64
  errors : UInt64
  cancelled : UInt64
  inFlight : UInt64
  /-- The sum of the requests' whole milliseconds. -/
  totalMs : UInt64
  requestLatency : Histogram
  backendLatency : Histogram
  deriving DecidableEq, Repr

namespace Collector

def empty : Collector := ⟨0, 0, 0, 0, 0, Histogram.empty, Histogram.empty⟩

/-- A request's whole milliseconds, in sixty-four bits. -/
def requestMs (elapsed : Duration) : UInt64 := elapsed.millis.toUInt64

/-- Counts one sample. -/
def record (c : Collector) : Sample → Collector
  | .request elapsed =>
    { c with
      requests := c.requests + 1
      totalMs := c.totalMs + requestMs elapsed
      requestLatency := c.requestLatency.observe (requestMs elapsed).toNat }
  | .backend elapsed => { c with backendLatency := c.backendLatency.observe elapsed.millis }
  | .error => { c with errors := c.errors + 1 }
  | .cancelled => { c with cancelled := c.cancelled + 1 }
  | .started => { c with inFlight := c.inFlight + 1 }
  | .finished => { c with inFlight := c.inFlight - 1 }

/-- Counts samples in order. -/
def recordAll (c : Collector) (samples : List Sample) : Collector := samples.foldl record c

/-- The mean of the requests' milliseconds; zero before the first. -/
def average (c : Collector) : Float :=
  if c.requests = 0 then 0.0 else c.totalMs.toFloat / c.requests.toFloat

/-- The exported lines of one plain figure. -/
def figure (name help kind value : String) : List String :=
  ["# HELP " ++ name ++ " " ++ help, "# TYPE " ++ name ++ " " ++ kind, name ++ " " ++ value, ""]

/-- The exported lines, for a server that has been up for `uptime` whole seconds. -/
def lines (c : Collector) (uptime : Nat) : List String :=
  figure "softgrep_requests_total" "Total number of calls" "counter" (toString c.requests)
    ++ figure "softgrep_errors_total" "Total number of failed calls" "counter" (toString c.errors)
    ++ figure "softgrep_cancelled_total" "Calls cancelled during shutdown" "counter"
      (toString c.cancelled)
    ++ figure "softgrep_in_flight" "Calls currently in flight" "gauge" (toString c.inFlight)
    ++ figure "softgrep_avg_response_time_ms" "Average response time in milliseconds" "gauge"
      (Decimal.fixed 2 c.average)
    ++ figure "softgrep_uptime_seconds" "Uptime in seconds" "counter" (toString uptime)
    ++ c.requestLatency.lines "softgrep_request_duration_ms" "Call duration in milliseconds"
    ++ [""]
    ++ c.backendLatency.lines "softgrep_backend_duration_ms"
      "Compute backend duration in milliseconds"

/-- The exported text: its lines, each ended by a line feed. -/
def exposition (c : Collector) (uptime : Nat) : String :=
  String.join ((c.lines uptime).map (· ++ "\n"))

end Collector

end EmbedServer.Metrics
