/-
What is counted does not depend on the order in which it arrives.

Every sample moves counters by amounts of its own, with or without a carry, so two samples can change
places, and with them all the samples of a run.
-/
import EmbedServer.Metrics.Collector

namespace EmbedServer.Metrics

private theorem uint64_add_right_comm (a b c : UInt64) : a + b + c = a + c + b := by
  rw [UInt64.add_assoc, UInt64.add_comm b c, ← UInt64.add_assoc]

theorem Histogram.observe_comm (h : Histogram) (ms ms' : Nat) :
    (h.observe ms).observe ms' = (h.observe ms').observe ms := by
  simp only [observe, List.map_map, uint64_add_right_comm h.sum, Histogram.mk.injEq, and_self,
    and_true]
  refine List.map_congr_left ?_
  intro bucket _
  simp only [Function.comp_apply]
  by_cases hms : nearestDouble ms ≤ bucket.1 <;>
    by_cases hms' : nearestDouble ms' ≤ bucket.1 <;> simp [hms, hms']

namespace Collector

private theorem record_comm (c : Collector) (a b : Sample) :
    (c.record a).record b = (c.record b).record a := by
  cases a <;> cases b <;>
    simp [record, Histogram.observe_comm c.requestLatency, Histogram.observe_comm c.backendLatency,
      uint64_add_right_comm c.totalMs]

theorem recordAll_append (c : Collector) (xs ys : List Sample) :
    c.recordAll (xs ++ ys) = (c.recordAll xs).recordAll ys := List.foldl_append ..

/-- The order of samples does not matter. -/
theorem recordAll_perm (c : Collector) {xs ys : List Sample} (h : xs.Perm ys) :
    c.recordAll xs = c.recordAll ys :=
  h.foldl_eq' (fun a _ b _ c => c.record_comm a b) c

/-- A counter that some samples move up by one, and no others move. -/
theorem counter_recordAll {f : Collector → UInt64} {p : Sample → Bool}
    (h : ∀ c a, f (c.record a) = if p a then f c + 1 else f c) (c : Collector) (xs : List Sample) :
    f (c.recordAll xs) = f c + (xs.countP p).toUInt64 := by
  induction xs generalizing c with
  | nil => exact (UInt64.add_zero _).symm
  | cons a rest ih =>
      show f ((c.record a).recordAll rest) = _
      rw [ih, h, List.countP_cons]
      cases p a with
      | false => rfl
      | true =>
          show f c + 1 + _ = f c + UInt64.ofNat (_ + 1)
          rw [UInt64.ofNat_add, uint64_add_right_comm, UInt64.add_assoc]
          rfl

end Collector

namespace Sample

def isRequest : Sample → Bool
  | .request _ => true
  | .backend _ | .error | .cancelled | .started | .finished => false

def isError : Sample → Bool
  | .error => true
  | .request _ | .backend _ | .cancelled | .started | .finished => false

def isBackend : Sample → Bool
  | .backend _ => true
  | .request _ | .error | .cancelled | .started | .finished => false

def isCancelled : Sample → Bool
  | .cancelled => true
  | .request _ | .backend _ | .error | .started | .finished => false

end Sample

namespace Collector

theorem requests_recordAll (c : Collector) (xs : List Sample) :
    (c.recordAll xs).requests = c.requests + (xs.countP Sample.isRequest).toUInt64 :=
  counter_recordAll (f := requests) (fun _ a => by cases a <;> rfl) c xs

theorem observations_recordAll (c : Collector) (xs : List Sample) :
    (c.recordAll xs).requestLatency.count =
      c.requestLatency.count + (xs.countP Sample.isRequest).toUInt64 :=
  counter_recordAll (f := fun c => c.requestLatency.count) (fun _ a => by cases a <;> rfl) c xs

theorem errors_recordAll (c : Collector) (xs : List Sample) :
    (c.recordAll xs).errors = c.errors + (xs.countP Sample.isError).toUInt64 :=
  counter_recordAll (f := errors) (fun _ a => by cases a <;> rfl) c xs

theorem computations_recordAll (c : Collector) (xs : List Sample) :
    (c.recordAll xs).backendLatency.count =
      c.backendLatency.count + (xs.countP Sample.isBackend).toUInt64 :=
  counter_recordAll (f := fun c => c.backendLatency.count) (fun _ a => by cases a <;> rfl) c xs

theorem cancelled_recordAll (c : Collector) (xs : List Sample) :
    (c.recordAll xs).cancelled = c.cancelled + (xs.countP Sample.isCancelled).toUInt64 :=
  counter_recordAll (f := cancelled) (fun _ a => by cases a <;> rfl) c xs

end Collector

end EmbedServer.Metrics
