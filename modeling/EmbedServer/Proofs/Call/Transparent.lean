/-
Stages that only watch, put between other stages.

A transparent stage hands on what it is given, gives back what comes back to it, and leaves no trace.  Put
between other stages it is one more visit of every call that gets there, and nothing else: what it leaves
behind comes in between what the others leave behind, and the course is otherwise the same.

So a core with such a stage and a core without it stay together through every run: they differ in the
stage, in what the log and the counters have besides, and in the ways back of calls that wait.
`Extends` says so of the cores, whatever came in between when; the order in which samples were counted
makes no difference, and of the log it is said that nothing is missing and what is there besides.
-/
import EmbedServer.Call.Session
import EmbedServer.Call.Stages
import EmbedServer.Proofs.Call.Core
import EmbedServer.Proofs.Call.Nesting
import EmbedServer.Proofs.Metrics.Collector

namespace EmbedServer.Call

variable {σ : Type}

/-! ### Effects on a core

Samples may be counted in any order, so of two cores it can be said that the second has counted more,
whenever it was.  The log keeps its order; of what is there besides it is said that it is there, and that
nothing is missing.
-/

namespace Effect

theorem events_append (xs ys : List Effect) : events (xs ++ ys) = events xs ++ events ys :=
  List.filterMap_append

theorem samples_append (xs ys : List Effect) : samples (xs ++ ys) = samples xs ++ samples ys :=
  List.filterMap_append

end Effect

namespace Core

theorem applyAll_append (c : Core σ) (xs ys : List Effect) :
    c.applyAll (xs ++ ys) = (c.applyAll xs).applyAll ys := List.foldl_append ..

/-- Effects reach the log, the trace and the counters, each what concerns it. -/
theorem applyAll_eq (c : Core σ) (fx : List Effect) :
    c.applyAll fx =
      { c with
        log := c.log ++ Effect.events fx
        trace := c.trace ++ Effect.traces fx
        metrics := c.metrics.recordAll (Effect.samples fx) } := by
  induction fx generalizing c with
  | nil => simp [applyAll, Effect.events, Effect.traces, Effect.samples, Metrics.Collector.recordAll]
  | cons f rest ih =>
      show (c.apply f).applyAll rest = _
      rw [ih]
      cases f <;>
        simp [apply, Effect.events, Effect.traces, Effect.samples, Metrics.Collector.recordAll]

/-- The second core is the first one with these effects besides. -/
structure Extends (extra : List Effect) (c c' : Core σ) : Prop where
  handler : c'.handler = c.handler
  backend : c'.backend = c.backend
  compute : c'.compute = c.compute
  health : c'.health = c.health
  state : c'.state = c.state
  cancel : c'.cancel = c.cancel
  now : c'.now = c.now
  trace : c'.trace = c.trace
  log : c.log.Sublist c'.log
  events : c'.log.Perm (c.log ++ Effect.events extra)
  metrics : c'.metrics = c.metrics.recordAll (Effect.samples extra)

variable {extra mid : List Effect} {c c' : Core σ}

theorem Extends.perm (h : Extends extra c c') {extra' : List Effect} (hp : extra.Perm extra') :
    Extends extra' c c' :=
  { h with
    events := h.events.trans ((hp.filterMap _).append_left _)
    metrics := h.metrics.trans (c.metrics.recordAll_perm (hp.filterMap _)) }

/-- Effects on both cores. -/
theorem Extends.applyAll (h : Extends extra c c') (fx : List Effect) :
    Extends extra (c.applyAll fx) (c'.applyAll fx) := by
  rw [applyAll_eq, applyAll_eq]
  refine { h with trace := ?_, log := ?_, events := ?_, metrics := ?_ }
  · show c'.trace ++ _ = c.trace ++ _
    rw [h.trace]
  · exact h.log.append (List.Sublist.refl _)
  · show (c'.log ++ _).Perm (c.log ++ _ ++ _)
    have hswap : (Effect.events extra ++ Effect.events fx).Perm
        (Effect.events fx ++ Effect.events extra) := List.perm_append_comm
    refine (h.events.append_right _).trans ?_
    rw [List.append_assoc, List.append_assoc]
    exact hswap.append_left _
  · show c'.metrics.recordAll _ = (c.metrics.recordAll _).recordAll _
    rw [h.metrics, ← Metrics.Collector.recordAll_append, ← Metrics.Collector.recordAll_append]
    exact c.metrics.recordAll_perm List.perm_append_comm

/-- Effects on the second core alone. -/
theorem Extends.besides (h : Extends extra c c') (hmid : Effect.traces mid = []) :
    Extends (extra ++ mid) c (c'.applyAll mid) := by
  rw [applyAll_eq]
  refine { h with trace := ?_, log := ?_, events := ?_, metrics := ?_ }
  · show c'.trace ++ _ = c.trace
    rw [hmid, List.append_nil, h.trace]
  · exact h.log.trans (List.sublist_append_left _ _)
  · show (c'.log ++ _).Perm _
    rw [Effect.events_append, ← List.append_assoc]
    exact h.events.append_right _
  · show c'.metrics.recordAll _ = _
    rw [h.metrics, Effect.samples_append, Metrics.Collector.recordAll_append]

/-- The second effects are the first ones with others in between. -/
def Inserts (mid fx fx' : List Effect) : Prop := ∃ a b, fx = a ++ b ∧ fx' = a ++ mid ++ b

theorem Inserts.none (fx : List Effect) : Inserts [] fx fx := ⟨[], fx, rfl, rfl⟩

theorem Extends.inserts (h : Extends extra c c') {fx fx' : List Effect} (hfx : Inserts mid fx fx')
    (hmid : Effect.traces mid = []) : Extends (extra ++ mid) (c.applyAll fx) (c'.applyAll fx') := by
  obtain ⟨a, b, rfl, rfl⟩ := hfx
  rw [applyAll_append, applyAll_append, applyAll_append]
  exact ((h.applyAll a).besides hmid).applyAll b

end Core

/-! ### Courses through one more stage

The stage is at a place in the list.  A call that gets there is handed on unchanged, so everything behind
the place and in front of it happens as without the stage; a call that does not get there never meets it.
-/

/-- A stage that hands on what it is given, gives back what comes back, and leaves no trace. -/
structure Stage.Transparent (t : Stage) : Prop where
  enter : ∀ context request, ∃ fx, t.enter context request = (fx, .forward context request)
  leave : ∀ b, (t.leave b).result = (b.context, b.outcome)
  enterTrace : ∀ context request, Effect.traces (t.enter context request).1 = []
  leaveTrace : ∀ b, Effect.traces (t.leave b).effects = []

theorem logging_transparent : Stage.logging.Transparent where
  enter context request := ⟨_, rfl⟩
  leave b := rfl
  enterTrace context request := rfl
  leaveTrace b := by
    obtain ⟨given, context, elapsed, o⟩ := b
    cases o <;> rfl

theorem metrics_transparent : Stage.metrics.Transparent where
  enter context request := ⟨_, rfl⟩
  leave b := rfl
  enterTrace context request := rfl
  leaveTrace b := by
    obtain ⟨given, context, elapsed, o⟩ := b
    cases o <;> rfl

variable {t : Stage} {xs ys : List Stage} {endpoint : Service} {given : Context × Request}

theorem Stage.Transparent.hand (h : t.Transparent) (given : Context × Request) :
    t.hand? given = some given := by
  obtain ⟨fx, henter⟩ := h.enter given.1 given.2
  exact hand?_eq_some.mpr ⟨fx, henter⟩

theorem handed?_insert (h : t.Transparent) (xs ys : List Stage) (given : Context × Request) :
    handed? (xs ++ t :: ys) given = handed? (xs ++ ys) given := by
  rw [handed?_append, handed?_append]
  cases handed? xs given with
  | none => rfl
  | some seen =>
      show handed? (t :: ys) seen = handed? ys seen
      rw [handed?_cons, h.hand]
      rfl

/-- Where a call comes back from behind these stages with this outcome of the innermost part: as
it comes to a stage between these stages and those inside. -/
def comeback? (xs ys : List Stage) (endpoint : Service) (given : Context × Request)
    (elapsed : Duration) (o : Outcome) : Option Returning :=
  (handed? xs given).map fun seen =>
    let inside := (compose ys endpoint seen.1 seen.2).leave elapsed o
    ⟨seen, inside.context, elapsed, inside.outcome⟩

/-- What a stage leaves behind on the way in of a call, if the call gets there. -/
def entering (t : Stage) (xs : List Stage) (given : Context × Request) : List Effect :=
  match handed? xs given with
  | some seen => (t.enter seen.1 seen.2).1
  | none => []

/-- What a stage leaves behind on the way back of a call, if the call got there. -/
def leaving (t : Stage) : Option Returning → List Effect
  | some b => (t.leave b).effects
  | none => []

theorem entering_trace (h : t.Transparent) (xs : List Stage) (given : Context × Request) :
    Effect.traces (entering t xs given) = [] := by
  unfold entering
  split
  · exact h.enterTrace _ _
  · rfl

theorem leaving_trace (h : t.Transparent) (b : Option Returning) :
    Effect.traces (leaving t b) = [] := by
  cases b with
  | none => rfl
  | some b => exact h.leaveTrace b

/-- A course with one more stage: the same, with the effects of that stage in between. -/
structure Course.Inserts (t : Stage) (xs ys : List Stage) (endpoint : Service)
    (given : Context × Request) (course course' : Course) : Prop where
  reached : course'.reached = course.reached
  effects : Core.Inserts (entering t xs given) course.effects course'.effects
  result : ∀ elapsed o, (course'.leave elapsed o).result = (course.leave elapsed o).result
  leave : ∀ elapsed o, Core.Inserts (leaving t (comeback? xs ys endpoint given elapsed o))
    (course.leave elapsed o).effects (course'.leave elapsed o).effects

/-- A call that a stage answers by itself does not get to the stages behind it. -/
theorem innermost_of_none {stages : List Stage} {given : Context × Request}
    (h : handed? stages given = none) (e e' : Service) :
    innermost stages e given = innermost stages e' given := by
  induction stages generalizing given with
  | nil => cases h
  | cons s rest ih =>
      rw [handed?_cons] at h
      cases hnext : s.hand? given with
      | none =>
          obtain ⟨fx, after, o, henter⟩ := hand?_eq_none.mp hnext
          rw [innermost, innermost, henter]
      | some next =>
          obtain ⟨fx, henter⟩ := hand?_eq_some.mp hnext
          rw [hnext] at h
          rw [innermost, innermost, henter]
          exact ih h

/-- What happens on the way back follows what has happened before, and does not depend on it. -/
theorem effects_wayBack (visits : List Visit) (elapsed : Duration) (inside : Returned) :
    (wayBack visits elapsed inside).effects =
      inside.effects ++
        (wayBack visits elapsed ⟨[], inside.result.1, inside.result.2⟩).effects := by
  have hinside : inside = Returned.after ⟨[], inside.result.1, inside.result.2⟩ inside.effects := by
    simp [Returned.after, Returned.result]
  conv => lhs; rw [hinside, wayBack_after]
  rfl

theorem compose_inserts (h : t.Transparent) (xs ys : List Stage) (endpoint : Service)
    (given : Context × Request) :
    Course.Inserts t xs ys endpoint given (compose (xs ++ ys) endpoint given.1 given.2)
      (compose (xs ++ t :: ys) endpoint given.1 given.2) := by
  rw [compose_append, compose_append, compose_eq_within, compose_eq_within]
  cases hseen : handed? xs given with
  | none =>
      -- The call is answered before it gets there, and the two courses are one.
      rw [innermost_of_none hseen (compose (t :: ys) endpoint) (compose ys endpoint)]
      have hin : entering t xs given = [] := by simp [entering, hseen]
      have hout : ∀ elapsed o, leaving t (comeback? xs ys endpoint given elapsed o) = [] := by
        simp [leaving, comeback?, hseen]
      refine ⟨rfl, ?_, fun _ _ => rfl, ?_⟩
      · rw [hin]
        exact Core.Inserts.none _
      · intro elapsed o
        rw [hout]
        exact Core.Inserts.none _
  | some seen =>
      rw [(innermost_through hseen (compose ys endpoint)).1,
        (innermost_through hseen (compose (t :: ys) endpoint)).1, compose_cons,
        around_forward (h.hand seen)]
      have hback : ∀ elapsed (b : Returned), (wayBack [⟨t, seen⟩] elapsed b).result = b.result := by
        intro elapsed b
        rw [wayBack_cons, result_after]
        exact h.leave _
      refine ⟨rfl, ?_, ?_, ?_⟩
      · refine ⟨(passed xs given).flatMap Visit.entering, _, rfl, ?_⟩
        simp [Course.within, entering, hseen, Visit.entering]
      · intro elapsed o
        simp only [Course.within, wayBack_result, hback]
      · intro elapsed o
        refine ⟨((compose ys endpoint seen.1 seen.2).leave elapsed o).effects, _,
          effects_wayBack _ _ _, ?_⟩
        simp only [Course.within, leaving, comeback?, hseen, Option.map_some]
        rw [effects_wayBack, hback]
        rfl

end EmbedServer.Call
