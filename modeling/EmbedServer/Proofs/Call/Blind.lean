/-
Stages that do not look at some of the metadata.

A stage is blind to some names if it makes the same of two calls that differ in nothing but what they say
under these: it leaves the same behind, answers the same or hands on two such calls, and it does so on the
way back as well.  The endpoint is blind, and so is a service made of blind stages around it.  All that is
left of the difference is in the contexts that come back, and after the last stage nobody reads these.  So
a call that waits may as well forget them, and then two such calls are the same call.
-/
import EmbedServer.Call.Stages
import EmbedServer.Proofs.Call.Core

namespace EmbedServer.Call

variable {σ : Type}

/-! ### Blind stages -/

/-- The metadata that stand under other names. -/
def Metadata.besides (m : Metadata) (names : List String) : Metadata :=
  m.filter fun p => !names.contains p.1

/-- Contexts that differ at most in what stands under these names. -/
structure Context.Like (names : List String) (c c' : Context) : Prop where
  method : c'.method = c.method
  metadata : c'.metadata.besides names = c.metadata.besides names

/-- What is made of two such calls on the way in. -/
inductive Entry.Like (names : List String) : Entry → Entry → Prop
  | answer {c c' : Context} (h : c.Like names c') (o : Outcome) : Like names (.answer c o) (.answer c' o)
  | forward {c c' : Context} (h : c.Like names c') (r : Request) :
      Like names (.forward c r) (.forward c' r)

/-- Two such calls on their way back to a stage. -/
structure Returning.Like (names : List String) (b b' : Returning) : Prop where
  given : b.given.1.Like names b'.given.1
  request : b'.given.2 = b.given.2
  context : b.context.Like names b'.context
  elapsed : b'.elapsed = b.elapsed
  outcome : b'.outcome = b.outcome

/-- Two such calls that go back further. -/
structure Returned.Like (names : List String) (b b' : Returned) : Prop where
  effects : b'.effects = b.effects
  context : b.context.Like names b'.context
  outcome : b'.outcome = b.outcome

/-- A stage that does not look at what stands under these names. -/
structure Stage.Blind (names : List String) (s : Stage) : Prop where
  effects : ∀ {c c' : Context}, c.Like names c' → ∀ r, (s.enter c' r).1 = (s.enter c r).1
  enter : ∀ {c c' : Context}, c.Like names c' → ∀ r, Entry.Like names (s.enter c r).2 (s.enter c' r).2
  leave : ∀ {b b' : Returning}, b.Like names b' → (s.leave b).Like names (s.leave b')

theorem logging_blind (names : List String) : Stage.logging.Blind names where
  effects h r := by simp only [Stage.logging, h.method]
  enter h r := .forward h r
  leave h := ⟨by simp only [Stage.logging, h.outcome, h.context.method], h.context, h.outcome⟩

theorem metrics_blind (names : List String) : Stage.metrics.Blind names where
  effects _ r := rfl
  enter h r := .forward h r
  leave h := ⟨by simp only [Stage.metrics, h.outcome, h.elapsed], h.context, h.outcome⟩

/-- The stages that a server comes with look at no metadata. -/
theorem blind_of_shipped {s : Stage} (h : s = .logging ∨ s = .metrics) (names : List String) :
    s.Blind names := by
  rcases h with rfl | rfl
  · exact logging_blind names
  · exact metrics_blind names

/-! ### Blind courses

What comes back from a stage may differ under the names, and so may what it hands on.  Outcomes, effects
and requests may not, and that is enough to go through all stages by induction.
-/

/-- The courses of two calls that differ at most in what stands under these names. -/
structure Course.Like (names : List String) (a b : Course) : Prop where
  effects : b.effects = a.effects
  reached : b.reached = a.reached
  leave : ∀ elapsed o, (a.leave elapsed o).Like names (b.leave elapsed o)

/-- A service that does not look at what stands under these names. -/
def IsBlind (names : List String) (service : Service) : Prop :=
  ∀ {c c' : Context}, c.Like names c' → ∀ r, (service c r).Like names (service c' r)

private theorem answered_like {names : List String} {c c' : Context} (h : c.Like names c') (o : Outcome) :
    (Course.answered c o).Like names (Course.answered c' o) := ⟨rfl, rfl, fun _ _ => ⟨rfl, h, rfl⟩⟩

private theorem dispatch_blind (names : List String) (state : Lifecycle.State) (health : Health.Registry) :
    IsBlind names (dispatch state health) := by
  intro c c' h r
  cases r with
  | predict chunk =>
      unfold dispatch
      dsimp only
      split
      · exact ⟨rfl, rfl, fun _ _ => ⟨rfl, h, rfl⟩⟩
      · exact answered_like h _
  | check q => exact answered_like h _

theorem Stage.Blind.around {names : List String} {s : Stage} (hs : s.Blind names) {inner : Service}
    (hinner : IsBlind names inner) : IsBlind names (s.around inner) := by
  intro c c' h r
  have heffects := hs.effects h r
  have henter := hs.enter h r
  unfold Stage.around
  generalize s.enter c r = entering at heffects henter ⊢
  generalize s.enter c' r = entering' at heffects henter ⊢
  obtain ⟨fx, entry⟩ := entering
  obtain ⟨fx', entry'⟩ := entering'
  dsimp only at heffects henter ⊢
  subst heffects
  cases henter with
  | answer hafter o =>
      have hanswered := answered_like hafter o
      exact ⟨rfl, hanswered.reached, hanswered.leave⟩
  | @forward after after' hafter handed =>
      have hinside := hinner hafter handed
      refine ⟨congrArg (fx' ++ ·) hinside.effects, hinside.reached, ?_⟩
      intro elapsed o
      have hback := hinside.leave elapsed o
      generalize hb : (inner after handed).leave elapsed o = b at hback
      generalize hb' : (inner after' handed).leave elapsed o = b' at hback
      have hleave : (s.leave ⟨(c, r), b.context, elapsed, b.outcome⟩).Like names
          (s.leave ⟨(c', r), b'.context, elapsed, b'.outcome⟩) :=
        hs.leave ⟨h, rfl, hback.context, rfl, hback.outcome⟩
      simp only [hb, hb']
      exact ⟨by rw [hback.effects, hleave.effects], hleave.context, hleave.outcome⟩

/-- Around blind stages a call is blind. -/
theorem compose_blind {names : List String} {stages : List Stage} (h : ∀ s ∈ stages, s.Blind names)
    {endpoint : Service} (hendpoint : IsBlind names endpoint) :
    IsBlind names (compose stages endpoint) := by
  induction stages with
  | nil => exact hendpoint
  | cons s rest ih =>
      exact (h s List.mem_cons_self).around (ih fun t ht => h t (List.mem_cons_of_mem s ht))

/-! ### Calls that forget their contexts

Two calls that wait may differ in the context that they will come back with, and nobody looks at that.  It
is dropped from both, so that the two cores can be compared by an equation.
-/

/-- What goes back further, without its context. -/
def Returned.bare (b : Returned) : Returned := { b with context := ⟨"", []⟩ }

def Course.bare (a : Course) : Course := { a with leave := fun elapsed o => (a.leave elapsed o).bare }

def Pending.bare (p : Pending σ) : Pending σ :=
  { p with leave := fun elapsed o => (p.leave elapsed o).bare }

def Progress.bare : Progress σ → Progress σ
  | .done _ o => .done ⟨"", []⟩ o
  | .waiting p => .waiting p.bare

theorem Course.Like.bare {names : List String} {a b : Course} (h : a.Like names b) : b.bare = a.bare := by
  have hleave : (fun elapsed o => (b.leave elapsed o).bare) = fun elapsed o => (a.leave elapsed o).bare := by
    funext elapsed o
    have hback := h.leave elapsed o
    simp only [Returned.bare, hback.effects, hback.outcome]
  simp only [Course.bare, h.effects, h.reached, hleave]

namespace Core

/-- A core and a call, which forgets its context. -/
def forgets (x : Core σ × Progress σ) : Core σ × Progress σ := (x.1, x.2.bare)

theorem poll_bare (c : Core σ) (p : Pending σ) : c.poll p.bare = forgets (c.poll p) := by
  have hrace : p.bare.race = p.race := rfl
  simp only [poll, hrace]
  cases p.race.winner? c.now c.cancel.ready with
  | none => rfl
  | some w => rfl

/-- What becomes of a call that has got to the backend. -/
def embark (c : Core σ) (arrivedAt : Nat) (leave : Duration → Outcome → Returned) (chunk : Chunk) :
    Core σ × Progress σ :=
  if c.cancel.ready then c.conclude c.now arrivedAt leave (.error .cancelled)
  else
    let computation := c.backend.compute c.compute chunk.content
    let c := { c with compute := computation.begun }.logAll computation.events
    c.poll ⟨arrivedAt, c.handler.race computation c.now, leave⟩

/-- What becomes of a call with this course. -/
def proceed (c : Core σ) (course : Course) : Core σ × Progress σ :=
  let arrivedAt := c.now
  let c := c.applyAll course.effects
  match course.reached with
  | .answered o => c.finish arrivedAt course.leave o
  | .computing chunk =>
    (c.applyAll (Handler.opening c.backend.name chunk)).embark arrivedAt course.leave chunk

private theorem take_eq (c : Core σ) (context : Context) (request : Request) :
    c.take context request = c.proceed (c.service context request) := rfl

private theorem embark_bare (c : Core σ) (arrivedAt : Nat) (leave : Duration → Outcome → Returned)
    (chunk : Chunk) :
    c.embark arrivedAt (fun elapsed o => (leave elapsed o).bare) chunk =
      forgets (c.embark arrivedAt leave chunk) := by
  unfold embark
  split
  · rfl
  · exact poll_bare _ ⟨arrivedAt, _, leave⟩

private theorem proceed_bare (c : Core σ) (course : Course) :
    c.proceed course.bare = forgets (c.proceed course) := by
  obtain ⟨effects, reached, leave⟩ := course
  cases reached with
  | answered o => rfl
  | computing chunk => exact embark_bare _ _ _ _

/-- **What no stage looks at makes no difference to a call** but in the context it comes back with. -/
theorem take_blind {c : Core σ} {names : List String} (h : ∀ s ∈ c.stages, s.Blind names)
    {context context' : Context} (hlike : context.Like names context') (request : Request) :
    forgets (c.take context' request) = forgets (c.take context request) := by
  have hcourse : (c.service context request).Like names (c.service context' request) :=
    compose_blind h (dispatch_blind names c.state c.health) hlike request
  rw [take_eq, take_eq, ← proceed_bare, ← proceed_bare, hcourse.bare]

end Core

end EmbedServer.Call
