/-
Stages around an endpoint are well nested.

A call is handed from stage to stage until one answers by itself or the endpoint is reached.  The
stages that have handed it on are the visits of the call; each knows what it was given, and its way
back is the stage's way back from there.  So the course through all stages is the innermost course,
which is the endpoint's or that of the stage that answers, within the visits: what they leave behind
comes before it in their order and after it in the reverse order, and its result passes through them
from the inside out.

What the stages leave behind may look like anything.  To see the order as such, every stage is
replaced by one that makes the same of a call and leaves only marks of its passage.
-/
import EmbedServer.Call.Pipeline

namespace EmbedServer.Call

/-! ### The way in

A call meets the stages in order, so the stages that hand it on are a beginning of the list.  What decides
is what each of them is given by the one before.
-/

/-- What a stage hands on of what it is given, if it hands it on. -/
def Stage.hand? (s : Stage) (given : Context × Request) : Option (Context × Request) :=
  match (s.enter given.1 given.2).2 with
  | .forward after handed => some (after, handed)
  | .answer .. => none

/-- What comes out behind these stages, if none of them answers. -/
def handed? (stages : List Stage) (given : Context × Request) : Option (Context × Request) :=
  stages.foldlM (fun given s => s.hand? given) given

/-- A stage that a call has entered, and what it was given. -/
structure Visit where
  stage : Stage
  given : Context × Request

/-- The visits of a call to the stages that hand it on, up to the first that does not. -/
def passed : List Stage → Context × Request → List Visit
  | [], _ => []
  | s :: rest, given =>
    match s.hand? given with
    | some next => ⟨s, given⟩ :: passed rest next
    | none => []

/-- How many stages a call enters. -/
def entered : List Stage → Context × Request → Nat
  | [], _ => 0
  | s :: rest, given =>
    match s.hand? given with
    | some next => entered rest next + 1
    | none => 1

/-- The course inside all stages that hand the call on: the endpoint's, or that of a stage which
answers by itself. -/
def innermost : List Stage → Service → Context × Request → Course
  | [], endpoint, given => endpoint given.1 given.2
  | s :: rest, endpoint, given =>
    match s.enter given.1 given.2 with
    | (_, .forward after handed) => innermost rest endpoint (after, handed)
    | (fx, .answer after o) => { Course.answered after o with effects := fx }

/-! ### The way back

Coming back is a fold over the visits from the inside.  What was left behind before the fold began stays
in front of what the fold adds, and this is what makes the order of all effects that of a nesting.
-/

namespace Visit

/-- What is left behind on the way in. -/
def entering (v : Visit) : List Effect := (v.stage.enter v.given.1 v.given.2).1

/-- What the stage makes of a call that comes back to it. -/
def leaving (v : Visit) (elapsed : Duration) (inside : Context × Outcome) : Returned :=
  v.stage.leave ⟨v.given, inside.1, elapsed, inside.2⟩

end Visit

/-- What a call has come back with. -/
def Returned.result (b : Returned) : Context × Outcome := (b.context, b.outcome)

/-- The same, after something else has happened. -/
def Returned.after (b : Returned) (fx : List Effect) : Returned :=
  { b with effects := fx ++ b.effects }

/-- The way back through several visits, the last one first. -/
def wayBack (visits : List Visit) (elapsed : Duration) (inside : Returned) : Returned :=
  visits.foldr (fun v back => (v.leaving elapsed back.result).after back.effects) inside

/-- A course inside these visits. -/
def Course.within (inner : Course) (visits : List Visit) : Course :=
  { inner with
    effects := visits.flatMap Visit.entering ++ inner.effects
    leave := fun elapsed o => wayBack visits elapsed (inner.leave elapsed o) }

/-- All that is left behind by a call that takes this long, and its result; `computed` says what the
computation comes to if one is asked for. -/
def Course.complete (course : Course) (elapsed : Duration) (computed : Chunk → Outcome) : Returned :=
  let o := match course.reached with
    | .answered o => o
    | .computing chunk => computed chunk
  (course.leave elapsed o).after course.effects

@[simp] theorem result_after (b : Returned) (fx : List Effect) : (b.after fx).result = b.result := rfl

private theorem after_after (b : Returned) (xs ys : List Effect) :
    (b.after ys).after xs = b.after (xs ++ ys) := by
  simp [Returned.after]

theorem wayBack_cons (v : Visit) (visits : List Visit) (elapsed : Duration) (inside : Returned) :
    wayBack (v :: visits) elapsed inside =
      (v.leaving elapsed (wayBack visits elapsed inside).result).after
        (wayBack visits elapsed inside).effects := rfl

/-- The result passes through the visits from the inside out. -/
theorem wayBack_result (visits : List Visit) (elapsed : Duration) (inside : Returned) :
    (wayBack visits elapsed inside).result =
      visits.foldr (fun v r => (v.leaving elapsed r).result) inside.result := by
  induction visits with
  | nil => rfl
  | cons v rest ih => rw [wayBack_cons, result_after, List.foldr_cons, ih]

/-- What has happened before the way back stays before it. -/
theorem wayBack_after (visits : List Visit) (elapsed : Duration) (inside : Returned)
    (fx : List Effect) :
    wayBack visits elapsed (inside.after fx) = (wayBack visits elapsed inside).after fx := by
  induction visits with
  | nil => rfl
  | cons v rest ih =>
      rw [wayBack_cons, wayBack_cons, ih, result_after, after_after]
      rfl

private theorem within_nil (inner : Course) : inner.within [] = inner := rfl

private theorem within_cons (inner : Course) (v : Visit) (visits : List Visit) :
    (inner.within visits).within [v] = inner.within (v :: visits) := by
  simp [Course.within, wayBack]

private theorem complete_within (inner : Course) (visits : List Visit) (elapsed : Duration)
    (computed : Chunk → Outcome) :
    (inner.within visits).complete elapsed computed =
      (wayBack visits elapsed (inner.complete elapsed computed)).after
        (visits.flatMap Visit.entering) := by
  simp only [Course.complete, wayBack_after, after_after]
  rfl

/-! ### The course through all stages -/

theorem hand?_eq_some {s : Stage} {given next : Context × Request} :
    s.hand? given = some next ↔
      ∃ fx, s.enter given.1 given.2 = (fx, .forward next.1 next.2) := by
  obtain ⟨after, handed⟩ := next
  unfold Stage.hand?
  obtain ⟨fx, entry⟩ := s.enter given.1 given.2
  cases entry with
  | answer c o => simp
  | forward c r => simp

theorem hand?_eq_none {s : Stage} {given : Context × Request} :
    s.hand? given = none ↔ ∃ fx after o, s.enter given.1 given.2 = (fx, .answer after o) := by
  unfold Stage.hand?
  obtain ⟨fx, entry⟩ := s.enter given.1 given.2
  cases entry with
  | answer c o => simp
  | forward c r => simp

theorem around_forward {s : Stage} {given next : Context × Request} (h : s.hand? given = some next)
    (inner : Service) :
    s.around inner given.1 given.2 = (inner next.1 next.2).within [⟨s, given⟩] := by
  obtain ⟨fx, henter⟩ := hand?_eq_some.mp h
  simp [Stage.around, henter, Course.within, wayBack, Visit.entering, Visit.leaving, Returned.after,
    Returned.result]

private theorem around_answer {s : Stage} {given : Context × Request} {fx : List Effect} {after : Context}
    {o : Outcome} (h : s.enter given.1 given.2 = (fx, .answer after o)) (inner : Service) :
    s.around inner given.1 given.2 = { Course.answered after o with effects := fx } := by
  simp [Stage.around, h]

theorem handed?_cons (s : Stage) (rest : List Stage) (given : Context × Request) :
    handed? (s :: rest) given = (s.hand? given).bind (handed? rest) := rfl

theorem handed?_append (xs ys : List Stage) (given : Context × Request) :
    handed? (xs ++ ys) given = (handed? xs given).bind (handed? ys) := by
  simp [handed?, List.foldlM_append]
  rfl

/-- The course through all stages is the innermost one within the visits. -/
theorem compose_eq_within (stages : List Stage) (endpoint : Service) (given : Context × Request) :
    compose stages endpoint given.1 given.2 =
      (innermost stages endpoint given).within (passed stages given) := by
  induction stages generalizing given with
  | nil => exact (within_nil _).symm
  | cons s rest ih =>
      cases h : s.hand? given with
      | some next =>
          obtain ⟨fx, henter⟩ := hand?_eq_some.mp h
          have hpassed : passed (s :: rest) given = ⟨s, given⟩ :: passed rest next := by
            rw [passed, h]
          rw [hpassed, ← within_cons, innermost, henter, ← ih next]
          exact around_forward h _
      | none =>
          obtain ⟨fx, after, o, henter⟩ := hand?_eq_none.mp h
          rw [passed, h, within_nil, innermost, henter]
          exact around_answer henter _

/-- If no stage answers, the innermost course is the endpoint's, on what the stages hand on one after
the other. -/
theorem innermost_through {stages : List Stage} {given seen : Context × Request}
    (h : handed? stages given = some seen) (endpoint : Service) :
    innermost stages endpoint given = endpoint seen.1 seen.2 ∧
      (passed stages given).map Visit.stage = stages ∧ entered stages given = stages.length := by
  induction stages generalizing given with
  | nil =>
      cases h
      exact ⟨rfl, rfl, rfl⟩
  | cons s rest ih =>
      rw [handed?_cons] at h
      obtain ⟨next, hnext, hrest⟩ := Option.bind_eq_some_iff.mp h
      obtain ⟨fx, henter⟩ := hand?_eq_some.mp hnext
      obtain ⟨hinner, hpassed, hentered⟩ := ih hrest
      refine ⟨?_, ?_, ?_⟩
      · rw [innermost, henter]
        exact hinner
      · rw [passed, hnext, List.map_cons, hpassed]
      · rw [entered, hnext, List.length_cons]
        exact congrArg (· + 1) hentered

/-- If a stage is the first that answers, the innermost course is its own, and the stages behind it
do not matter. -/
theorem innermost_stopped {xs : List Stage} {s : Stage} {given seen : Context × Request}
    {fx : List Effect} {after : Context} {o : Outcome} (h : handed? xs given = some seen)
    (henter : s.enter seen.1 seen.2 = (fx, .answer after o)) (ys : List Stage) (endpoint : Service) :
    innermost (xs ++ s :: ys) endpoint given = { Course.answered after o with effects := fx } ∧
      (passed (xs ++ s :: ys) given).map Visit.stage = xs ∧
      entered (xs ++ s :: ys) given = xs.length + 1 := by
  induction xs generalizing given with
  | nil =>
      obtain rfl : given = seen := Option.some.inj h
      have hnone : s.hand? given = none := hand?_eq_none.mpr ⟨fx, after, o, henter⟩
      refine ⟨?_, ?_, ?_⟩
      · rw [List.nil_append, innermost, henter]
      · rw [List.nil_append, passed, hnone]
        rfl
      · rw [List.nil_append, entered, hnone]
        rfl
  | cons x rest ih =>
      rw [handed?_cons] at h
      obtain ⟨next, hnext, hrest⟩ := Option.bind_eq_some_iff.mp h
      obtain ⟨fx', hx⟩ := hand?_eq_some.mp hnext
      obtain ⟨hinner, hpassed, hentered⟩ := ih hrest
      refine ⟨?_, ?_, ?_⟩
      · rw [List.cons_append, innermost, hx]
        exact hinner
      · rw [List.cons_append, passed, hnext, List.map_cons, hpassed]
      · rw [List.cons_append, entered, hnext, List.length_cons]
        exact congrArg (· + 1) hentered

/-- Either all stages hand the call on, or there is a first that answers. -/
theorem handed?_cases (stages : List Stage) (given : Context × Request) :
    (∃ seen, handed? stages given = some seen) ∨
      ∃ xs s ys seen fx after o, stages = xs ++ s :: ys ∧ handed? xs given = some seen ∧
        s.enter seen.1 seen.2 = (fx, .answer after o) := by
  induction stages generalizing given with
  | nil => exact Or.inl ⟨given, rfl⟩
  | cons s rest ih =>
      cases h : s.hand? given with
      | none =>
          obtain ⟨fx, after, o, henter⟩ := hand?_eq_none.mp h
          exact Or.inr ⟨[], s, rest, given, fx, after, o, rfl, rfl, henter⟩
      | some next =>
          rcases ih next with ⟨seen, hseen⟩ | ⟨xs, s', ys, seen, fx, after, o, heq, hseen, henter⟩
          · exact Or.inl ⟨seen, by rw [handed?_cons, h]; exact hseen⟩
          · refine Or.inr ⟨s :: xs, s', ys, seen, fx, after, o, by rw [heq]; rfl, ?_, henter⟩
            rw [handed?_cons, h]
            exact hseen

/-! ### The passage as such

Stages may leave behind whatever they like, so the order cannot be read off the effects themselves.  Each
stage is given a mark for either direction, and the statement is about the list of marks.
-/

/-- The same stage, leaving nothing behind but marks of its passage. -/
def Stage.marked (opening closing : Effect) (s : Stage) : Stage where
  name := s.name
  enter c r :=
    match (s.enter c r).2 with
    | .answer after o => ([opening, closing], .answer after o)
    | .forward after handed => ([opening], .forward after handed)
  leave b := { s.leave b with effects := [closing] }

/-- The same stages, with marks that carry their numbers; the first has the number `n`. -/
def numbered (opening closing : Nat → Effect) (n : Nat) : List Stage → List Stage
  | [] => []
  | s :: rest => s.marked (opening n) (closing n) :: numbered opening closing (n + 1) rest

/-- What a call leaves behind at the endpoint, if it gets there. -/
def atEndpoint (stages : List Stage) (endpoint : Service) (given : Context × Request)
    (elapsed : Duration) (computed : Chunk → Outcome) : List Effect :=
  match handed? stages given with
  | some seen => ((endpoint seen.1 seen.2).complete elapsed computed).effects
  | none => []

private theorem hand?_marked (opening closing : Effect) (s : Stage) (given : Context × Request) :
    (s.marked opening closing).hand? given = s.hand? given := by
  cases h : (s.enter given.1 given.2).2 <;> simp [Stage.hand?, Stage.marked, h]

/-- A stage that hands a call on, around whatever is inside it. -/
theorem complete_forward {s : Stage} {given next : Context × Request} (h : s.hand? given = some next)
    (inner : Service) (elapsed : Duration) (computed : Chunk → Outcome) :
    (s.around inner given.1 given.2).complete elapsed computed =
      let inside := (inner next.1 next.2).complete elapsed computed
      (s.leave ⟨given, inside.context, elapsed, inside.outcome⟩).after
        ((s.enter given.1 given.2).1 ++ inside.effects) := by
  rw [around_forward h, complete_within, wayBack_cons, after_after]
  simp [wayBack, Visit.entering, Visit.leaving, Returned.result]

/-- **The marks of a passage**: those of the stages that are entered in order, then what the endpoint
leaves behind if it is reached, then those of the same stages in the reverse order; and the call comes
to the same. -/
theorem complete_numbered (opening closing : Nat → Effect) (n : Nat) (stages : List Stage)
    (endpoint : Service) (given : Context × Request) (elapsed : Duration)
    (computed : Chunk → Outcome) :
    (compose (numbered opening closing n stages) endpoint given.1 given.2).complete elapsed computed =
      { (compose stages endpoint given.1 given.2).complete elapsed computed with
        effects := (List.range' n (entered stages given)).map opening ++
          atEndpoint stages endpoint given elapsed computed ++
          ((List.range' n (entered stages given)).map closing).reverse } := by
  induction stages generalizing n given with
  | nil => simp [numbered, entered, atEndpoint, handed?]
  | cons s rest ih =>
      rw [numbered, compose_cons, compose_cons]
      cases h : s.hand? given with
      | some next =>
          have hmarked : (s.marked (opening n) (closing n)).hand? given = some next := by
            rw [hand?_marked, h]
          obtain ⟨fx, henter⟩ := hand?_eq_some.mp h
          have hentered : entered (s :: rest) given = entered rest next + 1 := by rw [entered, h]
          have hend : atEndpoint (s :: rest) endpoint given elapsed computed =
              atEndpoint rest endpoint next elapsed computed := by
            rw [atEndpoint, handed?_cons, h]
            rfl
          rw [complete_forward hmarked, complete_forward h, ih (n + 1) next, hentered, hend]
          simp [Stage.marked, henter, List.range'_succ, Returned.after]
      | none =>
          obtain ⟨fx, after, o, henter⟩ := hand?_eq_none.mp h
          have hmarked : (s.marked (opening n) (closing n)).enter given.1 given.2 =
              ([opening n, closing n], .answer after o) := by
            simp [Stage.marked, henter]
          have hentered : entered (s :: rest) given = 1 := by rw [entered, h]
          have hend : atEndpoint (s :: rest) endpoint given elapsed computed = [] := by
            rw [atEndpoint, handed?_cons, h]
            rfl
          rw [around_answer hmarked, around_answer henter, hentered, hend]
          rfl

/-! ### Well nested -/

/-- How a call fares that meets these stages around an endpoint. -/
structure Nested (stages : List Stage) (endpoint : Service) (given : Context × Request) : Prop where
  /-- Either all stages hand the call on, or there is a first that answers by itself. -/
  either : (∃ seen, handed? stages given = some seen) ∨
    ∃ xs s ys seen fx after o, stages = xs ++ s :: ys ∧ handed? xs given = some seen ∧
      s.enter seen.1 seen.2 = (fx, .answer after o)
  /-- If all hand it on, the endpoint takes what they have made of it one after the other. -/
  through : ∀ seen, handed? stages given = some seen →
    innermost stages endpoint given = endpoint seen.1 seen.2 ∧
      (passed stages given).map Visit.stage = stages ∧ entered stages given = stages.length
  /-- If one answers, its answer is what goes back, and nothing behind it is run. -/
  stopped : ∀ xs s ys seen fx after o, stages = xs ++ s :: ys → handed? xs given = some seen →
    s.enter seen.1 seen.2 = (fx, .answer after o) →
      innermost stages endpoint given = { Course.answered after o with effects := fx } ∧
        (passed stages given).map Visit.stage = xs ∧ entered stages given = xs.length + 1
  /-- The course of the call is the innermost one within the stages that have handed it on. -/
  course : compose stages endpoint given.1 given.2 =
    (innermost stages endpoint given).within (passed stages given)
  /-- The result passes through these stages from the inside out. -/
  result : ∀ elapsed computed,
    ((compose stages endpoint given.1 given.2).complete elapsed computed).result =
      (passed stages given).foldr (fun v r => (v.leaving elapsed r).result)
        ((innermost stages endpoint given).complete elapsed computed).result
  /-- The stages are entered in order and left in the reverse order, and the endpoint comes in
  between if all of them hand the call on. -/
  marks : ∀ opening closing elapsed computed,
    (compose (numbered opening closing 0 stages) endpoint given.1 given.2).complete elapsed computed =
      { (compose stages endpoint given.1 given.2).complete elapsed computed with
        effects := (List.range (entered stages given)).map opening ++
          atEndpoint stages endpoint given elapsed computed ++
          ((List.range (entered stages given)).map closing).reverse }

/-- **Stages around an endpoint are well nested**, and stages around stages are the stages of both. -/
theorem compose_nested (endpoint : Service) :
    (∀ stages context request, Nested stages endpoint (context, request)) ∧
      ∀ xs ys, compose (xs ++ ys) endpoint = compose xs (compose ys endpoint) := by
  refine ⟨?_, fun xs ys => compose_append xs ys endpoint⟩
  intro stages context request
  refine ⟨handed?_cases stages _, fun seen h => innermost_through h endpoint, ?_,
    compose_eq_within stages endpoint (context, request), ?_, ?_⟩
  · intro xs s ys seen fx after o heq hseen henter
    rw [heq]
    exact innermost_stopped hseen henter ys endpoint
  · intro elapsed computed
    have hcourse := compose_eq_within stages endpoint (context, request)
    rw [hcourse, complete_within, result_after]
    exact wayBack_result _ _ _
  · intro opening closing elapsed computed
    rw [complete_numbered opening closing 0 stages endpoint _ elapsed computed,
      List.range_eq_range']

/-! ### What stages see

A stage sees what it is given on the way in, and, if it has handed the call on, what comes back to it.
That is all it has to go by.
-/

/-- What each stage is given that a call enters, one after the other. -/
def shownTo : List Stage → Context × Request → List (Context × Request)
  | [], _ => []
  | s :: rest, given =>
    given :: match s.hand? given with
      | some next => shownTo rest next
      | none => []

/-- What comes back to each of the stages that have handed a call on, the innermost first. -/
def shownBack (elapsed : Duration) (inside : Returned) : List Visit → List Returning
  | [] => []
  | v :: rest =>
    let back := wayBack rest elapsed inside
    shownBack elapsed inside rest ++ [⟨v.given, back.context, elapsed, back.outcome⟩]

end EmbedServer.Call
