/-
Calls that nobody cancels.

While the cancellation has not fired, a call that returns says what became of its own race, or, if it
has none, what the endpoint answered at once.  So a computation that fails is reported as a backend that
is not available, with its error, and so is one that runs out of time.

One error is reported otherwise: a backend may answer of its own that it was cancelled.  The call then
says that the server cancelled it, and is counted with those.  Without such a backend nothing is ever
cancelled before the signal.
-/
import EmbedServer.Proofs.Call.Attendance

namespace EmbedServer.Call

variable {σ : Type}

/-- An outcome that came of an answer is a cancellation exactly if the answer is. -/
theorem isCancelled_outcomeOf_iff (a : Backend.Answer) :
    isCancelled (outcomeOf a) = true ↔ a = .error .cancelled := by
  cases a with
  | ok vec => simp [outcomeOf, isCancelled]
  | error e => cases e <;> simp [outcomeOf, isCancelled, Error.ofBackend]

private theorem outcomeOf_error {e : Backend.Error} (h : e ≠ .cancelled) :
    outcomeOf (.error e) = .error ⟨.backendUnavailable, e.message⟩ := by
  cases e with
  | cancelled => exact absurd rfl h
  | failed m => rfl
  | timeout limit => rfl
  | invalidResponse m => rfl
  | network m => rfl

/-- Whether the computation of a race has ended by a moment. -/
def Race.endedBy (r : Race σ) (moment : Nat) : Bool := r.endsAt.any (· ≤ moment)

theorem Race.ownAnswer_ended {r : Race σ} {moment : Nat} (hended : r.endedBy moment = true)
    (h : Handler) : r.ownAnswer h moment = r.computation.answer := if_pos hended

theorem Race.ownAnswer_late {r : Race σ} {moment : Nat} (hlate : r.endedBy moment = false)
    (h : Handler) : r.ownAnswer h moment = .error (.timeout h.timeout) := by
  have hnot : ¬r.endedBy moment = true := by simp [hlate]
  exact if_neg hnot

/-- A call that speaks for itself: its race is for a computation of the backend, and what it returned with
is the race's own answer, or no cancellation if it has no race. -/
structure Attendee.Own (b : Backend σ) (h : Handler) (k : Attendee σ) : Prop where
  origin : ∀ r, k.race = some r → ∃ state text, r.computation = b.compute state text
  raced : ∀ r moment o, k.race = some r → k.standing = .returned moment o →
    o = outcomeOf (r.ownAnswer h moment)
  unraced : ∀ moment o, k.race = none → k.standing = .returned moment o → isCancelled o = false

namespace Attendee

variable {b : Backend σ} {h : Handler} {k : Attendee σ}

/-- A call that speaks for itself says that it was cancelled exactly if its backend has answered so. -/
theorem Own.cancelled (hk : k.Own b h) :
    k.saysCancelled = true ↔ ∃ r moment o, k.race = some r ∧ k.standing = .returned moment o ∧
      r.endedBy moment = true ∧ r.computation.answer = .error .cancelled := by
  constructor
  · intro hsaid
    cases hstanding : k.standing with
    | waiting p => simp [saysCancelled, hstanding] at hsaid
    | dropped => simp [saysCancelled, hstanding] at hsaid
    | returned moment o =>
        simp only [saysCancelled, hstanding] at hsaid
        cases hrace : k.race with
        | none =>
            rw [hk.unraced moment o hrace hstanding] at hsaid
            cases hsaid
        | some r =>
            rw [hk.raced r moment o hrace hstanding, isCancelled_outcomeOf_iff] at hsaid
            cases hended : r.endedBy moment with
            | true =>
                rw [Race.ownAnswer_ended hended] at hsaid
                exact ⟨r, moment, o, rfl, rfl, hended, hsaid⟩
            | false =>
                rw [Race.ownAnswer_late hended] at hsaid
                cases hsaid
  · rintro ⟨r, moment, o, hrace, hstanding, hended, hanswer⟩
    simp only [saysCancelled, hstanding]
    rw [hk.raced r moment o hrace hstanding, Race.ownAnswer_ended hended, hanswer]
    rfl

/-- Any other failure of its backend is reported as that. -/
theorem Own.failed (hk : k.Own b h) {r : Race σ} {moment : Nat} {o : Outcome} {e : Backend.Error}
    (hrace : k.race = some r) (hstanding : k.standing = .returned moment o)
    (hended : r.endedBy moment = true) (hanswer : r.computation.answer = .error e)
    (he : e ≠ .cancelled) : o = .error ⟨.backendUnavailable, e.message⟩ := by
  rw [hk.raced r moment o hrace hstanding, Race.ownAnswer_ended hended, hanswer, outcomeOf_error he]

/-- So is a backend that takes too long. -/
theorem Own.late (hk : k.Own b h) {r : Race σ} {moment : Nat} {o : Outcome} (hrace : k.race = some r)
    (hstanding : k.standing = .returned moment o) (hlate : r.endedBy moment = false) :
    o = .error ⟨.backendUnavailable, (Backend.Error.timeout h.timeout).message⟩ := by
  rw [hk.raced r moment o hrace hstanding, Race.ownAnswer_late hlate]
  rfl

end Attendee

namespace Core

/-- A call that is answered on its way in is not cancelled. -/
theorem attendee_answered {c : Core σ} (hw : ∀ s ∈ c.stages, s.Watches) {context : Context}
    {request : Request} {o : Outcome} (h : (c.service context request).reached = .answered o) :
    (c.attendee context request).standing = .returned c.now o ∧ isCancelled o = false := by
  have hwraps : (c.service context request).Wraps (dispatch c.state c.health context request) :=
    compose_wraps hw _ context request
  have hinner := hwraps.reached ▸ h
  obtain ⟨-, -, hleave⟩ := dispatch_answered hinner
  obtain ⟨c', after, hfinish, -⟩ := gauges_finish
    (c.applyAll (c.service context request).effects) c.now o (hwraps.leave hleave)
  refine ⟨?_, ?_⟩
  · simp only [attendee, take_answered c context request h, hfinish, Progress.standing]
  · rcases dispatch_cases c context request with ⟨-, o', hdispatch, -, hcalm⟩ | ⟨-, chunk, -, hdispatch⟩
    · rw [hdispatch] at hinner
      cases hinner
      exact hcalm
    · rw [hdispatch] at hinner
      cases hinner

/-- A call that asks for a computation waits, or has the answer of its race at once. -/
theorem attendee_computing {c : Core σ} (hw : ∀ s ∈ c.stages, s.Watches) (hc : c.cancel.ready = false)
    {context : Context} {request : Request} {chunk : Chunk}
    (h : (c.service context request).reached = .computing chunk) :
    (∃ p, (c.attendee context request).standing = .waiting p) ∨
      (c.attendee context request).standing = .returned c.now (outcomeOf
        ((c.awaited (c.service context request) chunk).race.ownAnswer c.handler c.now)) := by
  have hwraps : (c.service context request).Wraps (dispatch c.state c.health context request) :=
    compose_wraps hw _ context request
  obtain ⟨-, hleave⟩ := dispatch_computing (hwraps.reached ▸ h)
  have hs := same_begun c (c.service context request) chunk
  have hcounted : (c.awaited (c.service context request) chunk).Counted := hwraps.leave hleave
  rcases poll_cases (c.begun (c.service context request) chunk)
    (c.awaited (c.service context request) chunk) with ⟨-, hpoll⟩ | ⟨w, -, -, -, hwin, -⟩
  · refine Or.inl ⟨c.awaited (c.service context request) chunk, ?_⟩
    simp only [attendee, take_begun c context request h hc, hpoll, Progress.standing]
  · obtain ⟨c', after, hpoll, -⟩ := poll_counted _ hcounted hwin
    rw [hs.now, hs.cancel, hc] at hwin
    rw [hs.handler, Race.answer_eq_ownAnswer hwin] at hpoll
    refine Or.inr ?_
    simp only [attendee, take_begun c context request h hc, hpoll, Progress.standing]

/-- A call that arrives speaks for itself, unless the cancellation has fired. -/
theorem attendee_own {c : Core σ} (hw : ∀ s ∈ c.stages, s.Watches) (hc : c.cancel.ready = false)
    (context : Context) (request : Request) :
    (c.attendee context request).Own c.backend c.handler := by
  cases h : (c.service context request).reached with
  | answered o =>
      have hnone : (c.attendee context request).race = none := entered?_answered h
      obtain ⟨hstanding, hcalm⟩ := attendee_answered hw h
      refine ⟨?_, ?_, ?_⟩
      · intro r hr
        rw [hnone] at hr
        cases hr
      · intro r moment o' hr
        rw [hnone] at hr
        cases hr
      · intro moment o' _ ho
        rw [hstanding] at ho
        cases ho
        exact hcalm
  | computing chunk =>
      have hsome : (c.attendee context request).race =
          some (c.awaited (c.service context request) chunk).race := entered?_computing h hc
      have hs := same_opened c (c.service context request) chunk
      refine ⟨?_, ?_, ?_⟩
      · intro r hr
        rw [hsome] at hr
        cases hr
        exact ⟨_, chunk.content, by rw [← hs.backend]; rfl⟩
      · intro r moment o hr ho
        rw [hsome] at hr
        cases hr
        rcases attendee_computing hw hc h with ⟨p, hwaits⟩ | hreturned
        · rw [hwaits] at ho
          cases ho
        · rw [hreturned] at ho
          cases ho
          rfl
      · intro moment o hr
        rw [hsome] at hr
        cases hr

end Core

namespace Attendance

/-- Nobody has cancelled, and every call speaks for itself. -/
structure Uncancelled (b : Backend σ) (h : Handler) (s : Attendance σ) : Prop where
  quiet : s.core.cancel.ready = false
  backend : s.core.backend = b
  handler : s.core.handler = h
  own : ∀ k ∈ s.calls, k.Own b h

theorem Uncancelled.call {b : Backend σ} {h : Handler} {s : Attendance σ} (hu : s.Uncancelled b h)
    (hw : ∀ stage ∈ s.core.stages, stage.Watches) (context : Context) (request : Request) :
    (s.call context request).Uncancelled b h := by
  have hs := Core.same_take s.core context request
  refine ⟨?_, hs.backend.trans hu.backend, hs.handler.trans hu.handler, ?_⟩
  · show (s.core.take context request).1.cancel.ready = false
    rw [hs.cancel]
    exact hu.quiet
  · intro k hk
    rcases List.mem_append.mp hk with hk | hk
    · exact hu.own k hk
    · rw [List.mem_singleton.mp hk, ← hu.backend, ← hu.handler]
      exact Core.attendee_own hw hu.quiet context request

/-- The records with one of them changed in how its call stands. -/
theorem own_set {b : Backend σ} {h : Handler} {calls : List (Attendee σ)}
    (hown : ∀ k ∈ calls, k.Own b h) {id : Nat} {k : Attendee σ} (hk : calls[id]? = some k)
    {standing : Standing σ}
    (hraced : ∀ moment o, standing = .returned moment o →
      ∃ r, k.race = some r ∧ o = outcomeOf (r.ownAnswer h moment)) :
    ∀ k' ∈ calls.set id { k with standing := standing }, k'.Own b h := by
  intro k' hk'
  rcases List.mem_or_eq_of_mem_set hk' with hk' | rfl
  · exact hown k' hk'
  · refine ⟨(hown k (List.mem_of_getElem? hk)).origin, ?_, ?_⟩
    · intro r moment o hr ho
      obtain ⟨r', hr', rfl⟩ := hraced moment o ho
      rw [hr'] at hr
      cases hr
      rfl
    · intro moment o hr ho
      obtain ⟨r, hr', -⟩ := hraced moment o ho
      rw [hr'] at hr
      cases hr

theorem Uncancelled.look {b : Backend σ} {h : Handler} {base : Gauges} {s : Attendance σ}
    (hu : s.Uncancelled b h) (ha : s.Accounts base) (id : Nat) : (s.look id).Uncancelled b h := by
  rcases look_cases ha id with hlook | ⟨k, p, w, c', hk, hp, hw, hs, hlook, -⟩
  · rw [hlook]
    exact hu
  · obtain ⟨-, hrace, -⟩ := ha.kept k (List.mem_of_getElem? hk) p hp
    rw [hlook]
    refine ⟨?_, hs.backend.trans hu.backend, hs.handler.trans hu.handler, own_set hu.own hk ?_⟩
    · show c'.cancel.ready = false
      rw [hs.cancel]
      exact hu.quiet
    · intro moment o ho
      cases ho
      refine ⟨p.race, hrace, ?_⟩
      rw [hu.quiet] at hw
      rw [Race.answer_eq_ownAnswer hw, hu.handler]

theorem Uncancelled.drop {b : Backend σ} {h : Handler} {s : Attendance σ} (hu : s.Uncancelled b h)
    (id : Nat) : (s.drop id).Uncancelled b h := by
  rcases drop_cases s id with hdrop | ⟨k, p, hk, -, hdrop⟩
  · rw [hdrop]
    exact hu
  · rw [hdrop]
    refine ⟨hu.quiet, hu.backend, hu.handler, own_set hu.own hk ?_⟩
    intro moment o ho
    cases ho

theorem Uncancelled.step {b : Backend σ} {h : Handler} {base : Gauges} {s : Attendance σ}
    (hu : s.Uncancelled b h) (ha : s.Accounts base) {m : Move} (hm : m ≠ .op .cancel) :
    (s.step m).Uncancelled b h := by
  cases m with
  | drop id => exact hu.drop id
  | op o =>
      cases o with
      | call context request => exact hu.call ha.watches context request
      | look id => exact hu.look ha id
      | pass time => exact ⟨hu.quiet, hu.backend, hu.handler, hu.own⟩
      | cancel => exact absurd rfl hm
      | advance state => exact ⟨hu.quiet, hu.backend, hu.handler, hu.own⟩
      | publish key status => exact ⟨hu.quiet, hu.backend, hu.handler, hu.own⟩

theorem Uncancelled.run {b : Backend σ} {h : Handler} {base : Gauges} {s : Attendance σ}
    (hu : s.Uncancelled b h) (ha : s.Accounts base) {moves : List Move}
    (hmoves : ∀ m ∈ moves, m ≠ .op .cancel) : (s.run moves).Uncancelled b h := by
  induction moves generalizing s with
  | nil => exact hu
  | cons m rest ih =>
      exact ih (hu.step ha (hmoves m (by simp))) (ha.step m) fun m' hm' => hmoves m' (by simp [hm'])

/-! ### What calls say -/

/-- A look at a call whose computation has ended gives it the answer. -/
theorem look_ended {b : Backend σ} {h : Handler} {base : Gauges} {s : Attendance σ}
    (hu : s.Uncancelled b h) (ha : s.Accounts base) {id : Nat} {k : Attendee σ} {p : Pending σ}
    (hk : s.calls[id]? = some k) (hp : k.standing = .waiting p)
    (hended : p.race.endedBy s.core.now = true) :
    (s.look id).calls[id]? =
      some { k with standing := .returned s.core.now (outcomeOf p.race.computation.answer) } := by
  obtain ⟨-, -, hcounted⟩ := ha.kept k (List.mem_of_getElem? hk) p hp
  have hw : p.race.winner? s.core.now s.core.cancel.ready = some .computation := by
    rw [hu.quiet]
    exact if_pos hended
  obtain ⟨c', after, hpoll, -⟩ := Core.poll_counted s.core hcounted hw
  obtain ⟨hlt, -⟩ := List.getElem?_eq_some_iff.mp hk
  simp only [look, hk, hp, hpoll, Progress.standing, List.getElem?_set_self hlt]
  rfl

/-- What the calls say that this core has taken, and what it counts. -/
structure Candid (c : Core σ) (s : Attendance σ) : Prop where
  /-- A call says that it was cancelled exactly if its backend has answered so. -/
  cancelled : ∀ k ∈ s.calls, k.saysCancelled = true ↔ ∃ r moment o, k.race = some r ∧
    k.standing = .returned moment o ∧ r.endedBy moment = true ∧
      r.computation.answer = .error .cancelled
  /-- Any other failure of the backend is reported as that. -/
  failed : ∀ k ∈ s.calls, ∀ r moment o e, k.race = some r → k.standing = .returned moment o →
    r.endedBy moment = true → r.computation.answer = .error e → e ≠ .cancelled →
      o = .error ⟨.backendUnavailable, e.message⟩
  /-- So is a backend that takes too long. -/
  late : ∀ k ∈ s.calls, ∀ r moment o, k.race = some r → k.standing = .returned moment o →
    r.endedBy moment = false →
      o = .error ⟨.backendUnavailable, (Backend.Error.timeout c.handler.timeout).message⟩
  /-- A call that waits is told of the failure when it is next looked at. -/
  told : ∀ id k p e, s.calls[id]? = some k → k.standing = .waiting p →
    p.race.endedBy s.core.now = true → p.race.computation.answer = .error e → e ≠ .cancelled →
      (s.look id).calls[id]? = some { k with
        standing := .returned s.core.now (.error ⟨.backendUnavailable, e.message⟩) }
  /-- The count of cancelled calls has moved by those that say so. -/
  counted : s.core.metrics.cancelled = c.metrics.cancelled + s.cancelled.toUInt64
  /-- A backend that never answers so leaves none. -/
  calm : (∀ state text, (c.backend.compute state text).answer ≠ .error .cancelled) → s.cancelled = 0

/-- **Without a cancellation, only a backend that answers so cancels a call**, in whatever order calls
come, are looked at and are given up. -/
theorem cancelled_by_backend (c : Core σ) (hw : ∀ stage ∈ c.stages, stage.Watches)
    (hquiet : c.cancel.ready = false) (moves : List Move) (hmoves : ∀ m ∈ moves, m ≠ .op .cancel) :
    ((new c).run moves).Candid c := by
  have ha := (accounts_new c hw).run moves
  have hnew : (new c).Uncancelled c.backend c.handler := ⟨hquiet, rfl, rfl, fun _ h => nomatch h⟩
  have hu := hnew.run (accounts_new c hw) hmoves
  refine ⟨?_, ?_, ?_, ?_, ?_, ?_⟩
  · intro k hk
    exact (hu.own k hk).cancelled
  · intro k hk r moment o e hrace hstanding hended hanswer he
    exact (hu.own k hk).failed hrace hstanding hended hanswer he
  · intro k hk r moment o hrace hstanding hlate
    exact (hu.own k hk).late hrace hstanding hlate
  · intro id k p e hk hp hended hanswer he
    rw [look_ended hu ha hk hp hended, hanswer, outcomeOf_error he]
  · exact congrArg Gauges.cancelled ha.gauges
  · intro hnever
    refine List.countP_eq_zero.mpr ?_
    intro k hk hsaid
    obtain ⟨r, moment, o, hrace, -, -, hanswer⟩ := (hu.own k hk).cancelled.mp hsaid
    obtain ⟨state, text, horigin⟩ := (hu.own k hk).origin r hrace
    exact hnever state text (horigin ▸ hanswer)

/-- A backend that fails, answers that it was cancelled, and answers, while one call is given up. -/
theorem cancelled_by_backend_scripted :
    let script : Backend.Script :=
      ⟨[.error (.failed "gpu lost"), .error .cancelled, .ok [1]], .ofMillis 5, .zero⟩
    let core := Core.new [.logging, .metrics] ⟨.ofMillis 50, true⟩ (Backend.scripted script) .start .empty
    let predict : Move := .op (.call ⟨predictPath, []⟩ (.predict (.ofContent "x")))
    let moves : List Move := [predict, predict, predict, .drop 2, .op (.pass (.ofMillis 5)),
      .op (.look 0), .op (.look 1)]
    let s := (new core).run moves
    (∀ stage ∈ core.stages, stage.Watches) ∧ core.cancel.ready = false ∧
      (∀ m ∈ moves, m ≠ .op .cancel) ∧ s.calls.map Attendee.saysCancelled = [false, true, false] ∧
      s.Candid core := by
  intro script core predict moves s
  have hw : ∀ stage ∈ core.stages, stage.Watches := fun _ h =>
    watches_of_shipped (by simpa [core, Core.new] using h)
  have hmoves : ∀ m ∈ moves, m ≠ .op .cancel := by simp [moves, predict]
  exact ⟨hw, rfl, hmoves, by decide +kernel, cancelled_by_backend core hw rfl moves hmoves⟩

/-- A backend that answers that it was cancelled makes a call say that the server cancelled it, though
nobody has cancelled anything, and the call is counted as cancelled. -/
theorem cancelled_unasked :
    let script : Backend.Script := ⟨[.error .cancelled], .zero, .zero⟩
    let core := Core.new [] ⟨.ofSecs 1, true⟩ (Backend.scripted script) .start .empty
    let s := (new core).run [.op (.call ⟨predictPath, []⟩ (.predict (.ofContent "x")))]
    core.cancel.fired = false ∧ s.core.cancel.fired = false ∧
      (∃ k, s.calls = [k] ∧
        k.standing = .returned 0 (.error ⟨.cancelled, "call cancelled by server shutdown"⟩)) ∧
      s.core.metrics.cancelled = 1 :=
  ⟨rfl, rfl, ⟨_, rfl, rfl⟩, rfl⟩

end Attendance

end EmbedServer.Call
