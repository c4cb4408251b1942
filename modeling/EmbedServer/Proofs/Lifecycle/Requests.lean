/-
What becomes of the requests in a run.

A request has turns of its own: it arrives, it is looked at, its caller goes away.  All other turns leave
every request alone (`request_cases`), so whatever is said about requests is shown for these three.

A request is answered once at most.  Answers are recorded under numbers that have been given out, a call
that waits has none yet, and a request that is over stays as it is (`once_run`).
-/
import EmbedServer.Proofs.Lifecycle.Order

namespace EmbedServer.Lifecycle.Tasks

open Call (Outcome)

variable {σ : Type}

/-! ### Turns that leave requests alone -/

/-- What only the turns of requests change. -/
structure Untouched (t t' : Tasks σ) : Prop where
  exchanges : t'.wire.exchanges = t.wire.exchanges
  metrics : t'.wire.core.metrics = t.wire.core.metrics
  answers : t'.answers = t.answers

private theorem untouched_of_wire {t t' : Tasks σ} (h : t'.wire = t.wire) (ha : t'.answers = t.answers) :
    Untouched t t' := ⟨by rw [h], by rw [h], ha⟩

private theorem untouched_of_jots {t t' : Tasks σ} (h : Jots t t') : Untouched t t' :=
  ⟨h.kept (f := fun s => s.exchanges) fun _ => rfl, h.kept (f := fun s => s.core.metrics) fun _ => rfl,
    h.answers⟩

/-- A turn is that of a request, or leaves all of them alone. -/
theorem request_cases (t : Tasks σ) (u : Turn) :
    (∃ r, u = .receive r) ∨ (∃ id, u = .look id) ∨ (∃ id, u = .leave id) ∨
      Untouched t (t.step u) := by
  cases u with
  | receive r => exact Or.inl ⟨r, rfl⟩
  | look id => exact Or.inr (Or.inl ⟨id, rfl⟩)
  | leave id => exact Or.inr (Or.inr (Or.inl ⟨id, rfl⟩))
  | wake exitFirst =>
      exact Or.inr (Or.inr (Or.inr
        (untouched_of_wire (wire_wake t exitFirst) (answers_wake t exitFirst))))
  | act =>
      refine Or.inr (Or.inr (Or.inr ?_))
      show Untouched t t.act
      rcases act_cases t with ⟨-, h⟩ | ⟨a, rest, -, h⟩ <;> rw [h]
      · exact ⟨rfl, rfl, rfl⟩
      · have hframe := Act.frame_apply t.wire a
        exact ⟨hframe.exchanges, hframe.metrics, rfl⟩
  | trigger drain => exact Or.inr (Or.inr (Or.inr (untouched_of_jots (jots_ask t drain))))
  | send => exact Or.inr (Or.inr (Or.inr (untouched_of_jots (jots_send t))))
  | pass time => exact Or.inr (Or.inr (Or.inr ⟨rfl, rfl, rfl⟩))
  | publish key status => exact Or.inr (Or.inr (Or.inr ⟨rfl, rfl, rfl⟩))
  | publishAll status => exact Or.inr (Or.inr (Or.inr ⟨rfl, rfl, rfl⟩))
  | note e => exact Or.inr (Or.inr (Or.inr ⟨rfl, rfl, rfl⟩))
  | retain => exact Or.inr (Or.inr (Or.inr ⟨rfl, rfl, rfl⟩))
  | release => exact Or.inr (Or.inr (Or.inr ⟨rfl, rfl, rfl⟩))
  | finish => exact Or.inr (Or.inr (Or.inr ⟨rfl, rfl, rfl⟩))

theorem Untouched.pending {t t' : Tasks σ} (h : Untouched t t') (id : Nat) :
    t'.wire.pending? id = t.wire.pending? id := by
  rw [Http.Server.pending?, Http.Server.pending?, h.exchanges]

theorem Untouched.computing {t t' : Tasks σ} (h : Untouched t t') :
    t'.wire.computing = t.wire.computing :=
  Http.Server.computing_congr (by rw [h.exchanges]) h.pending

/-! ### What a look does -/

/-- A look at a request answers its call, or leaves who waits and who was answered as it is. -/
theorem look_step (t : Tasks σ) (id : Nat) :
    ((∀ j, (t.step (.look id)).wire.pending? j = t.wire.pending? j) ∧
        (t.step (.look id)).wire.core.metrics = t.wire.core.metrics ∧
        (t.step (.look id)).wire.exchanges.length = t.wire.exchanges.length ∧
        (t.step (.look id)).answers = t.answers) ∨
      ∃ e request p w c' after o, t.wire.exchanges[id]? = some e ∧ e.phase = .waiting request p ∧
        p.race.winner? t.now t.wire.core.cancel.ready = some w ∧
        t.wire.core.poll p = (c', .done after o) ∧
        (t.step (.look id)).wire = Http.Server.put { t.wire with core := c' } id (e.answered request o) ∧
        (t.step (.look id)).answers = t.answers ++ [⟨t.now, id, o⟩] := by
  rcases Http.Server.look_cases t.wire id with ⟨hlook, hnone⟩ | ⟨e, f, heard, he, hp, hlook, hnone⟩ |
    ⟨e, request, p, w, c', after, o, he, hp, hw, hpoll, -, hlook, hsome⟩
  · refine Or.inl ⟨?_, ?_, ?_, ?_⟩
    · intro j
      show (t.wire.look id).pending? j = _
      rw [hlook]
    · show (t.wire.look id).core.metrics = _
      rw [hlook]
    · show (t.wire.look id).exchanges.length = _
      rw [hlook]
    · simp [step, answer, hnone]
  · refine Or.inl ⟨?_, ?_, ?_, ?_⟩
    · intro j
      show (t.wire.look id).pending? j = _
      rw [hlook]
      exact Http.Server.pending?_put_idle he (by simp [Http.Exchange.pending?, hp])
        (Http.Server.pending?_followUp _ _ _ _) j
    · show (t.wire.look id).core.metrics = _
      rw [hlook]
      rfl
    · show (t.wire.look id).exchanges.length = _
      rw [hlook]
      exact List.length_set
    · simp [step, answer, hnone]
  · refine Or.inr ⟨e, request, p, w, c', after, o, he, hp, hw, hpoll, hlook, ?_⟩
    simp [step, answer, hsome]

/-- A look at a call that has an outcome answers it. -/
theorem look_answered {t : Tasks σ} {id : Nat} {e : Http.Exchange σ} {request : Call.Request}
    {p : Call.Pending σ} {c' : Call.Core σ} {after : Call.Context} {o : Outcome}
    (he : t.wire.exchanges[id]? = some e) (hp : e.phase = .waiting request p)
    (hpoll : t.wire.core.poll p = (c', .done after o)) :
    (t.step (.look id)).wire =
      Http.Server.put { t.wire with core := c' } id (e.answered request o) := by
  show t.wire.look id = _
  simp only [Http.Server.look, he, hp, hpoll, Http.Server.respond_call]

/-! ### Every request is answered once at most

A look answers whoever waits, and does not consult the record of answers.  So the record has to be tied to
those who wait, and to the numbers that have been given out; `Once` does both.
-/

/-- The answers to a request. -/
def answersTo (t : Tasks σ) (id : Nat) : List Answered := t.answers.filter (·.id == id)

/-- Whoever was answered has asked, does not wait, and was answered once. -/
structure Once (t : Tasks σ) : Prop where
  known : ∀ x ∈ t.answers, x.id < t.wire.exchanges.length
  settled : ∀ x ∈ t.answers, t.wire.pending? x.id = none
  nodup : (t.answers.map Answered.id).Nodup

theorem Once.untouched {t t' : Tasks σ} (h : t.Once) (hu : Untouched t t') : t'.Once := by
  refine ⟨?_, ?_, ?_⟩
  · rw [hu.answers, hu.exchanges]
    exact h.known
  · rw [hu.answers]
    intro x hx
    rw [hu.pending]
    exact h.settled x hx
  · rw [hu.answers]
    exact h.nodup

theorem Once.receive {t : Tasks σ} (h : t.Once) (r : Http.Request) : (t.step (.receive r)).Once := by
  obtain ⟨e, he, -, hcase⟩ := Http.Server.receive_cases t.wire r
  have hlen : (t.step (.receive r)).wire.exchanges.length = t.wire.exchanges.length + 1 := by
    show (t.wire.receive r).exchanges.length = _
    rw [he]
    simp
  have hold : ∀ x ∈ t.answers, (t.step (.receive r)).wire.pending? x.id = none := fun x hx =>
    (Http.Server.pending?_receive t.wire r (h.known x hx)).trans (h.settled x hx)
  have hcalm : t.wire.outcomeOf? r = none → (t.step (.receive r)).Once := by
    intro hnone
    have hanswers : (t.step (.receive r)).answers = t.answers := by simp [step, answer, hnone]
    refine ⟨?_, by rw [hanswers]; exact hold, by rw [hanswers]; exact h.nodup⟩
    rw [hanswers, hlen]
    exact fun x hx => Nat.lt_succ_of_lt (h.known x hx)
  rcases hcase with ⟨hnone, -⟩ | ⟨request, after, o, hidle, -, hsome⟩ | ⟨request, p, -, -, hnone⟩
  · exact hcalm hnone
  · have hanswers : (t.step (.receive r)).answers =
        t.answers ++ [⟨t.now, t.wire.exchanges.length, o⟩] := by simp [step, answer, hsome]
    have hnew : (t.step (.receive r)).wire.pending? t.wire.exchanges.length = none := by
      show (t.wire.receive r).pending? _ = none
      simp [Http.Server.pending?, he, hidle]
    refine ⟨?_, ?_, ?_⟩
    · rw [hanswers, hlen]
      intro x hx
      rcases List.mem_append.mp hx with hx | hx
      · exact Nat.lt_succ_of_lt (h.known x hx)
      · rw [List.mem_singleton.mp hx]
        exact Nat.lt_succ_self _
    · rw [hanswers]
      intro x hx
      rcases List.mem_append.mp hx with hx | hx
      · exact hold x hx
      · rw [List.mem_singleton.mp hx]
        exact hnew
    · rw [hanswers, List.map_append]
      refine List.nodup_append.mpr ⟨h.nodup, by simp, ?_⟩
      intro i hi j hj
      obtain ⟨x, hx, rfl⟩ := List.mem_map.mp hi
      simp only [List.map_cons, List.map_nil, List.mem_singleton] at hj
      rw [hj]
      exact Nat.ne_of_lt (h.known x hx)
  · exact hcalm hnone

theorem Once.look {t : Tasks σ} (h : t.Once) (id : Nat) : (t.step (.look id)).Once := by
  rcases look_step t id with ⟨hpending, -, hlen, hanswers⟩ |
    ⟨e, request, p, w, c', after, o, he, hp, -, -, hwire, hanswers⟩
  · refine ⟨?_, ?_, by rw [hanswers]; exact h.nodup⟩
    · rw [hanswers, hlen]
      exact h.known
    · rw [hanswers]
      intro x hx
      rw [hpending]
      exact h.settled x hx
  · have hi := (List.getElem?_eq_some_iff.mp he).1
    have hwaits : t.wire.pending? id = some (request, p) := by
      simp [Http.Server.pending?, he, Http.Exchange.pending?, hp]
    have hput : ∀ j, (t.step (.look id)).wire.pending? j =
        if j = id then none else t.wire.pending? j := by
      intro j
      rw [hwire, Http.Server.pending?_put { t.wire with core := c' } _ hi j]
      rfl
    refine ⟨?_, ?_, ?_⟩
    · rw [hanswers, hwire, Http.Server.put, List.length_set]
      intro x hx
      rcases List.mem_append.mp hx with hx | hx
      · exact h.known x hx
      · rw [List.mem_singleton.mp hx]
        exact hi
    · rw [hanswers]
      intro x hx
      rw [hput]
      rcases List.mem_append.mp hx with hx | hx
      · split
        · rfl
        · exact h.settled x hx
      · rw [List.mem_singleton.mp hx]
        exact if_pos rfl
    · rw [hanswers, List.map_append]
      refine List.nodup_append.mpr ⟨h.nodup, by simp, ?_⟩
      intro i hmem j hj
      obtain ⟨x, hx, rfl⟩ := List.mem_map.mp hmem
      simp only [List.map_cons, List.map_nil, List.mem_singleton] at hj
      rw [hj]
      intro heq
      have hover := h.settled x hx
      rw [heq, hwaits] at hover
      cases hover

theorem pending_leave {t : Tasks σ} {id j : Nat} (h : t.wire.pending? j = none) :
    (t.step (.leave id)).wire.pending? j = none := Http.Server.pending?_abort_over h id

theorem Once.leave {t : Tasks σ} (h : t.Once) (id : Nat) : (t.step (.leave id)).Once := by
  refine ⟨?_, fun x hx => pending_leave (h.settled x hx), h.nodup⟩
  intro x hx
  show x.id < (t.wire.abort id).exchanges.length
  rw [Http.Server.length_abort]
  exact h.known x hx

theorem Once.step {t : Tasks σ} (h : t.Once) (u : Turn) : (t.step u).Once := by
  rcases request_cases t u with ⟨r, rfl⟩ | ⟨id, rfl⟩ | ⟨id, rfl⟩ | hu
  · exact h.receive r
  · exact h.look id
  · exact h.leave id
  · exact h.untouched hu

theorem once_run (b : Blueprint σ) (a : Net.SocketAddress) (turns : List Turn) :
    ((b.running a).tasks.run turns).Once :=
  run_keeps (P := Once) (fun _ u h => h.step u)
    (show (b.running a).tasks.Once from
      ⟨fun _ h => (by cases h), fun _ h => (by cases h), List.nodup_nil⟩) turns

/-! ### What becomes of one request -/

/-- A request is changed by a look at it, by the loss of its caller, and by nothing else. -/
theorem exchange_step {t : Tasks σ} {id : Nat} {e : Http.Exchange σ}
    (h : t.wire.exchanges[id]? = some e) {u : Turn} (hlook : u ≠ .look id) (hleave : u ≠ .leave id) :
    (t.step u).wire.exchanges[id]? = some e := by
  have hput : ∀ (s : Http.Server σ) (j : Nat) (e' : Http.Exchange σ), j ≠ id →
      s.exchanges = t.wire.exchanges → (s.put j e').exchanges[id]? = some e := by
    intro s j e' hj hs
    rw [Http.Server.put, List.getElem?_set_ne hj, hs]
    exact h
  rcases request_cases t u with ⟨r, rfl⟩ | ⟨j, rfl⟩ | ⟨j, rfl⟩ | hu
  · obtain ⟨e', he', -⟩ := Http.Server.receive_cases t.wire r
    show (t.wire.receive r).exchanges[id]? = some e
    rw [he', List.getElem?_append_left (List.getElem?_eq_some_iff.mp h).1]
    exact h
  · have hj : j ≠ id := fun hc => hlook (by rw [hc])
    show (t.wire.look j).exchanges[id]? = some e
    rcases Http.Server.look_cases t.wire j with ⟨heq, -⟩ | ⟨e', f, heard, -, -, heq, -⟩ |
      ⟨e', request, p, w, c', after, o, -, -, -, -, -, heq, -⟩ <;> rw [heq]
    · exact h
    · exact hput _ _ _ hj rfl
    · exact hput _ _ _ hj rfl
  · have hj : j ≠ id := fun hc => hleave (by rw [hc])
    show (t.wire.abort j).exchanges[id]? = some e
    rcases Http.Server.abort_cases t.wire j with ⟨-, heq⟩ | ⟨e', -, -, heq⟩ |
      ⟨e', request, p, -, -, heq⟩ <;> rw [heq]
    · exact h
    · exact hput _ _ _ hj rfl
    · exact hput _ _ _ hj rfl
  · rw [hu.exchanges]
    exact h

/-- What is complete stays complete, whatever happens. -/
theorem complete_step {t : Tasks σ} {id : Nat} {e : Http.Exchange σ}
    (h : t.wire.exchanges[id]? = some e) (hc : e.phase = .complete) (u : Turn) :
    (t.step u).wire.exchanges[id]? = some e := by
  by_cases hlook : u = .look id
  · subst hlook
    show (t.wire.look id).exchanges[id]? = some e
    simp only [Http.Server.look, h, hc]
  · by_cases hleave : u = .leave id
    · subst hleave
      show (t.wire.abort id).exchanges[id]? = some e
      simp only [Http.Server.abort, h, hc]
    · exact exchange_step h hlook hleave

theorem answersTo_append {t t' : Tasks σ} {x : Answered} (h : t'.answers = t.answers ++ [x])
    (id : Nat) : t'.answersTo id = t.answersTo id ++ if x.id = id then [x] else [] := by
  rw [answersTo, answersTo, h, List.filter_append]
  by_cases hx : x.id = id <;> simp [hx]

/-- A request that was there before is answered by a look at it, and by nothing else. -/
theorem answersTo_step {t : Tasks σ} {id : Nat} (h : id < t.wire.exchanges.length) {u : Turn}
    (hlook : u ≠ .look id) : (t.step u).answersTo id = t.answersTo id := by
  rcases request_cases t u with ⟨r, rfl⟩ | ⟨j, rfl⟩ | ⟨j, rfl⟩ | hu
  · cases ho : t.wire.outcomeOf? r with
    | none => simp [answersTo, step, answer, ho]
    | some o =>
        have hanswers : (t.step (.receive r)).answers =
            t.answers ++ [⟨t.now, t.wire.exchanges.length, o⟩] := by simp [step, answer, ho]
        rw [answersTo_append hanswers, if_neg (by simp only; omega), List.append_nil]
  · have hj : j ≠ id := fun hc => hlook (by rw [hc])
    rcases look_step t j with ⟨-, -, -, hanswers⟩ |
      ⟨e, request, p, w, c', after, o, -, -, -, -, -, hanswers⟩
    · rw [answersTo, hanswers]
      rfl
    · rw [answersTo_append hanswers, if_neg hj, List.append_nil]
  · rfl
  · rw [answersTo, hu.answers]
    rfl

theorem answersTo_complete {t : Tasks σ} {id : Nat} {e : Http.Exchange σ}
    (h : t.wire.exchanges[id]? = some e) (hc : e.phase = .complete) (u : Turn) :
    (t.step u).answersTo id = t.answersTo id := by
  by_cases hlook : u = .look id
  · subst hlook
    have hnone : t.wire.outcomeAt? id = none := by
      simp [Http.Server.outcomeAt?, Http.Server.pending?, h, Http.Exchange.pending?, hc]
    simp [answersTo, step, answer, hnone]
  · exact answersTo_step (List.getElem?_eq_some_iff.mp h).1 hlook

end EmbedServer.Lifecycle.Tasks
