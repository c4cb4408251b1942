/-
What the tasks of a server do to its exchanges.

A request adds one exchange at the end.  A look at an exchange changes at most that one: a call that
waits is answered or left alone, a stream that follows goes on or ends, and what is over stays as it
is.  So a call waits under its number from the request on, unchanged, until one look answers it or
its caller goes away, and no call begins to wait while the server does not run.
-/
import EmbedServer.Lifecycle.Tasks
import EmbedServer.Proofs.Call.Gauges

namespace EmbedServer.Http

open Call (Core Outcome)

variable {σ : Type}

/-! ### Responses to calls -/

/-- The exchange once its call is answered. -/
def Exchange.answered (e : Exchange σ) (request : Call.Request) (o : Outcome) : Exchange σ :=
  let r := if e.headOnly then (responseTo request o).headOnly else responseTo request o
  { e with
    head := some (r.status, r.headers)
    sent := match r.content with
      | .whole text => text
      | .following _ => e.sent
    phase := .complete }

@[simp] theorem Exchange.answered_phase (e : Exchange σ) (request : Call.Request) (o : Outcome) :
    (e.answered request o).phase = .complete := rfl

/-- The response to a call has its body as a whole. -/
theorem responseTo_whole (request : Call.Request) (o : Outcome) :
    ∃ text, (responseTo request o).content = .whole text := by
  cases request with
  | predict chunk =>
      match o with
      | .ok (.embedding e) => exact ⟨_, rfl⟩
      | .ok (.health r) => exact ⟨_, rfl⟩
      | .error e => exact ⟨_, rfl⟩
  | check q =>
      match o with
      | .ok (.embedding e) => exact ⟨_, rfl⟩
      | .ok (.health r) => exact ⟨_, rfl⟩
      | .error e => exact ⟨_, rfl⟩

namespace Server

theorem respond_call (s : Server σ) (e : Exchange σ) (request : Call.Request) (o : Outcome) :
    s.respond e (responseTo request o) = e.answered request o := by
  obtain ⟨text, h⟩ := responseTo_whole request o
  cases hh : e.headOnly with
  | true => simp [respond, Exchange.answered, hh, Response.headOnly]
  | false => simp [respond, Exchange.answered, hh, h]

theorem pending?_followUp (s : Server σ) (e : Exchange σ) (f : Follow) (heard : Nat) :
    (s.followUp e f heard).pending? = none := by
  simp only [followUp]
  split
  · rfl
  · split
    · rfl
    · split <;> rfl

/-- No response leaves a call waiting. -/
theorem pending?_respond (s : Server σ) (e : Exchange σ) (r : Response) :
    (s.respond e r).pending? = none := by
  simp only [respond]
  split
  · rfl
  · exact pending?_followUp s _ _ _

/-! ### The frame of a turn -/

/-- Two servers that differ in nothing but their exchanges and what calls may change of a core. -/
structure Same (s s' : Server σ) : Prop where
  limit : s'.limit = s.limit
  draining : s'.draining = s.draining
  core : s.core.Same s'.core

theorem Same.refl (s : Server σ) : Same s s := ⟨rfl, rfl, .refl _⟩

/-- What a request that arrives does: it adds one exchange, whose call is none, done, or waits. -/
theorem receive_cases (s : Server σ) (r : Request) :
    ∃ e, (s.receive r).exchanges = s.exchanges ++ [e] ∧ Same s (s.receive r) ∧
      ((s.outcomeOf? r = none ∧ e.pending? = none ∧
          (s.receive r).core.gauges = s.core.gauges) ∨
        (∃ request after o, e.pending? = none ∧
          s.core.take ⟨request.method, r.metadata⟩ request = ((s.receive r).core, .done after o) ∧
          s.outcomeOf? r = some o) ∨
        (∃ request p, e.pending? = some (request, p) ∧
          s.core.take ⟨request.method, r.metadata⟩ request = ((s.receive r).core, .waiting p) ∧
          s.outcomeOf? r = none)) := by
  cases hread : s.read r with
  | respond response =>
      have hout : s.outcomeOf? r = none := by simp [outcomeOf?, hread]
      cases hcontent : response.content with
      | whole text =>
          refine ⟨s.respond ⟨r.method == "HEAD", .complete, none, ""⟩ response, ?_, ?_, Or.inl
            ⟨hout, pending?_respond s _ _, ?_⟩⟩ <;> simp only [receive, hread, hcontent]
          exact ⟨rfl, rfl, .refl _⟩
      | following key =>
          refine ⟨s.respond ⟨r.method == "HEAD", .complete, none, ""⟩ response, ?_, ?_, Or.inl
            ⟨hout, pending?_respond s _ _, ?_⟩⟩ <;> simp only [receive, hread, hcontent]
          · exact ⟨rfl, rfl, Core.same_logAll _ _⟩
          · rfl
  | refuse method why =>
      have hout : s.outcomeOf? r = none := by simp [outcomeOf?, hread]
      refine ⟨_, by simp only [receive, hread]; rfl, ?_, Or.inl
        ⟨hout, pending?_respond _ _ _, ?_⟩⟩ <;> simp only [receive, hread]
      · exact ⟨rfl, rfl, Core.same_applyAll _ _⟩
      · rw [Call.gauges_applyAll]
        rfl
  | call request =>
      have hsame := Core.same_take s.core ⟨request.method, r.metadata⟩ request
      cases htake : s.core.take ⟨request.method, r.metadata⟩ request with
      | mk core progress =>
          rw [htake] at hsame
          cases progress with
          | done after o =>
              refine ⟨_, by simp only [receive, hread, htake]; rfl, ?_, Or.inr (Or.inl
                ⟨request, after, o, pending?_respond _ _ _, ?_, ?_⟩)⟩
              · simp only [receive, hread, htake]
                exact ⟨rfl, rfl, hsame⟩
              · simp only [receive, hread, htake]
              · simp [outcomeOf?, hread, htake]
          | waiting p =>
              refine ⟨_, by simp only [receive, hread, htake]; rfl, ?_, Or.inr (Or.inr
                ⟨request, p, rfl, ?_, ?_⟩)⟩
              · simp only [receive, hread, htake]
                exact ⟨rfl, rfl, hsame⟩
              · simp only [receive, hread, htake]
              · simp [outcomeOf?, hread, htake]

/-- What a look at an exchange does: nothing, or a stream goes on, or a call is answered. -/
theorem look_cases (s : Server σ) (i : Nat) :
    (s.look i = s ∧ s.outcomeAt? i = none) ∨
      (∃ e f heard, s.exchanges[i]? = some e ∧ e.phase = .following f heard ∧
        s.look i = s.put i (s.followUp e f heard) ∧ s.outcomeAt? i = none) ∨
      (∃ e request p w c' after o, s.exchanges[i]? = some e ∧ e.phase = .waiting request p ∧
        p.race.winner? s.core.now s.core.cancel.ready = some w ∧
        s.core.poll p = (c', .done after o) ∧ s.core.Same c' ∧
        s.look i = { s with core := c' }.put i (e.answered request o) ∧
        s.outcomeAt? i = some o) := by
  cases he : s.exchanges[i]? with
  | none => exact Or.inl ⟨by simp [look, he], by simp [outcomeAt?, pending?, he]⟩
  | some e =>
      cases hp : e.phase with
      | waiting request p =>
          have hpend : s.pending? i = some (request, p) := by
            simp [pending?, he, Exchange.pending?, hp]
          rcases Core.poll_cases s.core p with ⟨-, h⟩ | ⟨w, c', after, o, hw, h, hs⟩
          · exact Or.inl ⟨by simp [look, he, hp, h], by simp [outcomeAt?, hpend, h]⟩
          · refine Or.inr (Or.inr ⟨e, request, p, w, c', after, o, rfl, hp, hw, h, hs, ?_, ?_⟩)
            · simp only [look, he, hp, h, respond_call]
            · simp [outcomeAt?, hpend, h]
      | following f heard =>
          refine Or.inr (Or.inl ⟨e, f, heard, rfl, hp, by simp [look, he, hp], ?_⟩)
          simp [outcomeAt?, pending?, he, Exchange.pending?, hp]
      | complete =>
          exact Or.inl ⟨by simp [look, he, hp], by
            simp [outcomeAt?, pending?, he, Exchange.pending?, hp]⟩
      | dropped =>
          exact Or.inl ⟨by simp [look, he, hp], by
            simp [outcomeAt?, pending?, he, Exchange.pending?, hp]⟩

/-- What the loss of a caller does: nothing, or a stream ends, or a call is given up. -/
theorem abort_cases (s : Server σ) (i : Nat) :
    (s.pending? i = none ∧ s.abort i = s) ∨
      (∃ e, s.exchanges[i]? = some e ∧ e.pending? = none ∧
        s.abort i = s.put i { e with phase := .dropped }) ∨
      (∃ e request p, s.exchanges[i]? = some e ∧ e.phase = .waiting request p ∧
        s.abort i = { s with core := s.core.abandon }.put i { e with phase := .dropped }) := by
  cases he : s.exchanges[i]? with
  | none => exact Or.inl ⟨by simp [pending?, he], by simp [abort, he]⟩
  | some e =>
      cases hp : e.phase with
      | waiting request p =>
          exact Or.inr (Or.inr ⟨e, request, p, rfl, hp, by simp [abort, he, hp, put]⟩)
      | following f heard =>
          exact Or.inr (Or.inl ⟨e, rfl, by simp [Exchange.pending?, hp], by simp [abort, he, hp]⟩)
      | complete => exact Or.inl ⟨by simp [pending?, he, Exchange.pending?, hp], by simp [abort, he, hp]⟩
      | dropped => exact Or.inl ⟨by simp [pending?, he, Exchange.pending?, hp], by simp [abort, he, hp]⟩

theorem same_receive (s : Server σ) (r : Request) : Same s (s.receive r) := by
  obtain ⟨e, -, h, -⟩ := receive_cases s r
  exact h

theorem same_look (s : Server σ) (i : Nat) : Same s (s.look i) := by
  rcases look_cases s i with ⟨h, -⟩ | ⟨e, f, heard, -, -, h, -⟩ | ⟨e, request, p, w, c', after, o, -, -,
    -, -, hs, h, -⟩
  · rw [h]; exact Same.refl s
  · rw [h]; exact ⟨rfl, rfl, .refl _⟩
  · rw [h]; exact ⟨rfl, rfl, hs⟩

theorem same_abort (s : Server σ) (i : Nat) : Same s (s.abort i) := by
  rcases abort_cases s i with ⟨-, h⟩ | ⟨e, -, -, h⟩ | ⟨e, request, p, -, -, h⟩
  · rw [h]; exact Same.refl s
  · rw [h]; exact ⟨rfl, rfl, .refl _⟩
  · rw [h]; exact ⟨rfl, rfl, Core.same_apply s.core (.sample .finished)⟩

/-! ### Who waits -/

private theorem pending?_lt {s : Server σ} {i : Nat} {x : Call.Request × Call.Pending σ}
    (h : s.pending? i = some x) : i < s.exchanges.length := by
  refine Decidable.byContradiction ?_
  intro hge
  simp [pending?, List.getElem?_eq_none (Nat.le_of_not_lt hge)] at h

theorem pending?_eq_some {s : Server σ} {i : Nat} {request : Call.Request} {p : Call.Pending σ}
    (h : s.pending? i = some (request, p)) :
    ∃ e, s.exchanges[i]? = some e ∧ e.phase = .waiting request p := by
  cases he : s.exchanges[i]? with
  | none => simp [pending?, he] at h
  | some e =>
      refine ⟨e, rfl, ?_⟩
      cases hp : e.phase <;> simp_all [pending?, Exchange.pending?]

theorem pending?_put (s : Server σ) {i : Nat} (e : Exchange σ) (hi : i < s.exchanges.length)
    (j : Nat) : (s.put i e).pending? j = if j = i then e.pending? else s.pending? j := by
  by_cases hj : j = i
  · subst hj
    simp [pending?, put, hi]
  · simp [pending?, put, hj, List.getElem?_set_ne (Ne.symm hj)]

/-- Nobody begins to wait in the place of another exchange. -/
theorem pending?_put_over (s : Server σ) (i : Nat) {e : Exchange σ} (he : e.pending? = none) {j : Nat}
    (h : s.pending? j = none) : (s.put i e).pending? j = none := by
  by_cases hi : i < s.exchanges.length
  · rw [pending?_put s e hi j]
    split
    · exact he
    · exact h
  · rw [pending?, put, List.set_eq_of_length_le (Nat.le_of_not_lt hi)]
    exact h

/-- Nobody begins to wait by being looked at. -/
theorem pending?_look_over {s : Server σ} {j : Nat} (h : s.pending? j = none) (i : Nat) :
    (s.look i).pending? j = none := by
  rcases look_cases s i with ⟨hlook, -⟩ | ⟨e, f, heard, -, -, hlook, -⟩ |
    ⟨e, request, p, w, c', after, o, -, -, -, -, -, hlook, -⟩ <;> rw [hlook]
  · exact h
  · exact pending?_put_over s i (pending?_followUp s e f heard) h
  · exact pending?_put_over { s with core := c' } i rfl h

/-- Nobody begins to wait because a caller goes away. -/
theorem pending?_abort_over {s : Server σ} {j : Nat} (h : s.pending? j = none) (i : Nat) :
    (s.abort i).pending? j = none := by
  rcases abort_cases s i with ⟨-, habort⟩ | ⟨e, -, -, habort⟩ | ⟨e, request, p, -, -, habort⟩ <;>
    rw [habort]
  · exact h
  · exact pending?_put_over s i rfl h
  · exact pending?_put_over { s with core := s.core.abandon } i rfl h

theorem length_look (s : Server σ) (i : Nat) : (s.look i).exchanges.length = s.exchanges.length := by
  rcases look_cases s i with ⟨hlook, -⟩ | ⟨e, f, heard, -, -, hlook, -⟩ |
    ⟨e, request, p, w, c', after, o, -, -, -, -, -, hlook, -⟩ <;> rw [hlook]
  · exact List.length_set
  · exact List.length_set

theorem length_abort (s : Server σ) (i : Nat) :
    (s.abort i).exchanges.length = s.exchanges.length := by
  rcases abort_cases s i with ⟨-, habort⟩ | ⟨e, -, -, habort⟩ | ⟨e, request, p, -, -, habort⟩ <;>
    rw [habort]
  · exact List.length_set
  · exact List.length_set

/-- Who goes away does not wait. -/
theorem pending?_abort (s : Server σ) (i : Nat) : (s.abort i).pending? i = none := by
  rcases abort_cases s i with ⟨hnone, h⟩ | ⟨e, he, -, h⟩ | ⟨e, request, p, he, -, h⟩ <;> rw [h]
  · exact hnone
  · rw [pending?_put s _ (List.getElem?_eq_some_iff.mp he).1, if_pos rfl]
    rfl
  · rw [pending?_put { s with core := s.core.abandon } _ (List.getElem?_eq_some_iff.mp he).1,
      if_pos rfl]
    rfl

/-- An exchange put in the place of one without a waiting call. -/
theorem pending?_put_idle {s : Server σ} {i : Nat} {e e' : Exchange σ}
    (he : s.exchanges[i]? = some e) (h : e.pending? = none) (h' : e'.pending? = none) (j : Nat) :
    (s.put i e').pending? j = s.pending? j := by
  have hi := (List.getElem?_eq_some_iff.mp he).1
  rw [pending?_put s e' hi j]
  split
  · rename_i hj
    rw [hj, h', pending?, he]
    exact h.symm
  · rfl

theorem pending?_of_waiting {s : Server σ} {id : Nat} {e : Exchange σ} {request : Call.Request}
    {p : Call.Pending σ} (he : s.exchanges[id]? = some e) (hp : e.phase = .waiting request p) :
    s.pending? id = some (request, p) := by
  simp [pending?, he, Exchange.pending?, hp]

theorem mem_computing {s : Server σ} {i : Nat} :
    i ∈ s.computing ↔ ∃ request p, s.pending? i = some (request, p) := by
  simp only [computing, List.mem_filter, List.mem_range, Option.isSome_iff_exists, Prod.exists]
  exact ⟨fun h => h.2, fun ⟨request, p, h⟩ => ⟨pending?_lt h, request, p, h⟩⟩

theorem mem_computing_of_waiting {s : Server σ} {id : Nat} {e : Exchange σ}
    {request : Call.Request} {p : Call.Pending σ} (he : s.exchanges[id]? = some e)
    (hp : e.phase = .waiting request p) : id ∈ s.computing :=
  mem_computing.mpr ⟨request, p, pending?_of_waiting he hp⟩

theorem waiting_of_mem_computing {s : Server σ} {id : Nat} (h : id ∈ s.computing) :
    ∃ e request p, s.exchanges[id]? = some e ∧ e.phase = .waiting request p := by
  obtain ⟨request, p, hpend⟩ := mem_computing.mp h
  obtain ⟨e, he, hp⟩ := pending?_eq_some hpend
  exact ⟨e, request, p, he, hp⟩

theorem nodup_computing (s : Server σ) : s.computing.Nodup := List.nodup_range.filter _

theorem computing_congr {s s' : Server σ} (hl : s'.exchanges.length = s.exchanges.length)
    (h : ∀ j, s'.pending? j = s.pending? j) : s'.computing = s.computing := by
  simp only [computing, hl, h]

/-- The calls in progress once one of them is no longer. -/
theorem computing_put_idle {s : Server σ} {i : Nat} {e : Exchange σ} (hi : i ∈ s.computing)
    (h : e.pending? = none) :
    (s.put i e).computing = s.computing.filter (· != i) ∧
      (s.put i e).computing.length + 1 = s.computing.length := by
  obtain ⟨request, p, hp⟩ := mem_computing.mp hi
  have heq : (s.put i e).computing = s.computing.filter (· != i) := by
    simp only [computing, List.filter_filter]
    rw [show (s.put i e).exchanges.length = s.exchanges.length from List.length_set]
    refine List.filter_congr ?_
    intro j _
    rw [pending?_put s e (pending?_lt hp) j]
    by_cases hj : j = i
    · simp [hj, h]
    · simp [hj]
  refine ⟨heq, ?_⟩
  have hpos : 0 < s.computing.length := List.length_pos_of_mem hi
  rw [heq, ← (nodup_computing s).erase_eq_filter, List.length_erase_of_mem hi]
  omega

/-- The calls in progress once another exchange has been added. -/
theorem computing_append {s s' : Server σ} {e : Exchange σ}
    (h : s'.exchanges = s.exchanges ++ [e]) :
    s'.computing = s.computing ++ if e.pending?.isSome then [s.exchanges.length] else [] := by
  have hold : ∀ j ∈ List.range s.exchanges.length, (s'.pending? j).isSome = (s.pending? j).isSome := by
    intro j hj
    rw [pending?, pending?, h, List.getElem?_append_left (List.mem_range.mp hj)]
  have hnew : s'.pending? s.exchanges.length = e.pending? := by simp [pending?, h]
  simp only [computing]
  rw [h, List.length_append, List.length_singleton, List.range_succ, List.filter_append,
    List.filter_congr hold, List.filter_cons, List.filter_nil, hnew]

theorem pending?_receive (s : Server σ) (r : Request) {i : Nat} (h : i < s.exchanges.length) :
    (s.receive r).pending? i = s.pending? i := by
  obtain ⟨e, he, -, -⟩ := receive_cases s r
  rw [pending?, pending?, he, List.getElem?_append_left h]

/-- Only a server that runs lets a call wait. -/
theorem pending?_receive_late {s : Server σ} (hs : s.core.state ≠ .running) (r : Request) (i : Nat) :
    (s.receive r).pending? i = s.pending? i := by
  obtain ⟨e, he, -, hcase⟩ := receive_cases s r
  have hnew : e.pending? = none := by
    rcases hcase with ⟨-, h, -⟩ | ⟨request, after, o, h, -, -⟩ | ⟨request, p, -, htake, -⟩
    · exact h
    · exact h
    · exfalso
      rcases Core.take_cases s.core ⟨request.method, r.metadata⟩ request with
        ⟨c', after, o, h, -⟩ | ⟨chunk, hrun, -⟩
      · rw [h] at htake; simp at htake
      · exact hs hrun
  rcases Nat.lt_trichotomy i s.exchanges.length with hlt | heq | hgt
  · exact pending?_receive s r hlt
  · simp [pending?, he, heq, hnew]
  · rw [pending?, pending?, he, List.getElem?_eq_none (by simp; omega),
      List.getElem?_eq_none (by omega)]

/-- A server that does not run begins no computation. -/
theorem begins_late {s : Server σ} (hs : s.core.state ≠ .running) (r : Request) :
    s.begins r = false := by
  unfold begins
  split
  · rename_i request _
    obtain ⟨o, ho⟩ := Core.service_answers hs ⟨request.method, r.metadata⟩ request
    rw [ho]
  · rfl
  · rfl

end Server

end EmbedServer.Http
