/-
A backend that rings when it is closed.

`Backend.ringing` logs one event more than a backend does when it is closed, the bell, and is otherwise the
same.  No call asks how its backend is closed, and nothing in a server asks for what has been logged.  So
two servers, one of which has the bell, go the same way whatever happens to them, and log the same from
then on (`Echoes`).  In particular what has been logged stays in the log.

This is one lemma for each thing that can be done to a core or to a server, in the order in which their
definitions use each other.
-/
import EmbedServer.Lifecycle.Tasks
import EmbedServer.Proofs.Call.Transparent

namespace EmbedServer

variable {σ : Type}

/-- The same backend, with a bell that is logged when it is closed. -/
def Backend.ringing (b : Backend σ) (bell : Log.Event) : Backend σ where
  name := b.name
  compute := b.compute
  close s := { b.close s with events := bell :: (b.close s).events }

namespace Call

variable {bell : Log.Event} {past past' : List Log.Event}

/-- The same core with a bell on its backend, and with this log. -/
def Core.rung (c : Core σ) (bell : Log.Event) (log : List Log.Event) : Core σ :=
  { c with backend := c.backend.ringing bell, log }

/-- The second core is the first one with a bell, and since their logs were these they have logged the
same. -/
def Core.Echoes (bell : Log.Event) (past past' : List Log.Event) (c c' : Core σ) : Prop :=
  ∃ added, c.log = past ++ added ∧ c' = c.rung bell (past' ++ added)

/-- What is done to two such cores leaves two such cores, and comes to the same. -/
structure Agree {α : Type} (bell : Log.Event) (past past' : List Log.Event) (x x' : Core σ × α) : Prop where
  core : x.1.Echoes bell past past' x'.1
  result : x'.2 = x.2

/-! ### Cores

A call reads the clock, the signals, the registry and the way its backend computes, none of which the bell
changes.
-/

namespace Core

variable {c c' : Core σ}

theorem echoes_rung (c : Core σ) (bell : Log.Event) (log : List Log.Event) :
    c.Echoes bell c.log log (c.rung bell log) :=
  ⟨[], (List.append_nil _).symm, by rw [List.append_nil]⟩

theorem Echoes.applyAll (h : c.Echoes bell past past' c') (fx : List Effect) :
    (c.applyAll fx).Echoes bell past past' (c'.applyAll fx) := by
  obtain ⟨added, hlog, rfl⟩ := h
  refine ⟨added ++ Effect.events fx, ?_, ?_⟩
  · rw [applyAll_eq, hlog, List.append_assoc]
  · rw [applyAll_eq, applyAll_eq, ← List.append_assoc]
    rfl

theorem Echoes.logAll (h : c.Echoes bell past past' c') (events : List Log.Event) :
    (c.logAll events).Echoes bell past past' (c'.logAll events) := by
  obtain ⟨added, hlog, rfl⟩ := h
  refine ⟨added ++ events, ?_, ?_⟩
  · rw [Core.logAll, hlog, List.append_assoc]
  · rw [← List.append_assoc]
    rfl

/-- Anything else in a core may be replaced, whatever it is replaced by. -/
theorem Echoes.replaced (h : c.Echoes bell past past' c') {f : Core σ → Core σ}
    (hlog : ∀ c, (f c).log = c.log) (hrung : ∀ c log, f (c.rung bell log) = (f c).rung bell log) :
    (f c).Echoes bell past past' (f c') := by
  obtain ⟨added, hlogged, rfl⟩ := h
  exact ⟨added, (hlog c).trans hlogged, hrung c _⟩

theorem Echoes.publish (h : c.Echoes bell past past' c') (key : String) (status : Health.Status) :
    (c.publish key status).Echoes bell past past' (c'.publish key status) := by
  have hwritten := h.replaced (f := fun c => { c with health := c.health.set key status })
    (fun _ => rfl) (fun _ _ => rfl)
  obtain ⟨added, -, rfl⟩ := h
  exact hwritten.logAll _

theorem Echoes.finish (h : c.Echoes bell past past' c') (arrivedAt : Nat)
    (leave : Duration → Outcome → Returned) (o : Outcome) :
    Agree bell past past' (c.finish arrivedAt leave o) (c'.finish arrivedAt leave o) := by
  have happlied := h.applyAll (leave ⟨c.now - arrivedAt⟩ o).effects
  obtain ⟨added, -, rfl⟩ := h
  exact ⟨happlied, rfl⟩

theorem Echoes.conclude (h : c.Echoes bell past past' c') (startedAt arrivedAt : Nat)
    (leave : Duration → Outcome → Returned) (a : Backend.Answer) :
    Agree bell past past' (c.conclude startedAt arrivedAt leave a)
      (c'.conclude startedAt arrivedAt leave a) := by
  have hclosed := h.applyAll (c.handler.closing ⟨c.now - startedAt⟩ a)
  obtain ⟨added, -, rfl⟩ := h
  exact hclosed.finish arrivedAt leave (outcomeOf a)

theorem Echoes.decided (h : c.Echoes bell past past' c') (p : Pending σ) (w : Race.Winner) :
    (c.decided p w).Echoes bell past past' (c'.decided p w) := by
  cases w with
  | computation =>
      exact (h.replaced (f := fun c => { c with compute := p.race.computation.settle c.compute })
        (fun _ => rfl) (fun _ _ => rfl)).logAll _
  | cancellation => exact h
  | deadline => exact h

theorem Echoes.poll (h : c.Echoes bell past past' c') (p : Pending σ) :
    Agree bell past past' (c.poll p) (c'.poll p) := by
  have hseen : p.race.winner? c'.now c'.cancel.ready = p.race.winner? c.now c.cancel.ready ∧
      c'.handler = c.handler := by
    obtain ⟨added, -, rfl⟩ := h
    exact ⟨rfl, rfl⟩
  cases hw : p.race.winner? c.now c.cancel.ready with
  | none =>
      rw [poll_none c p hw, poll_none c' p (hseen.1.trans hw)]
      exact ⟨h, rfl⟩
  | some w =>
      rw [poll_some c p hw, poll_some c' p (hseen.1.trans hw), hseen.2]
      exact (h.decided p w).conclude _ _ _ _

theorem Echoes.opened (h : c.Echoes bell past past' c') (course : Course) (chunk : Chunk) :
    (c.opened course chunk).Echoes bell past past' (c'.opened course chunk) := by
  have hname : c'.backend.name = c.backend.name := by
    obtain ⟨added, -, rfl⟩ := h
    rfl
  rw [Core.opened, Core.opened, hname]
  exact (h.applyAll _).applyAll _

theorem Echoes.begun (h : c.Echoes bell past past' c') (course : Course) (chunk : Chunk) :
    (c.begun course chunk).Echoes bell past past' (c'.begun course chunk) := by
  have hopened := h.opened course chunk
  have hbegun := (hopened.replaced
    (f := fun c => { c with compute := (c.backend.compute c.compute chunk.content).begun })
    (fun _ => rfl) (fun _ _ => rfl)).logAll
      ((c.opened course chunk).backend.compute (c.opened course chunk).compute chunk.content).events
  unfold Core.begun
  generalize c.opened course chunk = d at *
  generalize c'.opened course chunk = d' at *
  obtain ⟨added, -, rfl⟩ := hopened
  exact hbegun

theorem Echoes.take (h : c.Echoes bell past past' c') (context : Context) (request : Request) :
    Agree bell past past' (c.take context request) (c'.take context request) := by
  have hread : c'.service context request = c.service context request ∧ c'.cancel = c.cancel ∧
      c'.now = c.now := by
    obtain ⟨added, -, rfl⟩ := h
    exact ⟨rfl, rfl, rfl⟩
  obtain ⟨hservice, hcancel, hnow⟩ := hread
  cases hreached : (c.service context request).reached with
  | answered o =>
      rw [take_answered c context request hreached,
        take_answered c' context request (by rw [hservice, hreached]), hservice, hnow]
      exact (h.applyAll _).finish _ _ _
  | computing chunk =>
      have hreached' : (c'.service context request).reached = .computing chunk := by
        rw [hservice, hreached]
      cases hc : c.cancel.ready with
      | true =>
          rw [take_cancelled c context request hreached hc,
            take_cancelled c' context request hreached' (by rw [hcancel, hc]), hservice,
            (same_opened c _ chunk).now, (same_opened c' _ chunk).now, hnow]
          exact (h.opened _ chunk).conclude _ _ _ _
      | false =>
          have hawaited : c'.awaited (c.service context request) chunk =
              c.awaited (c.service context request) chunk := by
            have hopened := h.opened (c.service context request) chunk
            unfold awaited
            rw [hnow]
            generalize c.opened (c.service context request) chunk = d at *
            generalize c'.opened (c.service context request) chunk = d' at *
            obtain ⟨added, -, rfl⟩ := hopened
            rfl
          rw [take_begun c context request hreached hc,
            take_begun c' context request hreached' (by rw [hcancel, hc]), hservice, hawaited]
          exact (h.begun _ chunk).poll _

end Core

end Call

namespace Http

open Call (Agree Core)

variable {bell : Log.Event} {past past' : List Log.Event}

/-- The second server is the first one with a bell, and since their logs were these they have logged the
same. -/
structure Server.Echoes (bell : Log.Event) (past past' : List Log.Event) (s s' : Server σ) : Prop where
  core : s.core.Echoes bell past past' s'.core
  rest : s' = { s with core := s'.core }

/-! ### Servers

What a server makes of a request and how it answers depend on its core, but on nothing in it that differs.
-/

namespace Server

variable {s s' : Server σ}

theorem Echoes.exists_rung (h : s.Echoes bell past past' s') :
    ∃ log, s' = { s with core := s.core.rung bell log } := by
  obtain ⟨added, -, hcore⟩ := h.core
  exact ⟨past' ++ added, h.rest.trans (by rw [hcore])⟩

/-- The core alone is changed. -/
theorem Echoes.changed (h : s.Echoes bell past past' s') {core core' : Core σ}
    (hcore : core.Echoes bell past past' core') :
    Echoes bell past past' { s with core } { s' with core := core' } where
  core := hcore
  rest := by rw [h.rest]

/-- The exchanges alone are changed. -/
theorem Echoes.exchanged (h : s.Echoes bell past past' s') (exchanges : List (Exchange σ)) :
    Echoes bell past past' { s with exchanges } { s' with exchanges } where
  core := h.core
  rest := by rw [h.rest]

theorem Echoes.put (h : s.Echoes bell past past' s') (i : Nat) (e : Exchange σ) :
    Echoes bell past past' (s.put i e) (s'.put i e) := by
  have hexchanges : s'.exchanges = s.exchanges := by rw [h.rest]
  rw [Server.put, Server.put, hexchanges]
  exact h.exchanged _

theorem Echoes.followUp (h : s.Echoes bell past past' s') (e : Exchange σ) (f : Follow) (heard : Nat) :
    s'.followUp e f heard = s.followUp e f heard := by
  obtain ⟨log, rfl⟩ := h.exists_rung
  rfl

theorem Echoes.respond (h : s.Echoes bell past past' s') (e : Exchange σ) (r : Response) :
    s'.respond e r = s.respond e r := by
  obtain ⟨log, rfl⟩ := h.exists_rung
  rfl

theorem Echoes.read (h : s.Echoes bell past past' s') (r : Request) : s'.read r = s.read r := by
  obtain ⟨log, rfl⟩ := h.exists_rung
  rfl

/-- A request arrives. -/
theorem Echoes.receive (h : s.Echoes bell past past' s') (r : Request) :
    Echoes bell past past' (s.receive r) (s'.receive r) := by
  have hexchanges : s'.exchanges = s.exchanges := by rw [h.rest]
  have hadd : ∀ {core core' : Core σ} (e : Exchange σ), core.Echoes bell past past' core' →
      Echoes bell past past' { s with core, exchanges := s.exchanges ++ [e] }
        { s' with core := core', exchanges := s'.exchanges ++ [e] } := by
    intro core core' e hcore
    rw [hexchanges]
    exact (h.changed hcore).exchanged _
  cases hread : s.read r with
  | respond response =>
      have hread' := (h.read r).trans hread
      cases hcontent : response.content with
      | whole text =>
          simp only [Server.receive, hread, hread', hcontent, h.respond]
          exact hadd _ h.core
      | following key =>
          have hhealth : s'.core.health = s.core.health := by
            obtain ⟨log, hs⟩ := h.exists_rung
            rw [hs]
            rfl
          simp only [Server.receive, hread, hread', hcontent, h.respond, hhealth]
          exact hadd _ (h.core.logAll _)
  | refuse method why =>
      have hread' := (h.read r).trans hread
      have hrefused := h.core.applyAll (refusalEffects method why)
      simp only [Server.receive, hread, hread', (h.changed hrefused).respond]
      exact hadd _ hrefused
  | call request =>
      have hread' := (h.read r).trans hread
      obtain ⟨hcore, hresult⟩ := h.core.take ⟨request.method, r.metadata⟩ request
      cases htake : s.core.take ⟨request.method, r.metadata⟩ request with
      | mk core progress =>
          cases htake' : s'.core.take ⟨request.method, r.metadata⟩ request with
          | mk core' progress' =>
              rw [htake, htake'] at hcore hresult
              obtain rfl : progress' = progress := hresult
              cases progress' with
              | done after o =>
                  simp only [Server.receive, hread, hread', htake, htake', (h.changed hcore).respond]
                  exact hadd _ hcore
              | waiting p =>
                  simp only [Server.receive, hread, hread', htake, htake']
                  exact hadd _ hcore

/-- A request is looked at again. -/
theorem Echoes.look (h : s.Echoes bell past past' s') (i : Nat) :
    Echoes bell past past' (s.look i) (s'.look i) := by
  have hexchange : s'.exchanges[i]? = s.exchanges[i]? := by rw [h.rest]
  cases he : s.exchanges[i]? with
  | none =>
      simp only [Server.look, hexchange, he]
      exact h
  | some e =>
      have he' := hexchange.trans he
      cases hp : e.phase with
      | waiting request p =>
          obtain ⟨hcore, hresult⟩ := h.core.poll p
          cases hpoll : s.core.poll p with
          | mk core progress =>
              cases hpoll' : s'.core.poll p with
              | mk core' progress' =>
                  rw [hpoll, hpoll'] at hcore hresult
                  obtain rfl : progress' = progress := hresult
                  cases progress' with
                  | done after o =>
                      simp only [Server.look, he, he', hp, hpoll, hpoll',
                        (h.changed hcore).respond]
                      exact (h.changed hcore).put i _
                  | waiting p' =>
                      simp only [Server.look, he, he', hp, hpoll, hpoll']
                      exact h.changed hcore
      | following f heard =>
          simp only [Server.look, he, he', hp, h.followUp]
          exact h.put i _
      | complete =>
          simp only [Server.look, he, he', hp]
          exact h
      | dropped =>
          simp only [Server.look, he, he', hp]
          exact h

/-- A caller goes away. -/
theorem Echoes.abort (h : s.Echoes bell past past' s') (i : Nat) :
    Echoes bell past past' (s.abort i) (s'.abort i) := by
  have hexchange : s'.exchanges[i]? = s.exchanges[i]? := by rw [h.rest]
  cases he : s.exchanges[i]? with
  | none =>
      simp only [Server.abort, hexchange, he]
      exact h
  | some e =>
      have he' := hexchange.trans he
      cases hp : e.phase with
      | waiting request p =>
          simp only [Server.abort, he, he', hp]
          exact (h.put i _).changed (h.core.applyAll [.sample .finished])
      | following f heard =>
          simp only [Server.abort, he, he', hp]
          exact h.put i _
      | complete =>
          simp only [Server.abort, he, he', hp]
          exact h
      | dropped =>
          simp only [Server.abort, he, he', hp]
          exact h

/-- What calls come to is the same. -/
theorem Echoes.outcomeOf? (h : s.Echoes bell past past' s') (r : Request) :
    s'.outcomeOf? r = s.outcomeOf? r := by
  unfold Server.outcomeOf?
  rw [h.read]
  cases s.read r with
  | respond response => rfl
  | refuse method why => rfl
  | call request => simp only [(h.core.take ⟨request.method, r.metadata⟩ request).result]

theorem Echoes.outcomeAt? (h : s.Echoes bell past past' s') (id : Nat) :
    s'.outcomeAt? id = s.outcomeAt? id := by
  have hpending : s'.pending? id = s.pending? id := by rw [h.rest]; rfl
  unfold Server.outcomeAt?
  rw [hpending]
  cases s.pending? id with
  | none => rfl
  | some x => simp only [(h.core.poll x.2).result]

end Server

end Http

end EmbedServer
