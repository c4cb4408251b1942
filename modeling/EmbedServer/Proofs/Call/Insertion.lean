/-
One more stage that only watches, through a whole session.

The invariant of two sessions, one of which has the stage, is that their cores stay together, with
besides exactly what the stage has left behind for the calls so far, and that their calls differ in
nothing but the ways back of those that wait (`Session.Paired`).
-/
import EmbedServer.Proofs.Call.Extension

namespace EmbedServer.Call

variable {σ : Type}

/-! ### Sessions that stay together

Both sessions take the same operations.  The invariant is kept by one operation at a time, and what is
noticed of the second session is read off it.
-/

/-- One entry of a list gets more. -/
theorem flatMap_set_perm {α β : Type} {f : α → List β} {l : List α} {i : Nat} {a a' : α}
    {more : List β} (h : l[i]? = some a) (ha : f a' = f a ++ more) :
    (l.flatMap f ++ more).Perm ((l.set i a').flatMap f) := by
  induction l generalizing i with
  | nil => simp at h
  | cons x rest ih =>
      cases i with
      | zero =>
          obtain rfl : x = a := by simpa using h
          rw [List.set_cons_zero, List.flatMap_cons, List.flatMap_cons, ha, List.append_assoc,
            List.append_assoc]
          exact List.perm_append_comm.append_left _
      | succ i =>
          rw [List.set_cons_succ, List.flatMap_cons, List.flatMap_cons, List.append_assoc]
          exact (ih (by simpa using h)).append_left _

namespace Session

/-- The second session is the first one with one more stage. -/
structure Paired (t : Stage) (xs ys : List Stage) (s s' : Session σ) : Prop where
  stages : s.core.stages = xs ++ ys
  stages' : s'.core.stages = xs ++ t :: ys
  core : Core.Extends (s.calls.flatMap (Taken.added t xs ys)) s.core s'.core
  calls : s'.calls = s.calls.map (Taken.through (xs ++ t :: ys))
  texts : s'.texts = s.texts
  sound : ∀ k ∈ s.calls, k.Sound (xs ++ ys)

variable {t : Stage} {xs ys : List Stage} {s s' : Session σ}

theorem Paired.call (h : Paired t xs ys s s') (ht : t.Transparent) (context : Context)
    (request : Request) : Paired t xs ys (s.call context request) (s'.call context request) where
  stages := (Core.same_take s.core context request).stages.trans h.stages
  stages' := (Core.same_take s'.core context request).stages.trans h.stages'
  core := by
    show Core.Extends ((s.calls ++ [_]).flatMap _) _ _
    rw [List.flatMap_append, List.flatMap_singleton]
    exact h.core.take ht h.stages h.stages' context request
  calls := by
    show s'.calls ++ [_] = (s.calls ++ [_]).map _
    rw [List.map_append, h.calls, h.core.taken ht h.stages h.stages']
    rfl
  texts := by
    show s'.texts ++ _ = s.texts ++ _
    rw [h.texts, h.core.asked? ht h.stages h.stages']
  sound := by
    intro k hk
    rcases List.mem_append.mp hk with hold | hnew
    · exact h.sound k hold
    · rw [List.mem_singleton.mp hnew, ← h.stages]
      exact Core.sound_taken s.core context request

private theorem look_done {id : Nat} {k : Taken σ} {context : Context} {o : Outcome}
    (hk : s.calls[id]? = some k) (hp : k.progress = .done context o) : s.look id = s := by
  simp only [look, hk, hp]

private theorem look_waiting {id : Nat} {k : Taken σ} {p : Pending σ} (hk : s.calls[id]? = some k)
    (hp : k.progress = .waiting p) :
    s.look id =
      { s with
        core := (s.core.poll p).1
        calls := s.calls.set id
          { k with
            progress := (s.core.poll p).2
            turned := (s.core.verdict? p.race).map (⟨s.core.now, ·⟩) } } := by
  simp only [look, hk, hp]

/-- A look at a call that waits, and waits with one more stage on its way back. -/
theorem Paired.lookWaiting (h : Paired t xs ys s s') (ht : t.Transparent) {id : Nat} {k : Taken σ}
    {p : Pending σ} (hk : s.calls[id]? = some k)
    (hk' : s'.calls[id]? = some (k.through (xs ++ t :: ys))) (hp : k.progress = .waiting p) :
    Paired t xs ys (s.look id) (s'.look id) := by
  have hsound := h.sound k (List.mem_of_getElem? hk)
  rw [Taken.Sound, hp] at hsound
  obtain ⟨hleave, harrived, hturned⟩ := hsound
  have hi : Course.Inserts t xs ys k.endpoint k.given (k.course (xs ++ ys))
      (k.course (xs ++ t :: ys)) := compose_inserts ht xs ys k.endpoint k.given
  have hp' : (k.through (xs ++ t :: ys)).progress =
      .waiting { p with leave := (k.course (xs ++ t :: ys)).leave } := by
    rw [Taken.through, hp]
    rfl
  -- What the stage leaves behind on the way back, by the outcome with which the call turns now.
  let mids := fun o =>
    leaving t (comeback? xs ys k.endpoint k.given ⟨s.core.now - k.arrivedAt⟩ o)
  have hl : ∀ o, Core.Inserts (mids o) (p.leave ⟨s.core.now - p.arrivedAt⟩ o).effects
      ((k.course (xs ++ t :: ys)).leave ⟨s.core.now - p.arrivedAt⟩ o).effects := by
    rw [hleave, harrived]
    exact hi.leave _
  have hpoll := h.core.poll p (k.course (xs ++ t :: ys)).leave hl fun _ => leaving_trace ht _
  have hverdict : s'.core.verdict? p.race = s.core.verdict? p.race :=
    Core.verdict?_eq h.core.handler h.core.cancel h.core.now p.race
  have hprogress : (s'.core.poll { p with leave := (k.course (xs ++ t :: ys)).leave }).2 =
      (s.core.poll p).2.withLeave (k.course (xs ++ t :: ys)).leave := by
    rw [Core.poll_progress, Core.poll_progress, hverdict]
    cases s.core.verdict? p.race with
    | none => rfl
    | some o =>
        simp only [Progress.withLeave, h.core.now, hleave]
        exact done_congr (hi.result _ _)
  have hadded : Taken.added t xs ys
      { k with
        progress := (s.core.poll p).2
        turned := (s.core.verdict? p.race).map (⟨s.core.now, ·⟩) } =
      k.added t xs ys ++ (s.core.verdict? p.race).elim [] mids := by
    have hbefore : k.added t xs ys = entering t xs k.given := by
      rw [Taken.added, Taken.comeback?, hturned]
      exact List.append_nil _
    rw [hbefore, Taken.added, Taken.comeback?]
    cases s.core.verdict? p.race <;> rfl
  rw [look_waiting hk hp, look_waiting hk' hp']
  refine ⟨(Core.same_poll s.core p).stages.trans h.stages,
    (Core.same_poll s'.core _).stages.trans h.stages',
    hpoll.perm (flatMap_set_perm hk hadded), ?_, h.texts, ?_⟩
  · show s'.calls.set id _ = (s.calls.set id _).map _
    rw [List.map_set, h.calls, hprogress]
    show List.set _ _ (Taken.mk _ _ _ _ _ (Option.map _ (s'.core.verdict? p.race))) = _
    rw [hverdict, h.core.now]
    rfl
  · intro k' hk'
    rcases List.mem_or_eq_of_mem_set hk' with hold | rfl
    · exact h.sound k' hold
    · unfold Taken.Sound
      simp only [Core.poll_progress]
      cases s.core.verdict? p.race with
      | none => exact ⟨hleave, harrived, rfl⟩
      | some o =>
          refine ⟨⟨s.core.now, o⟩, rfl, ?_⟩
          rw [hleave, harrived]
          rfl

theorem Paired.look (h : Paired t xs ys s s') (ht : t.Transparent) (id : Nat) :
    Paired t xs ys (s.look id) (s'.look id) := by
  have hk' : s'.calls[id]? = s.calls[id]?.map (Taken.through (xs ++ t :: ys)) := by
    rw [h.calls, List.getElem?_map]
  cases hk : s.calls[id]? with
  | none =>
      rw [hk] at hk'
      have hs : s.look id = s := by simp only [Session.look, hk]
      have hs' : s'.look id = s' := by simp only [Session.look, hk', Option.map_none]
      rw [hs, hs']
      exact h
  | some k =>
      rw [hk, Option.map_some] at hk'
      cases hp : k.progress with
      | done context o =>
          have hp' : (k.through (xs ++ t :: ys)).progress = .done context o := by
            rw [Taken.through, hp]
            rfl
          rw [look_done hk hp, look_done hk' hp']
          exact h
      | waiting p => exact h.lookWaiting ht hk hk' hp

theorem Paired.step (h : Paired t xs ys s s') (ht : t.Transparent) (op : Op) :
    Paired t xs ys (s.step op) (s'.step op) := by
  cases op with
  | call context request => exact h.call ht context request
  | look id => exact h.look ht id
  | pass time =>
      refine { h with core := { h.core with now := ?_ } }
      show s'.core.now + _ = s.core.now + _
      rw [h.core.now]
  | cancel =>
      refine { h with core := { h.core with cancel := ?_ } }
      show s'.core.cancel.fire.2 = s.core.cancel.fire.2
      rw [h.core.cancel]
  | advance state => exact { h with core := { h.core with state := rfl } }
  | publish key status =>
      have hset : Core.Extends (s.calls.flatMap (Taken.added t xs ys))
          { s.core with health := s.core.health.set key status }
          { s'.core with health := s'.core.health.set key status } := by
        refine { h.core with health := ?_ }
        show s'.core.health.set key status = s.core.health.set key status
        rw [h.core.health]
      refine { h with core := ?_ }
      show Core.Extends _ (Core.logAll _ _) (Core.logAll _ _)
      rw [h.core.health] at hset ⊢
      exact hset.logAll _

theorem paired_run (ht : t.Transparent) (c : Core σ) (xs ys : List Stage) (ops : List Op) :
    Paired t xs ys ((new { c with stages := xs ++ ys }).run ops)
      ((new { c with stages := xs ++ t :: ys }).run ops) := by
  have hnew : Paired t xs ys (new { c with stages := xs ++ ys })
      (new { c with stages := xs ++ t :: ys }) := by
    refine ⟨rfl, rfl, ⟨rfl, rfl, rfl, rfl, rfl, rfl, rfl, rfl, .refl _, ?_, rfl⟩, rfl, rfl, ?_⟩
    · exact .of_eq (List.append_nil _).symm
    · intro k hk
      cases hk
  unfold run
  generalize new { c with stages := xs ++ ys } = s, new { c with stages := xs ++ t :: ys } = s' at hnew
  induction ops generalizing s s' with
  | nil => exact hnew
  | cons op rest ih => exact ih _ _ (hnew.step ht op)

/-- What nobody notices of the second session: it has one more stage, and everything that callers,
other stages, the endpoint and the backend see is as in the first. -/
structure Unnoticed (t : Stage) (xs ys : List Stage) (s s' : Session σ) : Prop where
  results : s'.calls.map Taken.result? = s.calls.map Taken.result?
  trace : s'.core.trace = s.core.trace
  seen : s'.calls.map (fun k => handed? (xs ++ t :: ys) k.given) =
    s.calls.map (fun k => handed? (xs ++ ys) k.given)
  texts : s'.texts = s.texts
  compute : s'.core.compute = s.core.compute

private theorem result?_through (stages : List Stage) (k : Taken σ) :
    (k.through stages).result? = k.result? := by
  unfold Taken.result? Taken.through
  cases k.progress <;> rfl

theorem Paired.unnoticed (h : Paired t xs ys s s') (ht : t.Transparent) :
    Unnoticed t xs ys s s' where
  results := by
    rw [h.calls, List.map_map]
    exact List.map_congr_left fun k _ => result?_through _ k
  trace := h.core.trace
  seen := by
    rw [h.calls, List.map_map]
    exact List.map_congr_left fun k _ => handed?_insert ht xs ys k.given
  texts := h.texts
  compute := h.core.compute

end Session

/-! ### What the two shipped stages leave behind

What a stage leaves behind is known for each call by itself.  Over a session it is the sum, because the
calls get to the stage and come back to it independently of one another.
-/

namespace Taken

/-- Whether a call has come back between these stages and those inside. -/
def isBack (xs ys : List Stage) (k : Taken σ) : Bool := (k.comeback? xs ys).isSome

/-- Whether a call has come back there as a failure. -/
def isFailed (xs ys : List Stage) (k : Taken σ) : Bool :=
  match k.comeback? xs ys with
  | some ⟨_, _, _, .error _⟩ => true
  | some ⟨_, _, _, .ok _⟩ | none => false

/-- What is counted of a call there. -/
def samples (xs ys : List Stage) (k : Taken σ) : List Metrics.Sample :=
  match k.comeback? xs ys with
  | some ⟨_, _, elapsed, .ok _⟩ => [.request elapsed]
  | some ⟨_, _, elapsed, .error _⟩ => [.request elapsed, .error]
  | none => []

/-- The event that a call has got there. -/
def entryEvent (context : Context) : Log.Event :=
  ⟨.callLog, .info, "call received", [("method", .text context.method)]⟩

/-- The event that a call has come back there. -/
def exitEvent (context : Context) : Outcome → Log.Event
  | .ok _ => ⟨.callLog, .info, "call completed", [("method", .text context.method)]⟩
  | .error e => ⟨.callLog, .warn, "call failed: " ++ e.message,
      [("method", .text context.method), ("code", .shown e.code.shown)]⟩

/-- What is logged of a call there. -/
def events (xs ys : List Stage) (k : Taken σ) : List Log.Event :=
  ((handed? xs k.given).map fun seen => entryEvent seen.1).toList ++
    ((k.comeback? xs ys).map fun b => exitEvent b.context b.outcome).toList

/-- A call has come back there exactly if it got there and has its result. -/
theorem isBack_eq {stages : List Stage} {k : Taken σ} (h : k.Sound stages) (xs ys : List Stage) :
    k.isBack xs ys = ((handed? xs k.given).isSome && k.result?.isSome) := by
  have hturned : k.turned.isSome = k.result?.isSome := by
    unfold Sound at h
    unfold result?
    cases hp : k.progress with
    | waiting p =>
        rw [hp] at h
        rw [h.2.2]
        rfl
    | done context o =>
        rw [hp] at h
        obtain ⟨turn, hturn, -⟩ := h
        rw [hturn]
        rfl
  rw [← hturned, isBack, comeback?]
  cases k.turned with
  | none => simp
  | some turn => simp [Call.comeback?]

private theorem samples_added_metrics (xs ys : List Stage) (k : Taken σ) :
    Effect.samples (k.added .metrics xs ys) = k.samples xs ys ∧
      Effect.events (k.added .metrics xs ys) = [] := by
  have hin : entering .metrics xs k.given = [] := by
    unfold entering
    split <;> rfl
  rw [added, hin, List.nil_append]
  unfold samples leaving
  cases k.comeback? xs ys with
  | none => exact ⟨rfl, rfl⟩
  | some b =>
      obtain ⟨given, context, elapsed, o⟩ := b
      cases o <;> exact ⟨rfl, rfl⟩

private theorem events_added_logging (xs ys : List Stage) (k : Taken σ) :
    Effect.events (k.added .logging xs ys) = k.events xs ys ∧
      Effect.samples (k.added .logging xs ys) = [] := by
  unfold added events entering leaving
  rw [Effect.events_append, Effect.samples_append]
  cases handed? xs k.given with
  | none =>
      cases k.comeback? xs ys with
      | none => exact ⟨rfl, rfl⟩
      | some b =>
          obtain ⟨given, context, elapsed, o⟩ := b
          cases o <;> exact ⟨rfl, rfl⟩
  | some seen =>
      cases k.comeback? xs ys with
      | none => exact ⟨rfl, rfl⟩
      | some b =>
          obtain ⟨given, context, elapsed, o⟩ := b
          cases o <;> exact ⟨rfl, rfl⟩

private theorem countP_samples (xs ys : List Stage) (k : Taken σ) :
    (k.samples xs ys).countP Metrics.Sample.isRequest = (k.isBack xs ys).toNat ∧
      (k.samples xs ys).countP Metrics.Sample.isError = (k.isFailed xs ys).toNat := by
  unfold samples isBack isFailed
  cases k.comeback? xs ys with
  | none => exact ⟨rfl, rfl⟩
  | some b =>
      obtain ⟨given, context, elapsed, o⟩ := b
      cases o <;> exact ⟨rfl, rfl⟩

end Taken

private theorem samples_flatMap {α : Type} (f : α → List Effect) (l : List α) :
    Effect.samples (l.flatMap f) = l.flatMap fun a => Effect.samples (f a) :=
  List.filterMap_flatMap

private theorem events_flatMap {α : Type} (f : α → List Effect) (l : List α) :
    Effect.events (l.flatMap f) = l.flatMap fun a => Effect.events (f a) :=
  List.filterMap_flatMap

private theorem countP_flatMap_toNat {α β : Type} {f : α → List β} {p : β → Bool} {q : α → Bool}
    (h : ∀ a, (f a).countP p = (q a).toNat) (l : List α) : (l.flatMap f).countP p = l.countP q := by
  induction l with
  | nil => rfl
  | cons a rest ih =>
      rw [List.flatMap_cons, List.countP_append, List.countP_cons, ih, h]
      cases q a <;> simp [Nat.add_comm]

namespace Session

/-- What the counting stage adds: one request with its latency for every call that has come back to
it, and one error for every such call that has failed there. -/
structure Counts (xs ys : List Stage) (s s' : Session σ) : Prop where
  log : s'.core.log = s.core.log
  metrics : s'.core.metrics = s.core.metrics.recordAll (s.calls.flatMap (Taken.samples xs ys))
  requests : s'.core.metrics.requests =
    s.core.metrics.requests + (s.calls.countP (Taken.isBack xs ys)).toUInt64
  latencies : s'.core.metrics.requestLatency.count =
    s.core.metrics.requestLatency.count + (s.calls.countP (Taken.isBack xs ys)).toUInt64
  errors : s'.core.metrics.errors =
    s.core.metrics.errors + (s.calls.countP (Taken.isFailed xs ys)).toUInt64

/-- What the logging stage adds: one event for every call that has got to it, and one for every call
that has come back to it, as a success or as a failure. -/
structure Logs (xs ys : List Stage) (s s' : Session σ) : Prop where
  metrics : s'.core.metrics = s.core.metrics
  log : s.core.log.Sublist s'.core.log
  events : s'.core.log.Perm (s.core.log ++ s.calls.flatMap (Taken.events xs ys))

variable {xs ys : List Stage} {s s' : Session σ}

theorem Paired.counts (h : Paired .metrics xs ys s s') : Counts xs ys s s' := by
  have hsamples : Effect.samples (s.calls.flatMap (Taken.added .metrics xs ys)) =
      s.calls.flatMap (Taken.samples xs ys) := by
    rw [samples_flatMap]
    exact congrArg s.calls.flatMap (funext fun k => (k.samples_added_metrics xs ys).1)
  have hmetrics : s'.core.metrics =
      s.core.metrics.recordAll (s.calls.flatMap (Taken.samples xs ys)) := by
    rw [h.core.metrics, hsamples]
  have hevents : Effect.events (s.calls.flatMap (Taken.added .metrics xs ys)) = [] := by
    rw [events_flatMap, List.flatMap_eq_nil_iff]
    exact fun k _ => (k.samples_added_metrics xs ys).2
  have hperm := h.core.events
  rw [hevents, List.append_nil] at hperm
  refine ⟨(h.core.log.eq_of_length hperm.length_eq.symm).symm, hmetrics, ?_, ?_, ?_⟩
  · rw [hmetrics, Metrics.Collector.requests_recordAll,
      countP_flatMap_toNat fun k => (Taken.countP_samples xs ys k).1]
  · rw [hmetrics, Metrics.Collector.observations_recordAll,
      countP_flatMap_toNat fun k => (Taken.countP_samples xs ys k).1]
  · rw [hmetrics, Metrics.Collector.errors_recordAll,
      countP_flatMap_toNat fun k => (Taken.countP_samples xs ys k).2]

theorem Paired.logs (h : Paired .logging xs ys s s') : Logs xs ys s s' := by
  have hsamples : Effect.samples (s.calls.flatMap (Taken.added .logging xs ys)) = [] := by
    rw [samples_flatMap, List.flatMap_eq_nil_iff]
    exact fun k _ => (k.events_added_logging xs ys).2
  have hevents : Effect.events (s.calls.flatMap (Taken.added .logging xs ys)) =
      s.calls.flatMap (Taken.events xs ys) := by
    rw [events_flatMap]
    exact congrArg s.calls.flatMap (funext fun k => (k.events_added_logging xs ys).1)
  refine ⟨?_, h.core.log, ?_⟩
  · rw [h.core.metrics, hsamples]
    rfl
  · rw [← hevents]
    exact h.core.events

/-- **The shipped stages are transparent**: put at any place into any list of stages, neither of them
is noticed in any session, and each adds what it is there for and nothing else. -/
theorem stages_transparent (c : Core σ) (xs ys : List Stage) (ops : List Op) :
    let s := (new { c with stages := xs ++ ys }).run ops
    let counted := (new { c with stages := xs ++ .metrics :: ys }).run ops
    let logged := (new { c with stages := xs ++ .logging :: ys }).run ops
    Unnoticed .metrics xs ys s counted ∧ Counts xs ys s counted ∧
      Unnoticed .logging xs ys s logged ∧ Logs xs ys s logged ∧
      ∀ k ∈ s.calls, k.Sound (xs ++ ys) ∧
        k.isBack xs ys = ((handed? xs k.given).isSome && k.result?.isSome) := by
  intro s counted logged
  have hm : Paired .metrics xs ys s counted := paired_run metrics_transparent c xs ys ops
  have hl : Paired .logging xs ys s logged := paired_run logging_transparent c xs ys ops
  exact ⟨hm.unnoticed metrics_transparent, hm.counts, hl.unnoticed logging_transparent, hl.logs,
    fun k hk => ⟨hm.sound k hk, Taken.isBack_eq (hm.sound k hk) xs ys⟩⟩

end Session

end EmbedServer.Call
