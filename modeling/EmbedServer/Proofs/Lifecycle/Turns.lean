/-
What one turn does.

Turns are of three kinds.  The supervisor wakes, and decides on what to do; the supervisor does one
thing; or somebody else has a turn.  The first kind leaves the wire alone, the second is an act of a
stop, and a turn of the third kind is beside the supervisor: neither its stage nor its record
changes, the lifecycle does not move, no signal fires, and a frozen registry stays as it is.

So whatever is said about a stop is shown for a wake and for an act, and holds of all other turns
because they are beside the supervisor.
-/
import EmbedServer.Backend.Simple
import EmbedServer.Lifecycle.Tasks
import EmbedServer.Proofs.Health.Registry
import EmbedServer.Proofs.Http.Exchanges

namespace EmbedServer.Lifecycle

variable {σ : Type}

/-! ### Acts

An act changes one thing.  What no act changes is collected in `Frame`, and what a single kind of act
changes is left alone by every list of acts without it (`kept_applyAll`).
-/

namespace Act

/-- What no act changes. -/
structure Frame (s s' : Http.Server σ) : Prop where
  limit : s'.limit = s.limit
  exchanges : s'.exchanges = s.exchanges
  stages : s'.core.stages = s.core.stages
  handler : s'.core.handler = s.core.handler
  backend : s'.core.backend = s.core.backend
  metrics : s'.core.metrics = s.core.metrics
  now : s'.core.now = s.core.now

theorem Frame.refl (s : Http.Server σ) : Frame s s := ⟨rfl, rfl, rfl, rfl, rfl, rfl, rfl⟩

theorem Frame.trans {s s' s'' : Http.Server σ} (h : Frame s s') (h' : Frame s' s'') : Frame s s'' where
  limit := h'.limit.trans h.limit
  exchanges := h'.exchanges.trans h.exchanges
  stages := h'.stages.trans h.stages
  handler := h'.handler.trans h.handler
  backend := h'.backend.trans h.backend
  metrics := h'.metrics.trans h.metrics
  now := h'.now.trans h.now

theorem frame_apply (s : Http.Server σ) (a : Act) : Frame s (apply s a) := by
  cases a with
  | advance next =>
      simp only [apply, applyCore, advanceCore]
      split <;> exact ⟨rfl, rfl, rfl, rfl, rfl, rfl, rfl⟩
  | publish key status => exact ⟨rfl, rfl, rfl, rfl, rfl, rfl, rfl⟩
  | note e => exact ⟨rfl, rfl, rfl, rfl, rfl, rfl, rfl⟩
  | freeze => exact ⟨rfl, rfl, rfl, rfl, rfl, rfl, rfl⟩
  | drain => exact ⟨rfl, rfl, rfl, rfl, rfl, rfl, rfl⟩
  | exceed n timeout => exact ⟨rfl, rfl, rfl, rfl, rfl, rfl, rfl⟩
  | cancel => exact ⟨rfl, rfl, rfl, rfl, rfl, rfl, rfl⟩
  | abort => exact ⟨rfl, rfl, rfl, rfl, rfl, rfl, rfl⟩
  | close => exact ⟨rfl, rfl, rfl, rfl, rfl, rfl, rfl⟩
  | closed => exact ⟨rfl, rfl, rfl, rfl, rfl, rfl, rfl⟩

private theorem frame_applyAll (s : Http.Server σ) (acts : List Act) : Frame s (applyAll s acts) := by
  induction acts generalizing s with
  | nil => exact Frame.refl s
  | cons a rest ih => exact (frame_apply s a).trans (ih (apply s a))

theorem applyAll_cons (s : Http.Server σ) (a : Act) (rest : List Act) :
    applyAll s (a :: rest) = applyAll (apply s a) rest := rfl

theorem applyAll_append (s : Http.Server σ) (xs ys : List Act) :
    applyAll s (xs ++ ys) = applyAll (applyAll s xs) ys := List.foldl_append ..

/-- What all acts but one leave alone is as it was after any of them. -/
theorem kept_applyAll {α : Type} {f : Http.Server σ → α} {x : Act}
    (hkept : ∀ s a, a ≠ x → f (apply s a) = f s) (s : Http.Server σ) {acts : List Act}
    (hacts : ∀ a ∈ acts, a ≠ x) : f (applyAll s acts) = f s := by
  induction acts generalizing s with
  | nil => rfl
  | cons a rest ih =>
      exact (ih (apply s a) fun a' ha' => hacts a' (List.mem_cons_of_mem _ ha')).trans
        (hkept s a (hacts a List.mem_cons_self))

/-- The state after an act. -/
def stateAfter (state : State) : Act → State
  | .advance next => state.advance next
  | _ => state

theorem state_apply (s : Http.Server σ) (a : Act) :
    (apply s a).core.state = stateAfter s.core.state a := by
  cases a with
  | advance next =>
      simp only [apply, applyCore, advanceCore, stateAfter, State.advance]
      split <;> rfl
  | _ => rfl

theorem draining_apply (s : Http.Server σ) {a : Act} (h : a ≠ .drain) :
    (apply s a).draining = s.draining := by
  cases a with
  | drain => exact absurd rfl h
  | _ => rfl

theorem cancel_apply (s : Http.Server σ) {a : Act} (h : a ≠ .cancel) :
    (apply s a).core.cancel = s.core.cancel := by
  cases a with
  | cancel => exact absurd rfl h
  | advance next =>
      simp only [apply, applyCore, advanceCore]
      split <;> rfl
  | _ => rfl

/-- A registry in which nothing serves any more, and which stays so. -/
def IsOut (r : Health.Registry) : Prop :=
  r.frozen = true ∧ ∀ key status, (key, status) ∈ r.snapshot → status = .notServing

theorem isOut_freeze (r : Health.Registry) : IsOut r.freeze := by
  refine ⟨rfl, ?_⟩
  intro key status h
  simp only [Health.Registry.snapshot, Health.Registry.freeze, Health.Registry.writeAll,
    List.map_map, List.mem_map] at h
  obtain ⟨entry, -, heq⟩ := h
  exact (Prod.mk.inj heq).2.symm

/-- No act gives health again. -/
theorem isOut_apply {s : Http.Server σ} (h : IsOut s.core.health) (a : Act) :
    IsOut (apply s a).core.health := by
  cases a with
  | advance next =>
      simp only [apply, applyCore, advanceCore]
      split <;> exact h
  | publish key status =>
      have hset := Health.Registry.set_of_frozen h.1 key status
      show IsOut (s.core.health.set key status)
      rw [hset]
      exact h
  | freeze => exact isOut_freeze s.core.health
  | _ => exact h

end Act

/-! ### A server that has just been started

A start is a list of acts as a stop is, so what is said of acts says how a server stands right after it.
-/

namespace Blueprint

/-- The acts of a start that publish health leave everything else alone. -/
theorem publishing_calm {keys : List String} {overrides : List (String × Health.Status)} {a : Act}
    (h : a ∈ publishing keys overrides) : ∃ key status, a = .publish key status := by
  simp only [publishing, List.mem_append, List.mem_map] at h
  rcases h with ⟨key, -, rfl⟩ | ⟨⟨key, status⟩, -, rfl⟩
  · exact ⟨key, .serving, rfl⟩
  · exact ⟨key, status, rfl⟩

private theorem state_publishing (s : Http.Server σ) {acts : List Act}
    (h : ∀ a ∈ acts, ∃ key status, a = .publish key status) :
    (Act.applyAll s acts).core.state = s.core.state := by
  induction acts generalizing s with
  | nil => rfl
  | cons a rest ih =>
      obtain ⟨key, status, rfl⟩ := h a (by simp)
      exact (ih (Act.apply s (.publish key status)) fun a' ha' => h a' (by simp [ha'])).trans rfl

/-- What a start leaves of the server before it. -/
theorem frame_running (b : Blueprint σ) (a : Net.SocketAddress) :
    Act.Frame b.fresh (b.running a).wire := Act.frame_applyAll _ _

theorem state_running (b : Blueprint σ) (a : Net.SocketAddress) :
    (b.running a).wire.core.state = .running := by
  simp only [running, started, startActs, Act.applyAll_append]
  simp only [Act.applyAll_cons]
  rw [show ∀ s : Http.Server σ, Act.applyAll s [] = s from fun _ => rfl, Act.state_apply,
    Act.state_apply, state_publishing _ fun _ h => publishing_calm h]
  rfl

/-- A start moves the lifecycle, notes what happens, and publishes health. -/
theorem startActs_cases {stages : List Call.Stage} {keys : List String}
    {overrides : List (String × Health.Status)} {binding : Binding} {act : Act}
    (h : act ∈ startActs stages keys overrides binding) :
    (∃ next, act = .advance next) ∨ (∃ e, act = .note e) ∨ ∃ key status, act = .publish key status := by
  cases binding with
  | failed e =>
      simp only [startActs, List.mem_cons, List.not_mem_nil, or_false] at h
      rcases h with rfl | rfl | rfl
      · exact Or.inl ⟨_, rfl⟩
      · exact Or.inr (Or.inl ⟨_, rfl⟩)
      · exact Or.inl ⟨_, rfl⟩
  | nameless e =>
      simp only [startActs, List.mem_cons, List.not_mem_nil, or_false] at h
      rcases h with rfl | rfl <;> exact Or.inl ⟨_, rfl⟩
  | bound a =>
      simp only [startActs, List.mem_append, List.mem_cons, List.not_mem_nil, or_false] at h
      rcases h with ((rfl | rfl) | h) | rfl | rfl
      · exact Or.inl ⟨_, rfl⟩
      · exact Or.inr (Or.inl ⟨_, rfl⟩)
      · exact Or.inr (Or.inr (publishing_calm h))
      · exact Or.inl ⟨_, rfl⟩
      · exact Or.inr (Or.inl ⟨_, rfl⟩)

/-- What only other acts than those of a start change is as it was before. -/
theorem kept_running {α : Type} {f : Http.Server σ → α} {x : Act}
    (hkept : ∀ s act, act ≠ x → f (Act.apply s act) = f s) (hadvance : ∀ next, .advance next ≠ x)
    (hnote : ∀ e, .note e ≠ x) (hpublish : ∀ key status, .publish key status ≠ x) (b : Blueprint σ)
    (a : Net.SocketAddress) : f (b.running a).wire = f b.fresh := by
  refine Act.kept_applyAll hkept b.fresh ?_
  intro act h
  rcases startActs_cases h with ⟨next, rfl⟩ | ⟨e, rfl⟩ | ⟨key, status, rfl⟩
  · exact hadvance next
  · exact hnote e
  · exact hpublish key status

theorem signals_running (b : Blueprint σ) (a : Net.SocketAddress) :
    (b.running a).wire.draining = .new ∧ (b.running a).wire.core.cancel = .new :=
  ⟨kept_running (f := Http.Server.draining) (x := .drain) (fun s _ h => Act.draining_apply s h) nofun
      nofun nofun b a,
    kept_running (f := fun s => s.core.cancel) (x := .cancel) (fun s _ h => Act.cancel_apply s h) nofun
      nofun nofun b a⟩

/-- A start either fails, or the server runs. -/
theorem start_ok {b : Blueprint σ} {m : Net.Machine} {address : String} {r : Running σ} :
    b.start m address = .ok r ↔ ∃ a, bind m address = .bound a ∧ r = b.running a := by
  unfold start
  cases h : bind m address with
  | failed e => simp
  | nameless e => simp
  | bound a => simp [eq_comm]

/-- A server for trials, whose backend takes this long for every computation. -/
def trial (stages : List Call.Stage) (delay grace : Duration) : Blueprint Unit where
  core := .new stages ⟨.ofSecs 30, false⟩ (Backend.stub [] delay) () .empty
  limit := 0
  healthKeys := []
  overrides := []
  graceMargin := grace

/-- A call that such a server answers: it asks for the prediction of an empty chunk. -/
def errand : Http.Request :=
  ⟨"POST", ⟨"/softgrep.Model/Predict", none⟩, [("content-type", "application/json".toUTF8.toList)],
    ["\x7b\x7d".toUTF8.toList]⟩

/-- Where servers for trials run. -/
def home : Net.SocketAddress := ⟨.v4 [127, 0, 0, 1], 50051⟩

end Blueprint

/-! ### Runs -/

namespace Tasks

theorem run_cons (t : Tasks σ) (u : Turn) (rest : List Turn) :
    t.run (u :: rest) = (t.step u).run rest := rfl

theorem run_append (t : Tasks σ) (xs ys : List Turn) : t.run (xs ++ ys) = (t.run xs).run ys :=
  List.foldl_append ..

/-- A run in two parts, the first of which ends with a given turn. -/
theorem run_split (t : Tasks σ) (before : List Turn) (u : Turn) (after : List Turn) :
    t.run (before ++ u :: after) = (t.run (before ++ [u])).run after := by
  rw [← run_append, List.append_assoc]
  rfl

theorem follows_cons {allowed : Tasks σ → Turn → Bool} {t : Tasks σ} {u : Turn} {rest : List Turn} :
    follows allowed t (u :: rest) = true ↔
      allowed t u = true ∧ follows allowed (t.step u) rest = true := by
  simp [follows]

theorem follows_append {allowed : Tasks σ → Turn → Bool} {t : Tasks σ} {xs ys : List Turn} :
    follows allowed t (xs ++ ys) = true ↔
      follows allowed t xs = true ∧ follows allowed (t.run xs) ys = true := by
  induction xs generalizing t with
  | nil => simp [follows, run]
  | cons u rest ih => rw [List.cons_append, follows_cons, follows_cons, ih, and_assoc, run_cons]

/-- What every turn keeps, every run keeps. -/
theorem run_keeps {P : Tasks σ → Prop} (h : ∀ t u, P t → P (t.step u)) {t : Tasks σ} (ht : P t)
    (turns : List Turn) : P (t.run turns) := by
  induction turns generalizing t with
  | nil => exact ht
  | cons u rest ih => exact ih (h t u ht)

/-- What every allowed turn keeps, every run of allowed turns keeps. -/
theorem follows_keeps {allowed : Tasks σ → Turn → Bool} {P : Tasks σ → Prop}
    (h : ∀ t u, P t → allowed t u = true → P (t.step u)) {t : Tasks σ} (ht : P t)
    {turns : List Turn} (hf : follows allowed t turns = true) : P (t.run turns) := by
  induction turns generalizing t with
  | nil => exact ht
  | cons u rest ih =>
      obtain ⟨hu, hrest⟩ := follows_cons.mp hf
      exact ih (h t u ht hu) hrest

theorem follows_mono {p q : Tasks σ → Turn → Bool} (h : ∀ t u, p t u = true → q t u = true)
    {t : Tasks σ} {turns : List Turn} (hf : follows p t turns = true) : follows q t turns = true := by
  induction turns generalizing t with
  | nil => rfl
  | cons u rest ih =>
      obtain ⟨hu, hrest⟩ := follows_cons.mp hf
      exact follows_cons.mpr ⟨h t u hu, ih hrest⟩

/-! ### The supervisor's turns -/

theorem wake_of_step {t : Tasks σ} {exitFirst : Bool} {acts : List Act} {stage : Stage}
    (htodo : t.todo = []) (hstep : t.stage.step t.grace (t.sight exitFirst) = some (acts, stage)) :
    t.wake exitFirst =
      { t with
        stage
        request := none
        todo := acts
        taken := t.taken.or ((t.sight exitFirst).cue.map (t.now, ·))
        letGo := if .close ∈ acts then some (t.sight exitFirst).closing else t.letGo } := by
  simp only [wake, htodo, hstep]

theorem wake_cases (t : Tasks σ) (exitFirst : Bool) :
    t.wake exitFirst = t ∨
      ∃ acts stage, t.todo = [] ∧ t.stage.step t.grace (t.sight exitFirst) = some (acts, stage) ∧
        t.wake exitFirst =
          { t with
            stage
            request := none
            todo := acts
            taken := t.taken.or ((t.sight exitFirst).cue.map (t.now, ·))
            letGo := if .close ∈ acts then some (t.sight exitFirst).closing else t.letGo } := by
  cases htodo : t.todo with
  | cons a rest => exact Or.inl (by simp only [wake, htodo])
  | nil =>
      cases hstep : t.stage.step t.grace (t.sight exitFirst) with
      | none => exact Or.inl (by simp only [wake, htodo, hstep])
      | some next => exact Or.inr ⟨next.1, next.2, rfl, rfl, wake_of_step htodo hstep⟩

theorem wire_wake (t : Tasks σ) (exitFirst : Bool) : (t.wake exitFirst).wire = t.wire := by
  rcases wake_cases t exitFirst with h | ⟨acts, stage, -, -, h⟩ <;> rw [h]

theorem answers_wake (t : Tasks σ) (exitFirst : Bool) : (t.wake exitFirst).answers = t.answers := by
  rcases wake_cases t exitFirst with h | ⟨acts, stage, -, -, h⟩ <;> rw [h]

theorem act_cases (t : Tasks σ) :
    (t.todo = [] ∧ t.act = t) ∨
      ∃ a rest, t.todo = a :: rest ∧
        t.act =
          { t with wire := Act.apply t.wire a, todo := rest, done := t.done ++ [(t.now, a)] } := by
  cases h : t.todo with
  | nil => exact Or.inl ⟨rfl, by simp only [act, h]⟩
  | cons a rest => exact Or.inr ⟨a, rest, rfl, by simp only [act, h]⟩

/-! ### The turns of others

Requests, callers, writers of the registry and the clock have no part in a stop.  `Beside` says once what
they leave alone, so that an invariant about a stop needs no case for each of them.
-/

/-- What nobody but the supervisor changes. -/
structure Beside (t t' : Tasks σ) : Prop where
  grace : t'.grace = t.grace
  stage : t'.stage = t.stage
  todo : t'.todo = t.todo
  taken : t'.taken = t.taken
  letGo : t'.letGo = t.letGo
  done : t'.done = t.done
  state : t'.wire.core.state = t.wire.core.state
  draining : t'.wire.draining = t.wire.draining
  cancel : t'.wire.core.cancel = t.wire.core.cancel
  health : t.wire.core.health.frozen = true → t'.wire.core.health = t.wire.core.health
  stages : t'.wire.core.stages = t.wire.core.stages
  handler : t'.wire.core.handler = t.wire.core.handler
  backend : t'.wire.core.backend = t.wire.core.backend

/-- A turn that only changes requests. -/
theorem beside_of_same {t t' : Tasks σ} (hs : t.wire.Same t'.wire) (grace : t'.grace = t.grace)
    (stage : t'.stage = t.stage) (todo : t'.todo = t.todo) (taken : t'.taken = t.taken)
    (letGo : t'.letGo = t.letGo) (done : t'.done = t.done) : Beside t t' where
  grace := grace
  stage := stage
  todo := todo
  taken := taken
  letGo := letGo
  done := done
  state := hs.core.state
  draining := hs.draining
  cancel := hs.core.cancel
  health := fun _ => hs.core.health
  stages := hs.core.stages
  handler := hs.core.handler
  backend := hs.core.backend

private theorem same_note (r : Running σ) (e : Log.Event) : r.wire.Same (r.note e).wire :=
  ⟨rfl, rfl, Call.Core.same_logAll _ _⟩

/-- What becomes of a request that is handed on: the supervisor takes it, ignores it, or is gone. -/
theorem hand_cases (r : Running σ) (drain : Duration) :
    (r.stage = .serving ∧ r.hand drain = { r with request := some drain }) ∨
      (r.stage ≠ .serving ∧ r.hand drain = r) ∨
      (r.stage ≠ .serving ∧ ∃ e, r.hand drain = r.note e) := by
  unfold Running.hand
  split
  · rename_i h
    exact Or.inl ⟨h, rfl⟩
  · rename_i h
    exact Or.inr (Or.inr ⟨by simp [h], _, rfl⟩)
  · rename_i h
    exact Or.inr (Or.inr ⟨by simp [h], _, rfl⟩)
  all_goals
    rename_i h
    exact Or.inr (Or.inl ⟨by simp [h], rfl⟩)

/-- What is left behind by whoever does nothing to a server but write a line, if that. -/
structure Jots (t t' : Tasks σ) : Prop where
  wire : t'.wire = t.wire ∨ ∃ e, t'.wire = Act.apply t.wire (.note e)
  beside : Beside t t'
  answers : t'.answers = t.answers
  endedAt : t'.endedAt = t.endedAt

/-- What lines make no difference to is left as it was. -/
theorem Jots.kept {α : Type} {f : Http.Server σ → α} {t t' : Tasks σ} (h : Jots t t')
    (hf : ∀ e, f (Act.apply t.wire (.note e)) = f t.wire) : f t'.wire = f t.wire := by
  rcases h.wire with heq | ⟨e, heq⟩ <;> rw [heq]
  exact hf e

private theorem Jots.same {t t' : Tasks σ} (h : Jots t t') : t.wire.Same t'.wire := by
  rcases h.wire with heq | ⟨e, heq⟩ <;> rw [heq]
  · exact .refl _
  · exact same_note t.toRunning e

/-- Whoever asks for a stop too late writes that down. -/
theorem jots_ask (t : Tasks σ) (drain : Duration) : Jots t (t.ask drain) := by
  simp only [ask, Running.claim]
  cases t.requested with
  | true =>
      exact ⟨Or.inr ⟨_, rfl⟩, beside_of_same (same_note t.toRunning _) rfl rfl rfl rfl rfl rfl, rfl, rfl⟩
  | false => exact ⟨Or.inl rfl, beside_of_same (.refl _) rfl rfl rfl rfl rfl rfl, rfl, rfl⟩

/-- Whoever hands a request on and finds the supervisor gone writes that down. -/
theorem jots_send (t : Tasks σ) : Jots t t.send := by
  unfold send
  split
  · exact ⟨Or.inl rfl, beside_of_same (.refl _) rfl rfl rfl rfl rfl rfl, rfl, rfl⟩
  · rcases hand_cases t.toRunning _ with ⟨-, h⟩ | ⟨-, h⟩ | ⟨-, e, h⟩ <;> rw [h]
    · exact ⟨Or.inl rfl, beside_of_same (.refl _) rfl rfl rfl rfl rfl rfl, rfl, rfl⟩
    · exact ⟨Or.inl rfl, beside_of_same (.refl _) rfl rfl rfl rfl rfl rfl, rfl, rfl⟩
    · exact ⟨Or.inr ⟨e, rfl⟩, beside_of_same (same_note t.toRunning e) rfl rfl rfl rfl rfl rfl, rfl, rfl⟩
  · exact ⟨Or.inl rfl, beside_of_same (.refl _) rfl rfl rfl rfl rfl rfl, rfl, rfl⟩

/-- A turn that is not the supervisor's. -/
def IsOther (u : Turn) : Prop := (∀ exitFirst, u ≠ .wake exitFirst) ∧ u ≠ .act

theorem beside_step (t : Tasks σ) {u : Turn} (h : IsOther u) : Beside t (t.step u) := by
  cases u with
  | receive r =>
      exact beside_of_same (Http.Server.same_receive t.wire r) rfl rfl rfl rfl rfl rfl
  | look id => exact beside_of_same (Http.Server.same_look t.wire id) rfl rfl rfl rfl rfl rfl
  | leave id => exact beside_of_same (Http.Server.same_abort t.wire id) rfl rfl rfl rfl rfl rfl
  | pass time => exact ⟨rfl, rfl, rfl, rfl, rfl, rfl, rfl, rfl, rfl, fun _ => rfl, rfl, rfl, rfl⟩
  | publish key status =>
      exact ⟨rfl, rfl, rfl, rfl, rfl, rfl, rfl, rfl, rfl,
        fun hf => Health.Registry.set_of_frozen hf key status, rfl, rfl, rfl⟩
  | publishAll status =>
      exact ⟨rfl, rfl, rfl, rfl, rfl, rfl, rfl, rfl, rfl,
        fun hf => Health.Registry.setAll_of_frozen hf status, rfl, rfl, rfl⟩
  | note e => exact beside_of_same (same_note t.toRunning e) rfl rfl rfl rfl rfl rfl
  | trigger drain => exact (jots_ask t drain).beside
  | send => exact (jots_send t).beside
  | retain => exact beside_of_same (.refl _) rfl rfl rfl rfl rfl rfl
  | release => exact beside_of_same (.refl _) rfl rfl rfl rfl rfl rfl
  | finish => exact beside_of_same (.refl _) rfl rfl rfl rfl rfl rfl
  | wake exitFirst => exact absurd rfl (h.1 exitFirst)
  | act => exact absurd rfl h.2

/-- Whose turn it is. -/
theorem turn_cases (u : Turn) : (∃ exitFirst, u = .wake exitFirst) ∨ u = .act ∨ IsOther u := by
  cases u with
  | wake exitFirst => exact Or.inl ⟨exitFirst, rfl⟩
  | act => exact Or.inr (Or.inl rfl)
  | _ => exact Or.inr (Or.inr ⟨fun _ hc => (by cases hc), fun hc => (by cases hc)⟩)

/-! ### The clock and the transport -/

theorem now_act (t : Tasks σ) : t.act.now = t.now := by
  rcases act_cases t with ⟨-, h⟩ | ⟨a, rest, -, h⟩ <;> rw [h]
  exact (Act.frame_apply t.wire a).now

theorem endedAt_act (t : Tasks σ) : t.act.endedAt = t.endedAt := by
  rcases act_cases t with ⟨-, h⟩ | ⟨a, rest, -, h⟩ <;> rw [h]

theorem now_wake (t : Tasks σ) (exitFirst : Bool) : (t.wake exitFirst).now = t.now := by
  show (t.wake exitFirst).wire.core.now = t.wire.core.now
  rw [wire_wake]

theorem endedAt_wake (t : Tasks σ) (exitFirst : Bool) :
    (t.wake exitFirst).endedAt = t.endedAt := by
  rcases wake_cases t exitFirst with h | ⟨acts, stage, -, -, h⟩ <;> rw [h]

/-- Only the passing of time moves the clock, and only the end of the transport ends it. -/
theorem clock_cases (t : Tasks σ) (u : Turn) :
    (∃ time, u = .pass time) ∨ u = .finish ∨
      ((t.step u).now = t.now ∧ (t.step u).endedAt = t.endedAt) := by
  cases u with
  | pass time => exact Or.inl ⟨time, rfl⟩
  | finish => exact Or.inr (Or.inl rfl)
  | receive r => exact Or.inr (Or.inr ⟨(Http.Server.same_receive t.wire r).core.now, rfl⟩)
  | look id => exact Or.inr (Or.inr ⟨(Http.Server.same_look t.wire id).core.now, rfl⟩)
  | leave id => exact Or.inr (Or.inr ⟨(Http.Server.same_abort t.wire id).core.now, rfl⟩)
  | wake exitFirst => exact Or.inr (Or.inr ⟨now_wake t exitFirst, endedAt_wake t exitFirst⟩)
  | act => exact Or.inr (Or.inr ⟨now_act t, endedAt_act t⟩)
  | trigger drain =>
      have hjots := jots_ask t drain
      exact Or.inr (Or.inr ⟨hjots.same.core.now, hjots.endedAt⟩)
  | send => exact Or.inr (Or.inr ⟨(jots_send t).same.core.now, (jots_send t).endedAt⟩)
  | publish key status => exact Or.inr (Or.inr ⟨rfl, rfl⟩)
  | publishAll status => exact Or.inr (Or.inr ⟨rfl, rfl⟩)
  | note e => exact Or.inr (Or.inr ⟨rfl, rfl⟩)
  | retain => exact Or.inr (Or.inr ⟨rfl, rfl⟩)
  | release => exact Or.inr (Or.inr ⟨rfl, rfl⟩)

end Tasks

end EmbedServer.Lifecycle
