/-
The order in which a running server gives turns is one of all orders.

`Running` does everything in an order of its own: all requests are looked at before the supervisor
is, the supervisor is never interrupted, a request for a stop is handed on at once, and the clock
jumps to the next moment at which something is due.  Whatever is done with a server in that way can
be done turn by turn.  So what is shown of every run holds of `Running` too.

The two differ in one thing.  `Running` sees the transport end in the same moment in which it is
drained, and has no turn for it.  The run has that turn right before the supervisor's.
-/
import EmbedServer.Proofs.Lifecycle.Served

namespace EmbedServer

namespace Http.Server

variable {σ : Type}

/-- Nothing is left to look at when nothing is under way. -/
theorem look_of_idle {s : Server σ} (h : s.isIdle = true) (i : Nat) : s.look i = s := by
  cases he : s.exchanges[i]? with
  | none => simp only [look, he]
  | some e =>
      have hover := List.all_eq_true.mp h e (List.mem_of_getElem? he)
      cases hp : e.phase with
      | waiting request p => simp [hp] at hover
      | following f heard => simp [hp] at hover
      | complete => simp only [look, he, hp]
      | dropped => simp only [look, he, hp]

end Http.Server

namespace Lifecycle

variable {σ : Type}

/-- The acts of a stop do not get in the way of the end of the transport. -/
theorem Act.isDrained_apply {s : Http.Server σ} (h : s.isDrained = true) (a : Act) :
    (Act.apply s a).isDrained = true := by
  simp only [Http.Server.isDrained, Bool.and_eq_true, Http.Server.isIdle] at h ⊢
  refine ⟨?_, by rw [(Act.frame_apply s a).exchanges]; exact h.2⟩
  by_cases ha : a = .drain
  · subst ha
    rfl
  · rw [Act.draining_apply s ha]
    exact h.1

theorem Act.isDrained_applyAll {s : Http.Server σ} (h : s.isDrained = true) (acts : List Act) :
    (Act.applyAll s acts).isDrained = true := by
  induction acts generalizing s with
  | nil => exact h
  | cons a rest ih => exact ih (Act.isDrained_apply h a)

/-- Whatever else makes a supervisor act, makes it act no differently. -/
theorem Stage.step_or {grace : Duration} {v : Sight} {stage : Stage} {next : List Act × Stage}
    (h : stage.step grace v = some next) (other : Option Cue) :
    stage.step grace { v with cue := v.cue.or other } = some next := by
  cases stage with
  | serving =>
      cases hcue : v.cue with
      | none => simp [step, hcue] at h
      | some cue =>
          have hsame : { v with cue := (some cue).or other } = v := by
            rw [Option.some_or, ← hcue]
          rw [hsame]
          exact h
  | _ => exact h

namespace Tasks

/-- The supervisor is not interrupted, and the transport ends only once it is drained. -/
def isPlain (t : Tasks σ) (u : Turn) : Bool := t.isWhole u && t.isServed u

/-- A server between two turns that is just this one, with nothing under way beside it. -/
structure Shows (t : Tasks σ) (r : Running σ) : Prop where
  running : t.toRunning = r
  sending : t.sending = none
  todo : t.todo = []
  ended : t.endedAt.isSome = true → t.wire.isDrained = true

/-- Some run leads to this server. -/
def Reaches (t : Tasks σ) (r : Running σ) : Prop :=
  ∃ turns, follows isPlain t turns = true ∧ Shows (t.run turns) r

variable {t : Tasks σ} {r : Running σ}

theorem Shows.reaches (h : Shows t r) : Reaches t r := ⟨[], rfl, h⟩

theorem Reaches.append {turns : List Turn} (hf : follows isPlain t turns = true)
    (h : Reaches (t.run turns) r) : Reaches t r := by
  obtain ⟨more, hf', hshows⟩ := h
  refine ⟨turns ++ more, follows_append.mpr ⟨hf, hf'⟩, ?_⟩
  rw [run_append]
  exact hshows

theorem Reaches.cons (u : Turn) (hu : t.isPlain u = true) (h : Reaches (t.step u) r) :
    Reaches t r := by
  obtain ⟨more, hf, hshows⟩ := h
  exact ⟨u :: more, follows_cons.mpr ⟨hu, hf⟩, hshows⟩

theorem Reaches.trans {r' : Running σ} (h : Reaches t r)
    (hnext : ∀ t', Shows t' r → Reaches t' r') : Reaches t r' := by
  obtain ⟨turns, hf, hshows⟩ := h
  exact .append hf (hnext _ hshows)

/-- Between two turns of the supervisor everybody else may have one. -/
theorem Shows.plain (h : Shows t r) {u : Turn} (hu : u ≠ .finish) : t.isPlain u = true := by
  have hwhole : t.isWhole u = true := by
    cases u <;> simp [isWhole, h.todo]
  have hserved : t.isServed u = true := by
    cases u with
    | finish => exact absurd rfl hu
    | _ => rfl
  simp [isPlain, hwhole, hserved]

/-! ### The requests -/

theorem Shows.looks (h : Shows t r) (ids : List Nat) :
    Reaches t { r with wire := ids.foldl Http.Server.look r.wire } := by
  induction ids generalizing t r with
  | nil => exact h.reaches
  | cons i rest ih =>
      refine .cons (.look i) (h.plain nofun) (ih (r := { r with wire := r.wire.look i }) ?_)
      refine ⟨?_, h.sending, h.todo, ?_⟩
      · rw [← h.running]
        rfl
      · intro hended
        have hdrained := h.ended hended
        show (t.wire.look i).isDrained = true
        rw [Http.Server.look_of_idle (Bool.and_eq_true_iff.mp hdrained).2]
        exact hdrained

theorem Shows.settles (h : Shows t r) : Reaches t { r with wire := r.wire.settle } :=
  h.looks r.wire.order

/-! ### The supervisor

`Running` has the supervisor wake and act in one piece.  Turn by turn that is a wake, and one turn for
every act.
-/

/-- The supervisor does all that it has decided on. -/
theorem acts_run {acts : List Act} (htodo : t.todo = acts) :
    ∃ turns, follows isPlain t turns = true ∧
      (t.run turns).toRunning = { t.toRunning with wire := Act.applyAll t.wire acts } ∧
      (t.run turns).todo = [] ∧ (t.run turns).sending = t.sending ∧
      (t.run turns).endedAt = t.endedAt := by
  induction acts generalizing t with
  | nil => exact ⟨[], rfl, rfl, htodo, rfl, rfl⟩
  | cons a rest ih =>
      have hact : t.step .act =
          { t with wire := Act.apply t.wire a, todo := rest, done := t.done ++ [(t.now, a)] } := by
        simp only [step, act, htodo]
      obtain ⟨turns, hf, hrunning, hnil, hsending, hended⟩ := ih (t := t.step .act) (by rw [hact])
      refine ⟨.act :: turns, follows_cons.mpr ⟨rfl, hf⟩, ?_, hnil, ?_, ?_⟩
      · rw [run_cons, hrunning, hact]
        rfl
      · rw [run_cons, hsending, hact]
      · rw [run_cons, hended, hact]

/-- The transport ends before the supervisor looks, if it is drained. -/
theorem Shows.ends (h : Shows t r) : ∃ turns, follows isPlain t turns = true ∧
    Shows (t.run turns) r ∧ (t.run turns).endedAt.isSome = r.wire.isDrained := by
  have hwire : t.wire.isDrained = r.wire.isDrained := by rw [← h.running]
  cases hended : t.endedAt with
  | some f =>
      refine ⟨[], rfl, h, ?_⟩
      show t.endedAt.isSome = _
      rw [← hwire, h.ended (by rw [hended]; rfl), hended]
      rfl
  | none =>
      cases hdrained : r.wire.isDrained with
      | false => exact ⟨[], rfl, h, by show t.endedAt.isSome = _; rw [hended]; rfl⟩
      | true =>
          rw [hdrained] at hwire
          refine ⟨[.finish], follows_cons.mpr ⟨?_, rfl⟩, ⟨h.running, h.sending, h.todo, fun _ => hwire⟩,
            ?_⟩
          · simp [isPlain, isWhole, isServed, h.todo, hwire]
          · show (t.endedAt.or (some t.now)).isSome = true
            rw [hended]
            rfl

theorem Shows.wakes (h : Shows t r) {acts : List Act} {stage : Stage}
    (hstep : r.stage.step r.grace r.sight = some (acts, stage)) :
    Reaches t { r with wire := Act.applyAll r.wire acts, stage, request := none } := by
  obtain ⟨before, hbefore, h', hended⟩ := h.ends
  refine .append hbefore ?_
  generalize t.run before = t' at h' hended
  have hsight : t'.stage.step t'.grace (t'.sight false) = some (acts, stage) := by
    have hor := Stage.step_or hstep (if t'.endedAt.isSome then some Cue.exited else none)
    rw [← h'.running] at hor hended
    unfold Tasks.sight
    rw [hended] at hor ⊢
    exact hor
  have hwake : t'.step (.wake false) = _ := wake_of_step h'.todo hsight
  obtain ⟨turns, hf, hrunning, hnil, hsending, hend⟩ := acts_run
    (show (t'.step (.wake false)).todo = acts by rw [hwake])
  refine .cons (.wake false) (h'.plain nofun) ⟨turns, hf, ⟨?_, ?_, hnil, ?_⟩⟩
  · rw [hrunning, hwake, ← h'.running]
  · rw [hsending, hwake]
    exact h'.sending
  · intro hsome
    rw [hend, hwake] at hsome
    have hwire : ((t'.step (.wake false)).run turns).wire = Act.applyAll t'.wire acts := by
      rw [show ((t'.step (.wake false)).run turns).wire =
        ((t'.step (.wake false)).run turns).toRunning.wire from rfl, hrunning, hwake]
    rw [hwire]
    exact Act.isDrained_applyAll (h'.ended hsome) acts

/-- The supervisor and the requests take turns. -/
theorem Shows.acts (h : Shows t r) (fuel : Nat) : Reaches t (r.act fuel) := by
  induction fuel generalizing t r with
  | zero => exact h.reaches
  | succ fuel ih =>
      cases hstep : r.stage.step r.grace r.sight with
      | none =>
          simp only [Running.act, hstep]
          exact h.reaches
      | some next =>
          simp only [Running.act, hstep]
          exact ((h.wakes hstep).trans fun _ h' => h'.settles).trans fun _ h' => ih h'

theorem Shows.settled (h : Shows t r) : Reaches t r.settle :=
  h.settles.trans fun _ h' => h'.acts 4

/-! ### The clock -/

theorem Shows.jumps (h : Shows t r) (moment : Nat) : Reaches t (r.jumpTo moment) := by
  have hpass : Shows (t.step (.pass ⟨max r.now moment - r.now⟩)) { r with
      wire := { r.wire with core := { r.wire.core with now := max r.now moment } } } := by
    refine ⟨?_, h.sending, h.todo, h.ended⟩
    obtain rfl := h.running
    have hnow : t.now + (max t.now moment - t.now) = max t.now moment := by omega
    show { t.toRunning with wire := { t.wire with core := { t.wire.core with
      now := t.now + (max t.now moment - t.now) } } } = _
    rw [hnow]
  exact .cons (.pass ⟨max r.now moment - r.now⟩) (h.plain nofun)
    (hpass.settles.trans fun _ h' => h'.acts 4)

theorem Shows.runsUntil (h : Shows t r) (p : Running σ → Bool) (fuel : Nat) :
    Reaches t (r.runUntil p fuel) := by
  induction fuel generalizing t r with
  | zero => exact h.reaches
  | succ fuel ih =>
      simp only [Running.runUntil]
      split
      · exact h.reaches
      · split
        · exact (h.jumps _).trans fun _ h' => ih h'
        · exact h.reaches

theorem Shows.awaits (h : Shows t r) (p : Running σ → Bool) : Reaches t (r.await p) :=
  h.runsUntil p r.moments

/-! ### Whoever asks for a stop -/

theorem Shows.triggers (h : Shows t r) (drain : Duration) : Reaches t (r.trigger drain).2 := by
  obtain rfl := h.running
  cases hrequested : t.requested with
  | true =>
      refine .cons (.trigger drain) (h.plain nofun) (Shows.reaches ?_)
      simp only [step, ask, Running.trigger, Running.claim, hrequested, if_true]
      exact ⟨rfl, h.sending, h.todo, h.ended⟩
  | false =>
      have hask : t.step (.trigger drain) = { t with
          requested := true, sending := some drain, outcomes := t.outcomes ++ [.initiated] } := by
        simp only [step, ask, Running.claim, hrequested]
        rfl
      refine .cons (.trigger drain) (h.plain nofun) (.cons .send ?_ (Shows.reaches ?_))
      · rw [hask]
        simp [isPlain, isWhole, isServed, h.todo]
      · have hsend : (t.step (.trigger drain)).step .send = { t with
            toRunning := { t.toRunning with requested := true }.hand drain
            sending := none, outcomes := t.outcomes ++ [.initiated] } := by
          rw [hask]
          simp only [step, send, h.todo]
        rw [hsend]
        simp only [Running.trigger, Running.claim, hrequested]
        refine ⟨rfl, rfl, h.todo, ?_⟩
        intro hended
        show ({ t.toRunning with requested := true }.hand drain).wire.isDrained = true
        have hdrained := h.ended hended
        unfold Running.hand
        split <;> exact hdrained

theorem Shows.notes (h : Shows t r) (e : Log.Event) : Reaches t (r.note e) := by
  obtain rfl := h.running
  exact .cons (.note e) (h.plain nofun) (Shows.reaches ⟨rfl, h.sending, h.todo, fun hended =>
    Act.isDrained_apply (h.ended hended) (.note e)⟩)

theorem Shows.signals (h : Shows t r) (name : String) (drain : Duration) :
    Reaches t (r.signal name drain) :=
  (h.triggers drain).trans fun _ h' => h'.notes _

theorem Shows.stops (h : Shows t r) (drain : Duration) : Reaches t (r.requestStop drain).2 := by
  simp only [Running.requestStop]
  have htriggers := h.triggers drain
  rcases hoffer : r.trigger drain with ⟨_ | _, r'⟩ <;> rw [hoffer] at htriggers
  · exact (htriggers.trans fun _ h' => h'.settled).trans fun _ h' => h'.awaits _
  · exact htriggers.trans fun _ h' => h'.settled

/-! ### Callers -/

theorem Shows.posts (h : Shows t r) (p : Http.Posting) : Reaches t (r.post p).2 := by
  simp only [Running.post]
  cases haccepts : r.accepts with
  | false => exact h.reaches
  | true =>
      cases hq : p.toRequest with
      | none => exact h.reaches
      | some q =>
          refine .cons (.receive q) (h.plain nofun)
            (Shows.settles (r := { r with wire := r.wire.receive q }) ?_)
          obtain rfl := h.running
          refine ⟨rfl, h.sending, h.todo, ?_⟩
          intro hended
          -- what has ended is drained, and takes no posting
          have hdraining := (Bool.and_eq_true_iff.mp (h.ended hended)).1
          simp [Running.accepts, hdraining] at haccepts

theorem Shows.publishes (h : Shows t r) (key : String) (status : Health.Status) :
    Reaches t { r with wire := Act.apply r.wire (.publish key status) } := by
  obtain rfl := h.running
  exact .cons (.publish key status) (h.plain nofun) (Shows.reaches ⟨rfl, h.sending, h.todo,
    fun hended => Act.isDrained_apply (h.ended hended) (.publish key status)⟩)

end Tasks

/-! ### Everything that is done with a server

`Attained` has a constructor for everything that can be done with a running server, and each of them has
been followed above.
-/

/-- What a server can be brought to. -/
inductive Attained (r₀ : Running σ) : Running σ → Prop where
  | start : Attained r₀ r₀
  | settle {r : Running σ} : Attained r₀ r → Attained r₀ r.settle
  | await {r : Running σ} (p : Running σ → Bool) : Attained r₀ r → Attained r₀ (r.await p)
  | sleep {r : Running σ} (d : Duration) : Attained r₀ r → Attained r₀ (r.sleep d)
  | trigger {r : Running σ} (drain : Duration) : Attained r₀ r → Attained r₀ (r.trigger drain).2
  | requestStop {r : Running σ} (drain : Duration) :
      Attained r₀ r → Attained r₀ (r.requestStop drain).2
  | signal {r : Running σ} (name : String) (drain : Duration) :
      Attained r₀ r → Attained r₀ (r.signal name drain)
  | retain {r : Running σ} : Attained r₀ r → Attained r₀ r.retain
  | release {r : Running σ} : Attained r₀ r → Attained r₀ r.release
  | publish {r : Running σ} (key : String) (status : Health.Status) :
      Attained r₀ r → Attained r₀ { r with wire := Act.apply r.wire (.publish key status) }
  | post {r : Running σ} (p : Http.Posting) : Attained r₀ r → Attained r₀ (r.post p).2

/-- Whatever is done with a server, some run does it turn by turn. -/
theorem Attained.reaches {r₀ r : Running σ} (h : Attained r₀ r) : Tasks.Reaches r₀.tasks r := by
  induction h with
  | start => exact Tasks.Shows.reaches ⟨rfl, rfl, rfl, nofun⟩
  | settle _ ih => exact ih.trans fun _ h => h.settled
  | await p _ ih => exact ih.trans fun _ h => h.awaits p
  | sleep d _ ih => exact (ih.trans fun _ h => h.awaits _).trans fun _ h => h.jumps _
  | trigger drain _ ih => exact ih.trans fun _ h => h.triggers drain
  | requestStop drain _ ih => exact ih.trans fun _ h => h.stops drain
  | signal name drain _ ih => exact ih.trans fun _ h => h.signals name drain
  | retain _ ih =>
      refine ih.trans fun t h => .cons .retain (h.plain nofun) (Tasks.Shows.reaches ?_)
      obtain rfl := h.running
      exact ⟨rfl, h.sending, h.todo, h.ended⟩
  | release _ ih =>
      refine ih.trans fun t h => .cons .release (h.plain nofun) (Tasks.Shows.reaches ?_)
      obtain rfl := h.running
      exact ⟨rfl, h.sending, h.todo, h.ended⟩
  | publish key status _ ih => exact ih.trans fun _ h => h.publishes key status
  | post p _ ih => exact ih.trans fun _ h => h.posts p

/-- A start that succeeds begins a run, and what is done with the server goes on with it. -/
theorem Attained.reaches_of_start {b : Blueprint σ} {m : Net.Machine} {address : String}
    {r₀ r : Running σ} (hstart : b.start m address = .ok r₀) (h : Attained r₀ r) :
    ∃ a, bind m address = .bound a ∧ Tasks.Reaches (b.running a).tasks r := by
  obtain ⟨a, hbound, rfl⟩ := Blueprint.start_ok.mp hstart
  exact ⟨a, hbound, h.reaches⟩

end Lifecycle

end EmbedServer
