/-
Whoever asks about health cannot tell what else goes on.

A server with a history and a server with nothing but the questions in it stay together: they have the
same registry, the same clock and the same signal that no more calls are taken, and the exchanges of the
second are those of the questions in the first.  `Shadows` says so.  An event that is no question leaves
all of that alone, but every event is followed by a look at all requests, and a stream could tell from
it that something has happened.  It cannot, because it rests: whatever there was to tell at this moment
has been told when the event before was over.

So two histories with the same questions come to the same for those who ask, because both come to what
the questions alone come to.
-/
import EmbedServer.Backend.Simple
import EmbedServer.Http.Inquiry
import EmbedServer.Proofs.Http.Settling

namespace EmbedServer.Http

variable {σ : Type}

/-! ### The exchanges of the questions

The second server has fewer exchanges, so a request has another number there: its rank among the
questions.
-/

private theorem rank_cons (b : Bool) (asks : List Bool) (i : Nat) :
    rank (b :: asks) (i + 1) = (if b then 1 else 0) + rank asks i := by
  cases b <;> simp [rank, List.take_succ_cons, Nat.add_comm]

private theorem told_append {asks asks' : List Bool} {es es' : List (Exchange σ)}
    (h : asks.length = es.length) :
    told (asks ++ asks') (es ++ es') = told asks es ++ told asks' es' := by
  induction asks generalizing es with
  | nil =>
      obtain rfl : es = [] := List.eq_nil_of_length_eq_zero h.symm
      rfl
  | cons b asks ih =>
      cases es with
      | nil => simp at h
      | cons e es =>
          have hrest := ih (Nat.succ.inj h)
          cases b with
          | true => simp [told, hrest]
          | false => simp [told, hrest]

private theorem getElem?_told {asks : List Bool} {es : List (Exchange σ)} {i : Nat}
    (h : asks[i]? = some true) : (told asks es)[rank asks i]? = es[i]? := by
  induction asks generalizing es i with
  | nil => simp at h
  | cons b asks ih =>
      cases es with
      | nil => simp [told]
      | cons e es =>
          cases i with
          | zero =>
              obtain rfl : b = true := by simpa using h
              simp [told, rank]
          | succ i =>
              have hrest := @ih es i (by simpa using h)
              rw [rank_cons]
              cases b with
              | true => simpa [told, Nat.add_comm 1] using hrest
              | false => simpa [told] using hrest

private theorem told_set {asks : List Bool} {es : List (Exchange σ)} {i : Nat} (h : asks[i]? = some true)
    (e : Exchange σ) : told asks (es.set i e) = (told asks es).set (rank asks i) e := by
  induction asks generalizing es i with
  | nil => simp at h
  | cons b asks ih =>
      cases es with
      | nil => simp [told]
      | cons x es =>
          cases i with
          | zero =>
              obtain rfl : b = true := by simpa using h
              simp [told, rank]
          | succ i =>
              have hrest := @ih es i (by simpa using h)
              rw [rank_cons]
              cases b with
              | true => simpa [told, Nat.add_comm 1] using hrest
              | false => simpa [told] using hrest

/-- Nobody who asks is told what becomes of another request. -/
theorem told_set_other {asks : List Bool} {es : List (Exchange σ)} {i : Nat}
    (h : asks[i]? ≠ some true) (e : Exchange σ) : told asks (es.set i e) = told asks es := by
  induction asks generalizing es i with
  | nil => simp [told]
  | cons b asks ih =>
      cases es with
      | nil => simp
      | cons x es =>
          cases i with
          | zero =>
              obtain rfl : b = false := by simpa using h
              simp [told]
          | succ i =>
              have hrest := @ih es i (by simpa using h)
              cases b with
              | true => simpa [told] using hrest
              | false => simpa [told] using hrest

/-- What becomes of each exchange of a question becomes of all of them. -/
theorem told_map {asks : List Bool} {es es' : List (Exchange σ)} (hlength : es'.length = es.length)
    {f : Exchange σ → Exchange σ}
    (h : ∀ (i : Nat) (e : Exchange σ), asks[i]? = some true → es[i]? = some e → es'[i]? = some (f e)) :
    told asks es' = (told asks es).map f := by
  induction asks generalizing es es' with
  | nil => simp [told]
  | cons b asks ih =>
      cases es with
      | nil =>
          obtain rfl : es' = [] := List.eq_nil_of_length_eq_zero hlength
          simp [told]
      | cons e es =>
          cases es' with
          | nil => simp at hlength
          | cons e' es' =>
              have hrest := @ih es es' (by simpa using hlength)
                fun i x hi hx => by simpa using h (i + 1) x (by simpa using hi) (by simpa using hx)
              cases b with
              | true =>
                  have hhead : e' = f e := by simpa using h 0 e rfl rfl
                  simp [told, hrest, hhead]
              | false => simpa [told] using hrest

namespace Server

/-! ### Questions -/

/-- A question is answered at once, from the registry. -/
theorem take_check {c : Call.Core σ} (hwatch : ∀ t ∈ c.stages, t.Watches) (context : Call.Context)
    (q : Call.HealthQuery) :
    ∃ c' after, c.take context (.check q) =
      (c', .done after (.ok (.health ⟨c.health.get q.service⟩))) := by
  have hwraps := Call.compose_wraps hwatch (Call.dispatch c.state c.health) context (.check q)
  have hleave : Call.Returns (Call.dispatch c.state c.health context (.check q)).leave fun g _ => g :=
    fun _ _ => ⟨rfl, fun _ => rfl⟩
  have hreached : (c.service context (.check q)).reached =
      .answered (.ok (.health ⟨c.health.get q.service⟩)) := hwraps.reached
  let elapsed : Duration := ⟨(c.applyAll (c.service context (.check q)).effects).now - c.now⟩
  have houtcome := (hwraps.leave hleave elapsed (.ok (.health ⟨c.health.get q.service⟩))).1
  rw [Call.Core.take_answered c context (.check q) hreached]
  exact ⟨_, _, Prod.ext rfl (congrArg (Call.Progress.done _) houtcome)⟩

/-- What a server makes of a question depends on the registry only. -/
theorem read_question {s s' : Server σ} (hlevel : Level s s') (hlimit : s'.limit = s.limit)
    {r : Request} (hr : r.asksHealth = true) :
    s'.read r = s.read r ∧ ∀ request, s.read r = .call request → ∃ q, request = .check q := by
  simp only [Request.asksHealth, Option.any_eq_true] at hr
  obtain ⟨route, hroute, htells⟩ := hr
  have hcalls : ∀ route : Route, route.tellsHealth = true →
      s'.readAt r route = s.readAt r route ∧
        ∀ request, s.readAt r route = .call request → ∃ q, request = .check q := by
    intro route htells
    cases route with
    | predict => cases htells
    | metrics => cases htells
    | check =>
        refine ⟨by simp only [readAt, hlimit], ?_⟩
        intro request hread
        simp only [readAt, readCall] at hread
        split at hread
        · exact ⟨_, (Reading.call.inj hread).symm⟩
        · cases hread
    | watch =>
        refine ⟨by simp only [readAt], ?_⟩
        intro request hread
        simp only [readAt] at hread
        split at hread <;> cases hread
    | probeAll =>
        refine ⟨by simp only [readAt, hlevel.health], ?_⟩
        intro request hread
        cases hread
    | probe part =>
        refine ⟨by simp only [readAt, hlevel.health], ?_⟩
        intro request hread
        simp only [readAt] at hread
        split at hread <;> cases hread
  obtain ⟨hread, hcheck⟩ := hcalls route htells
  simp only [read, hroute, hlimit]
  split
  · exact ⟨rfl, fun request h => by cases h⟩
  · split
    · exact ⟨hread, hcheck⟩
    · exact ⟨rfl, fun request h => by cases h⟩

/-- The exchange that a request opens which is answered at once. -/
theorem receive_opens (s : Server σ) (r : Request) :
    let e : Exchange σ := ⟨r.method == "HEAD", .complete, none, ""⟩
    let add := fun response => s.exchanges ++ [s.respond e response]
    (∀ response, s.read r = .respond response → (s.receive r).exchanges = add response) ∧
      (∀ method why, s.read r = .refuse method why →
        (s.receive r).exchanges = add (.ofError ⟨.invalidArgument, why.message⟩)) ∧
      ∀ request core after o, s.read r = .call request →
        s.core.take ⟨request.method, r.metadata⟩ request = (core, .done after o) →
          (s.receive r).exchanges = add (responseTo request o) := by
  refine ⟨?_, ?_, ?_⟩
  · intro response h
    cases hcontent : response.content <;> simp [receive, h, hcontent]
  · intro method why h
    have hlevel : Level s { s with core := s.core.applyAll (refusalEffects method why) } :=
      Same.level ⟨rfl, rfl, Call.Core.same_applyAll _ _⟩
    simp only [receive, h, hlevel.respond]
  · intro request core after o h htake
    have hsame := Call.Core.same_take s.core ⟨request.method, r.metadata⟩ request
    rw [htake] at hsame
    have hlevel : Level s { s with core } := Same.level ⟨rfl, rfl, hsame⟩
    simp only [receive, h, htake, hlevel.respond]

/-- The exchange that a question opens. -/
theorem receive_question {s s' : Server σ} (hlevel : Level s s') (hlimit : s'.limit = s.limit)
    (hwatch : ∀ t ∈ s.core.stages, t.Watches) (hwatch' : ∀ t ∈ s'.core.stages, t.Watches)
    {r : Request} (hr : r.asksHealth = true) :
    ∃ e, (s.receive r).exchanges = s.exchanges ++ [e] ∧
      (s'.receive r).exchanges = s'.exchanges ++ [e] ∧ e.pending? = none := by
  obtain ⟨hread, hcheck⟩ := read_question hlevel hlimit hr
  obtain ⟨hrespond, hrefuse, hcall⟩ := receive_opens s r
  obtain ⟨hrespond', hrefuse', hcall'⟩ := receive_opens s' r
  simp only [hlevel.respond, hread] at hrespond' hrefuse' hcall'
  cases h : s.read r with
  | respond response => exact ⟨_, hrespond _ h, hrespond' _ h, pending?_respond s _ _⟩
  | refuse method why => exact ⟨_, hrefuse _ _ h, hrefuse' _ _ h, pending?_respond s _ _⟩
  | call request =>
      obtain ⟨q, rfl⟩ := hcheck request h
      obtain ⟨core, after, htake⟩ := take_check hwatch ⟨_, r.metadata⟩ q
      obtain ⟨core', after', htake'⟩ := take_check hwatch' ⟨_, r.metadata⟩ q
      rw [hlevel.health] at htake'
      exact ⟨_, hcall _ _ _ _ h htake, hcall' _ _ _ _ h htake', pending?_respond s _ _⟩

/-- The exchange of a caller who goes away, if no call waits in it. -/
def Exchange.gone (e : Exchange σ) : Exchange σ :=
  match e.phase with
  | .following .. => { e with phase := .dropped }
  | .waiting .. | .complete | .dropped => e

theorem abort_idle {s : Server σ} {i : Nat} {e : Exchange σ} (he : s.exchanges[i]? = some e)
    (hidle : e.pending? = none) : (s.abort i).exchanges = s.exchanges.set i (Exchange.gone e) := by
  have hself : s.exchanges = s.exchanges.set i e := by
    obtain ⟨hi, rfl⟩ := List.getElem?_eq_some_iff.mp he
    exact (List.set_getElem_self hi).symm
  cases hphase : e.phase with
  | waiting request p => simp [Exchange.pending?, hphase] at hidle
  | following f heard => simp only [Server.abort, he, hphase, put, Exchange.gone]
  | complete => simpa only [Server.abort, he, hphase, Exchange.gone] using hself
  | dropped => simpa only [Server.abort, he, hphase, Exchange.gone] using hself

/-! ### A history and its questions

An event is a question for both servers or something for the first one alone.  In the second case the
first server still looks at all requests, and the invariant must survive that look.
-/

/-- A server, and one that has been asked the questions only. -/
structure Shadows (asks : List Bool) (s s₀ : Server σ) : Prop where
  level : Level s s₀
  limit : s₀.limit = s.limit
  watches : ∀ t ∈ s.core.stages, t.Watches
  watches₀ : ∀ t ∈ s₀.core.stages, t.Watches
  length : asks.length = s.exchanges.length
  exchanges : s₀.exchanges = told asks s.exchanges
  /-- No question waits for a computation. -/
  idle : ∀ e ∈ s₀.exchanges, e.pending? = none

namespace Shadows

variable {asks asks' : List Bool} {s s' s₀ s₀' : Server σ}

/-- Both servers go on, and so do the exchanges of the questions. -/
theorem go (h : Shadows asks s s₀) (hlevel : Level s' s₀') (hlimit : s₀'.limit = s'.limit)
    (hstages : s'.core.stages = s.core.stages) (hstages₀ : s₀'.core.stages = s₀.core.stages)
    (hlength : asks'.length = s'.exchanges.length) (hexchanges : s₀'.exchanges = told asks' s'.exchanges)
    (hidle : ∀ e ∈ s₀'.exchanges, e.pending? = none) : Shadows asks' s' s₀' :=
  ⟨hlevel, hlimit, hstages ▸ h.watches, hstages₀ ▸ h.watches₀, hlength, hexchanges, hidle⟩

/-- The first server alone goes on, with something that no question is about. -/
theorem aside (h : Shadows asks s s₀) (hsame : Level s s') (hlimit : s'.limit = s.limit)
    (hstages : s'.core.stages = s.core.stages) (hlength : asks'.length = s'.exchanges.length)
    (hexchanges : told asks' s'.exchanges = told asks s.exchanges) : Shadows asks' s' s₀ :=
  h.go (hsame.symm.trans h.level) (h.limit.trans hlimit.symm) hstages rfl hlength
    (h.exchanges.trans hexchanges.symm) h.idle

/-- Both servers go on with something that is no exchange's. -/
theorem along (h : Shadows asks s s₀) (hlevel : Level s' s₀') (hlimit : s'.limit = s.limit)
    (hlimit₀ : s₀'.limit = s₀.limit) (hstages : s'.core.stages = s.core.stages)
    (hstages₀ : s₀'.core.stages = s₀.core.stages) (hexchanges : s'.exchanges = s.exchanges)
    (hexchanges₀ : s₀'.exchanges = s₀.exchanges) : Shadows asks s' s₀' := by
  refine h.go hlevel (hlimit₀.trans (h.limit.trans hlimit.symm)) hstages hstages₀ ?_ ?_ ?_
  · rw [hexchanges]
    exact h.length
  · rw [hexchanges, hexchanges₀]
    exact h.exchanges
  · rw [hexchanges₀]
    exact h.idle

/-- What a look at all requests makes of the exchanges of the questions. -/
theorem told_settle (h : Shadows asks s s₀) :
    told asks s.settle.exchanges = s₀.exchanges.map s₀.refreshed := by
  rw [h.exchanges]
  refine told_map s.length_settle ?_
  intro i e hi he
  have hmem : e ∈ s₀.exchanges := by
    rw [h.exchanges]
    exact List.mem_of_getElem? ((getElem?_told hi).trans he)
  rw [getElem?_settle_idle he (h.idle e hmem), h.level.refreshed]

private theorem settle_shadow (h : Shadows asks s s₀) :
    s₀.settle.exchanges = s₀.exchanges.map s₀.refreshed := by
  refine List.ext_getElem? ?_
  intro i
  rw [List.getElem?_map]
  cases he : s₀.exchanges[i]? with
  | none =>
      have hlength := s₀.length_settle
      exact List.getElem?_eq_none (hlength ▸ List.getElem?_eq_none_iff.mp he)
  | some e => exact getElem?_settle_idle he (h.idle e (List.mem_of_getElem? he))

/-- After a question both look at their requests, and then all questions rest. -/
theorem settle (h : Shadows asks s s₀) :
    Shadows asks s.settle s₀.settle ∧ ∀ e ∈ s₀.settle.exchanges, s₀.settle.Rests e := by
  have hsame := same_settle s
  have hsame₀ := same_settle s₀
  refine ⟨h.go (hsame.level.symm.trans (h.level.trans hsame₀.level)) ?_ hsame.core.stages
    hsame₀.core.stages ?_ ?_ ?_, ?_⟩
  · rw [hsame₀.limit, hsame.limit, h.limit]
  · rw [length_settle, h.length]
  · rw [h.settle_shadow, h.told_settle]
  · rw [h.settle_shadow]
    intro e he
    obtain ⟨x, hx, rfl⟩ := List.mem_map.mp he
    exact pending?_refreshed s₀ (h.idle x hx)
  · rw [h.settle_shadow]
    intro e he
    obtain ⟨x, hx, rfl⟩ := List.mem_map.mp he
    unfold Rests
    rw [hsame₀.level.refreshed]
    exact rests_refreshed s₀ x

/-- After anything else the first looks at its requests, and finds nothing new for the questions. -/
theorem settle_aside (h : Shadows asks s s₀) (hrests : ∀ e ∈ s₀.exchanges, s₀.Rests e) :
    Shadows asks s.settle s₀ := by
  have hsame := same_settle s
  refine h.aside hsame.level hsame.limit hsame.core.stages ?_ ?_
  · rw [length_settle, h.length]
  · rw [h.told_settle, ← h.exchanges]
    exact (List.map_congr_left hrests).trans (List.map_id _)

/-! ### One event -/

theorem receive (h : Shadows asks s s₀) {r : Request} (hr : r.asksHealth = true) :
    Shadows (asks ++ [true]) (s.receive r) (s₀.receive r) := by
  obtain ⟨e, he, he₀, hidle⟩ := receive_question h.level h.limit h.watches h.watches₀ hr
  have hsame := same_receive s r
  have hsame₀ := same_receive s₀ r
  refine h.go (hsame.level.symm.trans (h.level.trans hsame₀.level)) ?_ hsame.core.stages
    hsame₀.core.stages ?_ ?_ ?_
  · rw [hsame₀.limit, hsame.limit, h.limit]
  · rw [he, List.length_append, List.length_append, h.length]
    rfl
  · rw [he, he₀, told_append h.length, h.exchanges]
    rfl
  · rw [he₀]
    intro x hx
    rcases List.mem_append.mp hx with hx | hx
    · exact h.idle x hx
    · rw [List.mem_singleton.mp hx]
      exact hidle

theorem receive_aside (h : Shadows asks s s₀) (r : Request) :
    Shadows (asks ++ [false]) (s.receive r) s₀ := by
  obtain ⟨e, he, hsame, -⟩ := receive_cases s r
  refine h.aside hsame.level hsame.limit hsame.core.stages ?_ ?_
  · rw [he, List.length_append, List.length_append, h.length]
    rfl
  · rw [he, told_append h.length]
    exact List.append_nil _

theorem abort (h : Shadows asks s s₀) {id : Nat} (hid : asks[id]? = some true) :
    Shadows asks (s.abort id) (s₀.abort (rank asks id)) := by
  have hsame := same_abort s id
  have hsame₀ := same_abort s₀ (rank asks id)
  have hat : s₀.exchanges[rank asks id]? = s.exchanges[id]? := by
    rw [h.exchanges]
    exact getElem?_told hid
  have hidle : ∀ i, s₀.pending? i = none := by
    intro i
    cases hi : s₀.exchanges[i]? with
    | none => simp [pending?, hi]
    | some x => simpa [pending?, hi] using h.idle x (List.mem_of_getElem? hi)
  refine h.go (hsame.level.symm.trans (h.level.trans hsame₀.level)) ?_ hsame.core.stages
    hsame₀.core.stages ?_ ?_ ?_
  · rw [hsame₀.limit, hsame.limit, h.limit]
  · rw [length_abort, h.length]
  · cases he : s.exchanges[id]? with
    | none =>
        have hnone : s₀.abort (rank asks id) = s₀ := by simp only [Server.abort, hat, he]
        have hnone' : s.abort id = s := by simp only [Server.abort, he]
        rw [hnone, hnone', h.exchanges]
    | some e =>
        have he₀ := hat.trans he
        have hover := h.idle e (List.mem_of_getElem? he₀)
        rw [abort_idle he hover, abort_idle he₀ hover, told_set hid, h.exchanges]
  · intro e he
    obtain ⟨i, hi⟩ := List.mem_iff_getElem?.mp he
    simpa [pending?, hi] using pending?_abort_over (hidle i) (rank asks id)

private theorem abort_aside (h : Shadows asks s s₀) {id : Nat} (hid : asks[id]? ≠ some true) :
    Shadows asks (s.abort id) s₀ := by
  have hsame := same_abort s id
  refine h.aside hsame.level hsame.limit hsame.core.stages ?_ ?_
  · rw [length_abort, h.length]
  · rcases abort_cases s id with ⟨-, habort⟩ | ⟨e, -, -, habort⟩ | ⟨e, request, p, -, -, habort⟩ <;>
      rw [habort]
    · exact told_set_other hid _
    · exact told_set_other hid _

/-- An event that is a question is one for both servers, and one that is none is for the first alone. -/
theorem meet (h : Shadows asks s s₀) (e : Event) :
    Shadows (asks ++ e.asks) (s.meet e) ((question? asks e).elim s₀ s₀.meet) := by
  -- Events without a request do not change who asks.
  have hquiet : ∀ {s' s₀' : Server σ}, Shadows asks s' s₀' → Shadows (asks ++ []) s' s₀' := by
    intro s' s₀' h'
    rwa [List.append_nil]
  cases e with
  | request r =>
      by_cases hr : r.asksHealth = true
      · have hquestion : question? asks (.request r) = some (.request r) := by simp [question?, hr]
        rw [hquestion]
        simpa only [Event.asks, hr, Option.elim_some, Server.meet] using h.receive hr
      · have hnone : question? asks (.request r) = none := by simp [question?, hr]
        rw [hnone]
        simpa only [Event.asks, Bool.eq_false_iff.mpr hr, Option.elim_none, Server.meet] using
          h.receive_aside r
  | leave id =>
      by_cases hid : asks[id]? = some true
      · have hquestion : question? asks (.leave id) = some (.leave (rank asks id)) := by
          simp [question?, hid]
        rw [hquestion]
        exact hquiet (h.abort hid)
      · have hnone : question? asks (.leave id) = none := by simp [question?, hid]
        rw [hnone]
        exact hquiet (h.abort_aside hid)
  | cancel => exact hquiet (h.aside ⟨rfl, rfl, rfl⟩ rfl rfl h.length rfl)
  | pass time =>
      have hnow := congrArg (· + time.nanos) h.level.now
      exact hquiet (h.along ⟨h.level.health, hnow, h.level.draining⟩ rfl rfl rfl rfl rfl rfl)
  | enter state =>
      exact hquiet (h.along ⟨h.level.health, h.level.now, h.level.draining⟩ rfl rfl rfl rfl rfl rfl)
  | publish key status =>
      have hhealth := congrArg (·.set key status) h.level.health
      exact hquiet (h.along ⟨hhealth, h.level.now, h.level.draining⟩ rfl rfl rfl rfl rfl rfl)
  | publishAll status =>
      have hhealth := congrArg (·.setAll status) h.level.health
      exact hquiet (h.along ⟨hhealth, h.level.now, h.level.draining⟩ rfl rfl rfl rfl rfl rfl)
  | freeze =>
      have hhealth := congrArg Health.Registry.freeze h.level.health
      exact hquiet (h.along ⟨hhealth, h.level.now, h.level.draining⟩ rfl rfl rfl rfl rfl rfl)
  | drain =>
      have hdraining := congrArg (fun d : Cancellation.Signal => d.fire.2) h.level.draining
      exact hquiet (h.along ⟨h.level.health, h.level.now, hdraining⟩ rfl rfl rfl rfl rfl rfl)

end Shadows

/-- The questions in a history, asked of the second server, keep it with the first. -/
theorem shadows_run {asks : List Bool} {s s₀ : Server σ} (h : Shadows asks s s₀)
    (hrests : ∀ e ∈ s₀.exchanges, s₀.Rests e) (history : List Event) :
    Shadows (asks ++ asked history) (s.run history) (s₀.run (questions asks history)) := by
  induction history generalizing asks s s₀ with
  | nil => simpa [asked, run, questions] using h
  | cons e rest ih =>
      have hasked : asks ++ asked (e :: rest) = (asks ++ e.asks) ++ asked rest := by
        simp [asked]
      have hmeet := h.meet e
      rw [hasked, questions]
      cases hq : question? asks e with
      | none =>
          rw [hq] at hmeet
          exact ih (hmeet.settle_aside hrests) hrests
      | some e₀ =>
          rw [hq] at hmeet
          obtain ⟨hsettled, hrests'⟩ := hmeet.settle
          exact ih hsettled hrests'

/-- **Nothing but the questions and what they are about makes a difference to those who ask**: with the
stages that the server brings along, two histories with the same questions come to the same exchanges
with those who ask, and to the same registry. -/
theorem questions_undisturbed (core : Call.Core σ) (limit : Limit)
    (hstages : ∀ t ∈ core.stages, t = .logging ∨ t = .metrics) {history history' : List Event}
    (h : questions [] history = questions [] history') :
    let s := (Server.new core limit).run history
    let s' := (Server.new core limit).run history'
    told (asked history) s.exchanges = told (asked history') s'.exchanges ∧
      s.core.health = s'.core.health := by
  intro s s'
  have hwatch : ∀ t ∈ core.stages, t.Watches := fun t ht => Call.watches_of_shipped (hstages t ht)
  have hnew : Shadows [] (Server.new core limit) (Server.new core limit) :=
    ⟨⟨rfl, rfl, rfl⟩, rfl, hwatch, hwatch, rfl, rfl, fun _ he => by cases he⟩
  have hs := shadows_run hnew (fun _ he => by cases he) history
  have hs' := shadows_run hnew (fun _ he => by cases he) history'
  rw [h] at hs
  exact ⟨hs.exchanges.symm.trans hs'.exchanges, hs.level.health.symm.trans hs'.level.health⟩

/-- A stream, a question and a probe, by themselves and among calls that are refused, cancelled, left
alone and given up; the stream hears of both changes and shows a sign of life in between. -/
theorem questions_undisturbed_among_calls :
    let posted (path body : String) : Request :=
      ⟨"POST", ⟨path, none⟩, [("content-type", Utf8.encode "application/json")], [Utf8.encode body]⟩
    let watch : Request := ⟨"GET", ⟨Call.watchPath, some "service=a"⟩, [], []⟩
    let check := posted Call.checkPath (Call.HealthQuery.toJson ⟨"a"⟩).render
    let probe : Request := ⟨"GET", ⟨"/health/a", none⟩, [], []⟩
    let predict := posted Call.predictPath (Call.Chunk.ofContent "x").toJson.render
    let core := Call.Core.new [.logging, .metrics] ⟨.ofSecs 30, true⟩ (Backend.stub [] (.ofMillis 60)) ()
      .empty
    let history : List Event := [.publish "a" .serving, .request watch, .pass (.ofSecs 20),
      .request check, .publish "a" .notServing, .leave 0, .request probe]
    let history' : List Event := [.request predict, .publish "a" .serving, .request watch,
      .request (posted Call.predictPath ""), .pass (.ofSecs 20), .request check, .request predict,
      .cancel, .publish "a" .notServing, .leave 1, .request predict, .leave 5, .request probe]
    let s := (Server.new core 0).run history
    let s' := (Server.new core 0).run history'
    (∀ t ∈ core.stages, t = .logging ∨ t = .metrics) ∧
      questions [] history = questions [] history' ∧ s'.exchanges.length = 7 ∧
      (told (asked history') s'.exchanges).map Exchange.sent =
        [Follow.event .serving ++ Follow.comment ++ Follow.event .notServing,
          (Call.HealthReport.toJson ⟨.serving⟩).render, (Call.HealthReport.toJson ⟨.notServing⟩).render] ∧
      told (asked history) s.exchanges = told (asked history') s'.exchanges ∧
      s.core.health = s'.core.health := by
  intro posted watch check probe predict core history history' s s'
  have hstages : ∀ t ∈ core.stages, t = .logging ∨ t = .metrics := by
    intro t ht
    simpa [core, Call.Core.new] using ht
  have hquestions : questions [] history = questions [] history' := by decide +kernel
  exact ⟨hstages, hquestions, by decide +kernel, by decide +kernel,
    questions_undisturbed core 0 hstages hquestions⟩

end Server

end EmbedServer.Http
