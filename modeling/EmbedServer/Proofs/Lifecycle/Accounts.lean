/-
What the counters show, whatever has gone on.

Every request has an account of its own: what has been counted for it, and what there is to show for it.
One that passes the calls by counts nothing and carries no error.  A body that is refused counts one
error and carries it.  A call counts one request, one computation if it was admitted, and one error and
one cancellation if that is how it ends and what it says; while it waits it owes all of these.  The
accounts add up, so the counters are settled by the requests that have come and by the responses that
have gone out, in whatever order all this went on.
-/
import EmbedServer.Cli.Program
import EmbedServer.Proofs.Http.Carried
import EmbedServer.Proofs.Lifecycle.Traffic

namespace EmbedServer.Http

open Call (Core Counts Outcome failure? isCancelled)
open Lifecycle (Act Happening)
open Metrics (Collector Sample)

variable {σ : Type}

/-! ### Accounts

A sum over all requests is awkward to keep while one of them changes.  So an account is a list of samples
that belongs to a list of exchanges: accounts can be put side by side, and one can take the place of
another.
-/

/-- Samples and exchanges that come from the same requests: so many of them had a body that was decoded,
and so many were admitted to a computation. -/
structure Balanced (samples : List Sample) (exchanges : List (Exchange σ)) (decoded admitted : Nat) :
    Prop where
  requests : samples.countP Sample.isRequest + exchanges.countP (·.head.isNone) = decoded
  backend : samples.countP Sample.isBackend + exchanges.countP (·.head.isNone) = admitted
  errors : samples.countP Sample.isError = exchanges.countP (·.error?.isSome)
  cancelled : samples.countP Sample.isCancelled = exchanges.countP Exchange.saysCancelled

namespace Balanced

variable {samples new : List Sample} {es es' : List (Exchange σ)} {e e' : Exchange σ} {d d' a a' : Nat}

theorem nil : Balanced [] ([] : List (Exchange σ)) 0 0 := ⟨rfl, rfl, rfl, rfl⟩

theorem append (h : Balanced samples es d a) (h' : Balanced new es' d' a') :
    Balanced (samples ++ new) (es ++ es') (d + d') (a + a') := by
  obtain ⟨hr, hb, he, hc⟩ := h
  obtain ⟨hr', hb', he', hc'⟩ := h'
  constructor <;> simp only [List.countP_append] <;> omega

/-- One exchange takes the place of another one with the same account but for what is new. -/
theorem set {i : Nat} (h : Balanced samples es d a) (hi : es[i]? = some e) (hold : Balanced [] [e] d' a')
    (hnew : Balanced new [e'] d' a') : Balanced (samples ++ new) (es.set i e') d a := by
  obtain ⟨hlt, hget⟩ := List.getElem?_eq_some_iff.mp hi
  obtain ⟨before, after, hes, -, hset⟩ : ∃ before after, es = before ++ es[i] :: after ∧
    before.length = i ∧ es.set i e' = before ++ e' :: after := List.exists_of_set hlt
  obtain ⟨hr, hb, he, hc⟩ := h
  obtain ⟨hr₁, hb₁, he₁, hc₁⟩ := hold
  obtain ⟨hr₂, hb₂, he₂, hc₂⟩ := hnew
  rw [hget] at hes
  rw [hes] at hr hb he hc
  rw [hset]
  simp only [List.countP_append, List.countP_cons, List.countP_nil] at *
  constructor <;> simp only [List.countP_append, List.countP_cons] <;> omega

/-- The account of a call that waits, or that waited until its caller went away. -/
theorem waiting (h : e.head = none) (hnew : new = [] ∨ new = [.started] ∨ new = [.finished]) :
    Balanced new [e] 1 1 := by
  have herror : e.error? = none := by rw [Exchange.error?, h]; rfl
  rcases hnew with rfl | rfl | rfl <;>
    constructor <;> simp [h, herror, Exchange.saysCancelled, Sample.isRequest, Sample.isBackend,
      Sample.isError, Sample.isCancelled]

/-- The account of a call that has been answered. -/
theorem answered {computed : Bool} {o : Outcome} (hcounts : Counts new computed o)
    (hhead : e.head.isNone = false) (herror : e.error? = failure? o) :
    Balanced new [e] 1 computed.toNat := by
  have hcancelled : e.saysCancelled = isCancelled o := by
    rw [Exchange.saysCancelled, herror]
    cases o <;> rfl
  have hone : ∀ b : Bool, b.toNat = if b then 1 else 0 := by decide
  constructor <;> simp [hcounts.requests, hcounts.backend, hcounts.errors, hcounts.cancelled, hhead,
    hcancelled, herror, List.countP_cons, hone]

/-- The account of a body that was refused. -/
theorem refused {err : Call.Error} (hhead : e.head.isNone = false) (herror : e.error? = some err)
    (hcode : err.code ≠ .cancelled) : Balanced [.error] [e] 0 0 := by
  constructor <;> simp [hhead, herror, hcode, Exchange.saysCancelled, Sample.isRequest,
    Sample.isBackend, Sample.isError, Sample.isCancelled]

/-- The account of a response that carries no error. -/
theorem plain (hhead : e.head.isNone = false) (herror : e.error? = none) : Balanced [] [e] 0 0 := by
  constructor <;> simp [hhead, herror, Exchange.saysCancelled]

/-- The account of a stream, whatever it has said so far. -/
theorem stream {status : Status} {headers : List (String × String)}
    (hhead : e.head = some (status, headers)) (h : status.isSuccess = true) : Balanced [] [e] 0 0 :=
  plain (by rw [hhead]; rfl) (error?_of_success hhead h)

end Balanced

/-- An exchange that is still open: a call that waits has no response yet and is admitted, and a stream
that goes on has begun with a success. -/
structure Exchange.Sound (e : Exchange σ) : Prop where
  waits : ∀ {request p}, e.phase = .waiting request p →
    e.head = none ∧ e.headOnly = false ∧ p.Admitted ∧ ∃ chunk, request = .predict chunk
  follows : ∀ {f heard}, e.phase = .following f heard →
    ∃ status headers, e.head = some (status, headers) ∧ status.isSuccess = true

/-- No call waits, and a stream that goes on has begun with this head. -/
theorem Exchange.Sound.of_head {e : Exchange σ} {status : Status} {headers : List (String × String)}
    (hpend : e.pending? = none) (hhead : e.head = some (status, headers))
    (hstream : ∀ f heard, e.phase = .following f heard → status.isSuccess = true) : e.Sound where
  waits := by
    intro request p hphase
    simp only [Exchange.pending?, hphase] at hpend
    cases hpend
  follows := fun {f heard} hphase => ⟨status, headers, hhead, hstream f heard hphase⟩

theorem Exchange.Sound.of_over {e : Exchange σ} (h : e.phase = .complete ∨ e.phase = .dropped) :
    e.Sound := by
  constructor <;> intro x y hphase <;> rcases h with h | h <;> rw [h] at hphase <;> cases hphase

/-- The exchange of a request that has just come. -/
def Exchange.arrived (r : Request) : Exchange σ := ⟨r.method == "HEAD", .complete, none, ""⟩

theorem Exchange.arrived_full {r : Request} (h : r.method = "POST") :
    (Exchange.arrived r : Exchange σ).headOnly = false := by
  show (r.method == "HEAD") = false
  rw [h]
  decide

namespace Server

/-- The accounts of a server: what its collector holds and its exchanges show is balanced. -/
structure Accounts (s : Server σ) (decoded admitted : Nat) : Prop where
  stages : s.core.stages = Cli.stages
  counted : s.core.handler.counted = true
  recorded : ∃ samples, s.core.metrics = Collector.empty.recordAll samples ∧
    Balanced samples s.exchanges decoded admitted
  sound : ∀ e ∈ s.exchanges, e.Sound

namespace Accounts

variable {s s' : Server σ} {e e' : Exchange σ} {new : List Sample} {d d' a a' : Nat}

/-- More samples and other exchanges, which are still balanced. -/
theorem grow (h : Accounts s d a) (hsame : s.core.Same s'.core)
    (hmetrics : s'.core.metrics = s.core.metrics.recordAll new)
    (hbalanced : ∀ {samples}, Balanced samples s.exchanges d a →
      Balanced (samples ++ new) s'.exchanges d' a')
    (hsound : ∀ x ∈ s'.exchanges, x.Sound) : Accounts s' d' a' := by
  obtain ⟨samples, hrecorded, hbefore⟩ := h.recorded
  refine ⟨hsame.stages.trans h.stages, hsame.handler ▸ h.counted, ⟨samples ++ new, ?_, ?_⟩, hsound⟩
  · rw [hmetrics, hrecorded, Collector.recordAll_append]
  · exact hbalanced hbefore

/-- One more exchange, with an account of its own. -/
theorem add (h : Accounts s d a) (hsame : s.core.Same s'.core)
    (hexchanges : s'.exchanges = s.exchanges ++ [e])
    (hmetrics : s'.core.metrics = s.core.metrics.recordAll new) (haccount : Balanced new [e] d' a')
    (hsound : e.Sound) : Accounts s' (d + d') (a + a') := by
  refine h.grow hsame hmetrics (fun hbefore => hexchanges ▸ hbefore.append haccount) ?_
  intro x hx
  rw [hexchanges, List.mem_append, List.mem_singleton] at hx
  rcases hx with hx | rfl
  · exact h.sound x hx
  · exact hsound

/-- One exchange goes on, and its account with it. -/
theorem replace {i : Nat} (h : Accounts s d a) (hsame : s.core.Same s'.core)
    (hi : s.exchanges[i]? = some e) (hexchanges : s'.exchanges = s.exchanges.set i e')
    (hmetrics : s'.core.metrics = s.core.metrics.recordAll new) (hold : Balanced [] [e] d' a')
    (hnew : Balanced new [e'] d' a') (hsound : e'.Sound) : Accounts s' d a := by
  refine h.grow hsame hmetrics (fun hbefore => hexchanges ▸ hbefore.set hi hold hnew) ?_
  intro x hx
  rw [hexchanges] at hx
  rcases List.mem_or_eq_of_mem_set hx with hx | rfl
  · exact h.sound x hx
  · exact hsound

theorem keep (h : Accounts s d a) (hstages : s'.core.stages = s.core.stages)
    (hhandler : s'.core.handler = s.core.handler) (hmetrics : s'.core.metrics = s.core.metrics)
    (hexchanges : s'.exchanges = s.exchanges) : Accounts s' d a :=
  ⟨hstages.trans h.stages, hhandler ▸ h.counted, hmetrics ▸ hexchanges ▸ h.recorded,
    hexchanges ▸ h.sound⟩

end Accounts

/-- A server with the stages of the program around calls, whose computations are counted where the calls
are and nothing is counted yet.  Everything else may be as it likes. -/
def counting (core : Core σ) (timeout : Duration) (limit : Limit) : Server σ :=
  .new { core with stages := Cli.stages, handler := ⟨timeout, true⟩, metrics := .empty } limit

/-- The program's server is one before its start, and its tasks only make traffic of it. -/
theorem goes_program (settings : Settings) (backend : Backend.Packed) (log : List Log.Event)
    (a : Net.SocketAddress) (turns : List Lifecycle.Turn) :
    (counting (Cli.blueprint settings backend log).fresh.core settings.backend.timeout
        settings.server.maxBodySize).Goes
      (((Cli.blueprint settings backend log).running a).tasks.run turns).wire :=
  goes_tasks (Cli.blueprint settings backend log) a turns

private theorem accounts_counting (core : Core σ) (timeout : Duration) (limit : Limit) :
    Accounts (counting core timeout limit) 0 0 :=
  ⟨rfl, rfl, ⟨[], rfl, .nil⟩, fun _ h => by cases h⟩

/-! ### What requests do -/

/-- What a request that passes the calls by does: its response is added, and nothing is counted. -/
theorem receive_aside {s : Server σ} {r : Request} {response : Response}
    (h : s.read r = .respond response) :
    (s.receive r).core.metrics = s.core.metrics ∧
      (s.receive r).exchanges = s.exchanges ++ [s.respond (.arrived r) response] := by
  cases hcontent : response.content <;> constructor <;> simp only [receive, h, hcontent] <;> rfl

theorem Accounts.receive_aside {s : Server σ} {d a : Nat} (h : s.Accounts d a) {r : Request}
    {response : Response} (hread : s.read r = .respond response) (hplain : response.isPlain = true) :
    (s.receive r).Accounts d a := by
  obtain ⟨hmetrics, hexchanges⟩ := Server.receive_aside hread
  obtain ⟨⟨status, headers⟩, hhead, herror, hstream⟩ := s.respond_plain (.arrived r) hplain
  exact h.add (s.same_receive r).core hexchanges (hmetrics.trans rfl)
    (.plain (by rw [hhead]; rfl) herror)
    (.of_head (pending?_respond s _ response) hhead hstream)

/-- A body that is refused counts one error, and carries it. -/
theorem Accounts.receive_refused {s : Server σ} {d a : Nat} (h : s.Accounts d a) {r : Request}
    (hpost : r.method = "POST") {method : String} {why : Rejection}
    (hread : s.read r = .refuse method why) : (s.receive r).Accounts d a := by
  have hexchanges : (s.receive r).exchanges = s.exchanges ++
      [(Exchange.arrived r).answered (.check ⟨""⟩) (.error ⟨.invalidArgument, why.message⟩)] := by
    simp only [Server.receive, hread, respond_error]
    rfl
  have hmetrics : (s.receive r).core.metrics = s.core.metrics.recordAll [.error] := by
    simp only [Server.receive, hread]
    exact s.core.metrics_applyAll _
  exact h.add (s.same_receive r).core hexchanges hmetrics
    (.refused rfl (error?_answered (Exchange.arrived_full hpost) trivial) fun hcode => by cases hcode)
    (.of_over (Or.inl rfl))

theorem Accounts.receive_call {s : Server σ} {d a : Nat} (h : s.Accounts d a) {r : Request}
    (hpost : r.method = "POST") {request : Call.Request} (hread : s.read r = .call request) :
    (s.receive r).Accounts (d + 1) (a + (s.core.admits request).toNat) := by
  have hsame := (s.same_receive r).core
  have hfull : (Exchange.arrived r : Exchange σ).headOnly = false := Exchange.arrived_full hpost
  rcases s.core.take_counts h.stages h.counted ⟨request.method, r.metadata⟩ request with
    ⟨c, after, o, samples, htake, hfits, hmetrics, hcounts⟩ |
    ⟨c, p, chunk, htake, rfl, hadmits, hmetrics, hp⟩
  · have hreceive : s.receive r =
        { s with core := c, exchanges := s.exchanges ++ [(Exchange.arrived r).answered request o] } := by
      simp only [Server.receive, hread, htake, respond_call]
      rfl
    rw [hreceive] at hsame ⊢
    exact h.add hsame rfl hmetrics (.answered hcounts rfl (error?_answered hfull hfits))
      (.of_over (Or.inl rfl))
  · have hreceive : s.receive r =
        { s with
          core := c
          exchanges := s.exchanges ++
            [{ (Exchange.arrived r : Exchange σ) with phase := .waiting (.predict chunk) p }] } := by
      simp only [Server.receive, hread, htake]
      rfl
    rw [hreceive] at hsame ⊢
    rw [hadmits]
    refine h.add hsame rfl hmetrics (.waiting rfl (Or.inr (Or.inl rfl))) ⟨?_, ?_⟩
    · intro request p' hphase
      obtain ⟨rfl, rfl⟩ := Phase.waiting.inj hphase
      exact ⟨rfl, hfull, hp, chunk, rfl⟩
    · intro f heard hphase
      cases hphase

/-- **A request opens an account, whatever becomes of it.** -/
theorem Accounts.receive {s : Server σ} {d a : Nat} (h : s.Accounts d a) (r : Request) :
    (s.receive r).Accounts (d + (s.decodes (.meet (.request r))).toNat)
      (a + (s.admits (.meet (.request r))).toNat) := by
  rcases s.read_cases r with ⟨haside, response, hread, hplain⟩ |
    ⟨-, hpost, ⟨request, hread, hdecoded⟩ | ⟨⟨method, why, hread⟩, hdecoded⟩⟩
  · have hdecoded : s.decoded? r = none := if_pos haside
    rw [decodes, admits, hdecoded]
    exact h.receive_aside hread hplain
  · rw [decodes, admits, hdecoded]
    exact h.receive_call hpost hread
  · rw [decodes, admits, hdecoded]
    exact h.receive_refused hpost hread

/-- **A look at a request settles its account, or leaves it as it is.** -/
theorem Accounts.look {s : Server σ} {d a : Nat} (h : s.Accounts d a) (id : Nat) :
    (s.look id).Accounts d a := by
  have hsame := (s.same_look id).core
  rcases s.look_cases id with ⟨hlook, -⟩ | ⟨e, f, heard, he, hphase, hlook, -⟩ |
    ⟨e, request, p, w, c, after, o, he, hphase, hw, hpoll, -, hlook, -⟩
  · rw [hlook]
    exact h
  · obtain ⟨status, headers, hhead, hsuccess⟩ := (h.sound e (List.mem_of_getElem? he)).follows hphase
    have hhead' := (s.head_followUp e f heard).trans hhead
    rw [hlook] at hsame ⊢
    have hmetrics : s.core.metrics = s.core.metrics.recordAll [] := rfl
    exact h.replace hsame he rfl hmetrics (.stream hhead hsuccess) (.stream hhead' hsuccess)
      (.of_head (pending?_followUp s e f heard) hhead' fun _ _ _ => hsuccess)
  · -- What the call counts now is what its account has owed since it came.
    obtain ⟨hhead, hfull, hp, chunk, rfl⟩ := (h.sound e (List.mem_of_getElem? he)).waits hphase
    obtain ⟨c', after', answer, samples, hpoll', hmetrics, hcounts⟩ :=
      s.core.poll_counts h.counted hp hw
    obtain ⟨rfl, hdone⟩ := Prod.mk.inj (hpoll.symm.trans hpoll')
    obtain ⟨-, rfl⟩ := Call.Progress.done.inj hdone
    rw [hlook] at hsame ⊢
    exact h.replace hsame he rfl hmetrics (.waiting hhead (Or.inl rfl))
      (.answered hcounts rfl (error?_answered hfull (Core.fits_outcomeOf chunk answer)))
      (.of_over (Or.inl rfl))

/-- A caller that goes away leaves the account of its request as it is. -/
theorem Accounts.abort {s : Server σ} {d a : Nat} (h : s.Accounts d a) (id : Nat) :
    (s.abort id).Accounts d a := by
  have hsame := (s.same_abort id).core
  cases he : s.exchanges[id]? with
  | none => simpa only [Server.abort, he] using h
  | some e =>
      have hsound := h.sound e (List.mem_of_getElem? he)
      cases hphase : e.phase with
      | complete => simpa only [Server.abort, he, hphase] using h
      | dropped => simpa only [Server.abort, he, hphase] using h
      | following f heard =>
          obtain ⟨status, headers, hhead, hsuccess⟩ := hsound.follows hphase
          simp only [Server.abort, he, hphase] at hsame ⊢
          have hmetrics : s.core.metrics = s.core.metrics.recordAll [] := rfl
          exact h.replace hsame he rfl hmetrics (.stream hhead hsuccess) (.stream hhead hsuccess)
            (.of_over (Or.inr rfl))
      | waiting request p =>
          -- The call is no longer in flight, but what it owes is never counted.
          obtain ⟨hhead, -⟩ := hsound.waits hphase
          simp only [Server.abort, he, hphase] at hsame ⊢
          have hmetrics : s.core.abandon.metrics = s.core.metrics.recordAll [.finished] := rfl
          exact h.replace hsame he rfl hmetrics (.waiting hhead (Or.inl rfl))
            (.waiting hhead (Or.inr (Or.inr rfl))) (.of_over (Or.inr rfl))

/-! ### Whatever goes on -/

/-- What goes on keeps the accounts of all requests, and opens one for a request that comes. -/
theorem Accounts.undergo {s : Server σ} {d a : Nat} (h : s.Accounts d a) (x : Happening) :
    (s.undergo x).Accounts (d + (s.decodes x).toNat) (a + (s.admits x).toNat) := by
  cases x with
  | look id => exact h.look id
  | act act =>
      have hframe := Act.frame_apply s act
      exact h.keep hframe.stages hframe.handler hframe.metrics hframe.exchanges
  | meet event =>
      cases event with
      | request r => exact h.receive r
      | leave id => exact h.abort id
      | pass time => exact h.keep rfl rfl rfl rfl
      | enter state => exact h.keep rfl rfl rfl rfl
      | publish key status => exact h.keep rfl rfl rfl rfl
      | publishAll status => exact h.keep rfl rfl rfl rfl
      | freeze => exact h.keep rfl rfl rfl rfl
      | drain => exact h.keep rfl rfl rfl rfl
      | cancel => exact h.keep rfl rfl rfl rfl

theorem Accounts.undergoAll {s : Server σ} {d a : Nat} (h : s.Accounts d a)
    (traffic : List Happening) :
    (s.undergoAll traffic).Accounts (d + s.tally decodes traffic) (a + s.tally admits traffic) := by
  induction traffic generalizing s d a with
  | nil => exact h
  | cons x rest ih =>
      have hrest := ih (h.undergo x)
      rw [Nat.add_assoc, Nat.add_assoc] at hrest
      exact hrest

/-- The counters are settled by what has come to a server and by the responses that have gone out. -/
structure Settled (s : Server σ) (traffic : List Happening) : Prop where
  requests : (s.undergoAll traffic).core.metrics.requests = (s.tally decodes traffic).toUInt64
  observations : (s.undergoAll traffic).core.metrics.requestLatency.count =
    (s.undergoAll traffic).core.metrics.requests
  errors : (s.undergoAll traffic).core.metrics.errors =
    ((s.undergoAll traffic).exchanges.countP (·.error?.isSome)).toUInt64
  computations : (s.undergoAll traffic).core.metrics.backendLatency.count =
    (s.tally admits traffic).toUInt64
  cancelled : (s.undergoAll traffic).core.metrics.cancelled =
    ((s.undergoAll traffic).exchanges.countP Exchange.saysCancelled).toUInt64

/-- A request counts nothing: not when it comes, and not when it is looked at or its caller goes away,
whatever has gone on since. -/
def Uncounted (s : Server σ) (r : Request) : Prop :=
  (s.receive r).core.metrics = s.core.metrics ∧
    ∀ traffic, let later := (s.receive r).undergoAll traffic
      (later.look s.exchanges.length).core.metrics = later.core.metrics ∧
      (later.abort s.exchanges.length).core.metrics = later.core.metrics

theorem Accounts.settled {s : Server σ} {traffic : List Happening}
    (h : (s.undergoAll traffic).Accounts (s.tally decodes traffic) (s.tally admits traffic))
    (hend : ∀ e ∈ (s.undergoAll traffic).exchanges, e.head.isSome = true) : s.Settled traffic := by
  obtain ⟨samples, hmetrics, hbalanced⟩ := h.recorded
  have hnone : (s.undergoAll traffic).exchanges.countP (·.head.isNone) = 0 := by
    refine List.countP_eq_zero.mpr ?_
    intro e he
    simp [← Option.not_isSome, hend e he]
  have hrequests := hbalanced.requests
  have hbackend := hbalanced.backend
  rw [hnone, Nat.add_zero] at hrequests hbackend
  have hzero : ∀ n : UInt64, 0 + n = n := UInt64.zero_add
  constructor <;> rw [hmetrics]
  · rw [Collector.requests_recordAll, hrequests]
    exact hzero _
  · rw [Collector.requests_recordAll, Collector.observations_recordAll]
    rfl
  · rw [Collector.errors_recordAll, hbalanced.errors]
    exact hzero _
  · rw [Collector.computations_recordAll, hbackend]
    exact hzero _
  · rw [Collector.cancelled_recordAll, hbalanced.cancelled]
    exact hzero _

private theorem uncounted_of_passesBy {s : Server σ} {r : Request} (h : s.passesBy r = true) :
    s.Uncounted r := by
  rcases s.read_cases r with ⟨-, response, hread, -⟩ | ⟨hnot, -⟩
  · obtain ⟨hmetrics, hexchanges⟩ := receive_aside hread
    refine ⟨hmetrics, ?_⟩
    intro traffic later
    have hlt : s.exchanges.length < (s.receive r).exchanges.length := by
      rw [hexchanges, List.length_append]
      exact Nat.lt_succ_self _
    have hover : (s.receive r).pending? s.exchanges.length = none := by
      rw [pending?, hexchanges, List.getElem?_append_right (Nat.le_refl _), Nat.sub_self]
      exact pending?_respond s _ response
    have hlater := pending?_undergoAll_over hlt hover traffic
    exact ⟨metrics_look_over hlater, metrics_abort_over hlater⟩
  · rw [h] at hnot
    cases hnot

/-- **Once every request has been answered, the counters say how many bodies were decoded, how many calls
were admitted to a computation, and how many responses carry an error or say that the call was cancelled;
requests that pass the calls by count nothing.** -/
theorem counters_settled (core : Core σ) (timeout : Duration) (limit : Limit) (traffic : List Happening)
    (hend : ∀ e ∈ ((counting core timeout limit).undergoAll traffic).exchanges, e.head.isSome = true) :
    (counting core timeout limit).Settled traffic ∧
      ∀ (s : Server σ) (r : Request), s.passesBy r = true → s.Uncounted r := by
  have haccounts := (accounts_counting core timeout limit).undergoAll traffic
  rw [Nat.zero_add, Nat.zero_add] at haccounts
  exact ⟨haccounts.settled hend, fun _ _ => uncounted_of_passesBy⟩

/-- A call that is answered, a body that is refused, a method that is not taken, a call that is cancelled
and one that comes too late. -/
theorem counters_settled_mixed :
    let start : Server Unit :=
      counting (.new [] ⟨.zero, false⟩ (Backend.stub [] (.ofMillis 60)) () .empty) (.ofSecs 30) 0
    let errand := Lifecycle.Blueprint.errand
    let traffic : List Happening := [.meet (.request errand),
      .meet (.request { errand with pieces := [] }), .meet (.request { errand with method := "GET" }),
      .meet (.pass (.ofMillis 60)), .look 0, .meet (.request errand), .meet .cancel, .look 3,
      .act (.advance .stopping), .meet (.request errand)]
    let s := start.undergoAll traffic
    (∀ e ∈ s.exchanges, e.head.isSome = true) ∧ start.passesBy { errand with method := "GET" } = true ∧
      start.tally decodes traffic = 3 ∧ start.tally admits traffic = 2 ∧
      s.core.metrics.errors = 3 ∧ s.core.metrics.cancelled = 1 ∧
      start.Settled traffic ∧ start.Uncounted { errand with method := "GET" } := by
  intro start errand traffic s
  have hend : ∀ e ∈ s.exchanges, e.head.isSome = true := by decide +kernel
  have hget : start.passesBy { errand with method := "GET" } = true := by decide +kernel
  obtain ⟨hsettled, huncounted⟩ := counters_settled
    (.new [] ⟨.zero, false⟩ (Backend.stub [] (.ofMillis 60)) () .empty) (.ofSecs 30) 0 traffic hend
  exact ⟨hend, hget, by decide +kernel, by decide +kernel, by decide +kernel, by decide +kernel,
    hsettled, huncounted start _ hget⟩

end Server

end EmbedServer.Http
