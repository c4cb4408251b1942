/-
How a body is sent makes no difference, unless it is too long.

A body may be sent with its size or streamed without it.  If it is within the limit, the server reads the
same message either way, and all that is left of the difference is in the metadata of the call: stages that
do not look there see one and the same call, and the two servers go on alike for ever.

A body over the limit is refused both times, but by two who know nothing of each other.  Who looks at the
size that is declared refuses the request as too large and leaves no trace of it.  Who reads the body finds
that it does not end in time, and to him that is one more body that cannot be decoded: a wrong argument,
logged and counted as an error.
-/
import EmbedServer.Proofs.Call.Blind
import EmbedServer.Proofs.Http.Bodies

namespace EmbedServer.Http

open Call (Context)
open Lifecycle (Happening)

variable {σ : Type}

/-! ### Servers that forget the contexts of calls

The headers about the framing end up in the metadata of a call, so two servers that take the same body in
different ways are not equal.  They are equal once the calls that wait have forgotten their contexts, and
nobody is shown these any more.
-/

def Phase.bare : Phase σ → Phase σ
  | .waiting request p => .waiting request p.bare
  | phase => phase

/-- The exchange, whose call forgets its context if it waits. -/
def Exchange.bare (e : Exchange σ) : Exchange σ := { e with phase := e.phase.bare }

@[simp] theorem Exchange.bare_bare (e : Exchange σ) : e.bare.bare = e.bare := by
  obtain ⟨headOnly, phase, head, sent⟩ := e
  cases phase <;> rfl

/-- What has been sent of the answer, and whether this is all. -/
def Exchange.response (e : Exchange σ) : Option (Status × List (String × String)) × String × Bool :=
  (e.head, e.sent, e.isComplete)

theorem Exchange.response_bare (e : Exchange σ) : e.bare.response = e.response := by
  obtain ⟨headOnly, phase, head, sent⟩ := e
  cases phase <;> rfl

namespace Server

/-- The server, whose calls forget their contexts. -/
def bare (s : Server σ) : Server σ := { s with exchanges := s.exchanges.map Exchange.bare }

/-- What has been sent on every request. -/
def responses (s : Server σ) : List (Option (Status × List (String × String)) × String × Bool) :=
  s.exchanges.map Exchange.response

/-- Nobody but the calls that wait knows of their contexts. -/
theorem shown_of_bare {s s' : Server σ} (h : s'.bare = s.bare) :
    s'.core = s.core ∧ s'.responses = s.responses := by
  have hbare : ∀ s : Server σ, s.bare.responses = s.responses := by
    intro s
    simp only [responses, bare, List.map_map]
    exact List.map_congr_left fun e _ => e.response_bare
  have hcore : s'.bare.core = s.bare.core := by rw [h]
  refine ⟨hcore, ?_⟩
  rw [← hbare s', h, hbare s]

@[simp] theorem bare_bare (s : Server σ) : s.bare.bare = s.bare := by
  simp [bare]

private theorem bare_of_eq {s s' : Server σ} (h : s' = s.bare) : s'.bare = s.bare := by
  rw [h, bare_bare]

private theorem bare_put (s : Server σ) (i : Nat) (e : Exchange σ) :
    (s.bare.put i e).bare = (s.put i e).bare := by
  simp only [put, bare, List.map_set, List.map_map]
  congr 2
  exact List.map_congr_left fun e _ => e.bare_bare

/-- The server once a call has come so far that came with the latest request. -/
def opened (s : Server σ) (headOnly : Bool) (request : Call.Request) :
    Call.Core σ × Call.Progress σ → Server σ
  | (core, .done _ o) =>
    { s with
      core
      exchanges := s.exchanges ++ [Exchange.answered ⟨headOnly, .complete, none, ""⟩ request o] }
  | (core, .waiting p) =>
    { s with core, exchanges := s.exchanges ++ [⟨headOnly, .waiting request p, none, ""⟩] }

theorem receive_call {s : Server σ} {r : Request} {request : Call.Request}
    (h : s.read r = .call request) :
    s.receive r = s.opened (r.method == "HEAD") request
      (s.core.take ⟨request.method, r.metadata⟩ request) := by
  simp only [receive, h]
  rcases s.core.take ⟨request.method, r.metadata⟩ request with ⟨core, ⟨after, o⟩ | p⟩
  · simp only [respond_call]
    rfl
  · rfl

/-- A call that waits may forget its context. -/
theorem bare_opened_forgets (s : Server σ) (headOnly : Bool) (request : Call.Request)
    (x : Call.Core σ × Call.Progress σ) :
    (s.opened headOnly request (Call.Core.forgets x)).bare = (s.opened headOnly request x).bare := by
  rcases x with ⟨core, ⟨after, o⟩ | p⟩
  · rfl
  · simp only [opened, Call.Core.forgets, Call.Progress.bare, bare, List.map_append]
    rfl

/-! ### What goes on

Forgetting first and going on then comes to the same as going on first.  So the two servers never come
apart in anything that can be seen.
-/

/-- A server that forgot gets one more exchange, and forgets again. -/
theorem bare_add (s : Server σ) (core : Call.Core σ) (e : Exchange σ) :
    ({ s with core, exchanges := s.bare.exchanges ++ [e] } : Server σ).bare =
      ({ s with core, exchanges := s.exchanges ++ [e] } : Server σ).bare := by
  simp [bare]

private theorem bare_receive (s : Server σ) (r : Request) : (s.bare.receive r).bare = (s.receive r).bare := by
  have hread : s.bare.read r = s.read r := rfl
  cases h : s.read r with
  | respond response =>
      cases hcontent : response.content <;> simp only [receive, hread, h, hcontent] <;>
        exact s.bare_add _ _
  | refuse method why =>
      simp only [receive, hread, h]
      exact s.bare_add _ _
  | call request =>
      rw [receive_call h, receive_call (hread.trans h)]
      show (s.bare.opened _ _ (s.core.take _ _)).bare = _
      rcases s.core.take ⟨request.method, r.metadata⟩ request with ⟨core, ⟨after, o⟩ | p⟩
      · exact s.bare_add _ _
      · exact s.bare_add _ _

private theorem bare_look (s : Server σ) (i : Nat) : (s.bare.look i).bare = (s.look i).bare := by
  have hget : s.bare.exchanges[i]? = s.exchanges[i]?.map Exchange.bare := List.getElem?_map
  unfold look
  rw [hget]
  cases s.exchanges[i]? with
  | none => exact s.bare_bare
  | some e =>
      obtain ⟨headOnly, phase, head, sent⟩ := e
      cases phase with
      | waiting request p =>
          have hpoll : s.bare.core.poll p.bare = Call.Core.forgets (s.core.poll p) :=
            Call.Core.poll_bare _ _
          simp only [Option.map_some, Exchange.bare, Phase.bare, hpoll]
          rcases s.core.poll p with ⟨core, ⟨after, o⟩ | q⟩
          · simp only [Call.Core.forgets, Call.Progress.bare, respond_call]
            exact bare_put { s with core } i _
          · exact ({ s with core } : Server σ).bare_bare
      | following f heard => exact s.bare_put i _
      | complete => exact s.bare_bare
      | dropped => exact s.bare_bare

private theorem bare_abort (s : Server σ) (i : Nat) : (s.bare.abort i).bare = (s.abort i).bare := by
  have hget : s.bare.exchanges[i]? = s.exchanges[i]?.map Exchange.bare := List.getElem?_map
  unfold abort
  rw [hget]
  cases s.exchanges[i]? with
  | none => exact s.bare_bare
  | some e =>
      obtain ⟨headOnly, phase, head, sent⟩ := e
      cases phase with
      | waiting request p => exact bare_put { s with core := s.core.abandon } i _
      | following f heard => exact s.bare_put i _
      | complete => exact s.bare_bare
      | dropped => exact s.bare_bare

/-- Whatever goes on at a server that forgot, goes on in the same way. -/
theorem bare_undergo (s : Server σ) (x : Happening) : (s.bare.undergo x).bare = (s.undergo x).bare := by
  cases x with
  | look id => exact s.bare_look id
  | act a => exact bare_of_eq (by cases a <;> rfl)
  | meet e =>
      cases e with
      | request r => exact s.bare_receive r
      | leave id => exact s.bare_abort id
      -- Nothing else touches an exchange.
      | _ => exact bare_of_eq rfl

private theorem bare_undergoAll {s s' : Server σ} (h : s'.bare = s.bare) (traffic : List Happening) :
    (s'.undergoAll traffic).bare = (s.undergoAll traffic).bare := by
  induction traffic generalizing s s' with
  | nil => exact h
  | cons x rest ih =>
      refine ih ?_
      rw [← s'.bare_undergo x, h, s.bare_undergo x]

/-- Two requests that read the same and differ in what no stage looks at. -/
theorem bare_receive_blind {s : Server σ} {names : List String}
    (hblind : ∀ t ∈ s.core.stages, t.Blind names) {r r' : Request} (hmethod : r'.method = r.method)
    (hread : s.read r' = s.read r) (hmetadata : r'.metadata.besides names = r.metadata.besides names) :
    (s.receive r').bare = (s.receive r).bare := by
  cases h : s.read r with
  | respond response => simp only [receive, hread, h, hmethod]
  | refuse method why => simp only [receive, hread, h, hmethod]
  | call request =>
      have hlike : Context.Like names ⟨request.method, r.metadata⟩ ⟨request.method, r'.metadata⟩ :=
        ⟨rfl, hmetadata⟩
      have htake := Call.Core.take_blind hblind hlike request
      rw [receive_call h, receive_call (hread.trans h), ← bare_opened_forgets, htake,
        bare_opened_forgets, hmethod]

end Server

/-! ### Requests that differ in how the body comes -/

private theorem besides_set (m : Call.Metadata) (names : List String) (name value : String) :
    (m.set name value).besides names =
      if names.contains name then m.besides names else (m.besides names).set name value := by
  unfold Call.Metadata.besides Call.Metadata.set
  rw [List.filter_append, List.filter_filter, List.filter_filter]
  by_cases hname : names.contains name = true
  · rw [if_pos hname, List.filter_cons_of_neg (by simpa using hname), List.filter_nil, List.append_nil]
    refine List.filter_congr ?_
    intro p _
    by_cases hp : p.1 = name
    · simp [hp, List.contains_iff_mem.mp hname]
    · simp [hp]
  · rw [if_neg hname, List.filter_cons_of_pos (by simpa using hname), List.filter_nil]
    simp only [Bool.and_comm]

namespace Request

private theorem besides_noted (names : List String) (m : Call.Metadata) (h : Header) :
    (noted m h).besides names =
      if names.contains h.1 then m.besides names else noted (m.besides names) h := by
  unfold noted
  by_cases hcredential : h.1 = "authorization"
  · rw [if_pos hcredential, if_pos hcredential, ite_self]
  · rw [if_neg hcredential, if_neg hcredential]
    cases plainText? h.2 with
    | none => exact (ite_self _).symm
    | some text => exact besides_set m names h.1 text

/-- What calls learn of some headers does not depend on the others. -/
theorem besides_foldl_noted (names : List String) (headers : List Header) (m : Call.Metadata) :
    (headers.foldl noted m).besides names =
      (headers.filter fun h => !names.contains h.1).foldl noted (m.besides names) := by
  induction headers generalizing m with
  | nil => rfl
  | cons h rest ih =>
      rw [List.foldl_cons, ih, besides_noted]
      by_cases hname : names.contains h.1 = true
      · rw [if_pos hname, List.filter_cons_of_neg (by simpa using hname)]
      · rw [if_neg hname, List.filter_cons_of_pos (by simpa using hname), List.foldl_cons]

namespace Streams

variable {r r' : Request}

theorem header? (h : r.Streams r') {name : String} (hname : name ∉ framing) :
    r'.header? name = r.header? name := by
  have hkeep : (fun name => !framing.contains name) name = true := by simpa using hname
  have hother : ∀ r : Request, r.unframed.lookup name = r.header? name := fun r =>
    lookup_filter (fun name => !framing.contains name) r.headers hkeep
  rw [← hother r', h.headers, hother r]

theorem saysJson (h : r.Streams r') : r'.saysJson = r.saysJson := by
  have hname : "content-type" ∉ framing := by decide
  simp only [Request.saysJson, h.header? hname]

theorem declared? (h : r.Streams r') : r'.declared? = none := by
  simp only [Request.declared?, h.undeclared]
  rfl

theorem metadata (h : r.Streams r') : r'.metadata.besides framing = r.metadata.besides framing := by
  have hothers : ∀ r : Request, r.metadata.besides framing = r.unframed.foldl noted [] := fun r =>
    besides_foldl_noted framing r.headers []
  rw [hothers r', h.headers, hothers r]

end Streams

end Request

namespace Server

variable {s : Server σ} {r r' : Request} {route : Route}

theorem Posts.streamed (h : Posts r route) (hstream : r.Streams r') : Posts r' route where
  method := hstream.method.trans h.method
  place := by rw [hstream.target, h.place]
  posted := h.posted

/-- What is read of a body that gets in does not depend on how it comes. -/
theorem Posts.read_streamed (h : Posts r route) (hstream : r.Streams r') (hfits : r.Fits s.limit)
    (hfits' : r'.Fits s.limit) : s.read r' = s.read r := by
  obtain ⟨hmuch, hover⟩ := Request.fits_iff.mp hfits
  obtain ⟨hmuch', hover'⟩ := Request.fits_iff.mp hfits'
  obtain ⟨α, shape, place, f, hat⟩ := s.readAt_call h.posted
  rw [h.read s hmuch, (h.streamed hstream).read s hmuch', hat, hat]
  unfold readCall
  rw [Request.readBody_congr hstream.saysJson (hover'.trans hover.symm) hstream.body]

/-- Why a body is refused that is longer than what is taken of it. -/
def refusal (r : Request) : Rejection := if r.saysJson then .tooLong else .notJson

theorem Posts.read_overflowing (h : Posts r route) (hmuch : r.declaresTooMuch s.limit = false)
    (hover : r.overflows s.limit = true) : ∃ method, s.read r = .refuse method (refusal r) := by
  obtain ⟨α, shape, place, f, hat⟩ := s.readAt_call h.posted
  have hbody : r.readBody s.limit shape = .error (refusal r) := by
    unfold Request.readBody refusal
    rw [hover]
    cases r.saysJson <;> rfl
  refine ⟨place, ?_⟩
  rw [h.read s hmuch, hat, readCall, hbody]

/-- **A body within the limit may be sent in any way, and one over the limit is refused in two ways.**  The
first request declares the size of its body as it is, and the second one has the same body streamed.

If the body is within the limit, both are read as the same.  Then, as long as the stages do not look at how
bodies come, whatever goes on afterwards goes on at both servers alike: their cores, and with them all
counters, are the same at any time, and so is what has been sent on every request.

If the body is over the limit, the first request is refused as too large and leaves the core as it was.  The
second one is refused as a wrong argument, which is logged and counted as an error. -/
theorem streamed_bodies (s : Server σ) (hlimit : 0 < s.limit) {r r' : Request} {route : Route}
    (hposts : Posts r route) (hdeclared : r.declared? = some r.body.length) (hstream : r.Streams r') :
    (r.body.length ≤ s.limit →
      s.read r' = s.read r ∧
        ((∀ t ∈ s.core.stages, t.Blind framing) → ∀ traffic,
          let t := (s.receive r).undergoAll traffic
          let t' := (s.receive r').undergoAll traffic
          t'.core = t.core ∧ t'.responses = t.responses)) ∧
      (s.limit < r.body.length →
        ((s.receive r).core = s.core ∧ ∃ e, (s.receive r).exchanges = s.exchanges ++ [e] ∧
          e.received? = some ⟨413, Utf8.encode "length limit exceeded"⟩) ∧
        ∃ method, (s.receive r').core = noted s.core method (refusal r) ∧
          ∃ e, (s.receive r').exchanges = s.exchanges ++ [e] ∧ e.head.map Prod.fst = some 400 ∧
            e.phase = .complete ∧ e.error? = some ⟨.invalidArgument, (refusal r).message⟩) := by
  have hundeclared := hstream.declared?
  refine ⟨?_, ?_⟩
  · intro hle
    have hfits : r.Fits s.limit := Request.fits_of_le hle (by simp [hdeclared])
    have hfits' : r'.Fits s.limit :=
      Request.fits_of_le (by rwa [hstream.body]) (by simp [hundeclared])
    have hread := hposts.read_streamed hstream hfits hfits'
    refine ⟨hread, ?_⟩
    intro hblind traffic
    exact shown_of_bare
      (bare_undergoAll (bare_receive_blind hblind hstream.method hread hstream.metadata) traffic)
  · intro hlt
    have hmuch : r.declaresTooMuch s.limit = true :=
      Request.declaresTooMuch_iff.mpr ⟨hlimit, _, hdeclared, hlt⟩
    have hmuch' : r'.declaresTooMuch s.limit = false := by
      rw [Request.declaresTooMuch, hundeclared, Option.any_none, Bool.and_false]
    have hover' : r'.overflows s.limit = true := by
      simpa [Request.overflows, Request.allowance?, hundeclared, hstream.body, Nat.ne_of_gt hlimit]
        using hlt
    have hposts' := hposts.streamed hstream
    have hwhy : refusal r' = refusal r := by rw [refusal, refusal, hstream.saysJson]
    obtain ⟨method, hread'⟩ := hposts'.read_overflowing hmuch' hover'
    rw [hwhy] at hread'
    exact ⟨s.receive_declared hposts.method hmuch, method, s.receive_refused hposts'.method hread'⟩

/-- Chunks sent with their size and in two pieces, one as long as the limit and one a byte longer. -/
theorem streamed_bodies_at_limit :
    let body := Utf8.encode (Call.Chunk.ofContent "x").toJson.render
    let longer := body ++ [0x20]
    let core := Call.Core.new [.logging, .metrics] ⟨.ofSecs 30, true⟩ (Backend.stub [] .zero) () .empty
    let s := Server.new core body.length
    let posted (header : Header) (pieces : List (List UInt8)) : Request :=
      ⟨"POST", ⟨Call.predictPath, none⟩, [("content-type", Utf8.encode "application/json"), header],
        pieces⟩
    let sized (body : List UInt8) := posted ("content-length", Utf8.encode (toString body.length)) [body]
    let streamed (body : List UInt8) :=
      posted ("transfer-encoding", Utf8.encode "chunked") [body.take 5, body.drop 5]
    (∀ traffic, ((s.receive (streamed body)).undergoAll traffic).core =
        ((s.receive (sized body)).undergoAll traffic).core) ∧
      (s.receive (sized longer)).core = s.core ∧
      ∃ method, (s.receive (streamed longer)).core = noted s.core method .tooLong := by
  intro body longer core s posted sized streamed
  have hplace : Route.ofPath? Call.predictPath = some .predict := by decide +kernel
  have hposts : ∀ body, Posts (sized body) .predict := fun _ => ⟨rfl, hplace, rfl⟩
  have hstream : ∀ body, (sized body).Streams (streamed body) := by
    intro body
    refine ⟨rfl, rfl, rfl, rfl, ?_⟩
    simp [streamed, sized, posted, Request.body]
  have hblind : ∀ t ∈ s.core.stages, t.Blind framing := by
    intro t ht
    exact Call.blind_of_shipped (by simpa [s, core, Server.new, Call.Core.new] using ht) framing
  obtain ⟨hsame, -⟩ :=
    s.streamed_bodies (by decide +kernel) (hposts body) (by decide +kernel) (hstream body)
  obtain ⟨-, hrefused⟩ :=
    s.streamed_bodies (by decide +kernel) (hposts longer) (by decide +kernel) (hstream longer)
  obtain ⟨⟨hcore, -⟩, method, hnoted, -⟩ := hrefused (by decide +kernel)
  have hjson : (sized longer).saysJson = true := by decide +kernel
  rw [refusal, if_pos hjson] at hnoted
  exact ⟨fun traffic => ((hsame (by decide +kernel)).2 hblind traffic).1, hcore, method, hnoted⟩

/-- A chunk that is too long, sent with its size and in pieces of seven bytes: two statuses, and only one of
the two counts an error. -/
theorem streamed_refused_otherwise :
    let body := Utf8.encode "\x7b\"content\":\"this body is longer than sixteen bytes\"\x7d"
    let core := Call.Core.new [.logging, .metrics] ⟨.ofSecs 30, true⟩ (Backend.stub [] .zero) () .empty
    let s := Server.new core 16
    let json : Header := ("content-type", Utf8.encode "application/json")
    let posted (headers : List Header) (pieces : List (List UInt8)) : Request :=
      ⟨"POST", ⟨Call.predictPath, none⟩, json :: headers, pieces⟩
    let sized := posted [("content-length", Utf8.encode (toString body.length))] [body]
    let streamed := posted [] (body.toChunks 7)
    let status (s : Server Unit) := s.exchanges.map fun e => e.head.map Prod.fst
    sized.Streams streamed ∧ s.limit < body.length ∧ sized.declared? = some body.length ∧
      status (s.receive sized) = [some 413] ∧ (s.receive sized).core.metrics.errors = 0 ∧
      status (s.receive streamed) = [some 400] ∧ (s.receive streamed).core.metrics.errors = 1 := by
  intro body core s json posted sized streamed status
  refine ⟨⟨rfl, rfl, by decide +kernel, by decide +kernel, by decide +kernel⟩, ?_⟩
  decide +kernel

end Server

end EmbedServer.Http
