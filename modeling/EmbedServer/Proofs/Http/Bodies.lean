/-
Which posted bodies reach the stages.

Two look at the size of a body, and neither knows of the other: one refuses what declares too much, the
other takes no more bytes than the limit and the declared size allow.  Together they let in what `Fits`,
and it makes no difference into which pieces a body was cut.

What is let in, is said to be JSON and holds the message of the place comes to the stages, once and as that
message.  Everything else leaves the calls alone: a size that is declared and too large leaves the whole
server as it was, and any other refusal is logged and counted as one error.
-/
import EmbedServer.Http.Framing
import EmbedServer.Proofs.Http.Carried
import EmbedServer.Proofs.Http.Credentials
import EmbedServer.Proofs.Http.Surfaces
import EmbedServer.Proofs.Lifecycle.Turns

namespace EmbedServer.Http

open Lifecycle (Act Happening)

variable {σ : Type}

/-! ### Sizes

What a request declares and what it sends are two numbers, and nothing makes them agree.  A body is looked
at by both, so `Fits` speaks of both.
-/

/-- Reading piece by piece takes all or nothing, and the pieces make no difference to which. -/
theorem gather?_eq (room : Option Nat) (pieces : List (List UInt8)) :
    gather? room pieces =
      if room.any (· < pieces.flatten.length) then none else some pieces.flatten := by
  induction pieces generalizing room with
  | nil => cases room <;> simp [gather?]
  | cons piece rest ih =>
      cases room with
      | none => simp [gather?, ih]
      | some n =>
          simp only [gather?, ih, Option.any_some, List.flatten_cons, List.length_append,
            decide_eq_true_eq]
          by_cases hpiece : n < piece.length
          · rw [if_pos hpiece, if_pos (by omega)]
          · have hroom : n - piece.length < rest.flatten.length ↔
                n < piece.length + rest.flatten.length := by omega
            rw [if_neg hpiece]
            simp only [hroom]
            split <;> rfl

namespace Request

theorem declaresTooMuch_iff {r : Request} {limit : Limit} :
    r.declaresTooMuch limit = true ↔ 0 < limit ∧ ∃ d, r.declared? = some d ∧ limit < d := by
  simp [declaresTooMuch, Nat.pos_iff_ne_zero, Option.any_eq_true]

/-- What gets in passes both who look at the size. -/
theorem fits_iff {r : Request} {limit : Limit} :
    r.Fits limit ↔ r.declaresTooMuch limit = false ∧ r.overflows limit = false := by
  unfold Fits declaresTooMuch overflows allowance?
  by_cases hlimit : limit = 0
  · simp [hlimit]
  · have hlimited : (limit != 0) = true := bne_iff_ne.mpr hlimit
    simp only [hlimit, hlimited, false_or, if_false, Bool.true_and, Option.any_some,
      decide_eq_false_iff_not]
    cases r.declared? with
    | none => simp
    | some d =>
        simp only [Option.some.injEq, forall_eq', Option.any_some, Option.getD_some,
          decide_eq_false_iff_not, Nat.not_lt, Nat.le_min]
        exact and_left_comm

instance (r : Request) (limit : Limit) : Decidable (r.Fits limit) :=
  decidable_of_iff _ fits_iff.symm

/-- A body within the limit gets in, if its size is declared as it is or not at all. -/
theorem fits_of_le {r : Request} {limit : Limit} (h : r.body.length ≤ limit)
    (hdeclared : ∀ d, r.declared? = some d → d = r.body.length) : r.Fits limit := by
  refine Or.inr ⟨h, ?_⟩
  intro d hd
  rw [hdeclared d hd]
  exact ⟨h, Nat.le_refl _⟩

/-- What is read of a body that comes in pieces. -/
theorem gather?_pieces (r : Request) (limit : Limit) :
    gather? (r.allowance? limit) r.pieces = if r.overflows limit then none else some r.body :=
  gather?_eq _ _

private theorem message?_eq (r : Request) (limit : Limit) (route : Route) :
    r.message? limit route =
      if r.saysJson && !r.overflows limit then route.decode? r.body else none := by
  have hread : ∀ {α : Type} (shape : Json.Reader α) (f : α → Call.Request),
      (r.readBody limit shape).toOption.map f =
        if r.saysJson && !r.overflows limit then
          (Json.Reader.runFront shape r.body).toOption.map f else none := by
    intro α shape f
    unfold readBody
    cases r.saysJson with
    | false => rfl
    | true =>
        cases r.overflows limit with
        | true => rfl
        | false => cases Json.Reader.runFront shape r.body <;> rfl
  cases route with
  | predict => exact hread _ _
  | check => exact hread _ _
  | _ => exact (ite_self _).symm

/-- What is read of a body depends on nothing else. -/
theorem readBody_congr {r r' : Request} {limit : Limit} (hjson : r'.saysJson = r.saysJson)
    (hover : r'.overflows limit = r.overflows limit) (hbody : r'.body = r.body) {α : Type}
    (shape : Json.Reader α) : r'.readBody limit shape = r.readBody limit shape := by
  unfold readBody
  rw [hjson, hover, hbody]

end Request

namespace Server

/-! ### Calls

A call that comes to the stages is what the stages would be shown, so it is counted by views and not by
samples: a stage that counts nothing is shown it as well.
-/

/-- A body that gets in and holds the message of its place is decoded, and nothing else is. -/
theorem decoded?_eq (s : Server σ) {r : Request} {route : Route}
    (hroute : Route.ofPath? r.target.path = some route) :
    s.decoded? r =
      if route.takes r.method && !r.declaresTooMuch s.limit && r.saysJson && !r.overflows s.limit then
        route.decode? r.body else none := by
  have hplain : route.isPosted = false → route.decode? r.body = none := by
    cases route <;> simp [Route.isPosted, Route.decode?]
  simp only [decoded?, passesBy, hroute, Option.bind_some, Request.message?_eq]
  cases hposted : route.isPosted with
  | false => simp [hplain hposted]
  | true =>
      cases route.takes r.method <;> cases r.declaresTooMuch s.limit <;> simp

private theorem call?_eq (s : Server σ) (r : Request) :
    r.call? s.limit = (s.decoded? r).map fun m => (⟨m.method, r.metadata⟩, m) := by
  unfold Request.call?
  cases hroute : Route.ofPath? r.target.path with
  | none =>
      have hnone : s.decoded? r = none := by simp [decoded?, hroute]
      rw [hnone]
      rfl
  | some route =>
      simp only [s.decoded?_eq hroute, r.gather?_pieces, Option.bind_eq_bind, Option.bind_some]
      cases route.takes r.method <;> cases r.declaresTooMuch s.limit <;> cases r.saysJson <;>
        cases r.overflows s.limit <;> first | rfl | exact Option.map_eq_bind.symm

/-- The call that comes to the stages is the one in the request. -/
theorem entry_view? (s : Server σ) (r : Request) :
    (s.view? r).map View.entry = r.call? s.limit := by
  rw [call?_eq]
  rcases s.read_cases r with ⟨hpasses, response, hread, -⟩ |
    ⟨-, -, ⟨request, hread, hdecoded⟩ | ⟨⟨method, why, hread⟩, hdecoded⟩⟩
  · have hdecoded : s.decoded? r = none := if_pos hpasses
    simp [view?, hread, hdecoded]
  · simp [view?, hread, hdecoded]
  · simp [view?, hread, hdecoded]

/-- The calls that come to the stages while all this goes on. -/
def entries (s : Server σ) (traffic : List Happening) : List (Call.Context × Call.Request) :=
  (s.views traffic).filterMap (·.map View.entry)

/-- The call in a request that comes under a limit. -/
def callIn? (limit : Limit) : Happening → Option (Call.Context × Call.Request)
  | .meet (.request r) => r.call? limit
  | _ => none

private theorem limit_undergo (s : Server σ) (x : Happening) : (s.undergo x).limit = s.limit := by
  cases x with
  | look id => exact (s.same_look id).limit
  | act a => exact (Act.frame_apply s a).limit
  | meet e =>
      cases e with
      | request r => exact (s.same_receive r).limit
      | leave id => exact (s.same_abort id).limit
      | _ => rfl

/-- **Every request whose body gets in and is decoded brings one call to the stages**, whenever it comes,
and nothing else does. -/
theorem entries_eq (s : Server σ) (traffic : List Happening) :
    s.entries traffic = traffic.filterMap (callIn? s.limit) := by
  induction traffic generalizing s with
  | nil => rfl
  | cons x rest ih =>
      have hentry : (s.seen? x).map View.entry = callIn? s.limit x := by
        cases x with
        | meet e =>
            cases e with
            | request r => exact s.entry_view? r
            | _ => rfl
        | _ => rfl
      have hrest := ih (s.undergo x)
      rw [s.limit_undergo] at hrest
      simp only [entries, views, List.filterMap_cons, hentry] at hrest ⊢
      rw [hrest]

/-! ### What becomes of a posted request

A posted request is taken, turned away by its declared size, or refused with a reason.  The effects of
each are stated on the whole core, and not on the counters alone.
-/

/-- A request to a place that is posted to. -/
structure Posts (r : Request) (route : Route) : Prop where
  method : r.method = "POST"
  place : Route.ofPath? r.target.path = some route
  posted : route.isPosted = true

variable {s : Server σ} {r : Request} {route : Route}

theorem Posts.takes (h : Posts r route) : route.takes r.method = true := by
  rw [Route.takes, h.posted, h.method]
  rfl

theorem Posts.call? (h : Posts r route) (s : Server σ) :
    r.call? s.limit = if r.Fits s.limit ∧ r.saysJson = true then
      (route.decode? r.body).map fun m => (⟨m.method, r.metadata⟩, m) else none := by
  rw [call?_eq, s.decoded?_eq h.place, h.takes]
  by_cases hfits : r.Fits s.limit ∧ r.saysJson = true
  · obtain ⟨hmuch, hover⟩ := Request.fits_iff.mp hfits.1
    rw [if_pos hfits, if_pos (by simp [hmuch, hover, hfits.2])]
  · have hout : ¬ (true && !r.declaresTooMuch s.limit && r.saysJson && !r.overflows s.limit) = true := by
      intro hc
      simp only [Bool.true_and, Bool.and_eq_true, Bool.not_eq_true'] at hc
      exact hfits ⟨Request.fits_iff.mpr ⟨hc.1.1, hc.2⟩, hc.1.2⟩
    rw [if_neg hfits, if_neg hout]
    rfl

/-- A body that gets in and is decoded is taken as one call. -/
theorem receive_taken (s : Server σ) {context : Call.Context} {m : Call.Request}
    (h : r.call? s.limit = some (context, m)) :
    s.read r = .call m ∧ (s.receive r).core = (s.core.take context m).1 := by
  rw [call?_eq] at h
  obtain ⟨m', hdecoded, hcall⟩ := Option.map_eq_some_iff.mp h
  obtain ⟨rfl, rfl⟩ := Prod.mk.inj hcall
  have hread := (read_decoded hdecoded).2
  refine ⟨hread, ?_⟩
  simp only [receive, hread]
  rcases s.core.take ⟨m'.method, r.metadata⟩ m' with ⟨core, after, o | p⟩ <;> rfl

/-- A size that is declared and too large leaves the server as it was. -/
theorem receive_declared (s : Server σ) {r : Request} (hmethod : r.method = "POST")
    (h : r.declaresTooMuch s.limit = true) :
    (s.receive r).core = s.core ∧ ∃ e, (s.receive r).exchanges = s.exchanges ++ [e] ∧
      e.received? = some ⟨413, Utf8.encode "length limit exceeded"⟩ := by
  have hread : s.read r = .respond (.plain 413 "length limit exceeded") := if_pos h
  refine ⟨by simp only [receive, hread]; rfl, _, (receive_opens s r).1 _ hread, ?_⟩
  exact s.respond_whole (by rw [hmethod]; rfl) rfl

/-- What is left of a core when a body is refused. -/
def noted (core : Call.Core σ) (method : String) (why : Rejection) : Call.Core σ :=
  { core with
    log := core.log ++ [⟨.transport, .warn, "Rejected malformed request: " ++ why.message,
      [("method", .text method)]⟩]
    metrics := { core.metrics with errors := core.metrics.errors + 1 } }

/-- Any other refusal is logged, counted as one error, and answered as a wrong argument. -/
theorem receive_refused (s : Server σ) {r : Request} (hmethod : r.method = "POST") {method : String}
    {why : Rejection} (h : s.read r = .refuse method why) :
    (s.receive r).core = noted s.core method why ∧
      ∃ e, (s.receive r).exchanges = s.exchanges ++ [e] ∧
        e.head.map Prod.fst = some 400 ∧ e.phase = .complete ∧
        e.error? = some ⟨.invalidArgument, why.message⟩ := by
  refine ⟨by simp only [receive, h]; rfl, _, (receive_opens s r).2.1 _ _ h, ?_⟩
  have hfull : (r.method == "HEAD") = false := by
    rw [hmethod]
    rfl
  rw [s.respond_error, hfull]
  exact ⟨rfl, rfl, error?_answered rfl trivial⟩

theorem Posts.read (h : Posts r route) (s : Server σ) (hmuch : r.declaresTooMuch s.limit = false) :
    s.read r = s.readAt r route := s.read_route hmuch h.place h.takes

/-- What does not come to the stages is refused. -/
theorem Posts.refused (h : Posts r route) (hmuch : r.declaresTooMuch s.limit = false)
    (hnone : r.call? s.limit = none) : ∃ method why, s.read r = .refuse method why := by
  rw [h.read s hmuch]
  rcases s.readAt_posted r h.posted with ⟨request, hread, -⟩ | ⟨hread, -⟩
  · rw [← h.read s hmuch] at hread
    have hview := s.entry_view? r
    simp [view?, hread, hnone] at hview
  · exact hread

/-- All places that are posted to read bodies in the same way. -/
theorem readAt_call (s : Server σ) (h : route.isPosted = true) :
    ∃ (α : Type) (shape : Json.Reader α) (method : String) (f : α → Call.Request),
      ∀ r, s.readAt r route = readCall r s.limit shape method f := by
  cases route with
  | predict => exact ⟨_, _, _, _, fun _ => rfl⟩
  | check => exact ⟨_, _, _, _, fun _ => rfl⟩
  | _ => cases h

theorem Posts.not_tooLong (h : Posts r route) (hfits : r.Fits s.limit) (method : String) :
    s.read r ≠ .refuse method .tooLong := by
  obtain ⟨hmuch, hover⟩ := Request.fits_iff.mp hfits
  obtain ⟨α, shape, place, f, hat⟩ := s.readAt_call h.posted
  rw [h.read s hmuch, hat]
  unfold readCall Request.readBody
  rw [hover]
  cases r.saysJson <;> cases Json.Reader.runFront shape r.body <;> simp

/-- Nobody sees into which pieces a body was cut. -/
theorem receive_pieces (s : Server σ) (r : Request) {pieces : List (List UInt8)}
    (h : pieces.flatten = r.body) : s.receive { r with pieces } = s.receive r := by
  have hbody : ({ r with pieces } : Request).body = r.body := h
  have hover : ({ r with pieces } : Request).overflows s.limit = r.overflows s.limit := by
    unfold Request.overflows
    rw [hbody]
    rfl
  have hsame : ∀ {α : Type} (shape : Json.Reader α),
      ({ r with pieces } : Request).readBody s.limit shape = r.readBody s.limit shape := by
    intro α shape
    have hjson : ({ r with pieces } : Request).saysJson = r.saysJson := rfl
    exact Request.readBody_congr hjson hover hbody shape
  have hat : ∀ route, s.readAt { r with pieces } route = s.readAt r route := by
    intro route
    cases route with
    | predict => simp only [readAt, readCall, hsame]
    | check => simp only [readAt, readCall, hsame]
    | _ => rfl
  have hread : s.read { r with pieces } = s.read r := by
    simp only [read, hat]
    rfl
  simp only [receive, hread]
  rfl

/-- **Only bounded bodies that can be decoded reach the stages.**  A posted request brings a call exactly
if its body gets in, is said to be JSON and is the message of the place; then the stages take that message
once, with the metadata of the request.  Otherwise no stage, no handler and no backend runs: if the limit
is exceeded by what is declared, nothing at all changes but that the response is added, and any other
refusal leaves one line in the log and counts one error.  A body within the limit whose size is declared as
it is, or not at all, is not refused for its size.  How a body is cut makes no difference, and in any
traffic the calls that come to the stages are those of the requests that bring one, each of them once. -/
theorem posted_bodies (s : Server σ) :
    (∀ (r : Request) (route : Route), Posts r route →
      let s' := s.receive r
      let refused := (s.view? r).isNone = true
      let declaresMore := ∃ d, r.declared? = some d ∧ 0 < s.limit ∧ s.limit < d
      (∀ context m, (s.view? r).map View.entry = some (context, m) ↔
        r.Fits s.limit ∧ r.saysJson = true ∧ route.decode? r.body = some m ∧
          context = ⟨m.method, r.metadata⟩) ∧
      (∀ context m, (s.view? r).map View.entry = some (context, m) →
        s'.core = (s.core.take context m).1) ∧
      (refused → declaresMore → s'.core = s.core ∧ ∃ e, s'.exchanges = s.exchanges ++ [e] ∧
        e.received? = some ⟨413, Utf8.encode "length limit exceeded"⟩) ∧
      (refused → ¬declaresMore → ∃ method why, s'.core = noted s.core method why ∧
        ∃ e, s'.exchanges = s.exchanges ++ [e] ∧ e.head.map Prod.fst = some 400 ∧
          e.phase = .complete ∧ e.error? = some ⟨.invalidArgument, why.message⟩) ∧
      (r.body.length ≤ s.limit → (∀ d, r.declared? = some d → d = r.body.length) →
        r.Fits s.limit ∧ ∀ method, s.read r ≠ .refuse method .tooLong) ∧
      ∀ pieces, pieces.flatten = r.body → s.receive { r with pieces } = s') ∧
    ∀ traffic, s.entries traffic = traffic.filterMap (callIn? s.limit) := by
  refine ⟨?_, s.entries_eq⟩
  intro r route h s' refused declaresMore
  have hmore : declaresMore ↔ r.declaresTooMuch s.limit = true := by
    rw [Request.declaresTooMuch_iff]
    exact ⟨fun ⟨d, hd, hlimit, hlt⟩ => ⟨hlimit, d, hd, hlt⟩,
      fun ⟨hlimit, d, hd, hlt⟩ => ⟨d, hd, hlimit, hlt⟩⟩
  have hcall : refused → r.call? s.limit = none := by
    intro hnone
    rw [← s.entry_view? r, Option.isNone_iff_eq_none.mp hnone]
    rfl
  rw [s.entry_view? r]
  refine ⟨?_, fun context m hm => (s.receive_taken hm).2, ?_, ?_, ?_, fun pieces => s.receive_pieces r⟩
  · intro context m
    rw [h.call? s]
    constructor
    · intro hm
      split at hm
      · rename_i hin
        obtain ⟨m', hdecode, heq⟩ := Option.map_eq_some_iff.mp hm
        obtain ⟨rfl, rfl⟩ := Prod.mk.inj heq
        exact ⟨hin.1, hin.2, hdecode, rfl⟩
      · cases hm
    · rintro ⟨hfits, hjson, hdecode, rfl⟩
      rw [if_pos ⟨hfits, hjson⟩, hdecode]
      rfl
  · exact fun _ hdeclares => s.receive_declared h.method (hmore.mp hdeclares)
  · intro hnone hdeclares
    have hmuch := Bool.eq_false_iff.mpr fun hc => hdeclares (hmore.mpr hc)
    obtain ⟨method, why, hread⟩ := h.refused hmuch (hcall hnone)
    exact ⟨method, why, s.receive_refused h.method hread⟩
  · intro hle hdeclared
    have hfits := Request.fits_of_le hle hdeclared
    exact ⟨hfits, h.not_tooLong hfits⟩

/-- A chunk whose body is as long as the limit and comes in two pieces, the same with a declared size that
is one too many, and the same with one more byte. -/
theorem posted_bodies_bounded :
    let body := Utf8.encode (Call.Chunk.ofContent "x").toJson.render
    let core := Call.Core.new [.logging, .metrics] ⟨.ofSecs 30, true⟩ (Backend.stub [] .zero) () .empty
    let s := Server.new core body.length
    let json : Header := ("content-type", Utf8.encode "application/json")
    let posted (headers : List Header) (pieces : List (List UInt8)) : Request :=
      ⟨"POST", ⟨Call.predictPath, none⟩, json :: headers, pieces⟩
    let fitting := posted [] [body.take 3, body.drop 3]
    let declaring := posted [("content-length", Utf8.encode (toString (body.length + 1)))] [body]
    let longer := posted [] [body, [0x20]]
    let request := Call.Request.predict (.ofContent "x")
    (s.view? fitting).map View.entry =
        some (⟨Call.predictPath, [("content-type", "application/json")]⟩, request) ∧
      (s.receive fitting).core =
        (s.core.take ⟨Call.predictPath, [("content-type", "application/json")]⟩ request).1 ∧
      (s.receive declaring).core = s.core ∧
      (∃ method why, (s.receive longer).core = noted s.core method why) ∧
      s.entries [.meet (.request fitting), .meet (.request declaring), .meet (.request longer), .look 0] =
        [(⟨Call.predictPath, [("content-type", "application/json")]⟩, request)] := by
  intro body core s json posted fitting declaring longer request
  obtain ⟨hposted, hentries⟩ := s.posted_bodies
  have hplace : Route.ofPath? Call.predictPath = some .predict := by decide +kernel
  have hposts : ∀ headers pieces, Posts (posted headers pieces) .predict := fun _ _ =>
    ⟨rfl, hplace, rfl⟩
  obtain ⟨hiff, htaken, -⟩ := hposted fitting .predict (hposts _ _)
  have hentry := (hiff ⟨Call.predictPath, [("content-type", "application/json")]⟩ request).mpr
    ⟨by decide +kernel, by decide +kernel, by decide +kernel, by decide +kernel⟩
  refine ⟨hentry, htaken _ _ hentry, ?_, ?_, (hentries _).trans (by decide +kernel)⟩
  · exact ((hposted declaring .predict (hposts _ _)).2.2.1 (by decide +kernel)
      ⟨body.length + 1, by decide +kernel, by decide +kernel, Nat.lt_succ_self _⟩).1
  · obtain ⟨method, why, hcore, -⟩ := (hposted longer .predict (hposts _ _)).2.2.2.1 (by decide +kernel)
      (by decide +kernel)
    exact ⟨method, why, hcore⟩

end Server

end EmbedServer.Http
