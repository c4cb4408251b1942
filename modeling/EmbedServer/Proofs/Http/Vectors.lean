/-
What becomes of a backend's vector on its way to the client.

The vector goes through the race, the way back through the stages and the response as it is: nobody on
the way looks at its numbers.  So the body of a success is the text of that very vector.  What the client
makes of the text is another matter.  Each number is read by itself, as its digits and its power of ten
put together again; one that is no number was written as null, and with it the whole vector is lost.
-/
import EmbedServer.Proofs.Call.Gauges
import EmbedServer.Proofs.Client
import EmbedServer.Proofs.Http.Carried
import EmbedServer.Proofs.Http.Settling
import EmbedServer.Proofs.Json.Reals
import EmbedServer.Proofs.Lifecycle.Traffic
import Mathlib.Data.List.Forall2

namespace EmbedServer

open Decimal (wired?)
open Json.Reader (Tells)

/-! ### Reading a vector

Nothing here is about servers.  A vector is written and read item by item, and a single item that cannot
be read takes all the others with it.
-/

/-- Whether a double is a number. -/
def Binary64.isNumber : Binary64 → Bool
  | .finite .. => true
  | .infinite _ | .nan => false

/-- What is read back was a number. -/
theorem Decimal.isNumber_of_wired? {x y : Float} (h : wired? x = some y) :
    (Binary64.ofFloat x).isNumber = true := by
  unfold wired? at h
  cases hx : Binary64.ofFloat x with
  | finite negative m q => rfl
  | infinite negative =>
      rw [hx] at h
      cases h
  | nan =>
      rw [hx] at h
      cases h

/-- Vectors are read item by item. -/
theorem Decimal.wired_iff {xs out : List Float} :
    xs.mapM wired? = some out ↔ List.Forall₂ (fun x y => wired? x = some y) xs out := by
  induction xs generalizing out with
  | nil =>
      rw [List.mapM_nil, List.forall₂_nil_left_iff]
      exact ⟨fun h => (Option.some.inj h).symm, fun h => by rw [h]; rfl⟩
  | cons x xs ih =>
      rw [List.mapM_cons, List.forall₂_cons_left_iff]
      simp only [← ih]
      cases wired? x with
      | none => simp
      | some y =>
          cases xs.mapM wired? with
          | none => simp
          | some ys => simp [eq_comm]

theorem Decimal.wired_unchanged {xs : List Float} :
    xs.mapM wired? = some xs ↔ ∀ x ∈ xs, wired? x = some x :=
  wired_iff.trans List.forall₂_same

theorem Decimal.isNumber_of_wired {xs out : List Float} (h : xs.mapM wired? = some out) :
    ∀ x ∈ xs, (Binary64.ofFloat x).isNumber = true := by
  have hitems := wired_iff.mp h
  induction hitems with
  | nil => exact fun x hx => absurd hx List.not_mem_nil
  | cons hx hxs ih => exact List.forall_mem_cons.mpr ⟨isNumber_of_wired? hx, ih (wired_iff.mpr hxs)⟩

/-- The only field of an embedding. -/
def Call.Embedding.vecField : Schema.Field Json.Reader Call.Embedding :=
  .of "vec" .required (Json.Reader.list Json.Reader.double) fun vec _ => ⟨vec⟩

theorem Call.embedding_tells (vec : List Float) (rest : List UInt8) :
    Tells Embedding.shape (Utf8.encode (Embedding.mk vec).toJson.render) rest
      ((vec.mapM wired?).map Embedding.mk) := by
  have hfield : ∀ rest, Tells Embedding.vecField.read (Utf8.encode (Json.Value.reals vec).render) rest
      ((vec.mapM wired?).map fun vec _ => Embedding.mk vec) :=
    fun rest => (Json.Reader.list_tells vec rest).map _
  have hfind : [Embedding.vecField].find? (·.name == "vec") = some Embedding.vecField := rfl
  have hrequired : ∀ f ∈ [Embedding.vecField], f.presence = .required → f.name = "vec" := by
    intro f hf _
    rw [List.mem_singleton.mp hf]
    rfl
  have hrecord : Tells Embedding.shape (Utf8.encode (Embedding.mk vec).toJson.render) rest _ :=
    Json.Reader.record_tells hfind hrequired hfield rest
  rw [Option.map_map] at hrecord
  exact hrecord

namespace Client

/-- The success with a vector, as it is received. -/
def delivered (vec : List Float) : Http.Received :=
  ⟨200, Utf8.encode (Call.Embedding.mk vec).toJson.render⟩

/-- What a client makes of a vector: the numbers it reads, or no vector at all. -/
structure Decodes (vec : List Float) (read : Except Error Call.Embedding) : Prop where
  /-- Every number is read by itself. -/
  eachRead : ∀ out, vec.mapM wired? = some out → read = .ok ⟨out⟩
  /-- If one of them is lost, so are all. -/
  oneLost : vec.mapM wired? = none → ∃ cause, read = .error (.unreadable cause)
  unchanged : read = .ok ⟨vec⟩ ↔ ∀ x ∈ vec, wired? x = some x
  /-- What is no number is always lost. -/
  numbers : read.isOk = true → ∀ x ∈ vec, (Binary64.ofFloat x).isNumber = true

private theorem isSuccess_delivered (vec : List Float) : (delivered vec).status.isSuccess = true := by
  show Http.Status.isSuccess 200 = true
  decide

private theorem content_delivered (vec : List Float) :
    (delivered vec).content = Utf8.encode (Call.Embedding.mk vec).toJson.render := by
  have hbody : Http.Status.hasBody 200 = true := by decide
  exact if_pos hbody

private theorem readEmbedding_delivered {vec out : List Float} (h : vec.mapM wired? = some out) :
    readEmbedding (some (delivered vec)) = .ok ⟨out⟩ := by
  have htells := Call.embedding_tells vec []
  rw [h] at htells
  obtain ⟨n, hn⟩ := htells 0
  rw [List.append_nil] at hn
  have hrun : Json.Reader.run Call.Embedding.shape
      (Utf8.encode (Call.Embedding.mk vec).toJson.render) = .ok ⟨out⟩ := by
    rw [Json.Reader.run, Json.Reader.runFront, Json.Cursor.ofBytes, Json.Reader.bind_ok hn]
    rfl
  rw [readEmbedding, read, if_pos (isSuccess_delivered vec), content_delivered, hrun]

private theorem readEmbedding_lost {vec : List Float} (h : vec.mapM wired? = none) :
    ∃ cause, readEmbedding (some (delivered vec)) = .error (.unreadable cause) := by
  have htells := Call.embedding_tells vec []
  rw [h] at htells
  obtain ⟨e, he⟩ := htells 0
  rw [List.append_nil] at he
  have hrun : Json.Reader.run Call.Embedding.shape
      (Utf8.encode (Call.Embedding.mk vec).toJson.render) = .error e := by
    rw [Json.Reader.run, Json.Reader.runFront, Json.Cursor.ofBytes, Json.Reader.bind_error he]
  refine ⟨e.message (delivered vec).content, ?_⟩
  rw [readEmbedding, read, if_pos (isSuccess_delivered vec), content_delivered, hrun]

private theorem isOk_iff_wired {vec : List Float} :
    (readEmbedding (some (delivered vec))).isOk = true ↔ ∃ out, vec.mapM wired? = some out := by
  cases h : vec.mapM wired? with
  | none =>
      obtain ⟨cause, hcause⟩ := readEmbedding_lost h
      simp [hcause, Except.isOk, Except.toBool]
  | some out => simp [readEmbedding_delivered h, Except.isOk, Except.toBool]

private theorem decodes_delivered (vec : List Float) :
    Decodes vec (readEmbedding (some (delivered vec))) where
  eachRead := fun _ h => readEmbedding_delivered h
  oneLost := readEmbedding_lost
  unchanged := by
    rw [← Decimal.wired_unchanged]
    refine ⟨?_, readEmbedding_delivered⟩
    intro hread
    obtain ⟨out, hout⟩ := isOk_iff_wired.mp (by rw [hread]; rfl)
    rw [readEmbedding_delivered hout] at hread
    obtain rfl : out = vec := congrArg Call.Embedding.vec (Except.ok.inj hread)
    exact hout
  numbers := by
    intro hok
    obtain ⟨out, hout⟩ := isOk_iff_wired.mp hok
    exact Decimal.isNumber_of_wired hout

end Client

/-! ### Calls

A call for a vector may still be cancelled or cut off, so its outcome is the backend's answer or some
error, and which one it is does not matter to what a success carries.
-/

namespace Call

open Backend (Answer)

variable {σ : Type}

/-- What a call for a computation with this answer may come to. -/
def Yields (a : Answer) (o : Outcome) : Prop := o = outcomeOf a ∨ ∃ e, o = .error e

/-- Whoever wins the race for a computation, the outcome is its answer or an error. -/
theorem yields_answer (r : Race σ) (h : Handler) (w : Race.Winner) :
    Yields r.computation.answer (outcomeOf (r.answer h w)) := by
  cases w with
  | cancellation => exact Or.inr ⟨_, rfl⟩
  | computation => exact Or.inl rfl
  | deadline => exact Or.inr ⟨_, rfl⟩

/-- A call that waits for a computation with this answer, and comes back with what it waits for. -/
structure Pending.Awaits (p : Pending σ) (a : Answer) : Prop where
  counted : p.Counted
  answer : p.race.computation.answer = a

namespace Core

/-- A call that waited and is answered comes to what it waited for, or to an error. -/
theorem poll_yields {c c' : Core σ} {p : Pending σ} {a : Answer} (h : p.Awaits a) {after : Context}
    {o : Outcome} (hpoll : c.poll p = (c', .done after o)) : Yields a o := by
  cases hw : p.race.winner? c.now c.cancel.ready with
  | none =>
      rw [poll_none c p hw] at hpoll
      cases hpoll
  | some w =>
      obtain ⟨c'', after', hdone, -⟩ := poll_counted c h.counted hw
      rw [hpoll] at hdone
      obtain ⟨-, rfl⟩ := Progress.done.inj (Prod.mk.inj hdone).2
      rw [← h.answer]
      exact yields_answer p.race c.handler w

/-- A call for a vector comes to the backend's answer or to an error, or it waits for that answer. -/
theorem take_vector (c : Core σ) (hstages : ∀ t ∈ c.stages, t.Watches) (context : Context)
    (chunk : Chunk) :
    (∃ c' after o, c.take context (.predict chunk) = (c', .done after o) ∧
        Yields (c.backend.compute c.compute chunk.content).answer o) ∨
      ∃ c' p, c.take context (.predict chunk) = (c', .waiting p) ∧
        p.Awaits (c.backend.compute c.compute chunk.content).answer := by
  have hwraps : (c.service context (.predict chunk)).Wraps
      (dispatch c.state c.health context (.predict chunk)) := compose_wraps hstages _ _ _
  by_cases hrun : c.state = .running
  · have hdispatch : dispatch c.state c.health context (.predict chunk) =
        ⟨[.sample .started], .computing chunk, fun _ o => discharge context o⟩ := if_pos hrun
    have hreached : (c.service context (.predict chunk)).reached = .computing chunk := by
      rw [hwraps.reached, hdispatch]
    have hleave := hwraps.leave (dispatch_computing (hwraps.reached ▸ hreached)).2
    cases hcancel : c.cancel.ready with
    | true =>
        obtain ⟨c', after, hconclude, -⟩ := gauges_conclude
          (c.opened (c.service context (.predict chunk)) chunk)
          (c.opened (c.service context (.predict chunk)) chunk).now c.now (.error .cancelled) hleave
        exact Or.inl ⟨c', after, _, (take_cancelled c context _ hreached hcancel).trans hconclude,
          Or.inr ⟨_, rfl⟩⟩
    | false =>
        -- What has been logged and counted on the way in does not reach the backend.
        have hsame := same_opened c (c.service context (.predict chunk)) chunk
        have hcompute : (c.opened (c.service context (.predict chunk)) chunk).compute = c.compute := by
          rw [opened, compute_applyAll, compute_applyAll]
        have hawaits : (c.awaited (c.service context (.predict chunk)) chunk).Awaits
            (c.backend.compute c.compute chunk.content).answer := by
          refine ⟨hleave, ?_⟩
          simp only [awaited, Handler.race, hsame.backend, hcompute]
        have htake := take_begun c context _ hreached hcancel
        rcases poll_cases (c.begun (c.service context (.predict chunk)) chunk)
          (c.awaited (c.service context (.predict chunk)) chunk) with
          ⟨-, hpoll⟩ | ⟨w, c', after, o, -, hpoll, -⟩
        · exact Or.inr ⟨_, _, htake.trans hpoll, hawaits⟩
        · exact Or.inl ⟨c', after, o, htake.trans hpoll, poll_yields hawaits hpoll⟩
  · obtain ⟨c', after, htake, -⟩ := take_late c hstages hrun context chunk
    exact Or.inl ⟨c', after, _, htake, Or.inr ⟨_, rfl⟩⟩

end Core

end Call

/-! ### Exchanges -/

namespace Http

open Call (Yields)
open Backend (Answer)
open Lifecycle (Happening)

variable {σ : Type}

/-- What has become of a request for a vector: it waits for the backend's answer, it has been answered
with the vector or with an error, or its caller has gone away. -/
structure Exchange.Fetches (a : Answer) (e : Exchange σ) : Prop where
  full : e.headOnly = false
  waits : ∀ {request p}, e.phase = .waiting request p →
    (∃ chunk, request = .predict chunk) ∧ p.Awaits a
  /-- It is no stream. -/
  single : ∀ {f heard}, e.phase ≠ .following f heard
  received : ∀ {got}, e.received? = some got →
    (∃ vec, a = .ok vec ∧ got = Client.delivered vec) ∨ got.status.isSuccess = false

private theorem fetches_answered {a : Answer} {e : Exchange σ} (hfull : e.headOnly = false)
    (chunk : Call.Chunk) {o : Call.Outcome} (ho : Yields a o) :
    (e.answered (.predict chunk) o).Fetches a where
  full := hfull
  waits := fun h => by cases h
  single := fun h => by cases h
  received := by
    have hfailed : ∀ (err : Call.Error) {got}, o = .error err →
        (e.answered (.predict chunk) o).received? = some got → got.status.isSuccess = false := by
      intro err got heq hgot
      rw [heq, Client.received?_answered hfull rfl] at hgot
      obtain rfl := Option.some.inj hgot
      exact httpStatus_fails err.code
    intro got hgot
    rcases ho with rfl | ⟨err, rfl⟩
    · cases a with
      | ok vec =>
          rw [Client.received?_answered hfull rfl] at hgot
          exact Or.inl ⟨vec, rfl, (Option.some.inj hgot).symm⟩
      | error err => exact Or.inr (hfailed _ rfl hgot)
    · exact Or.inr (hfailed err rfl hgot)

private theorem fetches_dropped {a : Answer} {e : Exchange σ} (h : e.Fetches a) :
    ({ e with phase := .dropped } : Exchange σ).Fetches a where
  full := h.full
  waits := fun h => by cases h
  single := fun h => by cases h
  received := fun h => by cases h

namespace Server

/-- A request for a vector is answered with the backend's vector or an error, or waits for it. -/
theorem receive_fetches {s : Server σ} (hstages : ∀ t ∈ s.core.stages, t.Watches) {r : Request}
    {chunk : Call.Chunk} (hdecoded : s.decoded? r = some (.predict chunk)) :
    ∃ e, (s.receive r).exchanges[s.exchanges.length]? = some e ∧
      e.Fetches (s.core.backend.compute s.core.compute chunk.content).answer := by
  obtain ⟨hfull, hread⟩ := read_decoded hdecoded
  rcases s.core.take_vector hstages ⟨Call.predictPath, r.metadata⟩ chunk with
    ⟨c', after, o, htake, ho⟩ | ⟨c', p, htake, hp⟩
  · have hreceive : (s.receive r).exchanges = s.exchanges ++
        [Exchange.answered ⟨r.method == "HEAD", .complete, none, ""⟩ (.predict chunk) o] := by
      simp only [receive, hread, Call.Request.method, htake, respond_call]
    exact ⟨_, (congrArg (·[s.exchanges.length]?) hreceive).trans List.getElem?_concat_length,
      fetches_answered hfull chunk ho⟩
  · have hreceive : (s.receive r).exchanges = s.exchanges ++
        [⟨r.method == "HEAD", .waiting (.predict chunk) p, none, ""⟩] := by
      simp only [receive, hread, Call.Request.method, htake]
    refine ⟨_, (congrArg (·[s.exchanges.length]?) hreceive).trans List.getElem?_concat_length, hfull, ?_,
      ?_, ?_⟩
    · intro request p' hphase
      obtain ⟨rfl, rfl⟩ := Phase.waiting.inj hphase
      exact ⟨⟨chunk, rfl⟩, hp⟩
    · intro f heard hphase
      cases hphase
    · intro got hgot
      cases hgot

/-- A look answers a request for a vector, or leaves it as it is. -/
theorem look_fetches {s : Server σ} {i : Nat} {a : Answer} {e : Exchange σ}
    (he : s.exchanges[i]? = some e) (h : e.Fetches a) (j : Nat) :
    ∃ e', (s.look j).exchanges[i]? = some e' ∧ e'.Fetches a := by
  by_cases hij : j = i
  · subst hij
    have hlt := (List.getElem?_eq_some_iff.mp he).1
    rcases s.look_cases j with ⟨hlook, -⟩ | ⟨e₁, f, heard, he₁, hphase, -⟩ |
      ⟨e₁, request, p, w, c', after, o, he₁, hphase, -, hpoll, -, hlook, -⟩
    · exact ⟨e, by rw [hlook]; exact he, h⟩
    · obtain rfl : e = e₁ := Option.some.inj (he.symm.trans he₁)
      exact absurd hphase h.single
    · obtain rfl : e = e₁ := Option.some.inj (he.symm.trans he₁)
      obtain ⟨⟨chunk, rfl⟩, hp⟩ := h.waits hphase
      refine ⟨e.answered (.predict chunk) o, ?_,
        fetches_answered h.full chunk (Call.Core.poll_yields hp hpoll)⟩
      rw [hlook, put]
      exact List.getElem?_set_self hlt
  · exact ⟨e, (s.getElem?_look_ne hij).trans he, h⟩

/-- A caller that goes away gives up its own request, and no other. -/
theorem abort_fetches {s : Server σ} {i : Nat} {a : Answer} {e : Exchange σ}
    (he : s.exchanges[i]? = some e) (h : e.Fetches a) (j : Nat) :
    ∃ e', (s.abort j).exchanges[i]? = some e' ∧ e'.Fetches a := by
  have hlt := (List.getElem?_eq_some_iff.mp he).1
  have hput : ∀ e₁, s.exchanges[j]? = some e₁ →
      (s.abort j).exchanges = s.exchanges.set j { e₁ with phase := .dropped } →
        ∃ e', (s.abort j).exchanges[i]? = some e' ∧ e'.Fetches a := by
    intro e₁ he₁ habort
    rw [habort]
    by_cases hij : j = i
    · subst hij
      obtain rfl : e = e₁ := Option.some.inj (he.symm.trans he₁)
      exact ⟨_, List.getElem?_set_self hlt, fetches_dropped h⟩
    · exact ⟨e, (List.getElem?_set_ne hij).trans he, h⟩
  rcases s.abort_cases j with ⟨-, habort⟩ | ⟨e₁, he₁, -, habort⟩ | ⟨e₁, request, p, he₁, -, habort⟩
  · exact ⟨e, by rw [habort]; exact he, h⟩
  · exact hput e₁ he₁ (by rw [habort]; rfl)
  · exact hput e₁ he₁ (by rw [habort]; rfl)

theorem undergo_fetches {s : Server σ} {i : Nat} {a : Answer} {e : Exchange σ}
    (he : s.exchanges[i]? = some e) (h : e.Fetches a) (x : Happening) :
    ∃ e', (s.undergo x).exchanges[i]? = some e' ∧ e'.Fetches a := by
  rcases undergo_cases s x with hsame | ⟨r, hx⟩ | ⟨id, hx⟩ | ⟨id, hx⟩
  · exact ⟨e, by rw [hsame]; exact he, h⟩
  · obtain ⟨e₁, hexchanges, -⟩ := s.receive_cases r
    refine ⟨e, ?_, h⟩
    rw [hx, hexchanges, List.getElem?_append_left (List.getElem?_eq_some_iff.mp he).1]
    exact he
  · rw [hx]
    exact look_fetches he h id
  · rw [hx]
    exact abort_fetches he h id

theorem undergoAll_fetches {s : Server σ} {i : Nat} {a : Answer} {e : Exchange σ}
    (he : s.exchanges[i]? = some e) (h : e.Fetches a) (traffic : List Happening) :
    ∃ e', (s.undergoAll traffic).exchanges[i]? = some e' ∧ e'.Fetches a := by
  induction traffic generalizing s e with
  | nil => exact ⟨e, he, h⟩
  | cons x rest ih =>
      obtain ⟨e', he', h'⟩ := undergo_fetches he h x
      exact ih he' h'

/-- **A success carries the backend's vector, and the client reads it number by number**: it gets the
same vector exactly if every number is read back as it was, and none at all if one of them is lost. -/
theorem vector_read {s : Server σ} (hstages : ∀ t ∈ s.core.stages, t.Watches) {r : Request}
    {chunk : Call.Chunk} (hdecoded : s.decoded? r = some (.predict chunk)) (traffic : List Happening)
    {e : Exchange σ} (he : ((s.receive r).undergoAll traffic).exchanges[s.exchanges.length]? = some e)
    {got : Received} (hgot : e.received? = some got) (hok : got.status = 200) :
    ∃ vec, (s.core.backend.compute s.core.compute chunk.content).answer = .ok vec ∧
      got = Client.delivered vec ∧ Client.Decodes vec (Client.readEmbedding (some got)) := by
  obtain ⟨e₀, he₀, hfetches₀⟩ := receive_fetches hstages hdecoded
  obtain ⟨e₁, he₁, hfetches⟩ := undergoAll_fetches he₀ hfetches₀ traffic
  obtain rfl : e = e₁ := Option.some.inj (he.symm.trans he₁)
  rcases hfetches.received hgot with ⟨vec, hanswer, rfl⟩ | hfailed
  · exact ⟨vec, hanswer, rfl, Client.decodes_delivered vec⟩
  · rw [hok] at hfailed
    cases hfailed

/-- A server for trials that answers every call for a vector with this one. -/
def answering (vec : List Float) : Server Unit :=
  .new (.new [.logging, .metrics] ⟨.ofSecs 30, true⟩ (Backend.stub vec (.ofMillis 60)) () .empty) 0

/-- What a client is sent that asks such a server for a vector. -/
def fetched (vec : List Float) : Option Received :=
  (((answering vec).receive Lifecycle.Blueprint.errand).undergoAll
    [.meet (.pass (.ofMillis 60)), .look 0]).exchanges[0]?.bind Exchange.received?

/-- A vector that comes back as it was. -/
theorem vector_read_plain :
    (fetched [0.5, -3.0]).map Received.status = some 200 ∧
      Client.readEmbedding (fetched [0.5, -3.0]) = .ok ⟨[0.5, -3.0]⟩ := by
  have hstatus : (fetched [0.5, -3.0]).map Received.status = some 200 := by decide +kernel
  have hstages : ∀ t ∈ (answering [0.5, -3.0]).core.stages, t.Watches := by
    intro t ht
    refine Call.watches_of_shipped ?_
    simpa [answering, new, Call.Core.new] using ht
  have hdecoded : (answering [0.5, -3.0]).decoded? Lifecycle.Blueprint.errand =
      some (.predict (.ofContent "")) := by decide +kernel
  refine ⟨hstatus, ?_⟩
  obtain ⟨got, hfetched, hok⟩ := Option.map_eq_some_iff.mp hstatus
  obtain ⟨e, he, hgot⟩ := Option.bind_eq_some_iff.mp hfetched
  obtain ⟨vec, hanswer, -, hdecodes⟩ := vector_read hstages hdecoded _ he hgot hok
  obtain rfl : [0.5, -3.0] = vec := Except.ok.inj hanswer
  rw [hfetched]
  exact hdecodes.unchanged.mpr (by decide +kernel)

/-- Vectors that do not: what is no number takes the whole vector with it, and a number may come back as
its neighbour. -/
theorem vector_read_otherwise :
    (fetched [0.5, 0.0 / 0.0]).map Received.status = some 200 ∧
      (Client.readEmbedding (fetched [0.5, 0.0 / 0.0])).isOk = false ∧
      (fetched [0.9452706955539223]).map Received.status = some 200 ∧
      (Client.readEmbedding (fetched [0.9452706955539223])).toOption.map Call.Embedding.vec =
        some [0.9452706955539224] ∧
      (0.9452706955539223 : Float) ≠ 0.9452706955539224 := by
  decide +kernel

end Server

end Http

end EmbedServer
