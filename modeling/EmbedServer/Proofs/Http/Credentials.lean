/-
Credentials make no difference.

Of the headers of a request the server reads two by their names, and the rest only to tell the calls.
Neither does it read credentials: the metadata of a call are the last plain value under each name but
theirs.  So a request may lose its credentials, and two requests that differ in nothing else are taken
in the same way by every server, whatever its stages and its backend.

What goes on inside a call is not in the state of a server.  It is in the `View` of a request: what each
stage is given on the way in, what comes back to it, and what the backend is asked.
-/
import EmbedServer.Backend.Simple
import EmbedServer.Call.Stages
import EmbedServer.Lifecycle.Traffic
import EmbedServer.Proofs.Call.Nesting
import EmbedServer.Proofs.Text.Utf8
import Mathlib.Data.List.Forall2

namespace EmbedServer

/-- What is looked up does not depend on what is left out. -/
theorem lookup_filter {α : Type} (keep : String → Bool) (l : List (String × α)) {key : String}
    (h : keep key = true) : (l.filter fun p => keep p.1).lookup key = l.lookup key := by
  induction l with
  | nil => rfl
  | cons p l ih =>
      by_cases hp : keep p.1 = true
      · rw [List.filter_cons_of_pos (by exact hp), List.lookup_cons, List.lookup_cons, ih]
      · have hkey : (key == p.1) = false := beq_false_of_ne fun hc => hp (hc ▸ h)
        rw [List.filter_cons_of_neg (by exact hp), ih, List.lookup_cons, hkey]

/-- What is looked up does not depend on other names. -/
theorem lookup_filter_other {α : Type} (l : List (String × α)) {name key : String} (h : key ≠ name) :
    (l.filter fun p => p.1 != name).lookup key = l.lookup key :=
  lookup_filter (· != name) l (bne_iff_ne.mpr h)

/-! ### Metadata -/

namespace Call.Metadata

private theorem get?_append (m m' : Metadata) (key : String) :
    get? (m ++ m') key = (get? m key).or (get? m' key) := List.lookup_append

@[simp] theorem get?_set_self (m : Metadata) (name value : String) :
    (m.set name value).get? name = some value := by
  have hnone : get? (m.filter fun p => p.1 != name) name = none := by
    rw [get?, List.lookup_eq_none_iff]
    intro p hp
    have hne := bne_iff_ne.mp (List.mem_filter.mp hp).2
    exact bne_iff_ne.mpr (Ne.symm hne)
  rw [set, get?_append, hnone]
  simp [get?]

private theorem get?_set_other (m : Metadata) {name key : String} (h : key ≠ name) (value : String) :
    (m.set name value).get? key = m.get? key := by
  have hne : (key == name) = false := beq_false_of_ne h
  have hothers : get? (m.filter fun p => p.1 != name) key = m.get? key := lookup_filter_other m h
  rw [set, get?_append, hothers]
  simp [get?, List.lookup_cons, hne]

/-- The names that have values. -/
def names (m : Metadata) : List String := m.map Prod.fst

private theorem names_set (m : Metadata) (name value : String) :
    (m.set name value).names = m.names.filter (· != name) ++ [name] := by
  simp only [names, set, List.map_append, List.map_cons, List.map_nil, List.filter_map]
  rfl

private theorem nodup_set {m : Metadata} (h : m.names.Nodup) (name value : String) :
    (m.set name value).names.Nodup := by
  rw [names_set, List.nodup_append]
  refine ⟨h.filter _, by simp, ?_⟩
  intro a ha b hb
  have hne := (List.mem_filter.mp ha).2
  rw [List.mem_singleton.mp hb]
  exact bne_iff_ne.mp hne

end Call.Metadata

namespace Http

open Call (Context Outcome Returning Returned Stage Visit)
open Lifecycle (Happening)

/-! ### Plain values -/

/-- A plain value has the bytes of its text. -/
theorem encode_plainText {value : List UInt8} {text : String} (h : plainText? value = some text) :
    Utf8.encode text = value := by
  unfold plainText? at h
  split at h
  · rename_i hplain
    obtain rfl := Option.some.inj h
    exact Utf8.encode_decodeLossy_ascii fun b hb => by
      have hb := List.all_eq_true.mp hplain b hb
      simp only [isPlainByte, Bool.or_eq_true, Bool.and_eq_true, decide_eq_true_eq] at hb
      rcases hb with ⟨-, hlt⟩ | rfl
      · exact UInt8.lt_trans hlt (by decide)
      · decide
  · cases h

/-! ### Requests without credentials

The metadata of a call are built up header by header.  Whoever builds them passes over credentials, so
that leaving these out before makes no difference afterwards.
-/

/-- Whether a header, as it comes, carries credentials. -/
def isCredential (h : Header) : Bool := Text.lower h.1 == "authorization"

/-- The plain values under a name in lower case, in order. -/
def plainValues (headers : List Header) (key : String) : List (List UInt8) :=
  (headers.filter fun h => Text.lower h.1 == key && h.2.all isPlainByte).map Prod.snd

namespace Request

/-- The request without its credentials. -/
def withoutCredentials (r : Request) : Request :=
  { r with headers := r.headers.filter fun h => h.1 != "authorization" }

private theorem header?_withoutCredentials (r : Request) {name : String} (h : name ≠ "authorization") :
    r.withoutCredentials.header? name = r.header? name := lookup_filter_other r.headers h

/-- What calls learn of one more header. -/
def noted (m : Call.Metadata) (h : Header) : Call.Metadata :=
  if h.1 = "authorization" then m
  else match plainText? h.2 with
    | some text => m.set h.1 text
    | none => m

private theorem metadata_eq (r : Request) : r.metadata = r.headers.foldl noted [] := rfl

private theorem noted_credential (m : Call.Metadata) {h : Header} (hname : h.1 = "authorization") :
    noted m h = m := if_pos hname

/-- What is noted under a name is the value, if it is plain. -/
theorem get?_noted (m : Call.Metadata) (h : Header) {key : String} (hkey : key ≠ "authorization") :
    ((noted m h).get? key).map Utf8.encode =
      if h.1 = key ∧ h.2.all isPlainByte then some h.2 else (m.get? key).map Utf8.encode := by
  by_cases hplain : h.2.all isPlainByte
  · have htext : plainText? h.2 = some (Utf8.decodeLossy h.2) := if_pos hplain
    by_cases hname : h.1 = key
    · have hother : h.1 ≠ "authorization" := hname ▸ hkey
      rw [if_pos ⟨hname, hplain⟩, noted, if_neg hother, htext, ← hname, Call.Metadata.get?_set_self,
        Option.map_some, encode_plainText htext]
    · rw [if_neg fun hboth => hname hboth.1]
      by_cases hcredential : h.1 = "authorization"
      · rw [noted_credential m hcredential]
      · rw [noted, if_neg hcredential, htext, Call.Metadata.get?_set_other m (Ne.symm hname)]
  · have htext : plainText? h.2 = none := if_neg hplain
    have hnoted : noted m h = m := by
      unfold noted
      rw [htext]
      exact ite_self m
    rw [if_neg fun hboth => hplain hboth.2, hnoted]

/-- The metadata hold the last plain value under each name. -/
theorem get?_foldl_noted (headers : List Header) (m : Call.Metadata) {key : String}
    (hkey : key ≠ "authorization") :
    ((headers.foldl noted m).get? key).map Utf8.encode =
      ((headers.filter fun h => h.1 == key && h.2.all isPlainByte).map Prod.snd).getLast?.or
        ((m.get? key).map Utf8.encode) := by
  induction headers generalizing m with
  | nil => rfl
  | cons h rest ih =>
      rw [List.foldl_cons, ih, get?_noted m h hkey]
      by_cases hboth : h.1 = key ∧ h.2.all isPlainByte
      · rw [if_pos hboth, List.filter_cons_of_pos (by simpa using hboth), List.map_cons,
          List.getLast?_cons]
        cases ((rest.filter fun h => h.1 == key && h.2.all isPlainByte).map Prod.snd).getLast? <;> rfl
      · rw [if_neg hboth, List.filter_cons_of_neg (by simpa using hboth)]

/-- The metadata name nothing twice, and no credentials. -/
theorem names_foldl_noted (headers : List Header) {m : Call.Metadata}
    (h : m.names.Nodup ∧ "authorization" ∉ m.names) :
    (headers.foldl noted m).names.Nodup ∧ "authorization" ∉ (headers.foldl noted m).names := by
  induction headers generalizing m with
  | nil => exact h
  | cons header rest ih =>
      refine ih ?_
      by_cases hcredential : header.1 = "authorization"
      · rwa [noted_credential m hcredential]
      · rw [noted, if_neg hcredential]
        split
        · refine ⟨Call.Metadata.nodup_set h.1 _ _, ?_⟩
          rw [Call.Metadata.names_set]
          intro hmem
          rcases List.mem_append.mp hmem with hmem | hmem
          · exact h.2 (List.mem_filter.mp hmem).1
          · exact hcredential (List.mem_singleton.mp hmem).symm
        · exact h

private theorem metadata_withoutCredentials (r : Request) : r.withoutCredentials.metadata = r.metadata := by
  have hfold : ∀ (headers : List Header) (m : Call.Metadata),
      (headers.filter fun h => h.1 != "authorization").foldl noted m = headers.foldl noted m := by
    intro headers
    induction headers with
    | nil => exact fun m => rfl
    | cons h rest ih =>
        intro m
        by_cases hcredential : h.1 = "authorization"
        · rw [List.filter_cons_of_neg (by simp [hcredential]), ih, List.foldl_cons,
            noted_credential m hcredential]
        · rw [List.filter_cons_of_pos (by simp [hcredential]), List.foldl_cons, List.foldl_cons, ih]
  exact hfold r.headers []

/-- A request has the headers that came, with their names in lower case. -/
theorem read?_eq_some {method target : String} {headers : List Header} {pieces : List (List UInt8)}
    {r : Request} (h : read? method target headers pieces = some r) :
    ∃ t, Target.read? target = some t ∧
      r = ⟨method, t, headers.map fun h => (Text.lower h.1, h.2), pieces⟩ := by
  obtain ⟨t, ht, h⟩ := Option.bind_eq_some_iff.mp h
  split at h
  · exact ⟨t, ht, (Option.some.inj h).symm⟩
  · cases h

/-- What calls learn of the headers as they came. -/
theorem metadata_read {method target : String} {headers : List Header} {pieces : List (List UInt8)}
    {r : Request} (h : read? method target headers pieces = some r) :
    r.metadata.names.Nodup ∧ "authorization" ∉ r.metadata.names ∧
      ∀ key, key ≠ "authorization" →
        (r.metadata.get? key).map Utf8.encode = (plainValues headers key).getLast? := by
  obtain ⟨t, -, rfl⟩ := read?_eq_some h
  have hnames := names_foldl_noted (headers.map fun h => (Text.lower h.1, h.2)) (m := [])
    ⟨List.nodup_nil, List.not_mem_nil⟩
  refine ⟨hnames.1, hnames.2, ?_⟩
  intro key hkey
  rw [metadata_eq, get?_foldl_noted _ [] hkey, List.filter_map, List.map_map]
  exact Option.or_none

/-- Requests that came with the same headers but for the credentials are the same but for them. -/
theorem withoutCredentials_read {method target : String} {headers headers' : List Header}
    {pieces : List (List UInt8)} {r r' : Request} (h : read? method target headers pieces = some r)
    (h' : read? method target headers' pieces = some r')
    (heq : headers.filter (!isCredential ·) = headers'.filter (!isCredential ·)) :
    r.withoutCredentials = r'.withoutCredentials := by
  have hnames : ∀ headers : List Header,
      (headers.map fun h => (Text.lower h.1, h.2)).filter (fun h => h.1 != "authorization") =
        (headers.filter (!isCredential ·)).map fun h => (Text.lower h.1, h.2) :=
    fun headers => List.filter_map
  obtain ⟨t, ht, rfl⟩ := read?_eq_some h
  obtain ⟨t', ht', rfl⟩ := read?_eq_some h'
  obtain rfl := Option.some.inj (ht.symm.trans ht')
  simp only [withoutCredentials, hnames, heq]

private theorem saysJson_withoutCredentials (r : Request) : r.withoutCredentials.saysJson = r.saysJson := by
  have hname : "content-type" ≠ "authorization" := by decide
  simp only [saysJson, r.header?_withoutCredentials hname]

private theorem declared?_withoutCredentials (r : Request) :
    r.withoutCredentials.declared? = r.declared? := by
  have hname : "content-length" ≠ "authorization" := by decide
  simp only [declared?, r.header?_withoutCredentials hname]

private theorem readBody_withoutCredentials {α : Type} (r : Request) (limit : Limit) (shape : Json.Reader α) :
    r.withoutCredentials.readBody limit shape = r.readBody limit shape := by
  have hoverflows : r.withoutCredentials.overflows limit = r.overflows limit := by
    simp only [overflows, allowance?, declared?_withoutCredentials]
    rfl
  simp only [readBody, saysJson_withoutCredentials, hoverflows]
  rfl

end Request

/-! ### What is seen of a call -/

/-- What is seen of a call beyond the server. -/
structure View where
  /-- With what the call comes to the stages. -/
  entry : Context × Call.Request
  /-- What each stage is given that the call enters. -/
  given : List (Context × Call.Request)
  /-- What comes back to each stage that has handed the call on, the innermost first, if the call takes
  this long and the endpoint, or the stage that answers, comes to this. -/
  back : Duration → Outcome → List Returning
  /-- What the backend is asked to compute, if it is asked. -/
  text : Option String

/-- Two things that go on at a server and differ in the credentials of a request at most. -/
inductive Alike : Happening → Happening → Prop
  | request {method target : String} {headers headers' : List Header} {pieces : List (List UInt8)}
      {r r' : Request} (h : Request.read? method target headers pieces = some r)
      (h' : Request.read? method target headers' pieces = some r')
      (heq : headers.filter (!isCredential ·) = headers'.filter (!isCredential ·)) :
      Alike (.meet (.request r)) (.meet (.request r'))
  | same (x : Happening) : Alike x x

namespace Server

variable {σ : Type}

/-- What is seen of the call in a request, if there is one. -/
def view? (s : Server σ) (r : Request) : Option View :=
  match s.read r with
  | .call request =>
    let entry : Context × Call.Request := (⟨request.method, r.metadata⟩, request)
    let inner := Call.innermost s.core.stages (Call.dispatch s.core.state s.core.health) entry
    some ⟨entry, Call.shownTo s.core.stages entry,
      fun elapsed o => Call.shownBack elapsed (inner.leave elapsed o) (Call.passed s.core.stages entry),
      s.core.asked? entry.1 request⟩
  | _ => none

/-- What is seen of the call that comes with what goes on, if there is one. -/
def seen? (s : Server σ) : Happening → Option View
  | .meet (.request r) => s.view? r
  | _ => none

/-- What is seen of all calls while this goes on. -/
def views : Server σ → List Happening → List (Option View)
  | _, [] => []
  | s, x :: rest => s.seen? x :: views (s.undergo x) rest

private theorem read_withoutCredentials (s : Server σ) (r : Request) :
    s.read r.withoutCredentials = s.read r := by
  have hmuch : r.withoutCredentials.declaresTooMuch s.limit = r.declaresTooMuch s.limit := by
    simp only [Request.declaresTooMuch, Request.declared?_withoutCredentials]
  have hat : ∀ route, s.readAt r.withoutCredentials route = s.readAt r route := by
    intro route
    cases route with
    | predict => simp only [readAt, readCall, Request.readBody_withoutCredentials]
    | check => simp only [readAt, readCall, Request.readBody_withoutCredentials]
    | watch => rfl
    | probeAll => rfl
    | probe part => rfl
    | metrics => rfl
  simp only [read, hmuch, hat]
  rfl

theorem receive_withoutCredentials (s : Server σ) (r : Request) :
    s.receive r.withoutCredentials = s.receive r := by
  simp only [receive, read_withoutCredentials, Request.metadata_withoutCredentials]
  rfl

private theorem view?_withoutCredentials (s : Server σ) (r : Request) :
    s.view? r.withoutCredentials = s.view? r := by
  simp only [view?, read_withoutCredentials, Request.metadata_withoutCredentials]

/-- What goes on changes a server in the same way, and the same is seen of it. -/
theorem undergo_alike (s : Server σ) {x x' : Happening} (h : Alike x x') :
    s.undergo x = s.undergo x' ∧ s.seen? x = s.seen? x' := by
  cases h with
  | @request _ _ _ _ _ r r' h h' heq =>
      have hsame := Request.withoutCredentials_read h h' heq
      refine ⟨?_, ?_⟩
      · simp only [undergo, meet]
        rw [← s.receive_withoutCredentials r, hsame, s.receive_withoutCredentials r']
      · simp only [seen?]
        rw [← s.view?_withoutCredentials r, hsame, s.view?_withoutCredentials r']
  | same x => exact ⟨rfl, rfl⟩

/-- So does all that goes on. -/
theorem undergoAll_alike (s : Server σ) {traffic traffic' : List Happening}
    (h : List.Forall₂ Alike traffic traffic') :
    s.undergoAll traffic = s.undergoAll traffic' ∧ s.views traffic = s.views traffic' := by
  induction h generalizing s with
  | nil => exact ⟨rfl, rfl⟩
  | @cons x x' rest rest' hx hrest ih =>
      obtain ⟨hundergo, hseen⟩ := s.undergo_alike hx
      obtain ⟨hall, hviews⟩ := ih (s.undergo x)
      refine ⟨?_, ?_⟩
      · simp only [undergoAll, List.foldl_cons, ← hundergo]
        exact hall
      · rw [views, views, hviews, hseen, hundergo]

/-- The call in a request comes to the stages with the metadata of the request. -/
theorem view?_metadata {s : Server σ} {r : Request} {v : View} (h : s.view? r = some v) :
    v.entry.1.metadata = r.metadata := by
  unfold view? at h
  split at h
  · rw [← Option.some.inj h]
  · cases h

/-- **Credentials are not seen.**  What goes on at two servers with the same stages and backends that
start out the same, and differs in nothing but the credentials of requests, makes no difference to the
servers at any time: not to what is sent, logged, traced or counted, nor to the state of the backend.
Nor does it make one to what stages and backend see of the calls.  And the metadata that a call brings
along have no credentials, but the last plain value under every other name. -/
theorem credentials_unseen (s : Server σ) {traffic traffic' : List Happening}
    (h : List.Forall₂ Alike traffic traffic') :
    (∀ n, s.undergoAll (traffic.take n) = s.undergoAll (traffic'.take n)) ∧
      s.views traffic = s.views traffic' ∧
      ∀ {method target : String} {headers : List Header} {pieces : List (List UInt8)} {r : Request},
        Request.read? method target headers pieces = some r →
          ∀ (s : Server σ) (v : View), s.view? r = some v →
            let m := v.entry.1.metadata
            m.names.Nodup ∧ "authorization" ∉ m.names ∧
              ∀ key, key ≠ "authorization" →
                (m.get? key).map Utf8.encode = (plainValues headers key).getLast? := by
  refine ⟨?_, (s.undergoAll_alike h).2, ?_⟩
  · intro n
    exact (s.undergoAll_alike (List.forall₂_take n h)).1
  · intro method target headers pieces r hr s v hv m
    have hm : m = r.metadata := view?_metadata hv
    rw [hm]
    exact Request.metadata_read hr

/-- A call with credentials, and one with others in another place, to a server with a stage that refuses
calls without credentials: both are refused, though other values get through. -/
theorem credentials_unseen_by_gate :
    let header (name value : String) : Header := (name, Utf8.encode value)
    let others : List Header := [header "Content-Type" "application/json", header "X-Client" "a",
      header "x-client" "b", ("X-CLIENT", [0xFF])]
    let headers := header "Authorization" "Bearer a" :: others
    let headers' := others ++ [("AUTHORIZATION", [0xFF]), header "authorization" ""]
    let pieces := [Utf8.encode (Call.Chunk.ofContent "x").toJson.render]
    let request (headers : List Header) : Request :=
      ⟨"POST", ⟨Call.predictPath, none⟩, headers.map fun h => (Text.lower h.1, h.2), pieces⟩
    let gate := Stage.requireKey "gate" "authorization" ⟨.invalidArgument, "credentials wanted"⟩
    let core := Call.Core.new [.logging, .metrics, gate] ⟨.ofSecs 30, true⟩ (Backend.stub [] (.ofMillis 60))
      () .empty
    let s := Server.new core 0
    let traffic : List Happening := [.meet (.request (request headers)), .look 0]
    let traffic' : List Happening := [.meet (.request (request headers')), .look 0]
    let metadata : Call.Metadata := [("content-type", "application/json"), ("x-client", "b")]
    List.Forall₂ Alike traffic traffic' ∧
      ((s.view? (request headers')).map fun v => v.given.map (·.1.metadata)) =
        some [metadata, metadata, metadata] ∧
      (s.undergoAll traffic).exchanges.map Exchange.sent =
        [(Call.Error.toJson ⟨.invalidArgument, "credentials wanted"⟩).render] ∧
      (∀ n, s.undergoAll (traffic.take n) = s.undergoAll (traffic'.take n)) ∧
      s.views traffic = s.views traffic' := by
  intro header others headers headers' pieces request gate core s traffic traffic' metadata
  have hread : Request.read? "POST" Call.predictPath headers pieces = some (request headers) := by
    decide +kernel
  have hread' : Request.read? "POST" Call.predictPath headers' pieces = some (request headers') := by
    decide +kernel
  have heq : headers.filter (!isCredential ·) = headers'.filter (!isCredential ·) := by decide +kernel
  have halike : List.Forall₂ Alike traffic traffic' :=
    .cons (.request hread hread' heq) (.cons (.same _) .nil)
  obtain ⟨hrun, hviews, -⟩ := s.credentials_unseen halike
  exact ⟨halike, by decide +kernel, by decide +kernel, hrun, hviews⟩

end Server

end Http

end EmbedServer
