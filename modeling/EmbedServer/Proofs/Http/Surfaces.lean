/-
Three places tell the health of a key.

A question to check a key has the key in its body, a probe has it in the path, and a stream that follows
it has it in the query.  Each place reads the key in its own way, and each gives back the key that was
written into it.  All three then look into the same registry: a question and a probe look the key up,
and a stream tells first what a lookup gives, whether the key is there or not, and whether the server
drains or not.
-/
import EmbedServer.Backend.Simple
import EmbedServer.Proofs.Call.Message
import EmbedServer.Proofs.Http.Carried
import EmbedServer.Proofs.Http.Inquiry
import EmbedServer.Proofs.Text.Percent
import Mathlib.Data.List.TakeWhile

namespace EmbedServer.Http

open Text.Percent (isUnreserved isWritten)

variable {σ : Type}

/-! ### Targets

A target is cut at its marks before anything in it is decoded.  So the key has to be written without these
marks, and it is then read back from the part in which it stands.
-/

/-- A key as it stands in a target. -/
def writtenKey (plain : Char → Bool) (key : String) : String :=
  String.ofList (Text.Percent.encode plain key.toList)

/-- The target that probes a key. -/
def probeTarget (plain : Char → Bool) (key : String) : String :=
  if key = "" then "/health" else "/health/" ++ writtenKey plain key

/-- The target that follows a key. -/
def watchTarget (plain : Char → Bool) (key : String) : String :=
  Call.watchPath ++ "?service=" ++ writtenKey plain key

namespace Target

/-- What is written can stand in a path and in a query. -/
theorem allowed_written {c : Char} (h : isWritten c = true) :
    isPathChar c = true ∧ isQueryChar c = true := by
  have hlow : 0x21 ≤ c.toNat := by
    simp only [isWritten, Bool.or_eq_true, decide_eq_true_eq] at h
    rcases h with h | rfl
    · exact (Text.Percent.toNat_unreserved h).1
    · decide
  have hclear : ∀ marks : List Char, marks.any isWritten = false → marks.contains c = false := by
    intro marks hmarks
    rw [Bool.eq_false_iff]
    intro hin
    have hmark := List.any_eq_false.mp hmarks c (List.contains_iff_mem.mp hin)
    exact Text.Percent.ne_of_written h (Bool.eq_false_iff.mpr hmark) rfl
  refine ⟨?_, ?_⟩
  · rw [isPathChar, hclear _ (by decide), decide_eq_true hlow, Bool.not_false, Bool.and_self,
      Bool.or_true]
  · rw [isQueryChar, hclear _ (by decide), decide_eq_true hlow, Bool.not_false, Bool.and_self,
      Bool.or_true]

/-- No mark that ends a path is in one. -/
theorem marks_path {path : List Char} (h : ∀ c ∈ path, isPathChar c = true) :
    (∀ c ∈ path, (c != '#') = true) ∧ ∀ c ∈ path, (c != '?') = true := by
  refine ⟨?_, ?_⟩
  all_goals
    intro c hc
    refine bne_iff_ne.mpr ?_
    rintro rfl
    exact absurd (h _ hc) (by decide)

/-- The target with this path. -/
theorem ofPath?_path {path : List Char} (hne : path ≠ []) (h : ∀ c ∈ path, isPathChar c = true) :
    ofPath? path = some ⟨String.ofList path, none⟩ := by
  obtain ⟨hclient, hquery⟩ := marks_path h
  have hall : path.all isPathChar = true := List.all_eq_true.mpr h
  simp [ofPath?, List.takeWhile_eq_self_iff.mpr hclient, List.takeWhile_eq_self_iff.mpr hquery,
    List.dropWhile_eq_nil_iff.mpr hquery, hall, hne]

/-- The target with this path and this query. -/
theorem ofPath?_query {path query : List Char} (hne : path ≠ [])
    (h : ∀ c ∈ path, isPathChar c = true) (h' : ∀ c ∈ query, isQueryChar c = true) :
    ofPath? (path ++ '?' :: query) = some ⟨String.ofList path, some (String.ofList query)⟩ := by
  obtain ⟨hclient, hquery⟩ := marks_path h
  have hwhole : (path ++ '?' :: query).takeWhile (· != '#') = path ++ '?' :: query := by
    rw [List.takeWhile_eq_self_iff]
    intro c hc
    rcases List.mem_append.mp hc with hc | hc
    · exact hclient c hc
    · rcases List.mem_cons.mp hc with rfl | hc
      · decide
      · refine bne_iff_ne.mpr ?_
        rintro rfl
        exact absurd (h' _ hc) (by decide)
  have hpath : (path ++ '?' :: query).takeWhile (· != '?') = path := by
    rw [List.takeWhile_append_of_pos hquery]
    simp
  have hrest : (path ++ '?' :: query).dropWhile (· != '?') = '?' :: query := by
    rw [List.dropWhile_append_of_pos hquery]
    simp
  have hall : path.all isPathChar = true := List.all_eq_true.mpr h
  have hall' : query.all isQueryChar = true := List.all_eq_true.mpr h'
  simp [ofPath?, hwhole, hpath, hrest, hall, hall', hne]

/-- A target that starts with its path and is not too long. -/
theorem read?_slash {text : String} {rest : List Char} (h : text.toList = '/' :: rest)
    (hfits : text.utf8ByteSize ≤ maxLength) : read? text = ofPath? ('/' :: rest) := by
  simp only [read?, if_neg (Nat.not_lt.mpr hfits), h]

end Target

/-- The place of a probe, by its path. -/
theorem ofPath?_probe {part : String} (hne : part.isEmpty = false) (h : '/' ∉ part.toList) :
    Route.ofPath? ("/health/" ++ part) = some (.probe part) := by
  have hstart : Text.startsWith ("/health/" ++ part) "/health/" = true := by
    simp [Text.startsWith]
  have hother : ∀ path : String, Text.startsWith path "/health/" = false →
      "/health/" ++ part ≠ path := by
    rintro path hpath rfl
    rw [hstart] at hpath
    cases hpath
  have hrest : Text.dropStart? ("/health/" ++ part) "/health/" = some part := by
    rw [Text.dropStart?, if_pos hstart]
    simp
  rw [Route.ofPath?, if_neg (hother _ (by decide)), if_neg (hother _ (by decide)),
    if_neg (hother _ (by decide)), if_neg (hother _ (by decide)), if_neg (hother _ (by decide)), hrest]
  simp [hne, h]

/-- A list without separators is one field. -/
theorem splitAt_whole {sep : Char} {cs : List Char} (h : sep ∉ cs) : Text.splitAt sep cs = [cs] := by
  induction cs with
  | nil => rfl
  | cons c cs ih =>
      have hc : c ≠ sep := fun heq => h (heq ▸ List.mem_cons_self)
      rw [Text.splitAt, if_neg hc, ih fun hin => h (List.mem_cons_of_mem c hin)]

section

variable {plain : Char → Bool} (hplain : ∀ c, plain c = true → isUnreserved c = true)
include hplain

private theorem written_of_mem {key : String} {c : Char} (hc : c ∈ (writtenKey plain key).toList) :
    isWritten c = true := by
  rw [writtenKey, String.toList_ofList] at hc
  exact Text.Percent.written_encode hplain _ c hc

private theorem not_mem_writtenKey {key : String} {mark : Char} (hmark : isWritten mark = false) :
    mark ∉ (writtenKey plain key).toList := by
  intro hin
  rw [written_of_mem hplain hin] at hmark
  cases hmark

/-- A key is read back from a path. -/
theorem pathKey?_writtenKey (key : String) : pathKey? (writtenKey plain key) = some key := by
  rw [pathKey?, writtenKey, Text.Percent.decode_encode hplain, String.ofList_toList,
    Utf8.decode?_encode]

private theorem writtenKey_isEmpty {key : String} (h : key ≠ "") :
    (writtenKey plain key).isEmpty = false := by
  rw [Bool.eq_false_iff]
  intro hempty
  have hkey := pathKey?_writtenKey hplain key
  have hnone : pathKey? "" = some "" := by decide +kernel
  rw [String.isEmpty_iff.mp hempty, hnone] at hkey
  exact h (Option.some.inj hkey).symm

/-- A key is read back from a query. -/
theorem queryKey?_writtenKey (path key : String) :
    queryKey? ⟨path, some ("service=" ++ writtenKey plain key)⟩ = some key := by
  let written := (writtenKey plain key).toList
  have hquery : ("service=" ++ writtenKey plain key).toList = "service=".toList ++ written :=
    String.toList_append
  have hfields : Text.splitAt '&' ("service=".toList ++ written) = ["service=".toList ++ written] := by
    refine splitAt_whole ?_
    intro hin
    rcases List.mem_append.mp hin with hin | hin
    · exact absurd hin (by decide)
    · exact not_mem_writtenKey hplain (by decide) hin
  have hname : ("service=".toList ++ written).takeWhile (· != '=') = "service".toList := by
    rfl
  have hvalue : Target.parameters.plain written = key := by
    have hspaces : written.map (fun c => if c = '+' then ' ' else c) = written := by
      refine (List.map_congr_left ?_).trans (List.map_id _)
      intro c hc
      have hplus : c ≠ '+' := Text.Percent.ne_of_written (written_of_mem hplain hc) (by decide)
      exact if_neg hplus
    rw [Target.parameters.plain, hspaces, String.ofList_toList, writtenKey,
      Text.Percent.decode_encode hplain, String.ofList_toList, Utf8.decodeLossy_encode]
  have hservice : Target.parameters.plain "service".toList = "service" := by decide +kernel
  have hparameters : Target.parameters ⟨path, some ("service=" ++ writtenKey plain key)⟩ =
      [("service", key)] := by
    have hkept : ["service=".toList ++ written].filter (!·.isEmpty) =
        ["service=".toList ++ written] := rfl
    have hrest : ("service=".toList ++ written).drop ("service".toList.length + 1) = written := rfl
    rw [Target.parameters, Option.getD_some, hquery, hfields, hkept, List.map_cons, List.map_nil]
    simp only [hname, hrest, hservice, hvalue]
  rw [queryKey?, hparameters]
  rfl

/-- The target that probes a key names the place that tells its health. -/
theorem read?_probeTarget {key : String}
    (hfits : (probeTarget plain key).utf8ByteSize ≤ Target.maxLength) :
    ∃ t, Target.read? (probeTarget plain key) = some t ∧
      Route.ofPath? t.path = some (if key = "" then .probeAll else .probe (writtenKey plain key)) := by
  by_cases hkey : key = ""
  · rw [probeTarget, if_pos hkey, if_pos hkey]
    exact ⟨⟨"/health", none⟩, by decide +kernel, by decide +kernel⟩
  · rw [probeTarget, if_neg hkey] at hfits
    rw [probeTarget, if_neg hkey, if_neg hkey]
    have hlist : ("/health/" ++ writtenKey plain key).toList =
        '/' :: ("health/".toList ++ (writtenKey plain key).toList) := String.toList_append
    have hall : ∀ c ∈ '/' :: ("health/".toList ++ (writtenKey plain key).toList),
        Target.isPathChar c = true := by
      intro c hc
      rcases List.mem_append.mp (show c ∈ "/health/".toList ++ _ from hc) with hc | hc
      · have hplace : "/health/".toList.all Target.isPathChar = true := by decide
        exact List.all_eq_true.mp hplace c hc
      · exact (Target.allowed_written (written_of_mem hplain hc)).1
    refine ⟨⟨"/health/" ++ writtenKey plain key, none⟩, ?_, ?_⟩
    · rw [Target.read?_slash hlist hfits, Target.ofPath?_path (List.cons_ne_nil _ _) hall, ← hlist,
        String.ofList_toList]
    · exact ofPath?_probe (writtenKey_isEmpty hplain hkey) (not_mem_writtenKey hplain (by decide))

/-- The target that follows a key. -/
theorem read?_watchTarget {key : String}
    (hfits : (watchTarget plain key).utf8ByteSize ≤ Target.maxLength) :
    Target.read? (watchTarget plain key) =
      some ⟨Call.watchPath, some ("service=" ++ writtenKey plain key)⟩ := by
  have hlist : (watchTarget plain key).toList =
      '/' :: (Call.watchPath.toList.tail ++ '?' :: ("service=" ++ writtenKey plain key).toList) := by
    have hpath : Call.watchPath.toList = '/' :: Call.watchPath.toList.tail := rfl
    have hquery : "?service=".toList = '?' :: "service=".toList := rfl
    simp only [watchTarget, String.toList_append, hquery]
    rw [hpath]
    simp
  have hpath : ∀ c ∈ '/' :: Call.watchPath.toList.tail, Target.isPathChar c = true := by
    have hplace : ('/' :: Call.watchPath.toList.tail).all Target.isPathChar = true := by decide
    exact List.all_eq_true.mp hplace
  have hquery : ∀ c ∈ ("service=" ++ writtenKey plain key).toList, Target.isQueryChar c = true := by
    intro c hc
    rw [String.toList_append] at hc
    rcases List.mem_append.mp hc with hc | hc
    · have hname : "service=".toList.all Target.isQueryChar = true := by decide
      exact List.all_eq_true.mp hname c hc
    · exact (Target.allowed_written (written_of_mem hplain hc)).2
  rw [Target.read?_slash hlist hfits, ← List.cons_append,
    Target.ofPath?_query (List.cons_ne_nil _ _) hpath hquery, String.ofList_toList]
  rfl

end

/-! ### Streams

The first event is sent at once and whether the server drains or not, so it can be compared with the
answer to a question.
-/

/-- What a stream tells first is what a lookup gives. -/
theorem Follow.take_start (r : Health.Registry) (draining : Bool) (key : String) :
    ∃ more f, (Follow.start r key).take r draining = (r.get key :: more, f) := by
  obtain ⟨f, hpoll⟩ : ∃ f, (Follow.start r key).poll r draining = (.yields (r.get key), f) := by
    cases draining with
    | true => exact ⟨_, Follow.poll_draining r key _⟩
    | false =>
        unfold Follow.start Health.Watch.start Health.Registry.get
        cases hfind : r.find? key with
        | none => exact ⟨_, rfl⟩
        | some e => exact ⟨⟨key, some (.following key (some e.version))⟩, by
            simp [Follow.poll, Health.Watch.poll, hfind]⟩
  exact ⟨_, _, Follow.pollAll_yields hpoll 2⟩

namespace Server

/-- What a response makes of the exchange of a caller who wants all of it. -/
theorem respond_whole (s : Server σ) {e : Exchange σ} {response : Response} {text : String}
    (hfull : e.headOnly = false) (h : response.content = .whole text) :
    (s.respond e response).received? = some ⟨response.status, Utf8.encode text⟩ := by
  simp [respond, hfull, h, Exchange.received?, Exchange.isComplete]

/-- What a caller who follows a key is sent first. -/
theorem respond_events (s : Server σ) (key : String) :
    let e := s.respond ⟨false, .complete, none, ""⟩ (.events key)
    (e.head.map Prod.fst = some 200) ∧
      ∃ more, e.sent = Follow.event (s.core.health.get key) ++ more := by
  intro e
  have he : e = s.followUp ⟨false, .complete, some (200, (Response.events key).headers), ""⟩
      (.start s.core.health key) s.core.now := rfl
  rw [he]
  obtain ⟨more, f, htake⟩ := Follow.take_start s.core.health s.draining.ready key
  have hsent : "" ++ String.join ((s.core.health.get key :: more).map Follow.event) =
      Follow.event (s.core.health.get key) ++ String.join (more.map Follow.event) := by
    rw [List.map_cons, String.join_cons, String.empty_append]
  refine ⟨by rw [head_followUp]; rfl, ?_⟩
  simp only [followUp, htake, hsent]
  by_cases hover : f.isOver = true
  · exact ⟨_, by rw [if_pos hover]⟩
  · exact ⟨_, by rw [if_neg hover, if_pos (by rfl)]⟩

/-- A request to a place that takes its method is read there. -/
theorem read_route (s : Server σ) {r : Request} {route : Route}
    (hmuch : r.declaresTooMuch s.limit = false) (hroute : Route.ofPath? r.target.path = some route)
    (htakes : route.takes r.method = true) : s.read r = s.readAt r route := by
  simp [read, hmuch, hroute, htakes]

/-- The answer to a question to check a key. -/
theorem receive_check (s : Server σ) (hwatch : ∀ t ∈ s.core.stages, t.Watches) {r : Request}
    {key : String} (hmethod : r.method = "POST") (hpath : r.target.path = Call.checkPath)
    (hmuch : r.declaresTooMuch s.limit = false)
    (hbody : r.readBody s.limit Call.HealthQuery.shape = .ok ⟨key⟩) :
    ∃ e, (s.receive r).exchanges = s.exchanges ++ [e] ∧ e.received? =
      some ⟨200, Utf8.encode (Call.HealthReport.toJson ⟨s.core.health.get key⟩).render⟩ := by
  have hroute : Route.ofPath? r.target.path = some .check := by
    rw [hpath]
    decide +kernel
  have hread : s.read r = .call (.check ⟨key⟩) := by
    rw [s.read_route hmuch hroute (by rw [hmethod]; rfl)]
    simp only [readAt, readCall, hbody]
  obtain ⟨core, after, htake⟩ := take_check hwatch ⟨_, r.metadata⟩ ⟨key⟩
  refine ⟨_, (receive_opens s r).2.2 _ _ _ _ hread htake, ?_⟩
  exact s.respond_whole (by rw [hmethod]; rfl) rfl

/-- The answer to a probe. -/
theorem receive_probe (s : Server σ) {r : Request} {key : String} {route : Route}
    (hmethod : r.method = "GET") (hroute : Route.ofPath? r.target.path = some route)
    (hkey : route = .probeAll ∧ key = "" ∨ ∃ part, route = .probe part ∧ pathKey? part = some key)
    (hmuch : r.declaresTooMuch s.limit = false) :
    ∃ e, (s.receive r).exchanges = s.exchanges ++ [e] ∧ e.received? =
      some ⟨if s.core.health.get key = .serving then 200 else 503,
        Utf8.encode (Call.HealthReport.toJson ⟨s.core.health.get key⟩).render⟩ := by
  have hread : s.read r = .respond (probed s.core.health key) := by
    rcases hkey with ⟨rfl, rfl⟩ | ⟨part, rfl, hpart⟩
    · rw [s.read_route hmuch hroute (by rw [hmethod]; rfl)]
      rfl
    · rw [s.read_route hmuch hroute (by rw [hmethod]; rfl)]
      simp only [readAt, hpart]
  refine ⟨_, (receive_opens s r).1 _ hread, ?_⟩
  exact s.respond_whole (by rw [hmethod]; rfl) rfl

/-- The key of a stream is the one in the query. -/
theorem read_watch (s : Server σ) {r : Request} {key : String} (hmethod : r.method = "GET")
    (hpath : r.target.path = Call.watchPath) (hkey : queryKey? r.target = some key)
    (hmuch : r.declaresTooMuch s.limit = false) : s.read r = .respond (.events key) := by
  have hroute : Route.ofPath? r.target.path = some .watch := by
    rw [hpath]
    decide +kernel
  rw [s.read_route hmuch hroute (by rw [hmethod]; rfl)]
  simp only [readAt, hkey]

/-- The answer to a caller who follows a key. -/
theorem receive_watch (s : Server σ) {r : Request} {key : String} (hmethod : r.method = "GET")
    (hpath : r.target.path = Call.watchPath) (hkey : queryKey? r.target = some key)
    (hmuch : r.declaresTooMuch s.limit = false) :
    ∃ e more, (s.receive r).exchanges = s.exchanges ++ [e] ∧ e.head.map Prod.fst = some 200 ∧
      e.sent = Follow.event (s.core.health.get key) ++ more := by
  have hopens := (receive_opens s r).1 _ (s.read_watch hmethod hpath hkey hmuch)
  have hfull : (r.method == "HEAD") = false := by
    rw [hmethod]
    rfl
  rw [hfull] at hopens
  obtain ⟨hhead, more, hsent⟩ := s.respond_events key
  exact ⟨_, more, hopens, hhead, hsent⟩

end Server

end EmbedServer.Http
