/-
What the exported text shows of the histograms.

`figures_exposition` says which figures the text shows, and from there on nothing depends on the text any
more.  The figures come in three lots, the plain ones and those of the two histograms: neither histogram's
name begins with the other's, so each lot of a histogram is all of its block.
-/
import EmbedServer.Proofs.Metrics.Histogram
import EmbedServer.Proofs.Metrics.Reading

namespace EmbedServer.Metrics

/-! ### The figures of the text -/

/-- The series of a bucket. -/
def bucketSeries (name bound : String) : String := name ++ "_bucket\x7ble=\"" ++ bound ++ "\"\x7d"

/-- The figures of a histogram. -/
def Histogram.shown (h : Histogram) (name : String) : List (String × String) :=
  h.buckets.map (fun e => (bucketSeries name (toString e.1), toString e.2))
    ++ [(bucketSeries name "+Inf", toString h.count),
      (name ++ "_sum", toString (nearestDouble h.sum.toNat) ++ ".000"),
      (name ++ "_count", toString h.count)]

/-- The figures of a collector beside those of its histograms. -/
def Collector.plain (c : Collector) (uptime : Nat) : List (String × String) :=
  [("softgrep_requests_total", toString c.requests), ("softgrep_errors_total", toString c.errors),
    ("softgrep_cancelled_total", toString c.cancelled), ("softgrep_in_flight", toString c.inFlight),
    ("softgrep_avg_response_time_ms", Decimal.fixed 2 c.average),
    ("softgrep_uptime_seconds", toString uptime)]

section Names

variable {name : String} (hname : isSeries name = true)

include hname

private theorem isSeries_bucket (bound : String) (hbound : '\n' ∉ bound.toList ∧ ' ' ∉ bound.toList) :
    isSeries (bucketSeries name bound) = true := by
  have hopening := isSeries_append hname (t := "_bucket\x7ble=\"") (by decide)
  exact isSeries_append (isSeries_append hopening hbound) (by decide)

private theorem shows_buckets (buckets : List (Nat × UInt64)) {xs : List String}
    {fs : List (String × String)} (h : Shows xs fs) :
    Shows (buckets.map (fun e =>
          name ++ "_bucket\x7ble=\"" ++ toString e.1 ++ "\"\x7d " ++ toString e.2) ++ xs)
      (buckets.map (fun e => (bucketSeries name (toString e.1), toString e.2)) ++ fs) := by
  induction buckets with
  | nil => exact h
  | cons e rest ih =>
      have hseries := isSeries_bucket hname (toString e.1)
        ⟨not_mem_toString rfl e.1, not_mem_toString rfl e.1⟩
      have hline := ih.series hseries (oneLine_toString e.2.toNat)
      have hwritten : bucketSeries name (toString e.1) ++ " " ++ toString e.2.toNat =
          name ++ "_bucket\x7ble=\"" ++ toString e.1 ++ "\"\x7d " ++ toString e.2 := by
        unfold bucketSeries
        simp only [String.append_assoc]
        rfl
      rw [hwritten] at hline
      exact hline

/-- The lines of a histogram show its figures. -/
theorem shows_histogram (h : Histogram) {help : String} (hhelp : OneLine help) :
    Shows (h.lines name help) (h.shown name) := by
  have hcount := isSeries_append hname (t := "_count") (by decide)
  have hsum := isSeries_append hname (t := "_sum") (by decide)
  have hall := isSeries_bucket hname "+Inf" (by decide)
  have htotal := oneLine_toString h.count.toNat
  have hrounded := (oneLine_toString (nearestDouble h.sum.toNat)).append (show OneLine ".000" by decide)
  have hlast := ((Shows.nil.series hcount htotal).series hsum hrounded).series hall htotal
  have hlines := (shows_buckets hname h.buckets hlast).remarks hname hhelp
    (show OneLine "histogram" by decide)
  -- The program writes the blank behind a fixed part of a line together with that part.
  have hbucketLine : bucketSeries name "+Inf" ++ " " = name ++ "_bucket\x7ble=\"+Inf\"\x7d " := by
    unfold bucketSeries
    simp only [String.append_assoc]
    rfl
  have hsumLine : name ++ "_sum" ++ " " ++ (toString (nearestDouble h.sum.toNat) ++ ".000") =
      name ++ "_sum " ++ toString (nearestDouble h.sum.toNat) ++ ".000" := by
    simp only [String.append_assoc]
    rfl
  have hcountLine : name ++ "_count" ++ " " = name ++ "_count " := by
    rw [String.append_assoc]
    rfl
  have hkindLine : "# TYPE " ++ name ++ " " ++ "histogram" = "# TYPE " ++ name ++ " histogram" := by
    rw [String.append_assoc]
    rfl
  rw [hbucketLine, hsumLine, hcountLine, hkindLine] at hlines
  exact hlines

end Names

private theorem shows_figure (name help kind value : String)
    (h : isSeries name = true ∧ OneLine help ∧ OneLine kind) (hvalue : OneLine value) :
    Shows (Collector.figure name help kind value) [(name, value)] :=
  (Shows.nil.empty.series h.1 hvalue).remarks h.1 h.2.1 h.2.2

/-- The lines of a collector show its figures. -/
theorem Collector.shows_lines (c : Collector) (uptime : Nat) :
    Shows (c.lines uptime) (c.plain uptime ++ c.requestLatency.shown "softgrep_request_duration_ms"
      ++ c.backendLatency.shown "softgrep_backend_duration_ms") := by
  have hrequests := shows_figure "softgrep_requests_total" "Total number of calls" "counter" _
    (by decide) (oneLine_toString c.requests.toNat)
  have herrors := shows_figure "softgrep_errors_total" "Total number of failed calls" "counter" _
    (by decide) (oneLine_toString c.errors.toNat)
  have hcancelled := shows_figure "softgrep_cancelled_total" "Calls cancelled during shutdown" "counter" _
    (by decide) (oneLine_toString c.cancelled.toNat)
  have hinFlight := shows_figure "softgrep_in_flight" "Calls currently in flight" "gauge" _
    (by decide) (oneLine_toString c.inFlight.toNat)
  have haverage := shows_figure "softgrep_avg_response_time_ms" "Average response time in milliseconds"
    "gauge" _ (by decide) (oneLine_fixed 2 c.average)
  have huptime := shows_figure "softgrep_uptime_seconds" "Uptime in seconds" "counter" _
    (by decide) (oneLine_toString uptime)
  have hrequest : Shows _ _ := shows_histogram
    (show isSeries "softgrep_request_duration_ms" = true by decide) c.requestLatency
    (show OneLine "Call duration in milliseconds" by decide)
  have hbackend : Shows _ _ := shows_histogram
    (show isSeries "softgrep_backend_duration_ms" = true by decide) c.backendLatency
    (show OneLine "Compute backend duration in milliseconds" by decide)
  have hplain := ((((hrequests.append herrors).append hcancelled).append hinFlight).append
    haverage).append huptime
  have hall := ((hplain.append hrequest).append Shows.nil.empty).append hbackend
  rw [List.append_nil] at hall
  exact hall

/-- What a reader finds in the exported text. -/
theorem figures_exposition (c : Collector) (uptime : Nat) :
    figures (c.exposition uptime) =
      c.plain uptime ++ c.requestLatency.shown "softgrep_request_duration_ms"
        ++ c.backendLatency.shown "softgrep_backend_duration_ms" := by
  have hshows := c.shows_lines uptime
  rw [Collector.exposition, figures_join hshows.oneLine, hshows.figures]

/-! ### The figures of one histogram among them

The text is one list of figures, and a histogram is asked for by its name.  So the figures of the others
must be told from its own by what their names begin with.
-/

/-- The series of a histogram's figures are named after it. -/
theorem Histogram.mem_shown {h : Histogram} {name : String} {f : String × String}
    (hf : f ∈ h.shown name) : ∃ rest, f.1 = name ++ "_" ++ rest := by
  have hbucket : ∀ bound, ∃ rest, bucketSeries name bound = name ++ "_" ++ rest := by
    intro bound
    refine ⟨"bucket\x7ble=\"" ++ bound ++ "\"\x7d", ?_⟩
    unfold bucketSeries
    simp only [String.append_assoc]
    rfl
  rcases List.mem_append.mp hf with hf | hf
  · obtain ⟨e, -, rfl⟩ := List.mem_map.mp hf
    exact hbucket _
  · simp only [List.mem_cons, List.not_mem_nil, or_false] at hf
    rcases hf with rfl | rfl | rfl
    · exact hbucket _
    · exact ⟨"sum", by rw [String.append_assoc]; rfl⟩
    · exact ⟨"count", by rw [String.append_assoc]; rfl⟩

theorem Histogram.belongs_of_mem_shown {h : Histogram} {name : String} {f : String × String}
    (hf : f ∈ h.shown name) : belongs name f.1 = true := by
  obtain ⟨rest, hrest⟩ := mem_shown hf
  rw [hrest]
  exact belongs_append name rest

theorem Histogram.not_belongs_of_mem_shown {h : Histogram} {name other : String} {f : String × String}
    (hno : ¬(name ++ "_").toList <+: (other ++ "_").toList)
    (hno' : ¬(other ++ "_").toList <+: (name ++ "_").toList) (hf : f ∈ h.shown other) :
    belongs name f.1 = false := by
  obtain ⟨rest, hrest⟩ := mem_shown hf
  rw [hrest]
  exact not_belongs_append hno hno' rest

private theorem bound?_bucket (name : String) {bound : String} (h : '"' ∉ bound.toList) :
    bound? name (bucketSeries name bound) = some bound := by
  have hseries : (bucketSeries name bound).toList =
      (name ++ "_bucket\x7ble=\"").toList ++ (bound.toList ++ ['"', '}']) := by
    unfold bucketSeries
    rw [String.toList_append, String.toList_append, List.append_assoc]
    rfl
  have hlabel : ∀ ch ∈ bound.toList, (ch != '"') = true :=
    fun ch hch => bne_iff_ne.mpr fun hc => h (hc ▸ hch)
  unfold bound?
  simp only [hseries, List.drop_left]
  rw [if_pos (List.isPrefixOf_iff_prefix.mpr (List.prefix_append _ _)),
    List.takeWhile_append_of_pos hlabel]
  simp

section Block

variable {text name : String} {h : Histogram} (hblock : blockOf text name = h.shown name)

include hblock

private theorem bucketsOf_of_block :
    bucketsOf text name =
      h.buckets.map (fun e => (toString e.1, toString e.2)) ++ [("+Inf", toString h.count)] := by
  have hbound : ((fun f : String × String => (bound? name f.1).map fun bound => (bound, f.2)) ∘
      fun e : Nat × UInt64 => (bucketSeries name (toString e.1), toString e.2)) =
        some ∘ fun e : Nat × UInt64 => (toString e.1, toString e.2) := by
    funext e
    simp only [Function.comp_apply, bound?_bucket name (not_mem_toString rfl e.1), Option.map_some]
  have hinf := bound?_bucket name (show '"' ∉ "+Inf".toList by decide)
  have hsum : bound? name (name ++ "_sum") = none := bound?_append (by decide)
  have hcount : bound? name (name ++ "_count") = none := bound?_append (by decide)
  rw [bucketsOf_eq_block, hblock, Histogram.shown, List.filterMap_append, List.filterMap_map, hbound,
    List.filterMap_eq_map]
  simp only [List.filterMap_cons, List.filterMap_nil, hinf, hsum, hcount, Option.map_some,
    Option.map_none]

private theorem valuesOf_of_block : valuesOf text (name ++ "_count") = [toString h.count] := by
  have hown : belongs name (name ++ "_count") = true := by
    have happend := belongs_append name "count"
    rw [String.append_assoc] at happend
    exact happend
  -- A series that has a bound is a bucket's and not the count.
  have hcount : bound? name (name ++ "_count") = none := bound?_append (by decide)
  have hbucket : ∀ bound : String, '"' ∉ bound.toList →
      (bucketSeries name bound == name ++ "_count") = false := by
    intro bound hbound
    refine beq_eq_false_iff_ne.mpr fun heq => ?_
    have hsome := bound?_bucket name hbound
    rw [heq, hcount] at hsome
    cases hsome
  have hbuckets : (h.buckets.map fun e => (bucketSeries name (toString e.1), toString e.2)).filter
      (·.1 == name ++ "_count") = [] := by
    refine List.filter_eq_nil_iff.mpr fun f hf heq => ?_
    obtain ⟨e, -, rfl⟩ := List.mem_map.mp hf
    rw [hbucket _ (not_mem_toString rfl e.1)] at heq
    cases heq
  have hsum : (name ++ "_sum" == name ++ "_count") = false := by
    refine beq_eq_false_iff_ne.mpr fun heq => ?_
    exact absurd (String.append_right_inj name |>.mp heq) (by decide)
  rw [valuesOf_eq_block hown, hblock, Histogram.shown, List.filter_append, hbuckets]
  simp only [List.filter_cons, List.filter_nil, hbucket "+Inf" (by decide), hsum, beq_self_eq_true,
    if_true, List.nil_append]
  rfl

end Block

/-! ### Cumulative histograms

The counters are words, and the statement is about numbers.  They agree as long as there have been fewer
observations than a word can count.
-/

/-- A text that shows a cumulative histogram of some observations under a name. -/
structure Cumulative (text name : String) (times : List Nat) : Prop where
  /-- Every bucket shows how many observations are at most its bound, and the last one shows them all. -/
  buckets : bucketsOf text name =
    bounds.map (fun b => (toString b, toString (times.countP (· ≤ b)))) ++ [("+Inf", toString times.length)]
  /-- No bucket shows more than one that comes after it. -/
  rising : ∃ ns : List Nat, (bucketsOf text name).map Prod.snd = ns.map toString ∧ ns.Pairwise (· ≤ ·)
  count : valuesOf text (name ++ "_count") = [toString times.length]

private theorem toString_toUInt64 {n : Nat} (h : n < UInt64.size) : toString n.toUInt64 = toString n := by
  show toString n.toUInt64.toNat = toString n
  rw [show n.toUInt64.toNat = n from UInt64.toNat_ofNat_of_lt' h]

/-- The more observations a bound lets in, the higher it is. -/
theorem countP_rising (times : List Nat) :
    (bounds.map (fun b => times.countP (· ≤ b)) ++ [times.length]).Pairwise (· ≤ ·) := by
  have hbounds : bounds.Pairwise (· ≤ ·) := by decide
  rw [List.pairwise_append]
  refine ⟨List.pairwise_map.mpr (hbounds.imp fun hle => ?_), List.pairwise_singleton _ _, ?_⟩
  · exact List.countP_mono_left fun n _ hn =>
      decide_eq_true (Nat.le_trans (of_decide_eq_true hn) hle)
  · intro n hn m hm
    obtain ⟨b, -, rfl⟩ := List.mem_map.mp hn
    rw [List.mem_singleton.mp hm]
    exact List.countP_le_length

private theorem cumulative_of_block {text name : String} {times : List Nat}
    (hblock : blockOf text name = (Histogram.empty.observeAll times).shown name)
    (h : times.length < UInt64.size) : Cumulative text name times := by
  have hsmall : ∀ b, times.countP (· ≤ b) < UInt64.size :=
    fun b => Nat.lt_of_le_of_lt List.countP_le_length h
  have htotal : toString (Histogram.empty.observeAll times).count = toString times.length := by
    rw [Histogram.count_observeAll]
    show toString (0 + times.length.toUInt64) = _
    rw [UInt64.zero_add, toString_toUInt64 h]
  have hbuckets : bucketsOf text name =
      bounds.map (fun b => (toString b, toString (times.countP (· ≤ b)))) ++
        [("+Inf", toString times.length)] := by
    rw [bucketsOf_of_block hblock, Histogram.buckets_counted, htotal, List.map_map]
    congr 1
    refine List.map_congr_left fun b _ => ?_
    simp only [Function.comp_apply, toString_toUInt64 (hsmall b)]
  refine ⟨hbuckets, ⟨_, ?_, countP_rising times⟩, ?_⟩
  · rw [hbuckets, List.map_append, List.map_append, List.map_map, List.map_map]
    rfl
  · rw [valuesOf_of_block hblock, htotal]

/-! ### The two histograms of a collector -/

section Run

variable (samples : List Sample) (uptime : Nat)

/-- The text after some samples. -/
def textAfter : String := (Collector.empty.recordAll samples).exposition uptime

private theorem plain_not_belongs (c : Collector) (uptime : Nat) :
    ∀ f ∈ c.plain uptime, belongs "softgrep_request_duration_ms" f.1 = false ∧
      belongs "softgrep_backend_duration_ms" f.1 = false := by
  have hnames : ∀ series ∈ (c.plain uptime).map Prod.fst,
      belongs "softgrep_request_duration_ms" series = false ∧
        belongs "softgrep_backend_duration_ms" series = false := by
    show ∀ series ∈ ["softgrep_requests_total", "softgrep_errors_total", "softgrep_cancelled_total",
      "softgrep_in_flight", "softgrep_avg_response_time_ms", "softgrep_uptime_seconds"], _
    decide
  exact fun f hf => hnames f.1 (List.mem_map_of_mem hf)

private theorem figures_textAfter : figures (textAfter samples uptime) =
    (Collector.empty.recordAll samples).plain uptime
      ++ (Histogram.empty.observeAll (requestTimes samples)).shown "softgrep_request_duration_ms"
      ++ (Histogram.empty.observeAll (backendTimes samples)).shown "softgrep_backend_duration_ms" := by
  rw [textAfter, figures_exposition, Collector.requestLatency_recordAll,
    Collector.backendLatency_recordAll]
  rfl

private theorem blockOf_requests : blockOf (textAfter samples uptime) "softgrep_request_duration_ms" =
    (Histogram.empty.observeAll (requestTimes samples)).shown "softgrep_request_duration_ms" := by
  refine blockOf_of_split (figures_textAfter samples uptime) ?_ ?_ ?_
  · exact fun f hf => (plain_not_belongs _ uptime f hf).1
  · exact fun f hf => Histogram.belongs_of_mem_shown hf
  · exact fun f hf => Histogram.not_belongs_of_mem_shown (by decide) (by decide) hf

private theorem blockOf_computations : blockOf (textAfter samples uptime) "softgrep_backend_duration_ms" =
    (Histogram.empty.observeAll (backendTimes samples)).shown "softgrep_backend_duration_ms" := by
  refine blockOf_of_split ((figures_textAfter samples uptime).trans (List.append_nil _).symm) ?_ ?_
    (fun _ hf => (nomatch hf))
  · intro f hf
    rcases List.mem_append.mp hf with hplain | hrequest
    · exact (plain_not_belongs _ uptime f hplain).2
    · exact Histogram.not_belongs_of_mem_shown (by decide) (by decide) hrequest
  · exact fun f hf => Histogram.belongs_of_mem_shown hf

/-- The number of the requests, as the text shows it beside the histograms. -/
theorem valuesOf_requests :
    valuesOf (textAfter samples uptime) "softgrep_requests_total" =
      [toString (Collector.empty.recordAll samples).requests] := by
  have hnone : ∀ name : String, belongs name "softgrep_requests_total" = false → ∀ h : Histogram,
      (h.shown name).filter (·.1 == "softgrep_requests_total") = [] := by
    intro name hname h
    refine List.filter_eq_nil_iff.mpr fun f hf heq => ?_
    rw [← beq_iff_eq.mp heq, Histogram.belongs_of_mem_shown hf] at hname
    cases hname
  unfold valuesOf
  rw [figures_textAfter, List.filter_append, List.filter_append, hnone _ (by decide), hnone _ (by decide)]
  rfl

end Run

/-- Whether a sample is an observation of one of the histograms. -/
def Sample.isObserved (a : Sample) : Bool := a.isRequest || a.isBackend

private theorem length_requestTimes (samples : List Sample) :
    (requestTimes samples).length = samples.countP Sample.isRequest := by
  rw [requestTimes, List.length_filterMap_eq_countP]
  refine List.countP_congr fun a _ => ?_
  cases a <;> rfl

private theorem length_backendTimes (samples : List Sample) :
    (backendTimes samples).length = samples.countP Sample.isBackend := by
  rw [backendTimes, List.length_filterMap_eq_countP]
  refine List.countP_congr fun a _ => ?_
  cases a <;> rfl

/-- **The exported text shows cumulative histograms**, of the requests and of the computations and of
nothing else, and as many requests as it shows beside them. -/
theorem exposition_cumulative (samples : List Sample) (uptime : Nat)
    (h : samples.countP Sample.isObserved < UInt64.size) :
    let text := textAfter samples uptime
    Cumulative text "softgrep_request_duration_ms" (requestTimes samples) ∧
      Cumulative text "softgrep_backend_duration_ms" (backendTimes samples) ∧
      valuesOf text "softgrep_requests_total" = valuesOf text "softgrep_request_duration_ms_count" ∧
      ∀ (others : List Sample) (uptime' : Nat),
        (requestTimes others = requestTimes samples →
          blockOf (textAfter others uptime') "softgrep_request_duration_ms" =
            blockOf text "softgrep_request_duration_ms") ∧
        (backendTimes others = backendTimes samples →
          blockOf (textAfter others uptime') "softgrep_backend_duration_ms" =
            blockOf text "softgrep_backend_duration_ms") := by
  intro text
  have hrequests : (requestTimes samples).length < UInt64.size := by
    rw [length_requestTimes]
    refine Nat.lt_of_le_of_lt (List.countP_mono_left fun a _ ha => ?_) h
    rw [Sample.isObserved, ha, Bool.true_or]
  have hcomputations : (backendTimes samples).length < UInt64.size := by
    rw [length_backendTimes]
    refine Nat.lt_of_le_of_lt (List.countP_mono_left fun a _ ha => ?_) h
    rw [Sample.isObserved, ha, Bool.or_true]
  have hcumulative := cumulative_of_block (blockOf_requests samples uptime) hrequests
  refine ⟨hcumulative, cumulative_of_block (blockOf_computations samples uptime) hcomputations, ?_,
    fun others uptime' => ⟨fun hsame => ?_, fun hsame => ?_⟩⟩
  · rw [valuesOf_requests, Collector.requests_recordAll]
    refine Eq.trans ?_ hcumulative.count.symm
    show [toString (0 + (samples.countP Sample.isRequest).toUInt64)] = _
    rw [UInt64.zero_add, ← length_requestTimes, toString_toUInt64 hrequests]
  · rw [blockOf_requests, blockOf_requests, hsame]
  · rw [blockOf_computations, blockOf_computations, hsame]

/-- Requests that take next to no time, a bound's and a little more, and one too long for sixty-four bits;
a computation just over the last bound, and one whose whole milliseconds are no request's. -/
theorem exposition_cumulative_mixed :
    let samples : List Sample := [.request ⟨999_999⟩, .started, .request (.ofMillis 5),
      .backend (.ofMillis 5001), .request ⟨5_999_999⟩, .error, .request (.ofMillis (UInt64.size + 5)),
      .backend (.ofMillis UInt64.size), .finished]
    let text := textAfter samples 7
    samples.countP Sample.isObserved < UInt64.size ∧ requestTimes samples = [0, 5, 5, 5] ∧
      Cumulative text "softgrep_request_duration_ms" [0, 5, 5, 5] ∧
      (bucketsOf text "softgrep_request_duration_ms").take 2 = [("1", "1"), ("5", "4")] ∧
      Cumulative text "softgrep_backend_duration_ms" [5001, UInt64.size] ∧
      valuesOf text "softgrep_requests_total" = ["4"] := by
  intro samples text
  have hsmall : samples.countP Sample.isObserved < UInt64.size := by decide
  obtain ⟨hrequests, hcomputations, htotal, -⟩ := exposition_cumulative samples 7 hsmall
  refine ⟨hsmall, by decide, hrequests, ?_, hcomputations,
    htotal.trans (hrequests.count.trans (by decide))⟩
  rw [hrequests.buckets]
  decide

end EmbedServer.Metrics
