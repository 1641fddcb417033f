import Eventify.Library.Exposition
import Eventify.Observability.Metrics

/-!
# What a scraper reads

A scraper gets the triples of method, route label and status back from the
metrics, each with its count, exactly when no method and no label has the
character in it that separates them in the keys.
-/

namespace Eventify

open Library

variable {δ : Type*}

def HttpRecord.triple (call : HttpRecord δ) : String × String × ℕ :=
  (call.method, normalizeMetricRoute call.route, call.status)

def tripleLabels (triple : String × String × ℕ) : List (String × String) :=
  [("method", triple.1), ("route", triple.2.1), ("status", toString triple.2.2)]

def tripleKey (triple : String × String × ℕ) : String := httpKey triple.1 triple.2.1 triple.2.2

theorem HttpRecord.key_eq (call : HttpRecord δ) : call.key = tripleKey call.triple := rfl

/-- No separator inside the parts of a key. -/
def Delimited (triple : String × String × ℕ) : Prop :=
  '|' ∉ triple.1.toList ∧ '|' ∉ triple.2.1.toList

/-- What a scraper is to find for a sequence of requests. -/
structure RoundTrips (calls : List (HttpRecord δ)) (samples : List Sample) : Prop where
  total : ∀ call ∈ calls,
    samples.filter (fun s =>
        s.series = ("eventify_http_requests_total", tripleLabels call.triple)) =
      [⟨"eventify_http_requests_total", tripleLabels call.triple,
        toString (calls.countP fun other => other.triple = call.triple)⟩]
  count : ∀ call ∈ calls,
    samples.filter (fun s =>
        s.series = ("eventify_http_request_duration_ms_count", tripleLabels call.triple)) =
      [⟨"eventify_http_request_duration_ms_count", tripleLabels call.triple,
        toString (calls.countP fun other => other.triple = call.triple)⟩]
  recorded : ∀ s ∈ samples, s.name = "eventify_http_requests_total" →
    ∃ call ∈ calls, s.labels = tripleLabels call.triple
  distinct : (samples.map Sample.series).Nodup

/-! ### Labels in the text -/

theorem replaceAll_toList (c : Char) (word value : String) :
    (replaceAll c word value).toList =
      value.toList.flatMap fun d => if d = c then word.toList else [d] := String.toList_ofList

/-- The three passes escape each character on its own. -/
theorem escapeLabel_toList (value : String) :
    (escapeLabel value).toList = value.toList.flatMap escapeLabelChar := by
  simp only [escapeLabel, replaceAll_toList, List.flatMap_assoc]
  congr 1
  funext c
  by_cases hslash : c = '\\'
  · subst hslash
    decide
  · by_cases hquote : c = '"'
    · subst hquote
      decide
    · by_cases hnewline : c = '\n'
      · subst hnewline
        decide
      · simp [hslash, hquote, hnewline, escapeLabelChar]

theorem numeral_ne {c d : Char} (hc : isNumeralChar c = true) (hd : isNumeralChar d = false) :
    c ≠ d := by
  rintro rfl
  exact absurd hc (by simp [hd])

theorem not_mem_toString (n : ℕ) {c : Char} (hc : isNumeralChar c = false) :
    c ∉ (toString n).toList := fun h => numeral_ne (isNumeralChar_toString n h) hc rfl

theorem escape_toString (n : ℕ) :
    (toString n).toList.flatMap escapeLabelChar = (toString n).toList := by
  have hplain : ∀ c ∈ (toString n).toList, escapeLabelChar c = [c] := by
    intro c hc
    have hnumeral := isNumeralChar_toString n hc
    unfold escapeLabelChar
    split
    · exact absurd hnumeral (by decide)
    · exact absurd hnumeral (by decide)
    · exact absurd hnumeral (by decide)
    · rfl
  rw [List.flatMap_congr hplain, List.flatMap_singleton']

theorem splitOn_tripleKey {triple : String × String × ℕ} (h : Delimited triple) :
    ((tripleKey triple).toList.splitOn '|').map String.ofList =
      [triple.1, triple.2.1, toString triple.2.2] := by
  have hparts : ∀ part ∈ [triple.1.toList, triple.2.1.toList, (toString triple.2.2).toList],
      '|' ∉ part := by
    have hstatus := not_mem_toString triple.2.2 (c := '|') (by decide)
    simpa using ⟨h.1, h.2, by simpa using hstatus⟩
  have hkey : (tripleKey triple).toList = ['|'].intercalate
      [triple.1.toList, triple.2.1.toList, (toString triple.2.2).toList] := by
    simp [tripleKey, httpKey]
  rw [hkey, List.splitOn_intercalate _ hparts (List.cons_ne_nil _ _)]
  simp only [List.map_cons, List.map_nil, String.ofList_toList]

/-- The labels that a key stands for. -/
def keyLabels (key : String) : List (String × String) :=
  let parts := (key.toList.splitOn '|').map String.ofList
  [("method", parts[0]?.getD "UNKNOWN"), ("route", parts[1]?.getD "/"),
    ("status", parts[2]?.getD "0")]

theorem keyLabels_tripleKey {triple : String × String × ℕ} (h : Delimited triple) :
    keyLabels (tripleKey triple) = tripleLabels triple := by
  simp [keyLabels, splitOn_tripleKey h, tripleLabels]

theorem httpLabels_tripleKey {triple : String × String × ℕ} (h : Delimited triple) :
    (httpLabels (tripleKey triple)).toList =
      [','].intercalate ((tripleLabels triple).map writeLabel) := by
  have hstatus := escape_toString triple.2.2
  simp only [httpLabels, splitOn_tripleKey h, tripleLabels]
  generalize toString triple.2.2 = status at hstatus ⊢
  simp [escapeLabel_toList, writeLabel, hstatus]

/-! ### The lines as samples -/

/-- Keys that have been recorded, with no separator inside their parts. -/
def KeyOf (key : String) : Prop := ∃ triple, Delimited triple ∧ key = tripleKey triple

def requestSample (entry : String × ℕ) : Sample :=
  ⟨"eventify_http_requests_total", keyLabels entry.1, toString entry.2⟩

def durationSamples (rt : MetricsRuntime δ) (entry : String × DurationSummary δ) : List Sample :=
  [ ⟨"eventify_http_request_duration_ms_sum", keyLabels entry.1, rt.toFixed entry.2.sum⟩,
    ⟨"eventify_http_request_duration_ms_count", keyLabels entry.1, toString entry.2.count⟩,
    ⟨"eventify_http_request_duration_ms_max", keyLabels entry.1, rt.toFixed entry.2.max⟩ ]

def cacheSample (m : Metrics δ) (result : CacheOutcome) : Sample :=
  ⟨"eventify_cache_operations_total", [("result", result.text)],
    toString ((m.cacheResults.get result).getD 0)⟩

def gauges (rt : MetricsRuntime δ) (uptime : δ) (rss : ℕ) : List Sample :=
  [ ⟨"eventify_process_uptime_seconds", [], rt.toFixed uptime⟩,
    ⟨"eventify_process_resident_memory_bytes", [], toString rss⟩ ]

section Lines

variable (rt : MetricsRuntime δ)

theorem not_mem_toFixed (d : δ) {c : Char} (hc : isNumeralChar c = false) :
    c ∉ (rt.toFixed d).toList := fun h => numeral_ne (rt.toFixed_numeral d _ h) hc rfl

theorem named_keyLabels {name : String} (hname : name.toList.all isNameChar = true)
    (key value : String) : Sample.Named ⟨name, keyLabels key, value⟩ := by
  refine ⟨hname, fun label hlabel => ?_⟩
  simp only [keyLabels, List.mem_cons, List.not_mem_nil, or_false] at hlabel
  have hnames : ∀ n ∈ ["method", "route", "status"], n.toList.all isNameChar = true := by decide
  rcases hlabel with rfl | rfl | rfl
  · exact hnames "method" (by simp)
  · exact hnames "route" (by simp)
  · exact hnames "status" (by simp)

/-- A line with labels, as the templates put it together. -/
theorem readsAs_labelled {start name : List Char} {key value : String} (hkey : KeyOf key)
    (hstart : start = name ++ ['\x7b']) (hname : name.all isNameChar = true)
    (hvalue : '\n' ∉ value.toList) :
    ReadsAs [String.ofList start ++ httpLabels key ++ "\x7d " ++ value]
      [⟨String.ofList name, keyLabels key, value⟩] := by
  have hnamed : (String.ofList name).toList.all isNameChar = true := by
    rwa [String.toList_ofList]
  refine readsAs_sample ?_ (named_keyLabels hnamed key value) hvalue
  obtain ⟨triple, hdelimited, rfl⟩ := hkey
  simp only [String.toList_append, String.toList_ofList, hstart,
    httpLabels_tripleKey hdelimited, keyLabels_tripleKey hdelimited, Sample.write]
  simp [tripleLabels]

/-- Help and type lines are skipped. -/
theorem readsAs_comment {chars : List Char} (hcomment : readSample chars = none)
    (hline : '\n' ∉ chars) : ReadsAs [String.ofList chars] [] where
  single line hline' := by rwa [List.mem_singleton.mp hline', String.toList_ofList]
  reads := by simp [hcomment]

theorem readsAs_requestLines {entry : String × ℕ} (hkey : KeyOf entry.1) :
    ReadsAs [Metrics.requestLines entry] [requestSample entry] :=
  readsAs_labelled hkey (by decide) (by decide) (not_mem_toString entry.2 (by decide))

theorem readsAs_durationLines {entry : String × DurationSummary δ} (hkey : KeyOf entry.1) :
    ReadsAs (Metrics.durationLines rt entry) (durationSamples rt entry) := by
  have hsum : ReadsAs ["eventify_http_request_duration_ms_sum\x7b" ++ httpLabels entry.1 ++
        "\x7d " ++ rt.toFixed entry.2.sum]
      [⟨"eventify_http_request_duration_ms_sum", keyLabels entry.1, rt.toFixed entry.2.sum⟩] :=
    readsAs_labelled hkey (by decide) (by decide) (not_mem_toFixed rt _ (by decide))
  have hcount : ReadsAs ["eventify_http_request_duration_ms_count\x7b" ++ httpLabels entry.1 ++
        "\x7d " ++ toString entry.2.count]
      [⟨"eventify_http_request_duration_ms_count", keyLabels entry.1,
        toString entry.2.count⟩] :=
    readsAs_labelled hkey (by decide) (by decide) (not_mem_toString _ (by decide))
  have hmax : ReadsAs ["eventify_http_request_duration_ms_max\x7b" ++ httpLabels entry.1 ++
        "\x7d " ++ rt.toFixed entry.2.max]
      [⟨"eventify_http_request_duration_ms_max", keyLabels entry.1, rt.toFixed entry.2.max⟩] :=
    readsAs_labelled hkey (by decide) (by decide) (not_mem_toFixed rt _ (by decide))
  exact hsum.append (hcount.append hmax)

theorem readsAs_one_label {start name label : List Char} {text value : String}
    (hstart : start = name ++ '\x7b' :: (label ++ ['=', '"']))
    (htext : text.toList.flatMap escapeLabelChar = text.toList)
    (hnames : name.all isNameChar = true ∧ label.all isNameChar = true)
    (hvalue : '\n' ∉ value.toList) :
    ReadsAs [String.ofList start ++ text ++ "\"\x7d " ++ value]
      [⟨String.ofList name, [(String.ofList label, text)], value⟩] := by
  refine readsAs_sample ?_ ⟨by simpa using hnames.1, by simpa using hnames.2⟩ hvalue
  simp only [String.toList_append, String.toList_ofList, hstart, Sample.write, writeLabel, htext,
    List.map_cons, List.map_nil, List.intercalate_singleton]
  simp

theorem readsAs_cacheLine (m : Metrics δ) (result : CacheOutcome) :
    ReadsAs [Metrics.cacheLine m result] [cacheSample m result] := by
  have hescape : result.text.toList.flatMap escapeLabelChar = result.text.toList := by
    cases result
    all_goals decide
  exact readsAs_one_label (by decide) hescape (by decide) (not_mem_toString _ (by decide))

theorem readsAs_gauge {start name : List Char} {value : String} (hstart : start = name ++ [' '])
    (hname : name.all isNameChar = true) (hvalue : '\n' ∉ value.toList) :
    ReadsAs [String.ofList start ++ value] [⟨String.ofList name, [], value⟩] := by
  refine readsAs_sample ?_ ⟨by rwa [String.toList_ofList], by simp⟩ hvalue
  simp [hstart, Sample.write]

theorem readsAs_gauges (uptime : δ) (rss : ℕ) :
    ReadsAs ["# HELP eventify_process_uptime_seconds Process uptime in seconds.",
        "# TYPE eventify_process_uptime_seconds gauge",
        "eventify_process_uptime_seconds " ++ rt.toFixed uptime,
        "# HELP eventify_process_resident_memory_bytes Resident memory usage in bytes.",
        "# TYPE eventify_process_resident_memory_bytes gauge",
        "eventify_process_resident_memory_bytes " ++ toString rss,
        "# HELP eventify_http_requests_total Total HTTP requests.",
        "# TYPE eventify_http_requests_total counter"]
      (gauges rt uptime rss) := by
  have huptime : ReadsAs ["eventify_process_uptime_seconds " ++ rt.toFixed uptime]
      [⟨"eventify_process_uptime_seconds", [], rt.toFixed uptime⟩] :=
    readsAs_gauge (by decide) (by decide) (not_mem_toFixed rt uptime (by decide))
  have hmemory : ReadsAs ["eventify_process_resident_memory_bytes " ++ toString rss]
      [⟨"eventify_process_resident_memory_bytes", [], toString rss⟩] :=
    readsAs_gauge (by decide) (by decide) (not_mem_toString rss (by decide))
  have hsecond : ReadsAs
      ["# HELP eventify_process_resident_memory_bytes Resident memory usage in bytes.",
        "# TYPE eventify_process_resident_memory_bytes gauge"] [] :=
    (readsAs_comment (by decide) (by decide)).append (readsAs_comment (by decide) (by decide))
  have hfirst : ReadsAs ["# HELP eventify_process_uptime_seconds Process uptime in seconds.",
      "# TYPE eventify_process_uptime_seconds gauge"] [] :=
    (readsAs_comment (by decide) (by decide)).append (readsAs_comment (by decide) (by decide))
  have hthird : ReadsAs ["# HELP eventify_http_requests_total Total HTTP requests.",
      "# TYPE eventify_http_requests_total counter"] [] :=
    (readsAs_comment (by decide) (by decide)).append (readsAs_comment (by decide) (by decide))
  exact hfirst.append (huptime.append (hsecond.append (hmemory.append hthird)))

theorem mem_sorted {ν : Type*} {entries : List (String × ν)} {entry : String × ν} :
    entry ∈ Metrics.sorted rt entries ↔ entry ∈ entries :=
  (List.mergeSort_perm entries _).mem_iff

theorem sorted_keys {ν : Type*} (m : OrderedMap String ν) :
    ((Metrics.sorted rt m.entries).map Prod.fst).Perm m.keys :=
  (List.mergeSort_perm m.entries _).map Prod.fst

/-- All lines together. -/
theorem readsAs_lines (uptime : δ) (rss : ℕ) {m : Metrics δ}
    (hrequests : ∀ key ∈ m.httpRequests.keys, KeyOf key)
    (hdurations : ∀ key ∈ m.httpDurationMs.keys, KeyOf key) :
    ReadsAs (Metrics.lines rt uptime rss m)
      (gauges rt uptime rss ++ (Metrics.sorted rt m.httpRequests.entries).map requestSample ++
        (Metrics.sorted rt m.httpDurationMs.entries).flatMap (durationSamples rt) ++
        [CacheOutcome.hit, .miss, .load, .error].map (cacheSample m)) := by
  have hdurationHead : ReadsAs
      ["# HELP eventify_http_request_duration_ms Request duration in milliseconds.",
        "# TYPE eventify_http_request_duration_ms summary"] [] :=
    (readsAs_comment (by decide) (by decide)).append (readsAs_comment (by decide) (by decide))
  have hcacheHead : ReadsAs ["# HELP eventify_cache_operations_total Cache outcomes.",
      "# TYPE eventify_cache_operations_total counter"] [] :=
    (readsAs_comment (by decide) (by decide)).append (readsAs_comment (by decide) (by decide))
  have hrequestLines := ReadsAs.map (l := Metrics.sorted rt m.httpRequests.entries)
    fun entry hentry => readsAs_requestLines
      (hrequests entry.1 (List.mem_map_of_mem ((mem_sorted rt).mp hentry)))
  have hdurationLines := ReadsAs.flatMap (l := Metrics.sorted rt m.httpDurationMs.entries)
    fun entry hentry => readsAs_durationLines rt
      (hdurations entry.1 (List.mem_map_of_mem ((mem_sorted rt).mp hentry)))
  have hcacheLines := ReadsAs.map (l := [CacheOutcome.hit, .miss, .load, .error])
    fun result _ => readsAs_cacheLine m result
  have hall := (((((readsAs_gauges rt uptime rss).append hrequestLines).append
    hdurationHead).append hdurationLines).append hcacheHead).append hcacheLines
  simpa [Metrics.lines] using hall

end Lines

/-- What a scraper reads from the metrics. -/
def scrape (rt : MetricsRuntime δ) (uptime : δ) (rss : ℕ) (m : Metrics δ) : List Sample :=
  readExposition (Metrics.renderMetrics rt uptime rss m).toList

theorem scrape_eq (rt : MetricsRuntime δ) (uptime : δ) (rss : ℕ) {m : Metrics δ}
    (hrequests : ∀ key ∈ m.httpRequests.keys, KeyOf key)
    (hdurations : ∀ key ∈ m.httpDurationMs.keys, KeyOf key) :
    scrape rt uptime rss m =
      gauges rt uptime rss ++ (Metrics.sorted rt m.httpRequests.entries).map requestSample ++
        (Metrics.sorted rt m.httpDurationMs.entries).flatMap (durationSamples rt) ++
        [CacheOutcome.hit, .miss, .load, .error].map (cacheSample m) :=
  (readsAs_lines rt uptime rss hrequests hdurations).readExposition (by simp [Metrics.lines])

/-! ### Counts -/

theorem foldl_countRequest (calls : List (HttpRecord δ)) (v : Option ℕ) (hne : calls ≠ []) :
    calls.foldl (fun v call => some (Metrics.countRequest call v)) v =
      some (v.getD 0 + calls.length) := by
  induction calls generalizing v with
  | nil => exact (hne rfl).elim
  | cons call calls ih =>
      cases calls with
      | nil => rfl
      | cons next calls =>
          rw [List.foldl_cons, ih _ (List.cons_ne_nil _ _)]
          simp [Metrics.countRequest]
          omega

/-- The durations are counted as the requests are. -/
theorem foldl_addDuration (rt : MetricsRuntime δ) (calls : List (HttpRecord δ))
    (v : Option (DurationSummary δ)) :
    (calls.foldl (fun v call => some (Metrics.addDuration rt call v)) v).map
        DurationSummary.count =
      calls.foldl (fun v call => some (Metrics.countRequest call v))
        (v.map DurationSummary.count) := by
  induction calls generalizing v with
  | nil => rfl
  | cons call calls ih =>
      rw [List.foldl_cons, List.foldl_cons, ih]
      cases v with
      | none => rfl
      | some summary => rfl

section Runs

variable (rt : MetricsRuntime δ) (cache : OrderedMap CacheOutcome ℕ)
  {calls : List (HttpRecord δ)} {call : HttpRecord δ}

theorem get_requests (hcall : call ∈ calls) :
    ((Metrics.start cache).recordAll rt calls).httpRequests.get call.key =
      some (calls.countP fun other => other.key = call.key) := by
  have hne : calls.filter (fun other => other.key = call.key) ≠ [] :=
    List.ne_nil_of_mem (List.mem_filter.mpr ⟨hcall, decide_eq_true rfl⟩)
  rw [recordAll_eq, OrderedMap.get_updateAll, List.countP_eq_length_filter]
  exact (foldl_countRequest _ none hne).trans (by rw [Option.getD_none, Nat.zero_add])

theorem get_durations (hcall : call ∈ calls) :
    ∃ summary, ((Metrics.start cache).recordAll rt calls).httpDurationMs.get call.key =
        some summary ∧
      summary.count = calls.countP fun other => other.key = call.key := by
  have hne : calls.filter (fun other => other.key = call.key) ≠ [] :=
    List.ne_nil_of_mem (List.mem_filter.mpr ⟨hcall, decide_eq_true rfl⟩)
  have hcount := foldl_addDuration rt (calls.filter fun other => other.key = call.key) none
  rw [Option.map_none, foldl_countRequest _ none hne] at hcount
  obtain ⟨summary, hsummary, hlength⟩ := Option.map_eq_some_iff.mp hcount
  refine ⟨summary, ?_, ?_⟩
  · rw [recordAll_eq, OrderedMap.get_updateAll]
    exact hsummary
  · rw [hlength, List.countP_eq_length_filter]
    exact Nat.zero_add _

end Runs

/-! ### Every triple has its samples -/

theorem tripleLabels_injective : Function.Injective tripleLabels := by
  rintro ⟨method, route, status⟩ ⟨method', route', status'⟩ h
  simp only [tripleLabels, List.cons.injEq, Prod.mk.injEq, true_and, and_true] at h
  obtain ⟨rfl, rfl, hstatus⟩ := h
  rw [toString_inj hstatus]

theorem keyLabels_inj {key key' : String} (hkey : KeyOf key) (hkey' : KeyOf key')
    (h : keyLabels key = keyLabels key') : key = key' := by
  obtain ⟨triple, hdelimited, rfl⟩ := hkey
  obtain ⟨triple', hdelimited', rfl⟩ := hkey'
  rw [keyLabels_tripleKey hdelimited, keyLabels_tripleKey hdelimited'] at h
  rw [tripleLabels_injective h]

section Delimited

variable (rt : MetricsRuntime δ) (uptime : δ) (rss : ℕ) (cache : OrderedMap CacheOutcome ℕ)
  {calls : List (HttpRecord δ)} {call : HttpRecord δ} {s : Sample} {m : Metrics δ}

theorem names_gauges : ∀ s ∈ gauges rt uptime rss,
    s.name ∈ ["eventify_process_uptime_seconds", "eventify_process_resident_memory_bytes"] := by
  simp [gauges]

theorem names_requests (entries : List (String × ℕ)) : ∀ s ∈ entries.map requestSample,
    s.name ∈ ["eventify_http_requests_total"] := by
  intro s hs
  obtain ⟨entry, -, rfl⟩ := List.mem_map.mp hs
  exact List.mem_singleton_self _

theorem names_durations (entries : List (String × DurationSummary δ)) :
    ∀ s ∈ entries.flatMap (durationSamples rt),
      s.name ∈ ["eventify_http_request_duration_ms_sum",
        "eventify_http_request_duration_ms_count", "eventify_http_request_duration_ms_max"] := by
  intro s hs
  obtain ⟨entry, -, hs⟩ := List.mem_flatMap.mp hs
  simp only [durationSamples, List.mem_cons, List.not_mem_nil, or_false] at hs
  rcases hs with rfl | rfl | rfl
  · simp
  · simp
  · simp

theorem names_cache (m : Metrics δ) (results : List CacheOutcome) :
    ∀ s ∈ results.map (cacheSample m), s.name ∈ ["eventify_cache_operations_total"] := by
  simp [cacheSample]

theorem nodup_requestSamples {entries : List (String × ℕ)}
    (hnodup : (entries.map Prod.fst).Nodup) (hkeys : ∀ key ∈ entries.map Prod.fst, KeyOf key) :
    ((entries.map requestSample).map Sample.series).Nodup := by
  have hseries : (entries.map requestSample).map Sample.series =
      (entries.map Prod.fst).map fun key => ("eventify_http_requests_total", keyLabels key) := by
    rw [List.map_map, List.map_map]
    rfl
  rw [hseries]
  refine hnodup.map_on fun key hkey key' hkey' h => ?_
  exact keyLabels_inj (hkeys key hkey) (hkeys key' hkey') (congrArg Prod.snd h)

theorem nodup_durationSamples {entries : List (String × DurationSummary δ)}
    (hnodup : (entries.map Prod.fst).Nodup) (hkeys : ∀ key ∈ entries.map Prod.fst, KeyOf key) :
    ((entries.flatMap (durationSamples rt)).map Sample.series).Nodup := by
  rw [List.map_flatMap, List.nodup_flatMap]
  constructor
  · intro entry _
    simp [durationSamples, Sample.series]
  · refine ((List.pairwise_map.mp hnodup).imp_of_mem ?_)
    intro entry entry' hentry hentry' hne a ha ha'
    obtain ⟨s, hs, rfl⟩ := List.mem_map.mp ha
    obtain ⟨s', hs', hsame⟩ := List.mem_map.mp ha'
    have hlabels {e : String × DurationSummary δ} {t : Sample} (ht : t ∈ durationSamples rt e) :
        t.labels = keyLabels e.1 := by
      simp only [durationSamples, List.mem_cons, List.not_mem_nil, or_false] at ht
      rcases ht with rfl | rfl | rfl
      all_goals rfl
    refine hne (keyLabels_inj (hkeys _ (List.mem_map_of_mem hentry))
      (hkeys _ (List.mem_map_of_mem hentry')) ?_)
    rw [← hlabels hs, ← hlabels hs']
    exact (congrArg Prod.snd hsame).symm

theorem nodup_scrape (hrequests : ∀ key ∈ m.httpRequests.keys, KeyOf key)
    (hdurations : ∀ key ∈ m.httpDurationMs.keys, KeyOf key) :
    ((scrape rt uptime rss m).map Sample.series).Nodup := by
  have hrequestNodup := nodup_requestSamples
    ((sorted_keys rt m.httpRequests).nodup_iff.mpr m.httpRequests.nodup)
    fun key hkey => hrequests key ((sorted_keys rt m.httpRequests).mem_iff.mp hkey)
  have hdurationNodup := nodup_durationSamples rt
    ((sorted_keys rt m.httpDurationMs).nodup_iff.mpr m.httpDurationMs.nodup)
    fun key hkey => hdurations key ((sorted_keys rt m.httpDurationMs).mem_iff.mp hkey)
  have hgaugeNodup : ((gauges rt uptime rss).map Sample.series).Nodup := by
    simp [gauges, Sample.series]
  have hcacheNodup : (([CacheOutcome.hit, .miss, .load, .error].map (cacheSample m)).map
      Sample.series).Nodup := by
    simp [cacheSample, Sample.series, CacheOutcome.text]
  rw [scrape_eq rt uptime rss hrequests hdurations]
  have hfirst := names_append (names_gauges rt uptime rss)
    (names_requests (Metrics.sorted rt m.httpRequests.entries))
  have hsecond := names_append hfirst
    (names_durations rt (Metrics.sorted rt m.httpDurationMs.entries))
  refine nodup_append_series hsecond (names_cache m _) (by decide) ?_ hcacheNodup
  refine nodup_append_series hfirst (names_durations rt _) (by decide) ?_ hdurationNodup
  exact nodup_append_series (names_gauges rt uptime rss) (names_requests _) (by decide)
    hgaugeNodup hrequestNodup

/-- The condition, of the keys of a run. -/
theorem keyOf_of_run (h : ∀ call ∈ calls, Delimited call.triple) {key : String}
    (hkey : ∃ call ∈ calls, call.key = key) : KeyOf key := by
  obtain ⟨call, hcall, rfl⟩ := hkey
  exact ⟨call.triple, h call hcall, rfl⟩

theorem countP_key (h : ∀ call ∈ calls, Delimited call.triple) (hcall : call ∈ calls) :
    calls.countP (fun other => other.key = call.key) =
      calls.countP fun other => other.triple = call.triple := by
  refine List.countP_congr fun other hother => ?_
  simp only [decide_eq_true_eq]
  constructor
  · intro hkey
    have hlabels := congrArg keyLabels hkey
    rw [other.key_eq, call.key_eq, keyLabels_tripleKey (h other hother),
      keyLabels_tripleKey (h call hcall)] at hlabels
    exact tripleLabels_injective hlabels
  · intro htriple
    rw [other.key_eq, call.key_eq, htriple]

section Found

variable (h : ∀ call ∈ calls, Delimited call.triple)
include h

theorem keyLabels_call (hcall : call ∈ calls) : keyLabels call.key = tripleLabels call.triple := by
  rw [call.key_eq, keyLabels_tripleKey (h call hcall)]

theorem scrape_run : scrape rt uptime rss ((Metrics.start cache).recordAll rt calls) =
    gauges rt uptime rss ++
      (Metrics.sorted rt
        ((Metrics.start cache).recordAll rt calls).httpRequests.entries).map requestSample ++
      (Metrics.sorted rt
        ((Metrics.start cache).recordAll rt calls).httpDurationMs.entries).flatMap
          (durationSamples rt) ++
      [CacheOutcome.hit, .miss, .load, .error].map
        (cacheSample ((Metrics.start cache).recordAll rt calls)) :=
  scrape_eq rt uptime rss (fun _ hkey => keyOf_of_run h ((mem_requestKeys_iff rt cache).mp hkey))
    fun _ hkey => keyOf_of_run h ((mem_durationKeys_iff rt cache).mp hkey)

theorem total_mem_scrape (hcall : call ∈ calls) :
    (⟨"eventify_http_requests_total", tripleLabels call.triple,
        toString (calls.countP fun other => other.triple = call.triple)⟩ : Sample) ∈
      scrape rt uptime rss ((Metrics.start cache).recordAll rt calls) := by
  have hentry := OrderedMap.mem_entries_iff.mpr (get_requests rt cache hcall)
  rw [scrape_run rt uptime rss cache h, ← keyLabels_call h hcall, ← countP_key h hcall]
  refine List.mem_append_left _ (List.mem_append_left _ (List.mem_append_right _ ?_))
  refine List.mem_map.mpr ⟨(call.key, _), (mem_sorted rt).mpr hentry, ?_⟩
  rw [requestSample]

theorem count_mem_scrape (hcall : call ∈ calls) :
    (⟨"eventify_http_request_duration_ms_count", tripleLabels call.triple,
        toString (calls.countP fun other => other.triple = call.triple)⟩ : Sample) ∈
      scrape rt uptime rss ((Metrics.start cache).recordAll rt calls) := by
  obtain ⟨summary, hget, hcount⟩ := get_durations rt cache hcall
  have hentry := OrderedMap.mem_entries_iff.mpr hget
  rw [scrape_run rt uptime rss cache h, ← keyLabels_call h hcall, ← countP_key h hcall, ← hcount]
  refine List.mem_append_left _ (List.mem_append_right _ ?_)
  refine List.mem_flatMap.mpr ⟨(call.key, summary), (mem_sorted rt).mpr hentry, ?_⟩
  exact List.mem_cons_of_mem _ List.mem_cons_self

theorem total_recorded (hs : s ∈ scrape rt uptime rss ((Metrics.start cache).recordAll rt calls))
    (hname : s.name = "eventify_http_requests_total") :
    ∃ call ∈ calls, s.labels = tripleLabels call.triple := by
  rw [scrape_run rt uptime rss cache h] at hs
  rcases List.mem_append.mp hs with hs | hs
  · rcases List.mem_append.mp hs with hs | hs
    · rcases List.mem_append.mp hs with hs | hs
      · have hgauge := names_gauges rt uptime rss s hs
        rw [hname] at hgauge
        exact absurd hgauge (by decide)
      · obtain ⟨entry, hentry, rfl⟩ := List.mem_map.mp hs
        obtain ⟨call, hcall, hkey⟩ := (mem_requestKeys_iff rt cache).mp
          (List.mem_map_of_mem ((mem_sorted rt).mp hentry))
        refine ⟨call, hcall, ?_⟩
        rw [← keyLabels_call h hcall, hkey]
        rfl
    · have hduration := names_durations rt _ s hs
      rw [hname] at hduration
      exact absurd hduration (by decide)
  · have hcache := names_cache _ _ s hs
    rw [hname] at hcache
    exact absurd hcache (by decide)

/-- Triples without the separator come back. -/
theorem roundTrips_of_delimited :
    RoundTrips calls (scrape rt uptime rss ((Metrics.start cache).recordAll rt calls)) := by
  have hnodup := nodup_scrape rt uptime rss
    (fun _ hkey => keyOf_of_run h ((mem_requestKeys_iff rt cache).mp hkey))
    fun _ hkey => keyOf_of_run h ((mem_durationKeys_iff rt cache).mp hkey)
  refine ⟨fun call hcall => ?_, fun call hcall => ?_, fun s hs hname => ?_, hnodup⟩
  · exact filter_series hnodup (total_mem_scrape rt uptime rss cache h hcall) rfl
  · exact filter_series hnodup (count_mem_scrape rt uptime rss cache h hcall) rfl
  · exact total_recorded rt uptime rss cache h hs hname

end Found

end Delimited

/-! ### No label has the separator -/

theorem bar_not_mem_escapeLabel {value : String} (h : '|' ∉ value.toList) :
    '|' ∉ (escapeLabel value).toList := by
  rw [escapeLabel_toList, List.mem_flatMap]
  rintro ⟨c, hc, hmem⟩
  unfold escapeLabelChar at hmem
  split at hmem
  · exact absurd hmem (by decide)
  · exact absurd hmem (by decide)
  · exact absurd hmem (by decide)
  · exact h (List.mem_singleton.mp hmem ▸ hc)

/-- The parts of a key have no separator left, whatever the key is. -/
theorem bar_not_mem_part (key : String) (i : ℕ) {default : String}
    (hdefault : '|' ∉ default.toList) :
    '|' ∉ (((key.toList.splitOn '|').map String.ofList)[i]?.getD default).toList := by
  cases hpart : ((key.toList.splitOn '|').map String.ofList)[i]? with
  | none => exact hdefault
  | some part =>
      obtain ⟨chars, hchars, rfl⟩ := List.mem_map.mp (List.mem_of_getElem? hpart)
      rw [Option.getD_some, String.toList_ofList]
      exact not_mem_of_mem_splitOn hchars

theorem bar_not_mem_httpLabels (key : String) : '|' ∉ (httpLabels key).toList := by
  have hdefaults : '|' ∉ "UNKNOWN".toList ∧ '|' ∉ "/".toList ∧ '|' ∉ "0".toList := by decide
  have hmethod := bar_not_mem_escapeLabel (bar_not_mem_part key 0 hdefaults.1)
  have hroute := bar_not_mem_escapeLabel (bar_not_mem_part key 1 hdefaults.2.1)
  have hstatus := bar_not_mem_part key 2 hdefaults.2.2
  simp only [httpLabels, String.toList_append, List.mem_append, not_or]
  exact ⟨⟨⟨⟨⟨⟨by decide, hmethod⟩, by decide⟩, hroute⟩, by decide⟩, hstatus⟩, by decide⟩

section Text

variable (rt : MetricsRuntime δ) (uptime : δ) (rss : ℕ) (m : Metrics δ)

theorem bar_not_mem_append {text text' : String} (h : '|' ∉ text.toList)
    (h' : '|' ∉ text'.toList) : '|' ∉ (text ++ text').toList := by
  rw [String.toList_append, List.mem_append]
  exact not_or.mpr ⟨h, h'⟩

theorem bar_not_mem_literal {chars : List Char} (h : '|' ∉ chars) :
    '|' ∉ (String.ofList chars).toList := by
  rwa [String.toList_ofList]

theorem bar_not_mem_labelled {start : List Char} {value : String} (hstart : '|' ∉ start)
    (hvalue : '|' ∉ value.toList) (key : String) :
    '|' ∉ (String.ofList start ++ httpLabels key ++ "\x7d " ++ value).toList :=
  bar_not_mem_append (bar_not_mem_append (bar_not_mem_append (bar_not_mem_literal hstart)
    (bar_not_mem_httpLabels key)) (bar_not_mem_literal (by decide))) hvalue

theorem bar_not_mem_cacheLine (result : CacheOutcome) :
    '|' ∉ (Metrics.cacheLine m result).toList := by
  have hresult : '|' ∉ result.text.toList := by
    cases result
    all_goals decide
  exact bar_not_mem_append (bar_not_mem_append (bar_not_mem_append
    (bar_not_mem_literal (by decide)) hresult) (bar_not_mem_literal (by decide)))
    (not_mem_toString _ (by decide))

theorem bar_not_mem_durationLines (entry : String × DurationSummary δ) :
    ∀ line ∈ Metrics.durationLines rt entry, '|' ∉ line.toList := by
  intro line hline
  simp only [Metrics.durationLines, List.mem_cons, List.not_mem_nil, or_false] at hline
  rcases hline with rfl | rfl | rfl
  · exact bar_not_mem_labelled (by decide) (not_mem_toFixed rt _ (by decide)) entry.1
  · exact bar_not_mem_labelled (by decide) (not_mem_toString _ (by decide)) entry.1
  · exact bar_not_mem_labelled (by decide) (not_mem_toFixed rt _ (by decide)) entry.1

theorem bar_not_mem_line : ∀ line ∈ Metrics.lines rt uptime rss m, '|' ∉ line.toList := by
  have hfirst : ∀ line ∈ ["# HELP eventify_process_uptime_seconds Process uptime in seconds.",
      "# TYPE eventify_process_uptime_seconds gauge",
      "eventify_process_uptime_seconds " ++ rt.toFixed uptime,
      "# HELP eventify_process_resident_memory_bytes Resident memory usage in bytes.",
      "# TYPE eventify_process_resident_memory_bytes gauge",
      "eventify_process_resident_memory_bytes " ++ toString rss,
      "# HELP eventify_http_requests_total Total HTTP requests.",
      "# TYPE eventify_http_requests_total counter"], '|' ∉ line.toList := by
    simp only [List.forall_mem_cons]
    refine ⟨bar_not_mem_literal (by decide), bar_not_mem_literal (by decide), ?_,
      bar_not_mem_literal (by decide), bar_not_mem_literal (by decide), ?_,
      bar_not_mem_literal (by decide), bar_not_mem_literal (by decide), by simp⟩
    · exact bar_not_mem_append (bar_not_mem_literal (by decide))
        (not_mem_toFixed rt uptime (by decide))
    · exact bar_not_mem_append (bar_not_mem_literal (by decide))
        (not_mem_toString rss (by decide))
  simp only [Metrics.lines, List.forall_mem_append]
  refine ⟨⟨⟨⟨⟨hfirst, ?_⟩, ?_⟩, ?_⟩, ?_⟩, ?_⟩
  · intro line hline
    obtain ⟨entry, -, rfl⟩ := List.mem_map.mp hline
    exact bar_not_mem_labelled (by decide) (not_mem_toString _ (by decide)) entry.1
  · simp only [List.forall_mem_cons]
    exact ⟨bar_not_mem_literal (by decide), bar_not_mem_literal (by decide), by simp⟩
  · intro line hline
    obtain ⟨entry, -, hline⟩ := List.mem_flatMap.mp hline
    exact bar_not_mem_durationLines rt entry line hline
  · simp only [List.forall_mem_cons]
    exact ⟨bar_not_mem_literal (by decide), bar_not_mem_literal (by decide), by simp⟩
  · intro line hline
    obtain ⟨result, -, rfl⟩ := List.mem_map.mp hline
    exact bar_not_mem_cacheLine m result

theorem bar_not_mem_render : '|' ∉ (Metrics.renderMetrics rt uptime rss m).toList := by
  rw [Metrics.renderMetrics, String.toList_append, List.mem_append, String.toList_intercalate]
  rintro (hmem | hmem)
  · rcases mem_intercalate hmem with hsep | ⟨line, hline, hmem⟩
    · exact absurd hsep (by decide)
    · obtain ⟨text, htext, rfl⟩ := List.mem_map.mp hline
      exact bar_not_mem_line rt uptime rss m text htext hmem
  · exact absurd hmem (by decide)

end Text

theorem delimited_of_roundTrips {rt : MetricsRuntime δ} {cache : OrderedMap CacheOutcome ℕ}
    {uptime : δ} {rss : ℕ} {calls : List (HttpRecord δ)}
    (h : RoundTrips calls (scrape rt uptime rss ((Metrics.start cache).recordAll rt calls)))
    {call : HttpRecord δ} (hcall : call ∈ calls) : Delimited call.triple := by
  have hfound := h.total call hcall
  have hsample := (List.mem_filter.mp (hfound ▸ List.mem_singleton_self _)).1
  have hbar := not_mem_of_readExposition (by decide)
    (bar_not_mem_render rt uptime rss ((Metrics.start cache).recordAll rt calls)) hsample
  exact ⟨hbar ("method", call.triple.1) (by simp [tripleLabels]),
    hbar ("route", call.triple.2.1) (by simp [tripleLabels])⟩

/-- The samples of a run give every triple back, with its counts, exactly when
no recorded call has the separator in its method or in its route label. -/
theorem scrape_roundTrips_iff (rt : MetricsRuntime δ) (cache : OrderedMap CacheOutcome ℕ)
    (uptime : δ) (rss : ℕ) (calls : List (HttpRecord δ)) :
    RoundTrips calls (scrape rt uptime rss ((Metrics.start cache).recordAll rt calls)) ↔
      ∀ call ∈ calls, '|' ∉ call.method.toList ∧
        '|' ∉ (normalizeMetricRoute call.route).toList := by
  constructor
  · exact fun h call hcall => delimited_of_roundTrips h hcall
  · exact roundTrips_of_delimited rt uptime rss cache

/-- A target with the separator in it, which no route has. -/
def barRequest : HttpRecord ℕ := ⟨"GET", "/x|1", 404, 1⟩

theorem scrape_not_roundTrips :
    ¬ ∀ calls : List (HttpRecord ℕ), RoundTrips calls
      (scrape wholeMillis 0 0 ((Metrics.start .empty).recordAll wholeMillis calls)) := by
  intro h
  have hdelimited := delimited_of_roundTrips (h [barRequest]) (List.mem_singleton_self barRequest)
  have hlabel : '|' ∉ (normalizeMetricRoute "/x|1").toList := hdelimited.2
  rw [normalizeMetricRoute_toList] at hlabel
  exact absurd hlabel (by decide)

end Eventify
