import Eventify.Library.Codes
import Eventify.Library.OrderedMap
import Eventify.Library.Patterns
import Mathlib.Data.Int.Notation

/-!
# HTTP metrics

`metrics.ts` keeps its counters in maps by a text of method, route label and
status, and writes them out as lines for Prometheus. The route label is the
request target with ids replaced, from `request-observability.ts`.
-/

namespace Eventify

open Library

/-! ### Route labels -/

/-- `[0-9a-f]`, where letter case is ignored. -/
def isHexDigit (c : Char) : Bool := c.isDigit || ('a' ≤ c.toLower && c.toLower ≤ 'f')

def isVersionDigit (c : Char) : Bool := '1' ≤ c && c ≤ '8'

def isVariantDigit (c : Char) : Bool :=
  c == '8' || c == '9' || c.toLower == 'a' || c.toLower == 'b'

def isDash (c : Char) : Bool := c == '-'

/-- The character classes of the pattern of UUIDs, behind its slash. -/
def uuidClasses : List (Char → Bool) :=
  List.replicate 8 isHexDigit ++ isDash :: List.replicate 4 isHexDigit ++
    isDash :: isVersionDigit :: List.replicate 3 isHexDigit ++
    isDash :: isVariantDigit :: List.replicate 3 isHexDigit ++
    isDash :: List.replicate 12 isHexDigit

/-- What stands behind one character of each class. -/
def matchClasses : List (Char → Bool) → List Char → Option (List Char)
  | [], rest => some rest
  | _ :: _, [] => none
  | p :: classes, c :: rest => if p c then matchClasses classes rest else none

/-- The look-ahead of both patterns: a slash, or the end. -/
def atSegmentEnd (rest : List Char) : Bool := rest.head?.all (· == '/')

def findUuid : List Char → Option ℕ
  | '/' :: rest =>
      match matchClasses uuidClasses rest with
      | some behind => if atSegmentEnd behind then some (uuidClasses.length + 1) else none
      | none => none
  | _ => none

def findDigits : List Char → Option ℕ
  | '/' :: rest =>
      let digits := rest.takeWhile Char.isDigit
      if digits ≠ [] ∧ atSegmentEnd (rest.drop digits.length) = true then some (digits.length + 1)
      else none
  | _ => none

/-- What stands before the first question mark. -/
def beforeQuery (path : List Char) : List Char := (path.splitOn '?').headD []

def normalizeMetricRoute (path : String) : String :=
  String.ofList (replaceGlobal findDigits "/:id".toList 0
    (replaceGlobal findUuid "/:id".toList 0 (beforeQuery path.toList)))

/-! ### Labels by segments -/

def isUuidSegment (segment : List Char) : Bool := matchClasses uuidClasses segment == some []

def isDigitSegment (segment : List Char) : Bool := !segment.isEmpty && segment.all Char.isDigit

/-- The segments that the patterns replace. -/
def isIdSegment (segment : List Char) : Bool := isUuidSegment segment || isDigitSegment segment

def labelSegment (segment : List Char) : List Char :=
  if isIdSegment segment = true then ":id".toList else segment

theorem uuidClasses_slash : ∀ p ∈ uuidClasses, p '/' = false := by
  have hall : uuidClasses.all (fun p => !p '/') = true := by decide
  intro p hp
  simpa using List.all_eq_true.mp hall p hp

/-! ### The patterns -/

/-- The pattern of UUIDs, its look-ahead included. -/
def uuidPattern : Pattern Char := .segment '/' (.ones uuidClasses)

def digitsPattern : Pattern Char := .segment '/' (.plus Char.isDigit)

theorem matchClasses_length {classes : List (Char → Bool)} {text behind : List Char}
    (h : matchClasses classes text = some behind) :
    text.length = classes.length + behind.length := by
  induction classes generalizing text with
  | nil => cases h; simp
  | cons p classes ih =>
      cases text with
      | nil => cases h
      | cons c text =>
          simp only [matchClasses] at h
          split at h
          · rw [List.length_cons, ih h, List.length_cons]
            omega
          · cases h

/-- A pattern of single characters has one attempt at most. -/
theorem rests_ones (classes : List (Char → Bool)) (text : List Char) :
    (Pattern.ones classes).rests text = (matchClasses classes text).toList := by
  induction classes generalizing text with
  | nil => rfl
  | cons p classes ih =>
      cases text with
      | nil => rfl
      | cons c text =>
          by_cases hc : p c = true
          · simp [Pattern.ones, Pattern.rests, matchClasses, hc, ih]
          · simp [Pattern.ones, Pattern.rests, matchClasses, hc]

/-- Both matchers look for a slash first. -/
theorem eq_find_segment {find : List Char → Option ℕ} {word : Pattern Char}
    (hslash : ∀ rest, find ('/' :: rest) = (Pattern.segment '/' word).find ('/' :: rest))
    (helse : ∀ text, (∀ rest, text = '/' :: rest → False) → find text = none) :
    find = (Pattern.segment '/' word).find := by
  funext text
  cases text with
  | nil => exact helse [] fun _ h => nomatch h
  | cons c rest =>
      by_cases hc : c = '/'
      · exact hc ▸ hslash rest
      · rw [helse _ fun _ h => hc (List.cons.inj h).1, Pattern.find,
          Pattern.rests_segment_of_ne hc]
        rfl

theorem findUuid_eq : findUuid = uuidPattern.find := by
  refine eq_find_segment (fun rest => ?_) findUuid.eq_2
  rw [findUuid, Pattern.find, Pattern.rests_segment, rests_ones]
  cases hmatch : matchClasses uuidClasses rest with
  | none => rfl
  | some behind =>
      have hlength := matchClasses_length hmatch
      by_cases hend : atSegmentEnd behind = true
      · have hfound : [behind].filter (fun rest => rest.head?.all (· == '/')) = [behind] :=
          List.filter_cons_of_pos hend
        have hbehind : rest.length + 1 - behind.length = uuidClasses.length + 1 := by omega
        simp only [hend, if_true, Option.toList_some, hfound, List.head?_cons, Option.map_some,
          List.length_cons, hbehind]
      · have hmissed : [behind].filter (fun rest => rest.head?.all (· == '/')) = [] :=
          List.filter_cons_of_neg hend
        simp only [hend, Option.toList_some, hmissed]
        rfl

theorem findDigits_eq : findDigits = digitsPattern.find := by
  refine eq_find_segment (fun rest => ?_) findDigits.eq_2
  have hdrop : rest.drop (rest.takeWhile Char.isDigit).length = rest.dropWhile Char.isDigit :=
    calc rest.drop (rest.takeWhile Char.isDigit).length
        = (rest.takeWhile Char.isDigit ++ rest.dropWhile Char.isDigit).drop
            (rest.takeWhile Char.isDigit).length := by rw [List.takeWhile_append_dropWhile]
      _ = rest.dropWhile Char.isDigit := List.drop_left
  rw [Pattern.find_segment_plus (by rfl), findDigits, hdrop]
  rfl

theorem takesSegments_uuid : TakesSegments '/' isUuidSegment findUuid := by
  have htakes : (Pattern.ones uuidClasses).takes = isUuidSegment := by
    funext segment
    rw [Pattern.takes, rests_ones, isUuidSegment]
    cases matchClasses uuidClasses segment with
    | none => rfl
    | some behind => simp
  rw [findUuid_eq, ← htakes]
  exact Pattern.takesSegments_segment (Pattern.inside_ones uuidClasses_slash)

theorem takesSegments_digits : TakesSegments '/' isDigitSegment findDigits := by
  have htakes : (Pattern.plus Char.isDigit).takes = isDigitSegment :=
    funext (Pattern.takes_plus Char.isDigit)
  have hslash : Char.isDigit '/' = false := rfl
  rw [findDigits_eq, ← htakes]
  exact Pattern.takesSegments_segment hslash

theorem not_mem_label {s : List Char} (hs : '/' ∉ s) (kind : Prop) [Decidable kind] :
    '/' ∉ if kind then ":id".toList else s := by
  split
  · decide
  · exact hs

/-- The two replacements, one after the other, label each segment. -/
theorem normalizeMetricRoute_toList (path : String) :
    (normalizeMetricRoute path).toList =
      mapSegments '/' labelSegment (beforeQuery path.toList) := by
  have htag : "/:id".toList = '/' :: ":id".toList := by decide
  rw [normalizeMetricRoute, String.toList_ofList, htag,
    replaceGlobal_eq_mapSegments takesSegments_uuid,
    replaceGlobal_eq_mapSegments takesSegments_digits,
    mapSegments_mapSegments _ fun s hs => not_mem_label hs _]
  congr 1
  funext s
  by_cases huuid : isUuidSegment s = true
  · simp [labelSegment, isIdSegment, huuid]
  · simp [labelSegment, isIdSegment, huuid]

/-! ### Recording -/

/-- Characters of the texts of numbers, `NaN` and `Infinity` among them. -/
def isNumeralChar (c : Char) : Bool := c.isDigit || "+-.eNaInfinity".toList.contains c

/-- The numbers of the runtime, with their texts, and its order of texts. -/
structure MetricsRuntime (δ : Type*) where
  zero : δ
  add : δ → δ → δ
  max : δ → δ → δ
  toFixed : δ → String
  localeCompare : String → String → ℤ
  toFixed_numeral : ∀ d, ∀ c ∈ (toFixed d).toList, isNumeralChar c = true

theorem isNumeralChar_toString (n : ℕ) {c : Char} (hc : c ∈ (toString n).toList) :
    isNumeralChar c = true := by
  simp [isNumeralChar, isDigit_of_mem_toString hc]

/-- Whole milliseconds. -/
def wholeMillis : MetricsRuntime ℕ where
  zero := 0
  add := (· + ·)
  max := max
  toFixed n := toString n
  localeCompare a b := if a < b then -1 else if a = b then 0 else 1
  toFixed_numeral n _ hc := isNumeralChar_toString n hc

structure HttpRecord (δ : Type*) where
  method : String
  route : String
  status : ℕ
  durationMs : δ

structure DurationSummary (δ : Type*) where
  count : ℕ
  sum : δ
  max : δ

inductive CacheOutcome where
  | hit
  | miss
  | load
  | error
  deriving DecidableEq, Repr

def CacheOutcome.text : CacheOutcome → String
  | .hit => "hit"
  | .miss => "miss"
  | .load => "load"
  | .error => "error"

structure Metrics (δ : Type*) where
  httpRequests : OrderedMap String ℕ
  httpDurationMs : OrderedMap String (DurationSummary δ)
  cacheResults : OrderedMap CacheOutcome ℕ

def httpKey (method route : String) (status : ℕ) : String :=
  method ++ "|" ++ route ++ "|" ++ toString status

def HttpRecord.key {δ : Type*} (input : HttpRecord δ) : String :=
  httpKey input.method (normalizeMetricRoute input.route) input.status

/-- The route that the finish handler records: the target up to its query. -/
def finishedRoute (originalUrl path : String) : String :=
  let target := String.ofList (beforeQuery originalUrl.toList)
  if target ≠ "" then target else if path ≠ "" then path else "/"

namespace Metrics

variable {δ : Type*}

/-- No request recorded yet; cache outcomes are counted apart. -/
def start (cacheResults : OrderedMap CacheOutcome ℕ) : Metrics δ := ⟨.empty, .empty, cacheResults⟩

variable (rt : MetricsRuntime δ)

def countRequest (_ : HttpRecord δ) (count : Option ℕ) : ℕ := count.getD 0 + 1

def addDuration (input : HttpRecord δ) (current : Option (DurationSummary δ)) :
    DurationSummary δ :=
  let current := current.getD ⟨0, rt.zero, rt.zero⟩
  ⟨current.count + 1, rt.add current.sum input.durationMs, rt.max current.max input.durationMs⟩

def recordHttpRequest (m : Metrics δ) (input : HttpRecord δ) : Metrics δ :=
  let key := input.key
  { m with
    httpRequests := m.httpRequests.set key (countRequest input (m.httpRequests.get key))
    httpDurationMs := m.httpDurationMs.set key (addDuration rt input (m.httpDurationMs.get key)) }

def recordCacheResult (m : Metrics δ) (result : CacheOutcome) : Metrics δ :=
  { m with
    cacheResults := m.cacheResults.set result ((m.cacheResults.get result).getD 0 + 1) }

def recordAll (m : Metrics δ) (calls : List (HttpRecord δ)) : Metrics δ :=
  calls.foldl (recordHttpRequest rt) m

end Metrics

section Recorded

variable {δ : Type*} (rt : MetricsRuntime δ) (calls : List (HttpRecord δ))

theorem recordAll_eq (m : Metrics δ) : m.recordAll rt calls =
    ⟨m.httpRequests.updateAll HttpRecord.key Metrics.countRequest calls,
      m.httpDurationMs.updateAll HttpRecord.key (Metrics.addDuration rt) calls,
      m.cacheResults⟩ := by
  induction calls generalizing m with
  | nil => rfl
  | cons call calls ih => exact ih (m.recordHttpRequest rt call)

variable {calls} (cache : OrderedMap CacheOutcome ℕ) {key : String}

theorem mem_requestKeys_iff :
    key ∈ ((Metrics.start cache).recordAll rt calls).httpRequests.keys ↔
      ∃ call ∈ calls, call.key = key := by
  rw [recordAll_eq]
  exact OrderedMap.mem_keys_updateAll _ _

theorem mem_durationKeys_iff :
    key ∈ ((Metrics.start cache).recordAll rt calls).httpDurationMs.keys ↔
      ∃ call ∈ calls, call.key = key := by
  rw [recordAll_eq]
  exact OrderedMap.mem_keys_updateAll _ _

end Recorded

/-! ### Rendering -/

def replaceAll (c : Char) (word : String) (value : String) : String :=
  String.ofList (value.toList.flatMap fun d => if d = c then word.toList else [d])

def escapeLabel (value : String) : String :=
  replaceAll '\n' "\\n" (replaceAll '"' "\\\"" (replaceAll '\\' "\\\\" value))

def httpLabels (key : String) : String :=
  let parts := (key.toList.splitOn '|').map String.ofList
  let method := parts[0]?.getD "UNKNOWN"
  let route := parts[1]?.getD "/"
  let status := parts[2]?.getD "0"
  "method=\"" ++ escapeLabel method ++ "\",route=\"" ++ escapeLabel route ++ "\",status=\"" ++
    status ++ "\""

namespace Metrics

variable {δ : Type*} (rt : MetricsRuntime δ)

def sorted {ν : Type*} (entries : List (String × ν)) : List (String × ν) :=
  entries.mergeSort fun a b => decide (rt.localeCompare a.1 b.1 ≤ 0)

def requestLines (entry : String × ℕ) : String :=
  "eventify_http_requests_total\x7b" ++ httpLabels entry.1 ++ "\x7d " ++ toString entry.2

def durationLines (entry : String × DurationSummary δ) : List String :=
  let labels := httpLabels entry.1
  [ "eventify_http_request_duration_ms_sum\x7b" ++ labels ++ "\x7d " ++ rt.toFixed entry.2.sum,
    "eventify_http_request_duration_ms_count\x7b" ++ labels ++ "\x7d " ++ toString entry.2.count,
    "eventify_http_request_duration_ms_max\x7b" ++ labels ++ "\x7d " ++ rt.toFixed entry.2.max ]

def cacheLine (m : Metrics δ) (result : CacheOutcome) : String :=
  "eventify_cache_operations_total\x7bresult=\"" ++ result.text ++ "\"\x7d " ++
    toString ((m.cacheResults.get result).getD 0)

def lines (uptime : δ) (rss : ℕ) (m : Metrics δ) : List String :=
  [ "# HELP eventify_process_uptime_seconds Process uptime in seconds.",
    "# TYPE eventify_process_uptime_seconds gauge",
    "eventify_process_uptime_seconds " ++ rt.toFixed uptime,
    "# HELP eventify_process_resident_memory_bytes Resident memory usage in bytes.",
    "# TYPE eventify_process_resident_memory_bytes gauge",
    "eventify_process_resident_memory_bytes " ++ toString rss,
    "# HELP eventify_http_requests_total Total HTTP requests.",
    "# TYPE eventify_http_requests_total counter" ] ++
  (sorted rt m.httpRequests.entries).map requestLines ++
  [ "# HELP eventify_http_request_duration_ms Request duration in milliseconds.",
    "# TYPE eventify_http_request_duration_ms summary" ] ++
  (sorted rt m.httpDurationMs.entries).flatMap (durationLines rt) ++
  [ "# HELP eventify_cache_operations_total Cache outcomes.",
    "# TYPE eventify_cache_operations_total counter" ] ++
  [CacheOutcome.hit, .miss, .load, .error].map (cacheLine m)

def renderMetrics (uptime : δ) (rss : ℕ) (m : Metrics δ) : String :=
  "\n".intercalate (lines rt uptime rss m) ++ "\n"

end Metrics

end Eventify
