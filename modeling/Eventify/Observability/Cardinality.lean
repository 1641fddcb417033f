import Eventify.Observability.Metrics
import Mathlib.Data.List.Perm.Subperm

/-!
# How many keys the metrics hold

Requests to registered routes with ids that the patterns take have finitely
many labels: the paths of the routes, in any letter case and with the slashes
at the end that the router lets through. Every other request target is a label
of its own.
-/

namespace Eventify

open Library

/-! ### Routes -/

/-- A path under the mount point of its router, `""` for the routes of `app`. -/
structure Route where
  mount : String
  path : String
  deriving DecidableEq, Repr

def routes : List Route :=
  [ ⟨"", "/"⟩, ⟨"", "/health"⟩, ⟨"", "/ready"⟩, ⟨"", "/metrics"⟩,
    ⟨"/v1/auth", "/signup"⟩, ⟨"/v1/auth", "/login"⟩, ⟨"/v1/auth", "/refresh"⟩,
    ⟨"/v1/auth", "/me"⟩, ⟨"/v1/auth", "/logout"⟩,
    ⟨"/v1/events", "/"⟩, ⟨"/v1/events", "/mine"⟩, ⟨"/v1/events", "/:id/stats"⟩,
    ⟨"/v1/events", "/:id"⟩,
    ⟨"/v1/bookings", "/"⟩, ⟨"/v1/bookings", "/mine"⟩, ⟨"/v1/bookings", "/:id"⟩ ]

inductive RoutePart where
  | fixed (text : List Char)
  | param
  deriving DecidableEq, Repr

def routePart (segment : List Char) : RoutePart :=
  if segment.head? = some ':' then .param else .fixed segment

/-- The path of a request, from its segments. -/
def targetOf (segments : List (List Char)) : String :=
  String.ofList (['/'].intercalate ([] :: segments))

/-- The router ignores letter case. -/
def spellsText : List Char → List Char → Bool
  | [], [] => true
  | d :: text, c :: segment => (c == d.toLower || c == d.toUpper) && spellsText text segment
  | _, _ => false

def RoutePart.spells (ids : List Char → Bool) : RoutePart → List Char → Bool
  | .fixed text, segment => spellsText text segment
  | .param, segment => ids segment

/-- The segments of a path that spells the parts, with some slashes at the end. -/
def spelled (ids : List Char → Bool) (slashes : ℕ) :
    List RoutePart → List (List Char) → Bool
  | [], rest => decide (rest.length ≤ slashes) && rest.all List.isEmpty
  | part :: parts, segment :: segments =>
      part.spells ids segment && spelled ids slashes parts segments
  | _ :: _, [] => false

namespace Route

variable (route : Route)

def parts : List RoutePart :=
  (((route.mount ++ route.path).toList.splitOn '/').filter fun segment => !segment.isEmpty).map
    routePart

/-- One slash at the end is optional. The slash that `"/"` itself is may also
be missing behind a mount point. -/
def slashes : ℕ := if route.path = "/" then 2 else 1

/-- The router takes the path for the route, where the texts of its parameters
are of the given kind. -/
def serves (ids : List Char → Bool) (path : List Char) : Bool :=
  match path.splitOn '/' with
  | [] => false
  | first :: segments => first.isEmpty && spelled ids route.slashes route.parts segments

end Route

/-- Texts that are labelled `:id`: the ids, and this text itself. -/
def isPlaceholder (segment : List Char) : Bool := labelSegment segment == ":id".toList

/-! ### Labels of the routes -/

def caseVariants : List Char → List (List Char)
  | [] => [[]]
  | d :: text => (caseVariants text).flatMap fun t => [d.toLower :: t, d.toUpper :: t]

def RoutePart.labels : RoutePart → List (List Char)
  | .fixed text => caseVariants text
  | .param => [":id".toList]

def segmentLabels : List RoutePart → List (List (List Char))
  | [] => [[]]
  | part :: parts => part.labels.flatMap fun s => (segmentLabels parts).map (s :: ·)

def Route.labels (route : Route) : List String :=
  (segmentLabels route.parts).flatMap fun segments =>
    (List.range (route.slashes + 1)).map fun k => targetOf (segments ++ List.replicate k [])

def routeLabels : List String := routes.flatMap Route.labels

theorem mem_caseVariants {text segment : List Char} (h : spellsText text segment = true) :
    segment ∈ caseVariants text := by
  induction text generalizing segment with
  | nil =>
      cases segment with
      | nil => exact List.mem_singleton_self []
      | cons c segment => cases h
  | cons d text ih =>
      cases segment with
      | nil => cases h
      | cons c segment =>
          obtain ⟨hc, hrest⟩ := Bool.and_eq_true_iff.mp h
          refine List.mem_flatMap.mpr ⟨segment, ih hrest, ?_⟩
          rcases Bool.or_eq_true_iff.mp hc with hc | hc
          · simp [beq_iff_eq.mp hc]
          · simp [beq_iff_eq.mp hc]

/-- Characters that no id has, in either letter case. -/
def isForeign (d : Char) : Bool := [d.toLower, d.toUpper].all fun c => !isHexDigit c && c != '-'

theorem hex_or_dash {p : Char → Bool} (hp : p ∈ uuidClasses) {c : Char} (hc : p c = true) :
    isHexDigit c = true ∨ c = '-' := by
  have hclasses : p = isHexDigit ∨ p = isDash ∨ p = isVersionDigit ∨ p = isVariantDigit := by
    simp only [uuidClasses, List.mem_append, List.mem_cons, List.mem_replicate] at hp
    tauto
  rcases hclasses with rfl | rfl | rfl | rfl
  · exact .inl hc
  · exact .inr (beq_iff_eq.mp hc)
  · have hdigit : c.isDigit = true := by
      simp only [isVersionDigit, Bool.and_eq_true, decide_eq_true_eq] at hc
      rw [Char.isDigit, Bool.and_eq_true, decide_eq_true_eq, decide_eq_true_eq]
      exact ⟨UInt32.le_trans (by decide : '0'.val ≤ '1'.val) hc.1,
        UInt32.le_trans hc.2 (by decide : '8'.val ≤ '9'.val)⟩
    exact .inl (by simp [isHexDigit, hdigit])
  · simp only [isVariantDigit, Bool.or_eq_true, beq_iff_eq] at hc
    rcases hc with ((rfl | rfl) | hc) | hc
    · exact .inl (by decide)
    · exact .inl (by decide)
    · exact .inl (by simp [isHexDigit, hc])
    · exact .inl (by simp [isHexDigit, hc])

theorem matchClasses_mem {classes : List (Char → Bool)} {text : List Char}
    (h : matchClasses classes text = some []) {c : Char} (hc : c ∈ text) :
    ∃ p ∈ classes, p c = true := by
  induction classes generalizing text with
  | nil =>
      obtain rfl := Option.some.inj h
      cases hc
  | cons p classes ih =>
      cases text with
      | nil => cases h
      | cons d text =>
          simp only [matchClasses] at h
          split at h
          · next hd =>
              rcases List.mem_cons.mp hc with rfl | hc
              · exact ⟨p, List.mem_cons_self, hd⟩
              · obtain ⟨q, hq, hqc⟩ := ih h hc
                exact ⟨q, List.mem_cons_of_mem _ hq, hqc⟩
          · cases h

/-- Ids consist of hexadecimal digits and dashes. -/
theorem isIdSegment_mem {s : List Char} (h : isIdSegment s = true) {c : Char} (hc : c ∈ s) :
    isHexDigit c = true ∨ c = '-' := by
  rcases Bool.or_eq_true_iff.mp h with h | h
  · obtain ⟨p, hp, hpc⟩ := matchClasses_mem (beq_iff_eq.mp h) hc
    exact hex_or_dash hp hpc
  · have hdigit := List.all_eq_true.mp (Bool.and_eq_true_iff.mp h).2 c hc
    exact .inl (by simp [isHexDigit, hdigit])

theorem exists_mem_caseVariants {text s : List Char} (hs : s ∈ caseVariants text) {d : Char}
    (hd : d ∈ text) : ∃ c ∈ [d.toLower, d.toUpper], c ∈ s := by
  induction text generalizing s with
  | nil => cases hd
  | cons d' text ih =>
      obtain ⟨t, ht, hs⟩ := List.mem_flatMap.mp hs
      rcases List.mem_cons.mp hd with rfl | hd
      · rcases List.mem_cons.mp hs with rfl | hs
        · exact ⟨d.toLower, List.mem_cons_self, List.mem_cons_self⟩
        · obtain rfl := List.mem_singleton.mp hs
          exact ⟨d.toUpper, List.mem_cons_of_mem _ List.mem_cons_self, List.mem_cons_self⟩
      · obtain ⟨c, hc, hmem⟩ := ih ht hd
        refine ⟨c, hc, ?_⟩
        rcases List.mem_cons.mp hs with rfl | hs
        · exact List.mem_cons_of_mem _ hmem
        · obtain rfl := List.mem_singleton.mp hs
          exact List.mem_cons_of_mem _ hmem

/-- A text of its own with such a character in it. -/
def RoutePart.hasForeign : RoutePart → Bool
  | .fixed text => text.any isForeign
  | .param => true

/-- Every text that a route has for itself has a character that no id has. -/
theorem routes_foreign : ∀ route ∈ routes, route.parts.all RoutePart.hasForeign = true := by
  decide +kernel

/-- No text that a route has for itself is taken for an id. -/
theorem labelSegment_labels : ∀ route ∈ routes, ∀ part ∈ route.parts, ∀ s ∈ part.labels,
    labelSegment s = s := by
  intro route hroute part hpart s hs
  have hforeign := List.all_eq_true.mp (routes_foreign route hroute) part hpart
  cases part with
  | param =>
      obtain rfl := List.mem_singleton.mp hs
      decide
  | fixed text =>
      obtain ⟨d, hd, hdforeign⟩ := List.any_eq_true.mp hforeign
      obtain ⟨c, hc, hmem⟩ := exists_mem_caseVariants hs hd
      have hnot := List.all_eq_true.mp hdforeign c hc
      simp only [Bool.and_eq_true, Bool.not_eq_true', bne_iff_ne] at hnot
      refine if_neg fun hid => ?_
      rcases isIdSegment_mem hid hmem with h | h
      · exact Bool.false_ne_true (hnot.1.symm.trans h)
      · exact hnot.2 h

theorem labelSegment_mem_labels {part : RoutePart} {segment : List Char}
    (hpart : ∀ s ∈ part.labels, labelSegment s = s)
    (h : part.spells isPlaceholder segment = true) : labelSegment segment ∈ part.labels := by
  cases part with
  | fixed text =>
      have hmem : segment ∈ RoutePart.labels (.fixed text) := mem_caseVariants h
      rw [hpart segment hmem]
      exact hmem
  | param => exact List.mem_singleton.mpr (beq_iff_eq.mp h)

theorem labelSegment_nil : labelSegment [] = [] := by decide

/-- The labels of the segments of a path that spells the parts. -/
theorem spelled_labels {slashes : ℕ} {parts : List RoutePart} {segments : List (List Char)}
    (hparts : ∀ part ∈ parts, ∀ s ∈ part.labels, labelSegment s = s)
    (h : spelled isPlaceholder slashes parts segments = true) :
    ∃ labelled ∈ segmentLabels parts, ∃ k ≤ slashes,
      segments.map labelSegment = labelled ++ List.replicate k [] := by
  induction parts generalizing segments with
  | nil =>
      obtain ⟨hlength, hempty⟩ := Bool.and_eq_true_iff.mp h
      refine ⟨[], List.mem_singleton_self [], segments.length, of_decide_eq_true hlength, ?_⟩
      rw [List.nil_append, List.eq_replicate_iff]
      refine ⟨List.length_map _, fun s hs => ?_⟩
      obtain ⟨segment, hsegment, rfl⟩ := List.mem_map.mp hs
      rw [List.isEmpty_iff.mp (List.all_eq_true.mp hempty segment hsegment), labelSegment_nil]
  | cons part parts ih =>
      cases segments with
      | nil => cases h
      | cons segment segments =>
          obtain ⟨hsegment, hrest⟩ := Bool.and_eq_true_iff.mp h
          obtain ⟨labelled, hlabelled, k, hk, hmap⟩ :=
            ih (fun p hp => hparts p (List.mem_cons_of_mem _ hp)) hrest
          refine ⟨labelSegment segment :: labelled, ?_, k, hk, ?_⟩
          · refine List.mem_flatMap.mpr ⟨labelSegment segment, ?_, List.mem_map_of_mem hlabelled⟩
            exact labelSegment_mem_labels (hparts part List.mem_cons_self) hsegment
          · rw [List.map_cons, hmap, List.cons_append]

theorem mapSegments_targetOf {segments : List (List Char)} (h : ∀ s ∈ segments, '/' ∉ s) :
    mapSegments '/' labelSegment (targetOf segments).toList =
      (targetOf (segments.map labelSegment)).toList := by
  have hsegments : ∀ s ∈ [] :: segments, '/' ∉ s := by
    intro s hs
    rcases List.mem_cons.mp hs with rfl | hs
    · exact List.not_mem_nil
    · exact h s hs
  rw [targetOf, String.toList_ofList, mapSegments_intercalate _ hsegments, targetOf,
    String.toList_ofList]

/-- The requests that the labels of the routes cover. -/
def Covered (route : String) : Prop :=
  ∃ r ∈ routes, r.serves isPlaceholder (beforeQuery route.toList) = true

instance : DecidablePred Covered := fun route =>
  inferInstanceAs
    (Decidable (∃ r ∈ routes, r.serves isPlaceholder (beforeQuery route.toList) = true))

theorem serves_split {route : Route} {ids : List Char → Bool} {path : List Char}
    (h : route.serves ids path = true) :
    ∃ segments, path = (targetOf segments).toList ∧ (∀ s ∈ segments, '/' ∉ s) ∧
      spelled ids route.slashes route.parts segments = true := by
  rw [Route.serves] at h
  split at h
  · cases h
  · next first segments hsplit =>
      obtain ⟨hfirst, hspelled⟩ := Bool.and_eq_true_iff.mp h
      refine ⟨segments, ?_, fun s hs => ?_, hspelled⟩
      · obtain rfl := List.isEmpty_iff.mp hfirst
        rw [targetOf, String.toList_ofList, ← hsplit, List.intercalate_splitOn]
      · exact not_mem_of_mem_splitOn (hsplit ▸ List.mem_cons_of_mem _ hs)

theorem normalizeMetricRoute_mem {route : String} (h : Covered route) :
    normalizeMetricRoute route ∈ routeLabels := by
  obtain ⟨r, hr, hserves⟩ := h
  obtain ⟨segments, hpath, hsegments, hspelled⟩ := serves_split hserves
  obtain ⟨labelled, hlabelled, k, hk, hmap⟩ := spelled_labels (labelSegment_labels r hr) hspelled
  have hlabel : normalizeMetricRoute route = targetOf (labelled ++ List.replicate k []) := by
    rw [← String.toList_inj, normalizeMetricRoute_toList, hpath, mapSegments_targetOf hsegments,
      hmap]
  rw [hlabel]
  refine List.mem_flatMap.mpr ⟨r, hr, List.mem_flatMap.mpr ⟨labelled, hlabelled, ?_⟩⟩
  exact List.mem_map_of_mem (List.mem_range.mpr (Nat.lt_succ_of_le hk))

/-! ### Requests -/

/-- A finished request, as the middleware sees it. -/
structure FinishedRequest (δ : Type*) where
  method : String
  originalUrl : String
  path : String
  statusCode : ℕ
  durationMs : δ

variable {δ : Type*}

def FinishedRequest.recorded (request : FinishedRequest δ) : HttpRecord δ :=
  ⟨request.method, finishedRoute request.originalUrl request.path, request.statusCode,
    request.durationMs⟩

/-- The metrics of a process that has served the requests. -/
def servedMetrics (rt : MetricsRuntime δ) (cache : OrderedMap CacheOutcome ℕ)
    (requests : List (FinishedRequest δ)) : Metrics δ :=
  (Metrics.start cache).recordAll rt (requests.map FinishedRequest.recorded)

/-- Every key that there can be for some methods, labels and status codes. -/
def httpKeys (methods : List String) (labels : List String) (statuses : List ℕ) : List String :=
  methods.flatMap fun method => labels.flatMap fun label => statuses.map (httpKey method label)

theorem length_httpKeys (methods : List String) (labels : List String) (statuses : List ℕ) :
    (httpKeys methods labels statuses).length =
      methods.length * (labels.length * statuses.length) := by
  simp [httpKeys, List.length_flatMap]

def keyBound (methods : List String) (statuses : List ℕ) : ℕ :=
  methods.length * (routeLabels.length * statuses.length)

section Bound

variable {rt : MetricsRuntime δ} {cache : OrderedMap CacheOutcome ℕ} {methods : List String}
  {statuses : List ℕ} {requests : List (FinishedRequest δ)}

theorem key_mem_httpKeys {request : FinishedRequest δ} (hmethod : request.method ∈ methods)
    (hstatus : request.statusCode ∈ statuses)
    (hcovered : Covered (finishedRoute request.originalUrl request.path)) :
    request.recorded.key ∈ httpKeys methods routeLabels statuses := by
  refine List.mem_flatMap.mpr ⟨request.method, hmethod, List.mem_flatMap.mpr ?_⟩
  exact ⟨_, normalizeMetricRoute_mem hcovered, List.mem_map_of_mem hstatus⟩

theorem length_keys_le {ν : Type*} {m : OrderedMap String ν}
    (hkeys : ∀ key, key ∈ m.keys ↔
      ∃ call ∈ requests.map FinishedRequest.recorded, call.key = key)
    (h : ∀ request ∈ requests, request.method ∈ methods ∧ request.statusCode ∈ statuses ∧
      Covered (finishedRoute request.originalUrl request.path)) :
    m.keys.length ≤ keyBound methods statuses := by
  rw [keyBound, ← length_httpKeys]
  refine (List.subperm_of_subset m.nodup fun key hkey => ?_).length_le
  obtain ⟨call, hcall, rfl⟩ := (hkeys key).mp hkey
  obtain ⟨request, hrequest, rfl⟩ := List.mem_map.mp hcall
  obtain ⟨hmethod, hstatus, hcovered⟩ := h request hrequest
  exact key_mem_httpKeys hmethod hstatus hcovered

end Bound

/-! ### Two texts in one place -/

theorem beforeQuery_of_not_mem {path : List Char} (h : '?' ∉ path) : beforeQuery path = path := by
  rw [beforeQuery, List.splitOn_eq_singleton h]
  rfl

theorem normalizeMetricRoute_targetOf {segments : List (List Char)}
    (h : ∀ s ∈ segments, '/' ∉ s ∧ '?' ∉ s) :
    normalizeMetricRoute (targetOf segments) = targetOf (segments.map labelSegment) := by
  have hquery : '?' ∉ (targetOf segments).toList := by
    rw [targetOf, String.toList_ofList]
    intro hmem
    rcases mem_intercalate hmem with hsep | ⟨s, hs, hmem⟩
    · exact absurd hsep (by decide)
    · rcases List.mem_cons.mp hs with rfl | hs
      · cases hmem
      · exact (h s hs).2 hmem
  rw [← String.toList_inj, normalizeMetricRoute_toList, beforeQuery_of_not_mem hquery,
    mapSegments_targetOf fun s hs => (h s hs).1]

theorem targetOf_injective {segments segments' : List (List Char)}
    (h : ∀ s ∈ segments, '/' ∉ s) (h' : ∀ s ∈ segments', '/' ∉ s)
    (heq : targetOf segments = targetOf segments') : segments = segments' := by
  have hfirst {l : List (List Char)} (hl : ∀ s ∈ l, '/' ∉ s) : ∀ s ∈ [] :: l, '/' ∉ s := by
    simpa using hl
  have hsplit := congrArg (List.splitOn '/') (String.ofList_injective heq)
  rw [List.splitOn_intercalate _ (hfirst h) (List.cons_ne_nil _ _),
    List.splitOn_intercalate _ (hfirst h') (List.cons_ne_nil _ _)] at hsplit
  exact (List.cons.inj hsplit).2

theorem not_mem_labelSegment {s : List Char} (hs : '/' ∉ s) : '/' ∉ labelSegment s :=
  not_mem_label hs _

/-- Two texts are labelled alike when both are ids, or the label itself. -/
theorem labelSegment_eq_iff {a b : List Char} (h : a ≠ b) :
    labelSegment a = labelSegment b ↔ isPlaceholder a = true ∧ isPlaceholder b = true := by
  rw [isPlaceholder, isPlaceholder, beq_iff_eq, beq_iff_eq]
  constructor
  · intro heq
    by_cases ha : isIdSegment a = true
    · have hlabel : labelSegment a = ":id".toList := if_pos ha
      exact ⟨hlabel, heq ▸ hlabel⟩
    · by_cases hb : isIdSegment b = true
      · have hlabel : labelSegment b = ":id".toList := if_pos hb
        exact ⟨heq ▸ hlabel, hlabel⟩
      · rw [labelSegment, if_neg ha, labelSegment, if_neg hb] at heq
        exact (h heq).elim
  · rintro ⟨ha, hb⟩
    rw [ha, hb]

theorem normalizeMetricRoute_eq_iff {before after : List (List Char)} {a b : List Char}
    (h : ∀ s ∈ a :: b :: (before ++ after), '/' ∉ s ∧ '?' ∉ s) (hne : a ≠ b) :
    normalizeMetricRoute (targetOf (before ++ a :: after)) =
        normalizeMetricRoute (targetOf (before ++ b :: after)) ↔
      isPlaceholder a = true ∧ isPlaceholder b = true := by
  simp only [List.mem_cons, List.mem_append, forall_eq_or_imp] at h
  obtain ⟨ha, hb, haround⟩ := h
  have hsegments {c : List Char} (hc : '/' ∉ c ∧ '?' ∉ c) :
      ∀ s ∈ before ++ c :: after, '/' ∉ s ∧ '?' ∉ s := by
    intro s hs
    rcases List.mem_append.mp hs with hs | hs
    · exact haround s (.inl hs)
    · rcases List.mem_cons.mp hs with rfl | hs
      · exact hc
      · exact haround s (.inr hs)
  have hlabels {c : List Char} (hc : '/' ∉ c ∧ '?' ∉ c) :
      ∀ s ∈ (before ++ c :: after).map labelSegment, '/' ∉ s := by
    intro s hs
    obtain ⟨t, ht, rfl⟩ := List.mem_map.mp hs
    exact not_mem_labelSegment (hsegments hc t ht).1
  rw [normalizeMetricRoute_targetOf (hsegments ha), normalizeMetricRoute_targetOf (hsegments hb),
    ← labelSegment_eq_iff hne]
  constructor
  · intro heq
    have hmaps := targetOf_injective (hlabels ha) (hlabels hb) heq
    rw [List.map_append, List.map_append, List.append_cancel_left_eq] at hmaps
    exact (List.cons.inj hmaps).1
  · intro heq
    rw [List.map_append, List.map_append, List.map_cons, List.map_cons, heq]

/-- Requests whose targets spell routes with ids keep the keys under a bound of
the routes, methods and status codes; and two texts in the place of an id have
one label exactly when both of them are ids. -/
theorem metrics_low_cardinality (rt : MetricsRuntime δ) (cache : OrderedMap CacheOutcome ℕ)
    (methods : List String) (statuses : List ℕ) :
    (∀ requests : List (FinishedRequest δ),
      (∀ request ∈ requests, request.method ∈ methods ∧ request.statusCode ∈ statuses ∧
        Covered (finishedRoute request.originalUrl request.path)) →
      (servedMetrics rt cache requests).httpRequests.keys.length ≤ keyBound methods statuses ∧
        (servedMetrics rt cache requests).httpDurationMs.keys.length ≤
          keyBound methods statuses) ∧
    ∀ (before after : List (List Char)) (a b : List Char),
      (∀ s ∈ a :: b :: (before ++ after), '/' ∉ s ∧ '?' ∉ s) → a ≠ b →
      (normalizeMetricRoute (targetOf (before ++ a :: after)) =
          normalizeMetricRoute (targetOf (before ++ b :: after)) ↔
        isPlaceholder a = true ∧ isPlaceholder b = true) := by
  refine ⟨fun requests h => ⟨?_, ?_⟩, fun before after a b h hne => ?_⟩
  · exact length_keys_le (fun _ => mem_requestKeys_iff rt cache) h
  · exact length_keys_le (fun _ => mem_durationKeys_iff rt cache) h
  · exact normalizeMetricRoute_eq_iff h hne

/-! ### Unmatched paths -/

def statsRequest : FinishedRequest ℕ :=
  let target := "/V1/events/0198F3a0-0000-7000-8000-00000000000A/stats/"
  ⟨"GET", target ++ "?page=2", target, 200, 12⟩

def numberRequest : FinishedRequest ℕ :=
  ⟨"GET", "/v1/bookings/12", "/v1/bookings/12", 404, 3⟩

theorem metrics_low_cardinality_two_requests :
    (servedMetrics wholeMillis .empty [statsRequest, numberRequest]).httpRequests.keys.length ≤
        keyBound ["GET"] [200, 404] ∧
      (normalizeMetricRoute "/v1/events/12/stats" = normalizeMetricRoute "/v1/events/x1/stats" ↔
        isPlaceholder "12".toList = true ∧ isPlaceholder "x1".toList = true) := by
  obtain ⟨hbound, hpair⟩ := metrics_low_cardinality wholeMillis .empty ["GET"] [200, 404]
  refine ⟨(hbound [statsRequest, numberRequest] (by decide +kernel)).1, ?_⟩
  exact hpair ["v1".toList, "events".toList] ["stats".toList] "12".toList "x1".toList
    (by decide) (by decide)

/-- A request to a path of `x`s, which no route has. -/
def missed (n : ℕ) : FinishedRequest ℕ :=
  let target := targetOf [List.replicate (n + 1) 'x']
  ⟨"GET", target, target, 404, 1⟩

theorem labelSegment_missed (n : ℕ) :
    labelSegment (List.replicate (n + 1) 'x') = List.replicate (n + 1) 'x' := by
  have huuid : isUuidSegment (List.replicate (n + 1) 'x') = false := rfl
  have hdigits : isDigitSegment (List.replicate (n + 1) 'x') = false := rfl
  rw [labelSegment, isIdSegment, huuid, hdigits]
  rfl

theorem key_missed (n : ℕ) :
    (missed n).recorded.key = httpKey "GET" (targetOf [List.replicate (n + 1) 'x']) 404 := by
  have hchars : ∀ s ∈ [List.replicate (n + 1) 'x'], '/' ∉ s ∧ '?' ∉ s := by simp
  have htarget : (targetOf [List.replicate (n + 1) 'x']).toList =
      '/' :: List.replicate (n + 1) 'x' := by simp [targetOf]
  have hroute : finishedRoute (missed n).originalUrl (missed n).path =
      targetOf [List.replicate (n + 1) 'x'] := by
    have hquery : '?' ∉ (targetOf [List.replicate (n + 1) 'x']).toList := by simp [htarget]
    have hne : targetOf [List.replicate (n + 1) 'x'] ≠ "" := fun h => by simp [h] at htarget
    simp only [finishedRoute, missed, beforeQuery_of_not_mem hquery, String.ofList_toList]
    exact if_pos hne
  rw [HttpRecord.key, FinishedRequest.recorded, hroute, normalizeMetricRoute_targetOf hchars,
    List.map_singleton, labelSegment_missed]
  rfl

theorem key_missed_injective : Function.Injective fun n => (missed n).recorded.key := by
  intro n m h
  have hlength := congrArg String.length h
  simp only [key_missed, httpKey, targetOf] at hlength
  simpa using hlength

theorem metric_keys_unbounded :
    ¬ ∃ bound : List String → List ℕ → ℕ, ∀ methods statuses,
      ∀ requests : List (FinishedRequest ℕ),
        (∀ request ∈ requests, request.method ∈ methods ∧ request.statusCode ∈ statuses) →
        (servedMetrics wholeMillis .empty requests).httpRequests.keys.length ≤
          bound methods statuses := by
  rintro ⟨bound, hbound⟩
  let requests := (List.range (bound ["GET"] [404] + 1)).map missed
  have hrequests : ∀ request ∈ requests, request.method ∈ ["GET"] ∧ request.statusCode ∈ [404] := by
    intro request hrequest
    obtain ⟨n, -, rfl⟩ := List.mem_map.mp hrequest
    exact ⟨List.mem_singleton_self _, List.mem_singleton_self _⟩
  have hle := hbound ["GET"] [404] requests hrequests
  have hkeys : ((List.range (bound ["GET"] [404] + 1)).map
      fun n => (missed n).recorded.key) ⊆
        (servedMetrics wholeMillis .empty requests).httpRequests.keys := by
    intro key hkey
    obtain ⟨n, hn, rfl⟩ := List.mem_map.mp hkey
    refine (mem_requestKeys_iff _ _).mpr ⟨(missed n).recorded, ?_, rfl⟩
    exact List.mem_map_of_mem (List.mem_map_of_mem hn)
  have hmany := (List.subperm_of_subset
    (List.nodup_range.map key_missed_injective) hkeys).length_le
  rw [List.length_map, List.length_range] at hmany
  omega

end Eventify
