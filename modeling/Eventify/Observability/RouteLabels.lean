import Eventify.Observability.Metrics
import Mathlib.Data.List.TakeWhile

/-!
# Route labels, segment by segment

What the label of a path is meant to be, without patterns: the path is cut at
its slashes, ids behind a slash become `:id`, and the pieces are joined again.
The two replacements of the source compute this label for every path.
-/

namespace Eventify

open Library

/-! ### The specification -/

/-- ASCII digits, at least one and nothing else, or a UUID as a whole. -/
def IsIdText (piece : List Char) : Prop :=
  (piece ≠ [] ∧ ∀ c ∈ piece, '0' ≤ c ∧ c ≤ '9') ∨
    List.Forall₂ (fun p c => p c = true) uuidClasses piece

theorem isDigitSegment_iff {piece : List Char} :
    isDigitSegment piece = true ↔ piece ≠ [] ∧ ∀ c ∈ piece, '0' ≤ c ∧ c ≤ '9' := by
  have hdigit (c : Char) : c.isDigit = true ↔ '0' ≤ c ∧ c ≤ '9' := by
    rw [Char.isDigit, Bool.and_eq_true, decide_eq_true_eq, decide_eq_true_eq]
    rfl
  simp [isDigitSegment, hdigit]

theorem matchClasses_eq_nil_iff {classes : List (Char → Bool)} {piece : List Char} :
    matchClasses classes piece = some [] ↔
      List.Forall₂ (fun p c => p c = true) classes piece := by
  induction classes generalizing piece with
  | nil => simp [matchClasses]
  | cons p classes ih =>
      cases piece with
      | nil => simp [matchClasses]
      | cons c piece =>
          rw [List.forall₂_cons, ← ih, matchClasses]
          by_cases hc : p c = true
          · simp [hc]
          · simp [hc]

theorem isIdSegment_iff {piece : List Char} : isIdSegment piece = true ↔ IsIdText piece := by
  rw [isIdSegment, Bool.or_eq_true, isUuidSegment, beq_iff_eq, matchClasses_eq_nil_iff,
    isDigitSegment_iff, IsIdText, or_comm]

instance : DecidablePred IsIdText := fun _ => decidable_of_iff _ isIdSegment_iff

/-- The pieces of a path, without its query. -/
def pieces (path : String) : List (List Char) :=
  (path.toList.takeWhile (· ≠ '?')).splitOn '/'

def labelPieces : List (List Char) → List (List Char)
  | [] => []
  | first :: later =>
      first :: later.map fun piece => if IsIdText piece then ":id".toList else piece

def segmentwiseRoute (path : String) : String :=
  String.ofList (['/'].intercalate (labelPieces (pieces path)))

/-! ### The source computes it -/

theorem beforeQuery_eq (path : List Char) : beforeQuery path = path.takeWhile (· ≠ '?') :=
  headD_splitOn '?' path

theorem labelSegment_eq (piece : List Char) :
    labelSegment piece = if IsIdText piece then ":id".toList else piece := by
  rw [labelSegment]
  exact if_congr isIdSegment_iff rfl rfl

theorem normalizeMetricRoute_eq (path : String) :
    normalizeMetricRoute path = segmentwiseRoute path := by
  have hpieces : (beforeQuery path.toList).splitOn '/' = pieces path := by
    rw [beforeQuery_eq, pieces]
  rw [← String.toList_inj, normalizeMetricRoute_toList, segmentwiseRoute, String.toList_ofList,
    mapSegments, hpieces]
  cases pieces path with
  | nil => rfl
  | cons first later => rw [labelPieces, funext labelSegment_eq]

/-! ### The pieces of a label -/

theorem slash_not_mem_pieces {path : String} {piece : List Char} (h : piece ∈ pieces path) :
    '/' ∉ piece := not_mem_of_mem_splitOn h

theorem query_not_mem_pieces {path : String} {piece : List Char} (h : piece ∈ pieces path) :
    '?' ∉ piece := by
  intro hc
  have htext := List.mem_takeWhile_imp (mem_of_mem_splitOn h hc)
  simp at htext

/-- A label brings no character in but those of its tag. -/
theorem not_mem_labelPieces {c : Char} (htag : c ∉ ":id".toList) {all : List (List Char)}
    (hall : ∀ piece ∈ all, c ∉ piece) : ∀ piece ∈ labelPieces all, c ∉ piece := by
  intro piece hpiece
  cases all with
  | nil => cases hpiece
  | cons first later =>
      rcases List.mem_cons.mp hpiece with rfl | hpiece
      · exact hall _ List.mem_cons_self
      · obtain ⟨source, hsource, rfl⟩ := List.mem_map.mp hpiece
        split
        · exact htag
        · exact hall source (List.mem_cons_of_mem _ hsource)

theorem pieces_ne_nil (path : String) : pieces path ≠ [] := List.splitOn_ne_nil _ _

theorem pieces_segmentwiseRoute (path : String) :
    pieces (segmentwiseRoute path) = labelPieces (pieces path) := by
  have hslash : ∀ piece ∈ labelPieces (pieces path), '/' ∉ piece :=
    not_mem_labelPieces (by decide) fun _ => slash_not_mem_pieces
  have hquery : ∀ piece ∈ labelPieces (pieces path), '?' ∉ piece :=
    not_mem_labelPieces (by decide) fun _ => query_not_mem_pieces
  have hwhole : (['/'].intercalate (labelPieces (pieces path))).takeWhile (· ≠ '?') =
      ['/'].intercalate (labelPieces (pieces path)) := by
    rw [List.takeWhile_eq_self_iff]
    intro c hc
    rcases mem_intercalate hc with rfl | ⟨piece, hpiece, hmem⟩
    · decide
    · exact decide_eq_true fun h => hquery piece hpiece (h ▸ hmem)
  have hne : labelPieces (pieces path) ≠ [] := by
    obtain ⟨first, later, hpieces⟩ := List.exists_cons_of_ne_nil (pieces_ne_nil path)
    rw [hpieces]
    exact List.cons_ne_nil _ _
  rw [pieces, segmentwiseRoute, String.toList_ofList, hwhole, List.splitOn_intercalate _ hslash hne]

theorem not_isIdText_tag : ¬ IsIdText ":id".toList := by decide

/-- A piece that has become a tag is no id any more. -/
theorem labelPieces_labelPieces (all : List (List Char)) :
    labelPieces (labelPieces all) = labelPieces all := by
  cases all with
  | nil => rfl
  | cons first later =>
      rw [labelPieces, labelPieces, List.map_map]
      congr 1
      refine List.map_congr_left fun piece _ => ?_
      rw [Function.comp_apply]
      split
      · rw [if_neg not_isIdText_tag]
      · rfl

/-- The label of a path: segment by segment, and stable. -/
structure SegmentWise (path label : String) : Prop where
  specified : label = segmentwiseRoute path
  count : (pieces label).length = (pieces path).length
  first : (pieces label).head? = (pieces path).head?
  ids : ∀ i piece, (pieces path)[i + 1]? = some piece → IsIdText piece →
    (pieces label)[i + 1]? = some ":id".toList
  others : ∀ i piece, (pieces path)[i + 1]? = some piece → ¬ IsIdText piece →
    (pieces label)[i + 1]? = some piece
  stable : normalizeMetricRoute label = label

theorem labelPieces_getElem? (all : List (List Char)) (i : ℕ) :
    (labelPieces all)[i + 1]? =
      all[i + 1]?.map fun piece => if IsIdText piece then ":id".toList else piece := by
  cases all with
  | nil => rfl
  | cons first later => rw [labelPieces, List.getElem?_cons_succ, List.getElem?_map,
      List.getElem?_cons_succ]

/-- Every path is labelled segment by segment, whatever its text. -/
theorem normalizeMetricRoute_segmentWise (path : String) :
    SegmentWise path (normalizeMetricRoute path) := by
  have hpieces : pieces (normalizeMetricRoute path) = labelPieces (pieces path) := by
    rw [normalizeMetricRoute_eq, pieces_segmentwiseRoute]
  constructor
  · exact normalizeMetricRoute_eq path
  · rw [hpieces]
    cases pieces path with
    | nil => rfl
    | cons first later => simp [labelPieces]
  · rw [hpieces]
    cases pieces path with
    | nil => rfl
    | cons first later => rfl
  · intro i piece hpiece hid
    rw [hpieces, labelPieces_getElem?, hpiece, Option.map_some, if_pos hid]
  · intro i piece hpiece hid
    rw [hpieces, labelPieces_getElem?, hpiece, Option.map_some, if_neg hid]
  · rw [normalizeMetricRoute_eq (normalizeMetricRoute path), segmentwiseRoute, hpieces,
      labelPieces_labelPieces, normalizeMetricRoute_eq, segmentwiseRoute]

-- adjacent ids, an id as the first piece, an empty piece, and an id inside a piece
example : normalizeMetricRoute "12/7/0A0B0C0D-0000-7000-8abc-0123456789AB//x9/?page=/2" =
    "12/:id/:id//x9/" := by decide

end Eventify
