import Mathlib.Data.List.Basic

/-!
# Segments of a text

A text is cut at a separator. A global replacement goes through the text from
left to right, puts a tag in the place of each match and goes on behind it.
Where a match is always the separator together with one whole segment behind
it, the replacement is a map over the segments.
-/

namespace Library

variable {α : Type*}

/-- The replacement of all matches. The matcher gives the length of the match
that the text starts with; the number counts what is left of a match. -/
def replaceGlobal (find : List α → Option ℕ) (tag : List α) : ℕ → List α → List α
  | _, [] => []
  | skip + 1, _ :: rest => replaceGlobal find tag skip rest
  | 0, c :: rest =>
      match find (c :: rest) with
      | some (length + 1) => tag ++ replaceGlobal find tag length rest
      | _ => c :: replaceGlobal find tag 0 rest

section Replacement

variable {find : List α → Option ℕ} {tag : List α}

theorem replaceGlobal_skip (matched rest : List α) :
    replaceGlobal find tag matched.length (matched ++ rest) = replaceGlobal find tag 0 rest := by
  induction matched with
  | nil => rfl
  | cons c matched ih => exact ih

theorem replaceGlobal_match {c : α} {matched rest : List α}
    (h : find (c :: (matched ++ rest)) = some (matched.length + 1)) :
    replaceGlobal find tag 0 (c :: (matched ++ rest)) =
      tag ++ replaceGlobal find tag 0 rest := by
  simp only [replaceGlobal, h, replaceGlobal_skip]

theorem replaceGlobal_copy {c : α} {rest : List α} (h : find (c :: rest) = none) :
    replaceGlobal find tag 0 (c :: rest) = c :: replaceGlobal find tag 0 rest := by
  simp only [replaceGlobal, h]

end Replacement

variable {sep : α}

/-- Where one segment ends: at the end of the text, or at a separator. -/
def AtBoundary (sep : α) (rest : List α) : Prop := rest.head? = none ∨ rest.head? = some sep

theorem AtBoundary.eq_sep {c : α} {rest : List α} (h : AtBoundary sep (c :: rest)) : c = sep := by
  simpa [AtBoundary] using h

/-- A matcher takes a separator with the whole segment behind it, when the
segment is of the kind, and nothing else. -/
structure TakesSegments (sep : α) (kind : List α → Bool) (find : List α → Option ℕ) : Prop where
  elsewhere : ∀ c rest, c ≠ sep → find (c :: rest) = none
  segment : ∀ s rest, sep ∉ s → AtBoundary sep rest →
    find (sep :: (s ++ rest)) = if kind s = true then some (s.length + 1) else none

theorem replaceGlobal_plain {kind : List α → Bool} {find : List α → Option ℕ} {tag : List α}
    (h : TakesSegments sep kind find) {s : List α} (hs : sep ∉ s) (rest : List α) :
    replaceGlobal find tag 0 (s ++ rest) = s ++ replaceGlobal find tag 0 rest := by
  induction s with
  | nil => rfl
  | cons c s ih =>
      obtain ⟨hc, hs⟩ := not_or.mp (mt List.mem_cons.mpr hs)
      rw [List.cons_append, replaceGlobal_copy (h.elsewhere c _ (Ne.symm hc)), ih hs]
      rfl

theorem intercalate_cons (first : List α) (segments : List (List α)) :
    [sep].intercalate (first :: segments) = first ++ segments.flatMap (sep :: ·) := by
  induction segments generalizing first with
  | nil => simp
  | cons s segments ih => rw [List.intercalate_cons_cons, ih, List.append_assoc]; rfl

/-- What a text is made of: the characters of its segments, and separators. -/
theorem mem_intercalate {segments : List (List α)} {c : α} (h : c ∈ [sep].intercalate segments) :
    c = sep ∨ ∃ segment ∈ segments, c ∈ segment := by
  cases segments with
  | nil => cases h
  | cons first segments =>
      rw [intercalate_cons, List.mem_append, List.mem_flatMap] at h
      rcases h with h | ⟨segment, hsegment, h⟩
      · exact .inr ⟨first, List.mem_cons_self, h⟩
      · rcases List.mem_cons.mp h with h | h
        · exact .inl h
        · exact .inr ⟨segment, List.mem_cons_of_mem _ hsegment, h⟩

theorem mem_intercalate_of_mem {segments : List (List α)} {segment : List α} {c : α}
    (hsegment : segment ∈ segments) (hc : c ∈ segment) : c ∈ [sep].intercalate segments := by
  cases segments with
  | nil => cases hsegment
  | cons first segments =>
      rw [intercalate_cons, List.mem_append, List.mem_flatMap]
      rcases List.mem_cons.mp hsegment with rfl | hsegment
      · exact .inl hc
      · exact .inr ⟨segment, hsegment, List.mem_cons_of_mem _ hc⟩

/-- An end after each segment is a separator behind the joined segments. -/
theorem intercalate_concat_nil {segments : List (List α)} (h : segments ≠ []) :
    [sep].intercalate (segments ++ [[]]) = [sep].intercalate segments ++ [sep] := by
  cases segments with
  | nil => exact (h rfl).elim
  | cons first segments => simp [intercalate_cons]

theorem atBoundary_flatMap (segments : List (List α)) :
    AtBoundary sep (segments.flatMap (sep :: ·)) := by
  cases segments with
  | nil => exact .inl rfl
  | cons s segments => exact .inr rfl

variable [DecidableEq α]

/-- The text where the first segment stays and each later one is mapped. -/
def mapSegments (sep : α) (f : List α → List α) (text : List α) : List α :=
  match text.splitOn sep with
  | [] => []
  | first :: segments => [sep].intercalate (first :: segments.map f)

theorem not_mem_of_mem_splitOn {text segment : List α} (h : segment ∈ text.splitOn sep) :
    sep ∉ segment := by
  induction text generalizing segment with
  | nil =>
      obtain rfl : segment = [] := by simpa using h
      exact List.not_mem_nil
  | cons c text ih =>
      rw [List.splitOn_cons_eq_if_modifyHead] at h
      obtain ⟨first, segments, hsplit⟩ := List.exists_cons_of_ne_nil (List.splitOn_ne_nil sep text)
      rw [hsplit] at h ih
      by_cases hc : c = sep
      · rw [if_pos (beq_iff_eq.mpr hc)] at h
        rcases List.mem_cons.mp h with rfl | h
        · exact List.not_mem_nil
        · exact ih h
      · rw [if_neg (by simpa using hc), List.modifyHead_cons] at h
        rcases List.mem_cons.mp h with rfl | h
        · rw [List.mem_cons, not_or]
          exact ⟨fun hsep => hc hsep.symm, ih List.mem_cons_self⟩
        · exact ih (List.mem_cons_of_mem _ h)

theorem mem_of_mem_splitOn {text segment : List α} {c : α} (h : segment ∈ text.splitOn sep)
    (hc : c ∈ segment) : c ∈ text := by
  have hjoined : [sep].intercalate (text.splitOn sep) = text := List.intercalate_splitOn sep
  rw [← hjoined]
  exact mem_intercalate_of_mem h hc

theorem headD_splitOn (sep : α) (text : List α) :
    (text.splitOn sep).headD [] = text.takeWhile (· ≠ sep) := by
  induction text with
  | nil => simp
  | cons c text ih =>
      obtain ⟨first, segments, hsplit⟩ := List.exists_cons_of_ne_nil (List.splitOn_ne_nil sep text)
      rw [List.splitOn_cons_eq_if_modifyHead]
      by_cases hc : c = sep
      · simp [hc]
      · rw [hsplit] at ih ⊢
        simpa [hc] using ih

/-- Every text is its segments, joined again. -/
theorem exists_segments (sep : α) (text : List α) :
    ∃ first segments, text = [sep].intercalate (first :: segments) ∧
      ∀ segment ∈ first :: segments, sep ∉ segment := by
  obtain ⟨first, segments, hsplit⟩ := List.exists_cons_of_ne_nil (List.splitOn_ne_nil sep text)
  refine ⟨first, segments, ?_, fun segment hsegment => ?_⟩
  · rw [← hsplit, List.intercalate_splitOn]
  · exact not_mem_of_mem_splitOn (hsplit ▸ hsegment)

theorem mapSegments_intercalate (f : List α → List α) {first : List α} {segments : List (List α)}
    (h : ∀ segment ∈ first :: segments, sep ∉ segment) :
    mapSegments sep f ([sep].intercalate (first :: segments)) =
      [sep].intercalate (first :: segments.map f) := by
  rw [mapSegments, List.splitOn_intercalate sep h (List.cons_ne_nil _ _)]

theorem mapSegments_mapSegments {f : List α → List α} (g : List α → List α)
    (hf : ∀ segment, sep ∉ segment → sep ∉ f segment) (text : List α) :
    mapSegments sep g (mapSegments sep f text) = mapSegments sep (fun s => g (f s)) text := by
  obtain ⟨first, segments, rfl, hsep⟩ := exists_segments sep text
  have hmapped : ∀ segment ∈ first :: segments.map f, sep ∉ segment := by
    intro segment hsegment
    rcases List.mem_cons.mp hsegment with rfl | hsegment
    · exact hsep _ List.mem_cons_self
    · obtain ⟨s, hs, rfl⟩ := List.mem_map.mp hsegment
      exact hf s (hsep s (List.mem_cons_of_mem _ hs))
  rw [mapSegments_intercalate f hsep, mapSegments_intercalate g hmapped,
    mapSegments_intercalate _ hsep, List.map_map]
  rfl

/-- The replacement of whole segments is a map over the segments. -/
theorem replaceGlobal_eq_mapSegments {kind : List α → Bool} {find : List α → Option ℕ}
    (h : TakesSegments sep kind find) (tag text : List α) :
    replaceGlobal find (sep :: tag) 0 text =
      mapSegments sep (fun s => if kind s = true then tag else s) text := by
  obtain ⟨first, segments, rfl, hsep⟩ := exists_segments sep text
  rw [mapSegments_intercalate _ hsep, intercalate_cons, intercalate_cons,
    replaceGlobal_plain h (hsep first List.mem_cons_self)]
  congr 1
  have hsegments : ∀ s ∈ segments, sep ∉ s := fun s hs => hsep s (List.mem_cons_of_mem _ hs)
  clear hsep
  induction segments with
  | nil => rfl
  | cons s segments ih =>
      have hs : sep ∉ s := hsegments s List.mem_cons_self
      have hfind := h.segment s _ hs (atBoundary_flatMap segments)
      rw [List.flatMap_cons, List.map_cons, List.flatMap_cons, List.cons_append,
        ← ih fun s hs => hsegments s (List.mem_cons_of_mem _ hs)]
      by_cases hkind : kind s = true
      · rw [if_pos hkind] at hfind
        rw [replaceGlobal_match hfind, if_pos hkind]
      · rw [if_neg hkind] at hfind
        rw [replaceGlobal_copy hfind, replaceGlobal_plain h hs, if_neg hkind, List.cons_append]

end Library
