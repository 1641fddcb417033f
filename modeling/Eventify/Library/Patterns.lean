import Eventify.Library.Segments

/-!
# Patterns

Regular expressions as a backtracking matcher tries them: a pattern gives what
may stand behind it, in the order of the attempts, and the first one counts. A
pattern for a separator, a word without separators and a look-ahead for the end
of the segment takes whole segments.
-/

namespace Library

variable {α : Type*}

inductive Pattern (α : Type*) where
  | empty
  | one (p : α → Bool)
  | plus (p : α → Bool)
  | seq (first second : Pattern α)
  | either (first second : Pattern α)
  | ahead (inner : Pattern α)
  | atEnd

namespace Pattern

/-- What may stand behind one or more characters of a class: as many as
possible are tried first. -/
def plusRests (p : α → Bool) : List α → List (List α)
  | [] => []
  | c :: rest => if p c = true then plusRests p rest ++ [rest] else []

def rests : Pattern α → List α → List (List α)
  | empty, text => [text]
  | one p, text =>
      match text with
      | [] => []
      | c :: rest => if p c = true then [rest] else []
  | plus p, text => plusRests p text
  | seq first second, text => (first.rests text).flatMap second.rests
  | either first second, text => first.rests text ++ second.rests text
  | ahead inner, text => if (inner.rests text).isEmpty = true then [] else [text]
  | atEnd, text => if text.isEmpty = true then [text] else []

/-- The length of the match that the text starts with. -/
def find (pattern : Pattern α) (text : List α) : Option ℕ :=
  (pattern.rests text).head?.map fun rest => text.length - rest.length

/-- The pattern takes the whole text, by some of its attempts. -/
def takes (pattern : Pattern α) (text : List α) : Bool := (pattern.rests text).any List.isEmpty

/-- One character of each class. -/
def ones : List (α → Bool) → Pattern α
  | [] => empty
  | p :: classes => seq (one p) (ones classes)

/-- No part of the pattern takes a separator or looks behind the word. -/
def Inside (sep : α) : Pattern α → Prop
  | empty => True
  | one p => p sep = false
  | plus p => p sep = false
  | seq first second => first.Inside sep ∧ second.Inside sep
  | either first second => first.Inside sep ∧ second.Inside sep
  | ahead _ => False
  | atEnd => False

section Equations

variable {p : α → Bool} {first second inner : Pattern α} {c : α} {text : List α}

theorem plusRests_cons :
    plusRests p (c :: text) = if p c = true then plusRests p text ++ [text] else [] := rfl

theorem rests_one_cons : (one p).rests (c :: text) = if p c = true then [text] else [] := rfl

theorem rests_plus : (plus p).rests text = plusRests p text := rfl

theorem rests_seq : (seq first second).rests text = (first.rests text).flatMap second.rests := rfl

theorem rests_either :
    (either first second).rests text = first.rests text ++ second.rests text := rfl

theorem rests_ahead :
    (ahead inner).rests text = if (inner.rests text).isEmpty = true then [] else [text] := rfl

theorem rests_atEnd :
    (atEnd : Pattern α).rests text = if text.isEmpty = true then [text] else [] := rfl

end Equations

/-! ### What a pattern leaves -/

theorem plusRests_suffix {p : α → Bool} {text rest : List α} (h : rest ∈ plusRests p text) :
    rest <:+ text := by
  induction text with
  | nil => cases h
  | cons c text ih =>
      rw [plusRests_cons] at h
      split at h
      · rcases List.mem_append.mp h with h | h
        · exact (ih h).trans (List.suffix_cons c text)
        · obtain rfl := List.mem_singleton.mp h
          exact List.suffix_cons c rest
      · cases h

theorem rests_suffix {pattern : Pattern α} {text rest : List α} (h : rest ∈ pattern.rests text) :
    rest <:+ text := by
  induction pattern generalizing text rest with
  | empty =>
      obtain rfl := List.mem_singleton.mp h
      exact List.suffix_refl rest
  | one p =>
      cases text with
      | nil => cases h
      | cons c text =>
          rw [rests_one_cons] at h
          split at h
          · obtain rfl := List.mem_singleton.mp h
            exact List.suffix_cons c rest
          · cases h
  | plus p => exact plusRests_suffix h
  | seq first second ihf ihs =>
      obtain ⟨middle, hmiddle, hrest⟩ := List.mem_flatMap.mp h
      exact (ihs hrest).trans (ihf hmiddle)
  | either first second ihf ihs =>
      rcases List.mem_append.mp h with h | h
      · exact ihf h
      · exact ihs h
  | ahead inner ih =>
      rw [rests_ahead] at h
      split at h
      · cases h
      · obtain rfl := List.mem_singleton.mp h
        exact List.suffix_refl rest
  | atEnd =>
      rw [rests_atEnd] at h
      split at h
      · obtain rfl := List.mem_singleton.mp h
        exact List.suffix_refl rest
      · cases h

theorem inside_ones {sep : α} {classes : List (α → Bool)} (h : ∀ p ∈ classes, p sep = false) :
    (ones classes).Inside sep := by
  induction classes with
  | nil => trivial
  | cons p classes ih =>
      exact ⟨h p List.mem_cons_self, ih fun q hq => h q (List.mem_cons_of_mem _ hq)⟩

theorem takes_plus (p : α → Bool) (text : List α) :
    (plus p).takes text = (!text.isEmpty && text.all p) := by
  induction text with
  | nil => rfl
  | cons c text ih =>
      have hrest : (plusRests p text).any List.isEmpty = (!text.isEmpty && text.all p) := ih
      rw [takes, rests_plus, plusRests_cons]
      cases hc : p c with
      | false => simp [hc]
      | true =>
          rw [if_pos rfl, List.any_append, hrest]
          cases text with
          | nil => simp [hc]
          | cons d text => simp [hc]

section Append

variable {sep : α} {rest : List α}

theorem plusRests_append {p : α → Bool} (hp : p sep = false) (word : List α)
    (hrest : AtBoundary sep rest) :
    plusRests p (word ++ rest) = (plusRests p word).map (· ++ rest) := by
  induction word with
  | nil =>
      cases rest with
      | nil => rfl
      | cons c rest =>
          obtain rfl := hrest.eq_sep
          rw [List.nil_append, plusRests_cons, if_neg (by simp [hp])]
          rfl
  | cons c word ih =>
      rw [List.cons_append, plusRests_cons, plusRests_cons, ih]
      split
      · rw [List.map_append]
        rfl
      · rfl

/-- Where a word ends, its attempts are those on the word alone. -/
theorem rests_append {pattern : Pattern α} (h : pattern.Inside sep) (word : List α)
    (hrest : AtBoundary sep rest) :
    pattern.rests (word ++ rest) = (pattern.rests word).map (· ++ rest) := by
  induction pattern generalizing word with
  | empty => rfl
  | one p =>
      cases word with
      | nil =>
          cases rest with
          | nil => rfl
          | cons c rest =>
              have hp : p c = false := hrest.eq_sep ▸ h
              rw [List.nil_append, rests_one_cons, if_neg (by simp [hp])]
              rfl
      | cons c word =>
          rw [List.cons_append, rests_one_cons, rests_one_cons]
          split
          · rfl
          · rfl
  | plus p => exact plusRests_append h word hrest
  | seq first second ihf ihs =>
      rw [rests_seq, rests_seq, ihf h.1 word, List.flatMap_map, List.map_flatMap]
      exact List.flatMap_congr fun middle _ => ihs h.2 middle
  | either first second ihf ihs =>
      rw [rests_either, rests_either, ihf h.1 word, ihs h.2 word, List.map_append]
  | ahead inner ih => exact h.elim
  | atEnd => exact h.elim

end Append

/-! ### Whole segments -/

section Segments

variable [BEq α] [LawfulBEq α]

/-- A separator with the word behind it, up to the next separator or the end. -/
def segment (sep : α) (word : Pattern α) : Pattern α :=
  seq (one (· == sep)) (seq word (ahead (either (one (· == sep)) atEnd)))

variable {sep : α} {word : Pattern α}

/-- The look-ahead of `segment`. -/
theorem rests_boundary (text : List α) :
    (ahead (either (one (· == sep)) atEnd)).rests text =
      if text.head?.all (· == sep) = true then [text] else [] := by
  cases text with
  | nil => rfl
  | cons c text =>
      by_cases hc : c = sep
      · simp [rests_ahead, rests_either, rests_one_cons, rests_atEnd, hc]
      · simp [rests_ahead, rests_either, rests_one_cons, rests_atEnd, hc]

theorem rests_segment (text : List α) :
    (segment sep word).rests (sep :: text) = (word.rests text).filter
      fun rest => rest.head?.all (· == sep) := by
  have hahead : (ahead (either (one (· == sep)) atEnd)).rests = fun text : List α =>
      if text.head?.all (· == sep) = true then [text] else [] := funext rests_boundary
  have hsegment : (segment sep word).rests (sep :: text) = (word.rests text).flatMap
      fun text => if text.head?.all (· == sep) = true then [text] else [] := by
    rw [← hahead]
    simp [segment, rests_seq, rests_one_cons]
  rw [hsegment]
  induction word.rests text with
  | nil => rfl
  | cons rest attempts ih =>
      rw [List.flatMap_cons, ih, List.filter_cons]
      split
      · rfl
      · rfl

/-- Of all attempts on a class without the separator only the longest can end
at a boundary. -/
theorem filter_plusRests {p : α → Bool} (hp : p sep = false) (text : List α) :
    (plusRests p text).filter (fun rest => rest.head?.all (· == sep)) =
      if text.takeWhile p ≠ [] ∧ (text.dropWhile p).head?.all (· == sep) = true then
        [text.dropWhile p]
      else [] := by
  induction text with
  | nil => rfl
  | cons c text ih =>
      cases hc : p c with
      | false => simp [plusRests_cons, hc]
      | true =>
          rw [plusRests_cons, if_pos hc, List.filter_append, ih, List.takeWhile_cons_of_pos hc,
            List.dropWhile_cons_of_pos hc]
          cases text with
          | nil => simp
          | cons d text =>
              cases hd : p d with
              | false =>
                  have htake : (d :: text).takeWhile p = [] :=
                    List.takeWhile_cons_of_neg (by simp [hd])
                  have hdrop : (d :: text).dropWhile p = d :: text :=
                    List.dropWhile_cons_of_neg (by simp [hd])
                  rw [htake, hdrop]
                  by_cases hsep : d = sep
                  · simp [hsep]
                  · simp [hsep]
              | true =>
                  have hne : d ≠ sep := fun h => Bool.false_ne_true (hp.symm.trans (h ▸ hd))
                  simp [hd, hne]

theorem find_segment_plus {p : α → Bool} (hp : p sep = false) (text : List α) :
    (segment sep (plus p)).find (sep :: text) =
      if text.takeWhile p ≠ [] ∧ (text.dropWhile p).head?.all (· == sep) = true then
        some ((text.takeWhile p).length + 1)
      else none := by
  have hlength : text.length = (text.takeWhile p).length + (text.dropWhile p).length := by
    rw [← List.length_append, List.takeWhile_append_dropWhile]
  rw [find, rests_segment, rests_plus, filter_plusRests hp]
  split
  · simp only [List.head?_cons, Option.map_some, List.length_cons]
    congr 1
    omega
  · rfl

/-- Behind a part of a word stands a separator or the end only if it is empty. -/
theorem head_append {rest tail : List α} (hrest : sep ∉ rest) (htail : AtBoundary sep tail) :
    (rest ++ tail).head?.all (· == sep) = rest.isEmpty := by
  cases rest with
  | nil =>
      rcases htail with htail | htail
      · simp [htail]
      · simp [htail]
  | cons c rest =>
      have hc : c ≠ sep := fun h => hrest (h ▸ List.mem_cons_self)
      simp [hc]

theorem rests_segment_of_ne {c : α} (hc : c ≠ sep) (text : List α) :
    (segment sep word).rests (c :: text) = [] := by
  simp [segment, rests_seq, rests_one_cons, hc]

/-- A pattern for words inside a segment takes whole segments. -/
theorem takesSegments_segment (h : word.Inside sep) :
    TakesSegments sep word.takes (segment sep word).find where
  elsewhere c rest hc := by
    rw [find, rests_segment_of_ne hc]
    rfl
  segment s rest hs hrest := by
    have hattempts : (word.rests s).filter
        ((fun text => text.head?.all (· == sep)) ∘ (· ++ rest)) =
          (word.rests s).filter List.isEmpty :=
      List.filter_congr fun behind hbehind =>
        head_append (fun hsep => hs ((rests_suffix hbehind).subset hsep)) hrest
    rw [find, rests_segment, rests_append h s hrest, List.filter_map, hattempts, List.head?_map,
      List.head?_filter, takes]
    cases hfind : (word.rests s).find? List.isEmpty with
    | none =>
        have hnone : (word.rests s).any List.isEmpty = false := by
          rw [List.any_eq_false]
          exact List.find?_eq_none.mp hfind
        simp [hnone]
    | some behind =>
        have hany : (word.rests s).any List.isEmpty = true := List.any_eq_true.mpr
          ⟨behind, List.mem_of_find?_eq_some hfind, List.find?_some hfind⟩
        obtain rfl := List.isEmpty_iff.mp (List.find?_some hfind)
        simp only [hany, if_true, Option.map_some, List.nil_append, List.length_cons,
          List.length_append]
        congr 1
        omega

end Segments

end Pattern

end Library
