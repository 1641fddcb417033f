import Eventify.Library.Codes
import Eventify.Library.Segments

/-!
# The text format of metrics

A text of lines. A line is a sample, with a metric name, labels between braces
and a value, or it is skipped. Label values stand in quotes, with a backslash
before a backslash or a quote and `\n` for a newline. The reader goes through
the labels one character at a time.
-/

namespace Library

structure Sample where
  name : String
  labels : List (String × String)
  value : String
  deriving DecidableEq, Repr

/-- What identifies a sample in its text: the metric and the labels. -/
def Sample.series (sample : Sample) : String × List (String × String) :=
  (sample.name, sample.labels)

def isNameChar (c : Char) : Bool := c.isAlphanum || c == '_' || c == ':'

/-- Where the reader stands: in a label name, in a quoted value, or behind one. -/
inductive LabelState where
  | name (read : List Char)
  | value (name read : List Char)
  | after

/-- The labels up to the closing brace, with what stands behind it. -/
def readLabels : LabelState → List Char → Option (List (String × String) × List Char)
  | _, [] => none
  | .name read, '=' :: '"' :: rest => readLabels (.value read []) rest
  | .name [], '}' :: rest => some ([], rest)
  | .name read, c :: rest => if isNameChar c then readLabels (.name (read ++ [c])) rest else none
  | .value name read, '\\' :: 'n' :: rest => readLabels (.value name (read ++ ['\n'])) rest
  | .value name read, '\\' :: c :: rest =>
      if c == '\\' || c == '"' then readLabels (.value name (read ++ [c])) rest else none
  | .value name read, '"' :: rest =>
      (readLabels .after rest).map fun found =>
        ((String.ofList name, String.ofList read) :: found.1, found.2)
  | .value name read, c :: rest => readLabels (.value name (read ++ [c])) rest
  | .after, ',' :: rest => readLabels (.name []) rest
  | .after, '}' :: rest => some ([], rest)
  | .after, _ => none

def readSample (line : List Char) : Option Sample :=
  let name := line.takeWhile isNameChar
  match line.drop name.length with
  | '{' :: rest =>
      match readLabels (.name []) rest with
      | some (labels, ' ' :: value) => some ⟨String.ofList name, labels, String.ofList value⟩
      | _ => none
  | ' ' :: value => some ⟨String.ofList name, [], String.ofList value⟩
  | _ => none

def readExposition (text : List Char) : List Sample := (text.splitOn '\n').filterMap readSample

theorem filter_series {samples : List Sample} (hnodup : (samples.map Sample.series).Nodup)
    {sample : Sample} (h : sample ∈ samples) {series : String × List (String × String)}
    (hseries : sample.series = series) :
    samples.filter (fun s => s.series = series) = [sample] := by
  subst hseries
  induction samples with
  | nil => cases h
  | cons first samples ih =>
      obtain ⟨hnew, hnodup⟩ := List.nodup_cons.mp hnodup
      rcases List.mem_cons.mp h with rfl | h
      · have hrest : samples.filter (fun s => s.series = sample.series) = [] := by
          refine List.filter_eq_nil_iff.mpr fun s hs hsame => hnew ?_
          exact of_decide_eq_true hsame ▸ List.mem_map_of_mem hs
        rw [List.filter_cons_of_pos (by simp), hrest]
      · have hne : first.series ≠ sample.series := fun hsame =>
          hnew (hsame ▸ List.mem_map_of_mem h)
        rw [List.filter_cons_of_neg (by simpa using hne), ih hnodup h]

theorem names_append {l l' : List Sample} {names names' : List String}
    (hl : ∀ s ∈ l, s.name ∈ names) (hl' : ∀ s ∈ l', s.name ∈ names') :
    ∀ s ∈ l ++ l', s.name ∈ names ++ names' := by
  intro s hs
  rcases List.mem_append.mp hs with hs | hs
  · exact List.mem_append_left _ (hl s hs)
  · exact List.mem_append_right _ (hl' s hs)

/-- Samples of differently named metrics do not repeat one another. -/
theorem nodup_append_series {l l' : List Sample} {names names' : List String}
    (hl : ∀ s ∈ l, s.name ∈ names) (hl' : ∀ s ∈ l', s.name ∈ names')
    (hdisjoint : ∀ n ∈ names, n ∉ names') (h : (l.map Sample.series).Nodup)
    (h' : (l'.map Sample.series).Nodup) : ((l ++ l').map Sample.series).Nodup := by
  rw [List.map_append, List.nodup_append]
  refine ⟨h, h', fun a ha b hb hab => ?_⟩
  obtain ⟨s, hs, rfl⟩ := List.mem_map.mp ha
  obtain ⟨t, ht, rfl⟩ := List.mem_map.mp hb
  have hname : s.name = t.name := congrArg Prod.fst hab
  exact hdisjoint s.name (hl s hs) (hname ▸ hl' t ht)

/-! ### Writing -/

def escapeLabelChar : Char → List Char
  | '\\' => ['\\', '\\']
  | '"' => ['\\', '"']
  | '\n' => ['\\', 'n']
  | c => [c]

def writeLabel (label : String × String) : List Char :=
  label.1.toList ++ '=' :: '"' :: (label.2.toList.flatMap escapeLabelChar ++ ['"'])

def Sample.write (sample : Sample) : List Char :=
  sample.name.toList ++
    (if sample.labels = [] then []
      else '{' :: ([','].intercalate (sample.labels.map writeLabel) ++ ['}'])) ++
    ' ' :: sample.value.toList

/-- Names that the format allows. -/
def Sample.Named (sample : Sample) : Prop :=
  sample.name.toList.all isNameChar = true ∧
    ∀ label ∈ sample.labels, label.1.toList.all isNameChar = true

/-! ### Reading back -/

theorem readLabels_name {name : List Char} (hname : name.all isNameChar = true)
    (read rest : List Char) :
    readLabels (.name read) (name ++ '=' :: '"' :: rest) =
      readLabels (.value (read ++ name) []) rest := by
  induction name generalizing read with
  | nil => rw [List.append_nil, List.nil_append, readLabels.eq_2]
  | cons c name ih =>
      obtain ⟨hc, hname⟩ := Bool.and_eq_true_iff.mp (List.all_cons ▸ hname)
      have hequal : c ≠ '=' := fun h => absurd (h ▸ hc) (by decide)
      have hbrace : c ≠ '}' := fun h => absurd (h ▸ hc) (by decide)
      rw [List.cons_append, readLabels.eq_4 _ _ _ (fun _ h _ => hequal h) (fun _ h => hbrace h),
        if_pos hc, ih hname, List.append_assoc]
      rfl

theorem readLabels_escaped (name read : List Char) (c : Char) (rest : List Char) :
    readLabels (.value name read) (escapeLabelChar c ++ rest) =
      readLabels (.value name (read ++ [c])) rest := by
  unfold escapeLabelChar
  split
  · exact readLabels.eq_6 name read '\\' rest (by decide)
  · exact readLabels.eq_6 name read '"' rest (by decide)
  · exact readLabels.eq_5 name read rest
  · next hslash hquote _ =>
      exact readLabels.eq_8 name read c rest (fun _ h _ => hslash h)
        (fun _ _ h _ => hslash h) hquote

theorem readLabels_value (name read value rest : List Char) :
    readLabels (.value name read) (value.flatMap escapeLabelChar ++ '"' :: rest) =
      (readLabels .after rest).map fun found =>
        ((String.ofList name, String.ofList (read ++ value)) :: found.1, found.2) := by
  induction value generalizing read with
  | nil => rw [List.flatMap_nil, List.nil_append, List.append_nil, readLabels.eq_7]
  | cons c value ih =>
      rw [List.flatMap_cons, List.append_assoc, readLabels_escaped, ih, List.append_assoc]
      rfl

theorem readLabels_writeLabel {label : String × String}
    (hname : label.1.toList.all isNameChar = true) (rest : List Char) :
    readLabels (.name []) (writeLabel label ++ rest) =
      (readLabels .after rest).map fun found => (label :: found.1, found.2) := by
  have htext : writeLabel label ++ rest = label.1.toList ++
      '=' :: '"' :: (label.2.toList.flatMap escapeLabelChar ++ '"' :: rest) := by
    simp [writeLabel]
  rw [htext, readLabels_name hname, readLabels_value]
  simp

/-- The labels that are written are read back, whatever stands behind the brace. -/
theorem readLabels_write {label : String × String} {labels : List (String × String)}
    (hnames : ∀ l ∈ label :: labels, l.1.toList.all isNameChar = true) (rest : List Char) :
    readLabels (.name []) ([','].intercalate ((label :: labels).map writeLabel) ++ '}' :: rest) =
      some (label :: labels, rest) := by
  induction labels generalizing label with
  | nil =>
      rw [List.map_singleton, List.intercalate_singleton,
        readLabels_writeLabel (hnames label List.mem_cons_self), readLabels.eq_10]
      rfl
  | cons next labels ih =>
      have hrest := ih fun l hl => hnames l (List.mem_cons_of_mem _ hl)
      rw [List.map_cons] at hrest
      rw [List.map_cons, List.map_cons, List.intercalate_cons_cons, List.append_assoc,
        List.append_assoc, readLabels_writeLabel (hnames label List.mem_cons_self),
        List.singleton_append, readLabels.eq_9, hrest]
      rfl

theorem takeWhile_name {name : List Char} (hname : name.all isNameChar = true) {c : Char}
    (hc : isNameChar c = false) (rest : List Char) :
    (name ++ c :: rest).takeWhile isNameChar = name := by
  rw [List.takeWhile_append_of_pos (List.all_eq_true.mp hname), List.takeWhile_cons_of_neg,
    List.append_nil]
  simp [hc]

/-- A sample that is written is read back. -/
theorem readSample_write {sample : Sample} (hnamed : sample.Named) :
    readSample sample.write = some sample := by
  obtain ⟨name, labels, value⟩ := sample
  obtain ⟨hname, hlabels⟩ := hnamed
  cases labels with
  | nil =>
      have htext : Sample.write ⟨name, [], value⟩ = name.toList ++ ' ' :: value.toList := by
        simp [Sample.write]
      rw [readSample, htext, takeWhile_name hname (by decide), List.drop_left]
      simp
  | cons label labels =>
      have htext : Sample.write ⟨name, label :: labels, value⟩ = name.toList ++
          '{' :: ([','].intercalate ((label :: labels).map writeLabel) ++
            '}' :: ' ' :: value.toList) := by
        simp [Sample.write]
      rw [readSample, htext, takeWhile_name hname (by decide), List.drop_left]
      simp only [readLabels_write hlabels, String.ofList_toList]

/-- A written sample is one line. -/
theorem newline_not_mem_write {sample : Sample} (hnamed : sample.Named)
    (hvalue : '\n' ∉ sample.value.toList) : '\n' ∉ sample.write := by
  obtain ⟨name, labels, value⟩ := sample
  obtain ⟨hname, hlabels⟩ := hnamed
  have hnot {text : List Char} (htext : text.all isNameChar = true) : '\n' ∉ text := fun h =>
    absurd (List.all_eq_true.mp htext '\n' h) (by decide)
  have hescaped (text : List Char) : '\n' ∉ text.flatMap escapeLabelChar := by
    rw [List.mem_flatMap]
    rintro ⟨c, -, hc⟩
    unfold escapeLabelChar at hc
    split at hc
    · exact absurd hc (by decide)
    · exact absurd hc (by decide)
    · exact absurd hc (by decide)
    · next hnewline => exact hnewline (List.mem_singleton.mp hc).symm
  have hwritten : '\n' ∉ [','].intercalate (labels.map writeLabel) := by
    intro h
    rcases mem_intercalate h with hcomma | ⟨text, htext, h⟩
    · exact absurd hcomma (by decide)
    · obtain ⟨label, hlabel, rfl⟩ := List.mem_map.mp htext
      simp [writeLabel, hnot (hlabels label hlabel), hescaped] at h
  simp only [Sample.write, List.mem_append, List.mem_cons, not_or]
  refine ⟨⟨hnot hname, ?_⟩, by decide, hvalue⟩
  split
  · exact List.not_mem_nil
  · simp [hwritten]

/-- The samples of some lines, none of which has a newline in it. -/
structure ReadsAs (lines : List String) (samples : List Sample) : Prop where
  single : ∀ line ∈ lines, '\n' ∉ line.toList
  reads : lines.filterMap (fun line => readSample line.toList) = samples

theorem ReadsAs.append {lines lines' : List String} {samples samples' : List Sample}
    (h : ReadsAs lines samples) (h' : ReadsAs lines' samples') :
    ReadsAs (lines ++ lines') (samples ++ samples') where
  single line hline := (List.mem_append.mp hline).elim (h.single line) (h'.single line)
  reads := by rw [List.filterMap_append, h.reads, h'.reads]

theorem ReadsAs.flatMap {ι : Type*} {l : List ι} {lines : ι → List String}
    {samples : ι → List Sample} (h : ∀ i ∈ l, ReadsAs (lines i) (samples i)) :
    ReadsAs (l.flatMap lines) (l.flatMap samples) := by
  induction l with
  | nil => exact ⟨by simp, rfl⟩
  | cons i l ih =>
      exact (h i List.mem_cons_self).append (ih fun j hj => h j (List.mem_cons_of_mem _ hj))

theorem ReadsAs.map {ι : Type*} {l : List ι} {line : ι → String} {sample : ι → Sample}
    (h : ∀ i ∈ l, ReadsAs [line i] [sample i]) : ReadsAs (l.map line) (l.map sample) := by
  rw [List.map_eq_flatMap, List.map_eq_flatMap]
  exact ReadsAs.flatMap h

/-- A line that is a written sample. -/
theorem readsAs_sample {line : String} {sample : Sample} (hline : line.toList = sample.write)
    (hnamed : sample.Named) (hvalue : '\n' ∉ sample.value.toList) :
    ReadsAs [line] [sample] where
  single l hl := by
    rw [List.mem_singleton.mp hl, hline]
    exact newline_not_mem_write hnamed hvalue
  reads := by simp [hline, readSample_write hnamed]

/-- Lines that all end in newlines are read one by one. -/
theorem ReadsAs.readExposition {lines : List String} {samples : List Sample}
    (h : ReadsAs lines samples) (hne : lines ≠ []) :
    readExposition ("\n".intercalate lines ++ "\n").toList = samples := by
  have htext : ("\n".intercalate lines ++ "\n").toList =
      ['\n'].intercalate (lines.map String.toList ++ [[]]) := by
    rw [intercalate_concat_nil (by simpa using hne), String.toList_append,
      String.toList_intercalate]
    rfl
  rw [htext, Library.readExposition, List.splitOn_intercalate, List.filterMap_append,
    List.filterMap_map, ← h.reads]
  · exact List.append_nil _
  · intro line hline
    rcases List.mem_append.mp hline with hline | hline
    · obtain ⟨text, htext, rfl⟩ := List.mem_map.mp hline
      exact h.single text htext
    · obtain rfl := List.mem_singleton.mp hline
      exact List.not_mem_nil
  · simp

/-- What of a label value is read so far. -/
def LabelState.read : LabelState → List Char
  | .value _ read => read
  | _ => []

/-- Label values are made of characters of the text, and of newlines. -/
theorem not_mem_of_readLabels {c : Char} (hnewline : c ≠ '\n') (state : LabelState)
    (text : List Char) (hstate : c ∉ state.read) (htext : c ∉ text)
    {found : List (String × String) × List Char} (h : readLabels state text = some found) :
    ∀ label ∈ found.1, c ∉ label.2.toList := by
  have hsnoc {read : List Char} {d : Char} (hread : c ∉ read) (hd : c ≠ d) : c ∉ read ++ [d] := by
    simp [hread, hd]
  fun_induction readLabels state text generalizing found with
  | case1 | case5 | case8 | case13 => cases h
  | case2 read rest ih => exact ih List.not_mem_nil (by simp_all) h
  | case3 | case12 => cases h; simp
  | case4 read d rest _ _ _ ih => exact ih List.not_mem_nil (by simp_all) h
  | case6 name read rest ih => exact ih (hsnoc hstate hnewline) (by simp_all) h
  | case7 name read d rest _ _ ih =>
      simp only [List.mem_cons, not_or] at htext
      exact ih (hsnoc hstate htext.2.1) htext.2.2 h
  | case9 name read rest ih =>
      obtain ⟨later, hlater, rfl⟩ := Option.map_eq_some_iff.mp h
      intro label hlabel
      rcases List.mem_cons.mp hlabel with rfl | hlabel
      · simpa [LabelState.read] using hstate
      · exact ih List.not_mem_nil (by simp_all) hlater label hlabel
  | case10 name read d rest _ _ _ ih =>
      simp only [List.mem_cons, not_or] at htext
      exact ih (hsnoc hstate htext.1) htext.2 h
  | case11 rest ih => exact ih List.not_mem_nil (by simp_all) h

theorem not_mem_of_readSample {c : Char} (hnewline : c ≠ '\n') {line : List Char} {sample : Sample}
    (hline : c ∉ line) (h : readSample line = some sample) :
    ∀ label ∈ sample.labels, c ∉ label.2.toList := by
  have hdrop : c ∉ line.drop (line.takeWhile isNameChar).length := fun hc =>
    hline (List.mem_of_mem_drop hc)
  simp only [readSample] at h
  split at h
  · next rest hrest =>
      rw [hrest] at hdrop
      split at h
      · next labels value hread =>
          cases h
          exact not_mem_of_readLabels hnewline _ rest List.not_mem_nil
            (fun hc => hdrop (List.mem_cons_of_mem _ hc)) hread
      · cases h
  · cases h
    simp
  · cases h

/-- A character that the text does not have stands in no label value. -/
theorem not_mem_of_readExposition {c : Char} (hnewline : c ≠ '\n') {text : List Char}
    (htext : c ∉ text) {sample : Sample} (h : sample ∈ readExposition text) :
    ∀ label ∈ sample.labels, c ∉ label.2.toList := by
  obtain ⟨line, hline, hsample⟩ := List.mem_filterMap.mp h
  exact not_mem_of_readSample hnewline (fun hc => htext (mem_of_mem_splitOn hline hc)) hsample

end Library
