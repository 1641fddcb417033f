import Eventify.Observability.Logger

/-!
# What a line tells of its fields

Two calls print different lines exactly when their fields differ in what the
logger keeps of them: secrets, entries under `__proto__`, and the values of
fields that have the name of an entry of the logger itself, are lost.
-/

namespace Eventify

open Library

variable {ν : Type*}

/-- The names of the logger's own entries. -/
def ownNames : List String := ["timestamp", "level", "service", "message", "requestId"]

def blankEntry (name : String) : String × LogValue ν := (name, logString "")

def blankOwn (entry : String × LogValue ν) : String × LogValue ν :=
  if entry.1 ∈ ownNames then blankEntry entry.1 else entry

mutual

def withoutProto : LogValue ν → LogValue ν
  | .leaf value => .leaf value
  | .array items => .array (withoutProtoItems items)
  | .object entries => .object (withoutProtoEntries entries)

def withoutProtoItems : List (LogValue ν) → List (LogValue ν)
  | [] => []
  | value :: items => withoutProto value :: withoutProtoItems items

def withoutProtoEntries : List (String × LogValue ν) → List (String × LogValue ν)
  | [] => []
  | (key, value) :: entries =>
      if key = "__proto__" then withoutProtoEntries entries
      else (key, withoutProto value) :: withoutProtoEntries entries

end

/-- Whether a line has the entry: without a request, `requestId` is left out. -/
def isShown (requestId : Option String) (entry : String × LogValue ν) : Bool :=
  requestId.isSome || entry.1 ≠ "requestId"

/-- What is left of the fields when the `__proto__` entries are gone and every
name of the logger itself has a blank value; those that the fields do not have
follow at the end. -/
def remaining (requestId : Option String) (fields : List (String × LogValue ν)) :
    List (String × LogValue ν) :=
  let entries := withoutProtoEntries fields
  let missing := ownNames.filter fun name => name ∉ entries.map Prod.fst
  (entries.map blankOwn ++ missing.map blankEntry).filter (isShown requestId)

/-- Values of JSON. -/
def LogLeaf.plain : LogLeaf ν → Bool
  | .undefined => false
  | .error _ _ _ => false
  | _ => true

mutual

/-- Plain data within the depth limit, but for what stands under redacted keys. -/
def Readable (depth : ℕ) : LogValue ν → Prop
  | .leaf value => depth ≤ 4 ∧ value.plain = true
  | .array items => depth ≤ 4 ∧ ReadableItems (depth + 1) items
  | .object entries => depth ≤ 4 ∧ ReadableEntries (depth + 1) entries

def ReadableItems (depth : ℕ) : List (LogValue ν) → Prop
  | [] => True
  | value :: items => Readable depth value ∧ ReadableItems depth items

def ReadableEntries (depth : ℕ) : List (String × LogValue ν) → Prop
  | [] => True
  | (key, value) :: entries =>
      (key ∈ redactedKeys ∨ Readable depth value) ∧ ReadableEntries depth entries

end

/-! ### The sanitizer on readable fields -/

theorem withoutProtoItems_eq (items : List (LogValue ν)) :
    withoutProtoItems items = items.map withoutProto := by
  induction items with
  | nil => rfl
  | cons value items ih => rw [withoutProtoItems, ih, List.map_cons]

theorem withoutProtoEntries_eq (entries : List (String × LogValue ν)) :
    withoutProtoEntries entries =
      (entries.filter isKept).map fun entry => (entry.1, withoutProto entry.2) := by
  induction entries with
  | nil => rfl
  | cons entry entries ih =>
      obtain ⟨key, value⟩ := entry
      rw [withoutProtoEntries, ih]
      by_cases hproto : key = "__proto__"
      · rw [if_pos hproto, List.filter_cons_of_neg (by simp [isKept, hproto])]
      · rw [if_neg hproto, List.filter_cons_of_pos (by simp [isKept, hproto]), List.map_cons]

theorem readableItems_iff {depth : ℕ} {items : List (LogValue ν)} :
    ReadableItems depth items ↔ ∀ value ∈ items, Readable depth value := by
  induction items with
  | nil => simp [ReadableItems]
  | cons value items ih => rw [ReadableItems, ih, List.forall_mem_cons]

theorem readableEntries_iff {depth : ℕ} {entries : List (String × LogValue ν)} :
    ReadableEntries depth entries ↔
      ∀ entry ∈ entries, entry.1 ∈ redactedKeys ∨ Readable depth entry.2 := by
  induction entries with
  | nil => simp [ReadableEntries]
  | cons entry entries ih => rw [ReadableEntries, ih, List.forall_mem_cons]

theorem maskEntry_withoutProto (production : Bool) {depth : ℕ} {entry : String × LogValue ν}
    (h : entry.1 ∈ redactedKeys ∨
      sanitize production depth entry.2 = withoutProto (maskSecrets entry.2)) :
    sanitizeEntry production depth entry =
      ((maskEntry entry).1, withoutProto (maskEntry entry).2) := by
  by_cases hsecret : entry.1 ∈ redactedKeys
  · simp only [sanitizeEntry, maskEntry, if_pos hsecret]
    rfl
  · simp only [sanitizeEntry, maskEntry, if_neg hsecret, h.resolve_left hsecret]

theorem sanitizeEntries_readable (production : Bool) {depth : ℕ}
    {entries : List (String × LogValue ν)}
    (h : ∀ entry ∈ entries, entry.1 ∈ redactedKeys ∨
      sanitize production depth entry.2 = withoutProto (maskSecrets entry.2)) :
    sanitizeEntries production depth entries = withoutProtoEntries (maskEntries entries) := by
  have hkept : isKept ∘ maskEntry = (isKept : String × LogValue ν → Bool) :=
    funext isKept_maskEntry
  rw [sanitizeEntries_eq, withoutProtoEntries_eq, maskEntries_eq, List.filter_map, List.map_map,
    hkept]
  refine List.map_congr_left fun entry hentry => ?_
  exact maskEntry_withoutProto production (h entry (List.mem_of_mem_filter hentry))

/-- On readable values the sanitizer only takes out secrets and `__proto__`. -/
theorem sanitize_readable (production : Bool) {depth : ℕ} {value : LogValue ν}
    (h : Readable depth value) :
    sanitize production depth value = withoutProto (maskSecrets value) := by
  induction value using JsonTree.induction_on generalizing depth with
  | leaf value =>
      obtain ⟨hdepth, hplain⟩ := h
      rw [sanitize.eq_def, if_neg (by omega)]
      cases value with
      | undefined | error => cases hplain
      | null | bool | number | string => rfl
  | array items ih =>
      obtain ⟨hdepth, hitems⟩ := h
      rw [readableItems_iff] at hitems
      rw [sanitize_array production (by omega), maskSecrets, withoutProto, maskItems_eq,
        withoutProtoItems_eq, List.map_map]
      congr 1
      exact List.map_congr_left fun value hvalue => ih value hvalue (hitems value hvalue)
  | object entries ih =>
      obtain ⟨hdepth, hentries⟩ := h
      rw [readableEntries_iff] at hentries
      have hbelow := sanitizeEntries_readable production fun entry hentry =>
        (hentries entry hentry).imp_right (ih entry hentry)
      rw [sanitize_object production (by omega), ← sanitizeEntries_eq, hbelow, maskSecrets,
        withoutProto]

/-! ### Assigned properties -/

section Assigned

open OrderedMap (setEntries keys_setEntries nodup_setEntries lookup_setEntries map_setEntries
  setEntries_eq_map setEntries_eq_append lookup_cons lookup_filter lookup_eq_none_iff entries_ext)

variable {entries entries' own own' : List (String × LogValue ν)}

theorem assignAll_cons (entries : List (String × LogValue ν)) (e : String × LogValue ν)
    (own : List (String × LogValue ν)) :
    assignAll entries (e :: own) = assignAll (setEntries e.1 e.2 entries) own := rfl

theorem nodup_assignAll (own : List (String × LogValue ν))
    (h : (entries.map Prod.fst).Nodup) : ((assignAll entries own).map Prod.fst).Nodup := by
  induction own generalizing entries with
  | nil => exact h
  | cons e own ih => exact ih (nodup_setEntries h)

theorem lookup_assignAll (hown : (own.map Prod.fst).Nodup) (k : String) :
    (assignAll entries own).lookup k = (own.lookup k).or (entries.lookup k) := by
  induction own generalizing entries with
  | nil => rfl
  | cons e own ih =>
      obtain ⟨hnew, hrest⟩ := List.nodup_cons.mp hown
      rw [assignAll_cons, ih hrest, lookup_setEntries, lookup_cons]
      by_cases hk : k = e.1
      · rw [if_pos hk, if_pos hk, hk, lookup_eq_none_iff.mpr hnew, Option.none_or, Option.some_or]
      · rw [if_neg hk, if_neg hk]

/-- The names of the result, in order, are those of the two lists. -/
theorem keys_assignAll (hentries : entries.map Prod.fst = entries'.map Prod.fst)
    (hown : own.map Prod.fst = own'.map Prod.fst) :
    (assignAll entries own).map Prod.fst = (assignAll entries' own').map Prod.fst := by
  induction own generalizing own' entries entries' with
  | nil =>
      obtain rfl : own' = [] := List.map_eq_nil_iff.mp hown.symm
      exact hentries
  | cons e own ih =>
      cases own' with
      | nil => cases hown
      | cons e' own' =>
          obtain ⟨hkey, hrest⟩ := List.cons.inj hown
          have hset : (setEntries e.1 e.2 entries).map Prod.fst =
              (setEntries e'.1 e'.2 entries').map Prod.fst := by
            rw [keys_setEntries, keys_setEntries, hentries, hkey]
          rw [assignAll_cons, assignAll_cons]
          exact ih hset hrest

theorem map_assignAll {f : String × LogValue ν → String × LogValue ν} (hf : ∀ e, (f e).1 = e.1)
    (entries own : List (String × LogValue ν)) :
    (assignAll entries own).map f = assignAll (entries.map f) (own.map f) := by
  induction own generalizing entries with
  | nil => rfl
  | cons e own ih =>
      have hkey : (f e).1 = e.1 := hf e
      rw [assignAll_cons, ih, map_setEntries hf, List.map_cons, assignAll_cons, hkey]

theorem keys_filter (q : String → Bool) (entries : List (String × LogValue ν)) :
    (entries.filter fun e => q e.1).map Prod.fst = (entries.map Prod.fst).filter q :=
  List.filter_map.symm

/-- Whether two results agree does not depend on the values that are assigned. -/
theorem assignAll_filter_congr (q : String → Bool) (hnodup : (entries.map Prod.fst).Nodup)
    (hown : (own.map Prod.fst).Nodup) (hsame : own.map Prod.fst = own'.map Prod.fst)
    (h : ((assignAll entries own).filter fun e => q e.1) =
      (assignAll entries' own).filter fun e => q e.1) :
    ((assignAll entries own').filter fun e => q e.1) =
      (assignAll entries' own').filter fun e => q e.1 := by
  have hown' : (own'.map Prod.fst).Nodup := hsame ▸ hown
  refine entries_ext ?_ ?_ fun k => ?_
  · rw [keys_filter]
    exact (nodup_assignAll own' hnodup).filter q
  · have hkeys := congrArg (List.map Prod.fst) h
    rw [keys_filter, keys_filter] at hkeys ⊢
    rwa [keys_assignAll rfl hsame, keys_assignAll rfl hsame] at hkeys
  · have hvalue := congrArg (fun l => l.lookup k) h
    simp only [lookup_filter, lookup_assignAll hown] at hvalue
    rw [lookup_filter, lookup_filter, lookup_assignAll hown', lookup_assignAll hown']
    cases hfound : own'.lookup k with
    | some value => rfl
    | none =>
        have hnone : own.lookup k = none := by
          rw [lookup_eq_none_iff, hsame]
          exact lookup_eq_none_iff.mp hfound
        rwa [hnone] at hvalue

theorem mem_assignAll {entry : String × LogValue ν} (hentries : (entries.map Prod.fst).Nodup)
    (hown : (own.map Prod.fst).Nodup) (h : entry ∈ assignAll entries own) :
    entry ∈ own ∨ entry ∈ entries ∧ entry.1 ∉ own.map Prod.fst := by
  have hlookup := (OrderedMap.mem_iff_lookup (nodup_assignAll own hentries)).mp h
  rw [lookup_assignAll hown, Option.or_eq_some_iff] at hlookup
  exact hlookup.imp (OrderedMap.mem_iff_lookup hown).mpr fun ⟨hnone, hsome⟩ =>
    ⟨(OrderedMap.mem_iff_lookup hentries).mpr hsome, lookup_eq_none_iff.mp hnone⟩

/-- One value assigned to several names takes the place of theirs, or follows at
the end. -/
theorem assignAll_const (value : LogValue ν) {names : List String} (hnames : names.Nodup)
    (hnodup : (entries.map Prod.fst).Nodup) :
    assignAll entries (names.map fun name => (name, value)) =
      (entries.map fun e => if e.1 ∈ names then (e.1, value) else e) ++
        (names.filter fun name => name ∉ entries.map Prod.fst).map fun name => (name, value) := by
  induction names generalizing entries with
  | nil => simp [assignAll]
  | cons name names ih =>
      obtain ⟨hnew, hrest⟩ := List.nodup_cons.mp hnames
      rw [List.map_cons, assignAll_cons, ih hrest (nodup_setEntries hnodup)]
      by_cases hname : name ∈ entries.map Prod.fst
      · have hkeys : (setEntries name value entries).map Prod.fst = entries.map Prod.fst := by
          rw [keys_setEntries, if_pos hname]
        rw [hkeys, setEntries_eq_map value hnodup hname, List.map_map,
          List.filter_cons_of_neg (by simpa using hname)]
        congr 1
        refine List.map_congr_left fun e _ => ?_
        by_cases hkey : e.1 = name
        · simp [hkey]
        · simp [hkey]
      · have hmap : (entries.map fun e => if e.1 ∈ name :: names then (e.1, value) else e) =
            entries.map fun e => if e.1 ∈ names then (e.1, value) else e := by
          refine List.map_congr_left fun e he => ?_
          have hkey : e.1 ≠ name := fun h => hname (h ▸ List.mem_map_of_mem he)
          simp [hkey]
        have hmissing : (names.filter fun other => other ∉ (entries ++ [(name, value)]).map
            Prod.fst) = names.filter fun other => other ∉ entries.map Prod.fst := by
          refine List.filter_congr fun other hother => ?_
          have hne : other ≠ name := fun h => hnew (h ▸ hother)
          simp [hne]
        rw [setEntries_eq_append value hname, hmissing, hmap, List.filter_cons_of_pos
          (by simpa using hname), List.map_append, List.map_cons, List.append_assoc]
        simp

end Assigned

/-! ### Texts of plain leaves -/

section Texts

variable (numbers : NumberTexts ν)

def isWordChar (c : Char) : Bool := isNumberChar c || c.isAlpha

theorem isWordChar_bracket :
    ∀ c ∈ ['[', ']', '\x7b', '\x7d', ','], isWordChar c = false := by
  simp [isWordChar, isNumberChar]

theorem number_ne_word {c : Char} (hc : isNumberChar c = false) (n : ν) (rest : List Char) :
    numbers.text n ≠ c :: rest := by
  intro h
  have hchar := numbers.chars n c (h ▸ List.mem_cons_self)
  exact Bool.false_ne_true (hc.symm.trans hchar)

/-- Plain leaves other than strings are written as words. -/
theorem leafText_word {a : LogLeaf ν} (h : a.plain = true) :
    (∃ value, a = .string value) ∨
      leafText numbers a ≠ [] ∧ ∀ c ∈ leafText numbers a, isWordChar c = true := by
  cases a with
  | undefined | error => cases h
  | string value => exact .inl ⟨value, rfl⟩
  | null => exact .inr (by simp [leafText, isWordChar])
  | bool value =>
      cases value with
      | false => exact .inr (by simp [leafText, isWordChar])
      | true => exact .inr (by simp [leafText, isWordChar])
  | number value =>
      refine .inr ⟨numbers.ne_nil value, fun c hc => ?_⟩
      rw [isWordChar, numbers.chars value c hc, Bool.true_or]

theorem leafText_injective {a b : LogLeaf ν} (ha : a.plain = true) (hb : b.plain = true)
    (h : leafText numbers a = leafText numbers b) : a = b := by
  cases a with
  | undefined | error => cases ha
  | null =>
      cases b with
      | undefined | error => cases hb
      | null => rfl
      | bool value => cases value <;> simp [leafText] at h
      | number value => exact (number_ne_word numbers (by decide) value _ h.symm).elim
      | string value => simp [leafText, JsonTree.quote] at h
  | bool value =>
      cases b with
      | undefined | error => cases hb
      | null => cases value <;> simp [leafText] at h
      | bool value' => cases value <;> cases value' <;> simp [leafText] at h ⊢
      | number value' =>
          cases value with
          | false => exact (number_ne_word numbers (by decide) value' _ h.symm).elim
          | true => exact (number_ne_word numbers (by decide) value' _ h.symm).elim
      | string value' => cases value <;> simp [leafText, JsonTree.quote] at h
  | number value =>
      cases b with
      | undefined | error => cases hb
      | null => exact (number_ne_word numbers (by decide) value _ h).elim
      | bool value' =>
          cases value' with
          | false => exact (number_ne_word numbers (by decide) value _ h).elim
          | true => exact (number_ne_word numbers (by decide) value _ h).elim
      | number value' => exact congrArg LogLeaf.number (numbers.injective h)
      | string value' => exact (number_ne_word numbers (by decide) value _ h).elim
  | string value =>
      cases b with
      | undefined | error => cases hb
      | null => simp [leafText, JsonTree.quote] at h
      | bool value' => cases value' <;> simp [leafText, JsonTree.quote] at h
      | number value' => exact (number_ne_word numbers (by decide) value' _ h.symm).elim
      | string value' => exact congrArg LogLeaf.string (JsonTree.quote_injective h)

theorem quote_ne_word {word : List Char} (hne : word ≠ [])
    (hword : ∀ c ∈ word, isWordChar c = true) (text : String) (r s : List Char) :
    JsonTree.quote text ++ r ≠ word ++ s := by
  obtain ⟨c, rest, rfl⟩ := List.exists_cons_of_ne_nil hne
  intro h
  obtain rfl : '"' = c := (List.cons.inj h).1
  exact absurd (hword '"' List.mem_cons_self) (by decide)

theorem leafText_cut {a b : LogLeaf ν} (ha : a.plain = true) (hb : b.plain = true) :
    JsonTree.Cuts (leafText numbers) a b := by
  intro r s hr hs h
  obtain ⟨x, rfl⟩ | ⟨hx, hxs⟩ := leafText_word numbers ha
  · obtain ⟨y, rfl⟩ | ⟨hy, hys⟩ := leafText_word numbers hb
    · obtain ⟨rfl, hrest⟩ := JsonTree.quote_cut h
      exact ⟨rfl, hrest⟩
    · exact (quote_ne_word hy hys x r s h).elim
  · obtain ⟨y, rfl⟩ | ⟨hy, hys⟩ := leafText_word numbers hb
    · exact (quote_ne_word hx hxs y s r h.symm).elim
    · have hstops : ∀ c ∈ [',', ']', '\x7d'], isWordChar c = false := fun c hc =>
        isWordChar_bracket c ((by decide : [',', ']', '\x7d'] ⊆ ['[', ']', '\x7b', '\x7d', ',']) hc)
      obtain ⟨htexts, hrest⟩ := JsonTree.words_cut hstops hxs hys hr hs h
      exact ⟨leafText_injective numbers ha hb htexts, hrest⟩

/-- The texts of plain leaves can be told apart in a line. -/
def plainTexts : JsonTree.LeafCode (LogLeaf ν) where
  text := leafText numbers
  printable a := a.plain = true
  start a ha := by
    obtain ⟨value, rfl⟩ | ⟨hne, hword⟩ := leafText_word numbers ha
    · exact ⟨'"', _, rfl, by decide⟩
    · obtain ⟨c, rest, htext⟩ := List.exists_cons_of_ne_nil hne
      have hc : isWordChar c = true := hword c (htext ▸ List.mem_cons_self)
      exact ⟨c, rest, htext, fun hmem =>
        Bool.false_ne_true ((isWordChar_bracket c hmem).symm.trans hc)⟩
  cut _ _ ha hb := leafText_cut numbers ha hb

end Texts

/-! ### What is written of a payload -/

section Written

variable (numbers : NumberTexts ν)

def isDefined (entry : String × LogValue ν) : Bool :=
  match entry.2 with
  | .leaf .undefined => false
  | _ => true

theorem definedItems_eq (items : List (LogValue ν)) :
    definedItems items = items.map definedPart := by
  induction items with
  | nil => rfl
  | cons value items ih => rw [definedItems, ih, List.map_cons]

theorem definedEntries_eq (entries : List (String × LogValue ν)) :
    definedEntries entries =
      (entries.filter isDefined).map fun entry => (entry.1, definedPart entry.2) := by
  induction entries with
  | nil => rfl
  | cons entry entries ih =>
      obtain ⟨key, value⟩ := entry
      by_cases hvalue : value = .leaf .undefined
      · subst hvalue
        rw [definedEntries, ih, List.filter_cons_of_neg (by simp [isDefined])]
      · have hdefined : isDefined (key, value) = true := by
          unfold isDefined
          split
          · next h => exact absurd h hvalue
          · rfl
        rw [definedEntries.eq_3 _ _ _ fun h => hvalue h, ih, List.filter_cons_of_pos hdefined,
          List.map_cons]

theorem isDefined_of_printable {entry : String × LogValue ν}
    (h : (plainTexts numbers).Printable entry.2) : isDefined entry = true := by
  unfold isDefined
  split
  · next hvalue =>
      rw [hvalue] at h
      exact nomatch h _ (List.mem_singleton_self _)
  · rfl

/-- Plain data has no undefined part. -/
theorem definedPart_printable {value : LogValue ν} (h : (plainTexts numbers).Printable value) :
    definedPart value = value := by
  induction value using JsonTree.induction_on with
  | leaf value => rfl
  | array items ih =>
      have hitems := (plainTexts numbers).printable_array.mp h
      rw [definedPart, definedItems_eq]
      congr 1
      exact (List.map_congr_left fun item hitem => ih item hitem (hitems item hitem)).trans
        (List.map_id' items)
  | object entries ih =>
      have hentries := (plainTexts numbers).printable_object.mp h
      rw [definedPart, definedEntries_eq, List.filter_eq_self.mpr fun entry hentry =>
        isDefined_of_printable numbers (hentries entry hentry)]
      congr 1
      refine (List.map_congr_left fun entry hentry => ?_).trans (List.map_id' entries)
      rw [ih entry hentry (hentries entry hentry)]

theorem printable_entries {entries : List (String × LogValue ν)}
    (h : ∀ entry ∈ entries, entry.1 ∈ redactedKeys ∨
      (plainTexts numbers).Printable (withoutProto (maskSecrets entry.2))) :
    ∀ entry ∈ withoutProtoEntries (maskEntries entries),
      (plainTexts numbers).Printable entry.2 := by
  intro entry hentry
  rw [maskEntries_eq, withoutProtoEntries_eq, List.filter_map, List.map_map] at hentry
  obtain ⟨source, hsource, rfl⟩ := List.mem_map.mp hentry
  have hvalue := h source (List.mem_of_mem_filter hsource)
  by_cases hsecret : source.1 ∈ redactedKeys
  · simp only [Function.comp_apply, maskEntry, if_pos hsecret]
    intro a ha
    obtain rfl := List.mem_singleton.mp ha
    rfl
  · simpa only [Function.comp_apply, maskEntry, if_neg hsecret] using hvalue.resolve_left hsecret

theorem printable_withoutProto {depth : ℕ} {value : LogValue ν} (h : Readable depth value) :
    (plainTexts numbers).Printable (withoutProto (maskSecrets value)) := by
  induction value using JsonTree.induction_on generalizing depth with
  | leaf value =>
      intro a ha
      obtain rfl := List.mem_singleton.mp ha
      exact h.2
  | array items ih =>
      have hitems := readableItems_iff.mp h.2
      rw [maskSecrets, withoutProto, maskItems_eq, withoutProtoItems_eq, List.map_map]
      refine (plainTexts numbers).printable_array.mpr fun value hvalue => ?_
      obtain ⟨item, hitem, rfl⟩ := List.mem_map.mp hvalue
      exact ih item hitem (hitems item hitem)
  | object entries ih =>
      have hentries := readableEntries_iff.mp h.2
      rw [maskSecrets, withoutProto]
      exact (plainTexts numbers).printable_object.mpr <| printable_entries numbers
        fun entry hentry => (hentries entry hentry).imp_right (ih entry hentry)

end Written

/-! ### Secrets in what remains -/

theorem maskEntries_withoutProto {entries : List (String × LogValue ν)}
    (h : ∀ entry ∈ entries,
      maskSecrets (withoutProto entry.2) = withoutProto (maskSecrets entry.2)) :
    maskEntries (withoutProtoEntries entries) = withoutProtoEntries (maskEntries entries) := by
  have hkept : isKept ∘ maskEntry = (isKept : String × LogValue ν → Bool) :=
    funext isKept_maskEntry
  rw [maskEntries_eq, maskEntries_eq, withoutProtoEntries_eq, withoutProtoEntries_eq,
    List.filter_map, List.map_map, List.map_map, hkept]
  refine List.map_congr_left fun entry hentry => ?_
  by_cases hsecret : entry.1 ∈ redactedKeys
  · simp only [Function.comp_apply, maskEntry, if_pos hsecret]
    rfl
  · simp only [Function.comp_apply, maskEntry, if_neg hsecret,
      h entry (List.mem_of_mem_filter hentry)]

theorem maskSecrets_withoutProto (value : LogValue ν) :
    maskSecrets (withoutProto value) = withoutProto (maskSecrets value) := by
  induction value using JsonTree.induction_on with
  | leaf value => rfl
  | array items ih =>
      rw [withoutProto, maskSecrets, maskSecrets, withoutProto, maskItems_eq, maskItems_eq,
        withoutProtoItems_eq, withoutProtoItems_eq, List.map_map, List.map_map]
      congr 1
      exact List.map_congr_left ih
  | object entries ih =>
      rw [withoutProto, maskSecrets, maskSecrets, withoutProto, maskEntries_withoutProto ih]

theorem ownNames_nodup : ownNames.Nodup := by decide

theorem ownNames_not_redacted : ∀ name ∈ ownNames, name ∉ redactedKeys := by decide

def blankEntries : List (String × LogValue ν) := ownNames.map blankEntry

theorem nodup_withoutProtoEntries {entries : List (String × LogValue ν)}
    (h : (entries.map Prod.fst).Nodup) : ((withoutProtoEntries entries).map Prod.fst).Nodup := by
  rw [withoutProtoEntries_eq, List.map_map]
  exact h.sublist (List.filter_sublist.map Prod.fst)

theorem maskEntries_remaining (requestId : Option String) {fields : List (String × LogValue ν)}
    (hnodup : (fields.map Prod.fst).Nodup) :
    maskEntries (remaining requestId fields) =
      (assignAll (withoutProtoEntries (maskEntries fields)) blankEntries).filter
        (isShown requestId) := by
  have hremaining : remaining requestId fields =
      (assignAll (withoutProtoEntries fields) blankEntries).filter (isShown requestId) :=
    congrArg (List.filter (isShown requestId)) (assignAll_const (logString "") ownNames_nodup
      (nodup_withoutProtoEntries hnodup)).symm
  have hshown : isShown requestId ∘ maskEntry =
      (isShown requestId : String × LogValue ν → Bool) := rfl
  have hblank : (blankEntries : List (String × LogValue ν)).map maskEntry = blankEntries := by
    rw [blankEntries, List.map_map]
    refine List.map_congr_left fun name hname => ?_
    have hplain : (blankEntry name : String × LogValue ν).1 ∉ redactedKeys :=
      ownNames_not_redacted name hname
    rw [Function.comp_apply, maskEntry, if_neg hplain]
    rfl
  have hproto : maskEntries (withoutProtoEntries fields) =
      withoutProtoEntries (maskEntries fields) :=
    maskEntries_withoutProto fun entry _ => maskSecrets_withoutProto entry.2
  have hassign := map_assignAll (f := maskEntry) (fun _ => rfl) (withoutProtoEntries fields)
    blankEntries
  rw [hblank, ← maskEntries_eq (withoutProtoEntries fields), hproto] at hassign
  rw [← hassign, List.filter_map, hshown, maskEntries_eq, hremaining]

/-! ### Lines -/

section Lines

variable {numbers : NumberTexts ν} {context : LogContext} {service : String} {level : LogLevel}
  {message : String} {fields fields' : LogFields ν}

theorem nodup_maskEntries {entries : List (String × LogValue ν)}
    (h : (entries.map Prod.fst).Nodup) : ((maskEntries entries).map Prod.fst).Nodup := by
  rw [maskEntries_eq, List.map_map]
  exact h

/-- The caller's entries in a payload. -/
def written (fields : LogFields ν) : List (String × LogValue ν) :=
  withoutProtoEntries (maskEntries fields.entries)

theorem nodup_written (fields : LogFields ν) : ((written fields).map Prod.fst).Nodup :=
  nodup_withoutProtoEntries (nodup_maskEntries fields.nodup)

theorem payload_readable (h : ReadableEntries 1 fields.entries) :
    payload context service level message fields =
      assignAll (written fields) (ownEntries context service level message) := by
  rw [payload, sanitize_object context.production (by decide), ← sanitizeEntries_eq, spread,
    sanitizeEntries_readable context.production fun entry hentry =>
      (readableEntries_iff.mp h entry hentry).imp_right (sanitize_readable context.production)]
  rfl

theorem keys_ownEntries : (ownEntries context service level message :
    List (String × LogValue ν)).map Prod.fst = ownNames := rfl

theorem nodup_ownEntries : ((ownEntries context service level message :
    List (String × LogValue ν)).map Prod.fst).Nodup := by
  rw [keys_ownEntries]
  exact ownNames_nodup

theorem ownEntries_shown (numbers : NumberTexts ν) {entry : String × LogValue ν}
    (h : entry ∈ (ownEntries context service level message : List (String × LogValue ν))) :
    isShown context.requestId entry = true ∧ (plainTexts numbers).Printable entry.2 ∨
      isShown context.requestId entry = false ∧ entry.2 = .leaf .undefined := by
  have htext (text : String) : (plainTexts numbers).Printable (logString text) := by
    intro a ha
    obtain rfl := List.mem_singleton.mp ha
    rfl
  simp only [ownEntries, List.mem_cons, List.not_mem_nil, or_false] at h
  obtain rfl | rfl | rfl | rfl | rfl := h
  · exact .inl ⟨by simp [isShown], htext _⟩
  · exact .inl ⟨by simp [isShown], htext _⟩
  · exact .inl ⟨by simp [isShown], htext _⟩
  · exact .inl ⟨by simp [isShown], htext _⟩
  · cases hrequest : context.requestId with
    | none => exact .inr ⟨by simp [isShown], rfl⟩
    | some requestId => exact .inl ⟨rfl, htext _⟩

/-- An entry of a payload is plain, or it is the id that a request would have. -/
theorem payload_entry (numbers : NumberTexts ν) (h : ReadableEntries 1 fields.entries)
    {entry : String × LogValue ν} (hentry : entry ∈ payload context service level message fields) :
    isShown context.requestId entry = true ∧ (plainTexts numbers).Printable entry.2 ∨
      isShown context.requestId entry = false ∧ entry.2 = .leaf .undefined := by
  rw [payload_readable h] at hentry
  obtain hown | ⟨hfield, hname⟩ := mem_assignAll (nodup_written fields) nodup_ownEntries hentry
  · exact ownEntries_shown numbers hown
  · refine .inl ⟨?_, ?_⟩
    · have hrequest : entry.1 ≠ "requestId" := by
        intro heq
        rw [keys_ownEntries, heq] at hname
        exact hname (by decide)
      simp [isShown, hrequest]
    · exact printable_entries numbers (fun entry hentry =>
        (readableEntries_iff.mp h entry hentry).imp_right (printable_withoutProto numbers))
        entry hfield

theorem shown_printable (numbers : NumberTexts ν) (h : ReadableEntries 1 fields.entries)
    {entry : String × LogValue ν}
    (hentry : entry ∈ (payload context service level message fields).filter
      (isShown context.requestId)) : (plainTexts numbers).Printable entry.2 := by
  obtain ⟨hmem, hvisible⟩ := List.mem_filter.mp hentry
  obtain ⟨-, hplain⟩ | ⟨hhidden, -⟩ := payload_entry numbers h hmem
  · exact hplain
  · rw [hhidden] at hvisible
    cases hvisible

theorem definedEntries_payload (numbers : NumberTexts ν)
    (h : ReadableEntries 1 fields.entries) :
    definedEntries (payload context service level message fields) =
      (payload context service level message fields).filter (isShown context.requestId) := by
  have hshown : ∀ entry ∈ payload context service level message fields,
      isDefined entry = isShown context.requestId entry := by
    intro entry hentry
    obtain ⟨hshown, hplain⟩ | ⟨hhidden, hvalue⟩ := payload_entry numbers h hentry
    · rw [hshown, isDefined_of_printable numbers hplain]
    · rw [hhidden, isDefined, hvalue]
  rw [definedEntries_eq, List.filter_congr hshown]
  refine (List.map_congr_left fun entry hentry => ?_).trans (List.map_id' _)
  rw [definedPart_printable numbers (shown_printable numbers h hentry)]

theorem printable_payload (numbers : NumberTexts ν) (h : ReadableEntries 1 fields.entries) :
    (plainTexts numbers).Printable
      (.object (definedEntries (payload context service level message fields))) := by
  rw [definedEntries_payload numbers h]
  exact (plainTexts numbers).printable_object.mpr fun entry hentry =>
    shown_printable numbers h hentry

/-- A line tells which entries of the payload are shown, and nothing more. -/
theorem logLine_eq_iff_shown (numbers : NumberTexts ν) (h : ReadableEntries 1 fields.entries)
    (h' : ReadableEntries 1 fields'.entries) :
    logLine numbers context service level message fields =
        logLine numbers context service level message fields' ↔
      (payload context service level message fields).filter (isShown context.requestId) =
        (payload context service level message fields').filter (isShown context.requestId) := by
  rw [← definedEntries_payload numbers h, ← definedEntries_payload numbers h']
  constructor
  · intro hline
    have htext := String.ofList_injective hline
    exact JsonTree.object.inj ((plainTexts numbers).write_injective (printable_payload numbers h)
      (printable_payload numbers h') htext)
  · intro hentries
    rw [logLine, logLine, stringify, stringify, definedPart, definedPart, hentries]

theorem shown_eq_iff_remaining (h : ReadableEntries 1 fields.entries)
    (h' : ReadableEntries 1 fields'.entries) :
    (payload context service level message fields).filter (isShown context.requestId) =
        (payload context service level message fields').filter (isShown context.requestId) ↔
      SameButSecrets (remaining context.requestId fields.entries)
        (remaining context.requestId fields'.entries) := by
  have hkeys : (ownEntries context service level message : List (String × LogValue ν)).map
      Prod.fst = blankEntries.map Prod.fst := rfl
  rw [SameButSecrets, maskEntries_remaining _ fields.nodup, maskEntries_remaining _ fields'.nodup,
    payload_readable h, payload_readable h']
  constructor
  · exact assignAll_filter_congr (fun name => context.requestId.isSome || name ≠ "requestId")
      (nodup_written fields) nodup_ownEntries hkeys
  · exact assignAll_filter_congr (fun name => context.requestId.isSome || name ≠ "requestId")
      (nodup_written fields) (hkeys ▸ nodup_ownEntries) hkeys.symm

theorem logLine_eq_iff (numbers : NumberTexts ν) (h : ReadableEntries 1 fields.entries)
    (h' : ReadableEntries 1 fields'.entries) :
    logLine numbers context service level message fields =
        logLine numbers context service level message fields' ↔
      SameButSecrets (remaining context.requestId fields.entries)
        (remaining context.requestId fields'.entries) :=
  (logLine_eq_iff_shown numbers h h').trans (shown_eq_iff_remaining h h')

/-- Where calls print, what reaches the console differs likewise. -/
theorem log_eq_iff (numbers : NumberTexts ν) (h : ReadableEntries 1 fields.entries)
    (h' : ReadableEntries 1 fields'.entries)
    (hprints : ¬ (level = .debug ∧ context.production = true)) :
    log numbers context service level message fields =
        log numbers context service level message fields' ↔
      SameButSecrets (remaining context.requestId fields.entries)
        (remaining context.requestId fields'.entries) := by
  rw [log, log, if_neg hprints, if_neg hprints, Option.some_inj, Prod.mk.injEq]
  simpa using logLine_eq_iff numbers h h'

/-- Two calls with plain fields within the depth limit print different lines
exactly when their fields still differ, secrets apart, where the logger's own
entries and `__proto__` are left out. -/
theorem logLine_ne_iff (numbers : NumberTexts ν) (context : LogContext) (service : String)
    (level : LogLevel) (message : String) {fields fields' : LogFields ν}
    (h : ReadableEntries 1 fields.entries) (h' : ReadableEntries 1 fields'.entries) :
    logLine numbers context service level message fields ≠
        logLine numbers context service level message fields' ↔
      ¬ SameButSecrets (remaining context.requestId fields.entries)
        (remaining context.requestId fields'.entries) :=
  (logLine_eq_iff numbers h h').not

/-- What the server reports when a signal ends it. -/
def shutdownFields (signal : String) (exitCode : ℕ) : LogFields ℕ where
  entries := [("signal", logString signal), ("exitCode", .leaf (.number exitCode))]
  nodup := by simp

theorem shutdownFields_readable (signal : String) (exitCode : ℕ) :
    ReadableEntries 1 (shutdownFields signal exitCode).entries :=
  readableEntries_iff.mpr fun entry hentry => by
    obtain rfl | rfl := (List.mem_cons.mp hentry).imp_right List.mem_singleton.mp
    · exact .inr ⟨by decide, rfl⟩
    · exact .inr ⟨by decide, rfl⟩

theorem logLine_ne_shutdown :
    logLine decimals ⟨true, "2024-02-29T12:00:00.000Z", none⟩ "eventify-api" .info
        "server.shutdown_started" (shutdownFields "SIGTERM" 0) ≠
      logLine decimals ⟨true, "2024-02-29T12:00:00.000Z", none⟩ "eventify-api" .info
        "server.shutdown_started" (shutdownFields "SIGTERM" 1) := by
  refine (logLine_ne_iff decimals _ _ _ _ (shutdownFields_readable "SIGTERM" 0)
    (shutdownFields_readable "SIGTERM" 1)).mpr fun hsame => ?_
  have hcode (exitCode : ℕ) :
      (maskEntries (remaining none (shutdownFields "SIGTERM" exitCode).entries))[1]? =
        some ("exitCode", .leaf (.number exitCode)) := rfl
  have hcodes := congrArg (·[1]?) hsame
  simp only [hcode] at hcodes
  cases hcodes

/-- The fields with which the Redis clients and the server report an error. -/
def errorFields (text : String) : LogFields ν := ⟨[("message", logString text)], by simp⟩

theorem errorFields_readable (text : String) :
    ReadableEntries 1 (errorFields text : LogFields ν).entries :=
  readableEntries_iff.mpr fun entry hentry => by
    obtain rfl := List.mem_singleton.mp hentry
    exact .inr ⟨by decide, rfl⟩

/-- The text of the error is the value of an entry of the logger, so it is lost. -/
theorem logLine_errorFields (numbers : NumberTexts ν) (context : LogContext) (service : String)
    (level : LogLevel) (message text text' : String) :
    logLine numbers context service level message (errorFields text) =
      logLine numbers context service level message (errorFields text') := by
  rw [logLine_eq_iff numbers (errorFields_readable text) (errorFields_readable text')]
  rfl

/-- Two failures to connect, which print one line. -/
theorem logLine_loses_text :
    ¬ ∀ fields fields' : LogFields ℕ, ReadableEntries 1 fields.entries →
      ReadableEntries 1 fields'.entries → ¬ SameButSecrets fields.entries fields'.entries →
      logLine decimals ⟨true, "2024-02-29T12:00:00.000Z", none⟩ "eventify-api" .warn
          "redis.connection_error" fields ≠
        logLine decimals ⟨true, "2024-02-29T12:00:00.000Z", none⟩ "eventify-api" .warn
          "redis.connection_error" fields' := by
  intro h
  refine h (errorFields "connect ECONNREFUSED") (errorFields "connect ETIMEDOUT")
    (errorFields_readable _) (errorFields_readable _) (fun hsame => ?_)
    (logLine_errorFields _ _ _ _ _ _ _)
  simp [SameButSecrets, errorFields, maskEntries, maskSecrets, redactedKeys, logString] at hsame

end Lines

end Eventify
