import Eventify.Events.Integrity
import Eventify.Events.Paging
import Eventify.Library.FormEncoding

/-!
# Filters on their way to the query

What a visitor enters as filters becomes a query string in the browser, an
object of texts in the API, and a `ListEventsQuery` behind the schema. The way
loses nothing: the API lists what the visitor has asked for, or refuses.
-/

namespace Eventify

open Library

/-! ### The browser -/

/-- The filter state of `AppV2`. -/
structure FilterForm where
  query : String
  venue : String
  from_ : String
  to_ : String

/-- `new Date(...).toISOString()` of the start and the end of a day; none for a
`RangeError`. -/
structure BrowserDates where
  startOfDay : String → Option String
  endOfDay : String → Option String

namespace FilterForm

/-- `if (text.trim()) params.set(name, text.trim())`. -/
def textParam (name text : String) : List (String × String) :=
  if trim text = "" then [] else [(name, trim text)]

/-- `if (day) params.set(name, ...)`. -/
def dayParam (iso : String → Option String) (name day : String) : Option (List (String × String)) :=
  if day = "" then some [] else (iso day).map fun text => [(name, text)]

/-- The parameters of `loadEvents`. -/
def params (dates : BrowserDates) (form : FilterForm) (nextPage : ℕ) :
    Option (List (String × String)) :=
  (dayParam dates.startOfDay "from" form.from_).bind fun from_ =>
    (dayParam dates.endOfDay "to" form.to_).map fun to_ =>
      [("page", toString nextPage), ("limit", "9")] ++ textParam "q" form.query ++
        textParam "venue" form.venue ++ from_ ++ to_

end FilterForm

def encodeParams (params : List (String × String)) : List Char :=
  FormEncoding.write (params.map fun param => (param.1.toList, param.2.toList))

/-! ### The API -/

/-- A repeated name makes an array of its values. -/
def addField (object : JsonObject) (field : List Char × List Char) : JsonObject :=
  let name := String.ofList field.1
  if object.any fun entry => entry.1 == name then
    object.map fun entry => if entry.1 == name then (name, .other) else entry
  else object ++ [(name, .string (String.ofList field.2))]

/-- `req.query`. -/
def requestQuery (lenient : List Char → List Char) (text : List Char) : JsonObject :=
  (FormEncoding.read lenient text).foldl addField []

/-- What the visitor has asked for. -/
def FilterForm.wanted (dates : BrowserDates) (form : FilterForm) (nextPage : ℕ) :
    Option ListEventsQuery :=
  let text := fun value => if trim value = "" then none else some (trim value)
  let day := fun (iso : String → Option String) value =>
    if value = "" then some none else (iso value).map some
  (day dates.startOfDay form.from_).bind fun from_ =>
    (day dates.endOfDay form.to_).map fun to_ =>
      { page := nextPage, limit := 9, q := text form.query, venue := text form.venue, from_, to_ }

/-- What the schema asks of a query beyond its types. -/
structure ListEventsQuery.Acceptable (ops : TextOps) (isDate : String → Bool)
    (query : ListEventsQuery) : Prop where
  page : 1 ≤ query.page ∧ query.page ≤ 9007199254740991
  limit : 1 ≤ query.limit ∧ query.limit ≤ 100
  q : ∀ text, query.q = some text → ValidText 100 text
  venue : ∀ text, query.venue = some text → ValidText 200 text
  dates : ∀ text, query.from_ = some text ∨ query.to_ = some text → isDate text = true
  ordered : QuerySchema.inOrder ops query.from_ query.to_ = true

/-- The parameters that spell a query. -/
def ListEventsQuery.params (query : ListEventsQuery) : List (String × String) :=
  [("page", toString query.page), ("limit", toString query.limit)] ++
    query.q.toList.map (("q", ·)) ++ query.venue.toList.map (("venue", ·)) ++
    query.from_.toList.map (("from", ·)) ++ query.to_.toList.map (("to", ·))

section RoundTrip

variable {ops : TextOps} {isDate : String → Bool} {query : ListEventsQuery}

theorem foldl_addField {fields : List (String × String)} {object : JsonObject}
    (hnodup : (object.map Prod.fst ++ fields.map Prod.fst).Nodup) :
    (fields.map fun field => (field.1.toList, field.2.toList)).foldl addField object =
      object ++ fields.map fun field => (field.1, .string field.2) := by
  induction fields generalizing object with
  | nil => simp
  | cons field fields ih =>
      have hnew : (object.any fun entry => entry.1 == field.1) = false := by
        rw [List.any_eq_false]
        intro entry hentry hsame
        rw [List.map_cons, List.nodup_append] at hnodup
        exact hnodup.2.2 entry.1 (List.mem_map.mpr ⟨entry, hentry, rfl⟩) field.1
          List.mem_cons_self (by simpa using hsame)
      have hadd : addField object (field.1.toList, field.2.toList) =
          object ++ [(field.1, .string field.2)] := by
        simp [addField, hnew]
      rw [List.map_cons, List.foldl_cons, hadd, ih (by simpa using hnodup)]
      simp

theorem requestQuery_encodeParams (lenient : List Char → List Char)
    {params : List (String × String)} (hnodup : (params.map Prod.fst).Nodup) :
    requestQuery lenient (encodeParams params) =
      params.map fun param => (param.1, .string param.2) := by
  rw [requestQuery, encodeParams, FormEncoding.read_write]
  simpa using @foldl_addField params [] hnodup

theorem number_toString (n : ℕ) : QuerySchema.number (toString n) = n := by
  rw [QuerySchema.number, Nat.toString_eq_ofList_toDigits, String.toList_ofList]
  exact Nat.ofDigitChars_toDigits (by decide) (by decide)

theorem isDigits_toString (n : ℕ) : QuerySchema.isDigits (toString n) = true := by
  have hall : (toString n).toList.all Char.isDigit = true :=
    List.all_eq_true.mpr fun _ => isDigit_of_mem_toString
  have hfull : (toString n).isEmpty = false := by simp
  rw [QuerySchema.isDigits, hfull, hall]
  rfl

theorem intParam_toString {least greatest : ℤ} (n : ℕ) :
    QuerySchema.intParam least greatest (.string (toString n)) =
      if least ≤ n ∧ (n : ℤ) ≤ greatest then some n else none := by
  simp only [QuerySchema.intParam, isDigits_toString, if_true, number_toString,
    EventSchema.integer]
  split <;> simp

theorem optional_lookup {α : Type} {accept : JsonValue → Option α} {body : JsonObject}
    {field : String} {value : Option String}
    (hfield : body.lookup field = value.map JsonValue.string) :
    EventSchema.optional accept body field =
      value.elim (some none) fun text => (accept (.string text)).map some := by
  unfold EventSchema.optional
  cases value <;> simp [hfield]

theorem elim_eq_some_iff {α β : Type} {f : α → Option β} {value : Option α} {found : Option β} :
    (value.elim (some none) fun x => (f x).map some) = some found ↔
      (value = none ∧ found = none) ∨
        ∃ x y, value = some x ∧ f x = some y ∧ found = some y := by
  cases value <;> simp [eq_comm, and_comm]

theorem text_eq_some_iff {limit : ℕ} {text found : String} (htrimmed : trim text = text) :
    EventSchema.text limit (.string text) = some found ↔ found = text ∧ ValidText limit text := by
  constructor
  · intro h
    have hvalid := ValidText.of_text h
    simp only [EventSchema.text, htrimmed] at h
    split at h
    · obtain rfl := Option.some.inj h
      exact ⟨rfl, hvalid⟩
    · simp at h
  · rintro ⟨rfl, hvalid⟩
    exact hvalid.text

theorem isoDate_eq_some_iff {text found : String} :
    QuerySchema.isoDate isDate (.string text) = some found ↔ found = text ∧ isDate text = true := by
  by_cases hdate : isDate text = true
  · simpa [QuerySchema.isoDate, hdate] using eq_comm
  · simp [QuerySchema.isoDate, hdate]

/-- An optional text that is accepted as it is, or not at all. -/
theorem optional_text_iff {accept : JsonValue → Option String} {P : String → Prop}
    {value found : Option String}
    (haccept : ∀ text, value = some text →
      ∀ kept, accept (.string text) = some kept ↔ kept = text ∧ P text) :
    (value.elim (some none) fun text => (accept (.string text)).map some) = some found ↔
      found = value ∧ ∀ text, value = some text → P text := by
  rw [elim_eq_some_iff]
  cases value with
  | none => simp
  | some text =>
      have htext := haccept text rfl
      constructor
      · rintro (⟨hnone, -⟩ | ⟨x, y, hx, hy, rfl⟩)
        · simp at hnone
        · obtain rfl := Option.some.inj hx
          obtain ⟨rfl, hvalid⟩ := (htext y).mp hy
          refine ⟨rfl, fun other hother => ?_⟩
          obtain rfl := Option.some.inj hother
          exact hvalid
      · rintro ⟨rfl, hvalid⟩
        exact .inr ⟨text, text, rfl, (htext text).mpr ⟨rfl, hvalid text rfl⟩, rfl⟩

theorem intParam_iff {least greatest : ℤ} {n : ℕ} {found : Option ℕ} :
    ((some (toString n)).elim (some none) fun text =>
        (QuerySchema.intParam least greatest (.string text)).map some) = some found ↔
      found = some n ∧ least ≤ n ∧ (n : ℤ) ≤ greatest := by
  rw [Option.elim_some, intParam_toString]
  by_cases hbounds : least ≤ n ∧ (n : ℤ) ≤ greatest
  · simpa [hbounds] using eq_comm
  · simp [hbounds]

/-- The fields of the object that `req.query` is for the parameters of a query. -/
theorem lookup_params (query : ListEventsQuery) :
    let object : JsonObject := query.params.map fun param => (param.1, .string param.2)
    (object.all fun field => QuerySchema.fields.contains field.1) = true ∧
      object.lookup "page" = (some (toString query.page)).map JsonValue.string ∧
      object.lookup "limit" = (some (toString query.limit)).map JsonValue.string ∧
      object.lookup "q" = query.q.map JsonValue.string ∧
      object.lookup "venue" = query.venue.map JsonValue.string ∧
      object.lookup "from" = query.from_.map JsonValue.string ∧
      object.lookup "to" = query.to_.map JsonValue.string := by
  obtain ⟨page, limit, q, venue, from_, to_⟩ := query
  cases q <;> cases venue <;> cases from_ <;> cases to_ <;>
    exact ⟨rfl, rfl, rfl, rfl, rfl, rfl, rfl⟩

theorem schema_params_iff {accepted : ListEventsQuery}
    (hq : ∀ text, query.q = some text → trim text = text)
    (hvenue : ∀ text, query.venue = some text → trim text = text) :
    listEventsQuerySchema ops isDate (query.params.map fun param => (param.1, .string param.2)) =
        some accepted ↔ accepted = query ∧ query.Acceptable ops isDate := by
  obtain ⟨hstrict, hpage, hlimit, hqField, hvenueField, hfrom, hto⟩ := lookup_params query
  generalize (query.params.map fun param => (param.1, JsonValue.string param.2)) = object at *
  have hpageRead : ∀ found, EventSchema.optional QuerySchema.page object "page" = some found ↔
      found = some query.page ∧ (1 : ℤ) ≤ query.page ∧ (query.page : ℤ) ≤ 9007199254740991 := by
    intro found
    rw [optional_lookup hpage]
    exact intParam_iff
  have hlimitRead : ∀ found, EventSchema.optional QuerySchema.limit object "limit" = some found ↔
      found = some query.limit ∧ (1 : ℤ) ≤ query.limit ∧ (query.limit : ℤ) ≤ 100 := by
    intro found
    rw [optional_lookup hlimit]
    exact intParam_iff
  have hqRead : ∀ found, EventSchema.optional QuerySchema.q object "q" = some found ↔
      found = query.q ∧ ∀ text, query.q = some text → ValidText 100 text := by
    intro found
    rw [optional_lookup hqField]
    exact optional_text_iff fun text htext _ => text_eq_some_iff (hq text htext)
  have hvenueRead : ∀ found, EventSchema.optional QuerySchema.venue object "venue" = some found ↔
      found = query.venue ∧ ∀ text, query.venue = some text → ValidText 200 text := by
    intro found
    rw [optional_lookup hvenueField]
    exact optional_text_iff fun text htext _ => text_eq_some_iff (hvenue text htext)
  have hdateRead : ∀ (field : String) (value found : Option String),
      object.lookup field = value.map JsonValue.string →
      (EventSchema.optional (QuerySchema.isoDate isDate) object field = some found ↔
        found = value ∧ ∀ text, value = some text → isDate text = true) := by
    intro field value found hfield
    rw [optional_lookup hfield]
    exact optional_text_iff fun _ _ _ => isoDate_eq_some_iff
  rw [listEventsQuerySchema, if_pos hstrict]
  simp only [Option.bind_eq_some_iff, hpageRead, hlimitRead, hqRead, hvenueRead,
    hdateRead "from" _ _ hfrom, hdateRead "to" _ _ hto]
  constructor
  · rintro ⟨page, ⟨rfl, hpages⟩, limit, ⟨rfl, hlimits⟩, q, ⟨rfl, hqs⟩, venue, ⟨rfl, hvenues⟩,
      from_, ⟨rfl, hfroms⟩, to_, ⟨rfl, htos⟩, h⟩
    split at h
    next hordered =>
      obtain rfl := Option.some.inj h
      refine ⟨rfl, ⟨by omega, by omega⟩, ⟨by omega, by omega⟩, hqs, hvenues, ?_, hordered⟩
      rintro text (htext | htext)
      · exact hfroms text htext
      · exact htos text htext
    · simp at h
  · rintro ⟨rfl, h⟩
    refine ⟨_, ⟨rfl, ?_⟩, _, ⟨rfl, ?_⟩, _, ⟨rfl, h.q⟩, _, ⟨rfl, h.venue⟩, _,
      ⟨rfl, fun text htext => h.dates text (.inl htext)⟩, _,
      ⟨rfl, fun text htext => h.dates text (.inr htext)⟩, by rw [if_pos h.ordered]; rfl⟩
    · have hpages := h.page
      omega
    · have hlimits := h.limit
      omega

theorem params_nodup (query : ListEventsQuery) : (query.params.map Prod.fst).Nodup := by
  obtain ⟨page, limit, q, venue, from_, to_⟩ := query
  cases q <;> cases venue <;> cases from_ <;> cases to_ <;> simp [ListEventsQuery.params]

theorem requestQuery_params_iff (lenient : List Char → List Char) {accepted : ListEventsQuery}
    (hq : ∀ text, query.q = some text → trim text = text)
    (hvenue : ∀ text, query.venue = some text → trim text = text) :
    listEventsQuerySchema ops isDate (requestQuery lenient (encodeParams query.params)) =
        some accepted ↔ accepted = query ∧ query.Acceptable ops isDate := by
  rw [requestQuery_encodeParams lenient (params_nodup query)]
  exact schema_params_iff hq hvenue

/-- What the schema accepts is acceptable, whatever the object was. -/
theorem listEventsQuerySchema_acceptable {raw : JsonObject}
    (h : listEventsQuerySchema ops isDate raw = some query) : query.Acceptable ops isDate := by
  have hlimit := listEventsQuerySchema_limit h
  unfold listEventsQuerySchema at h
  split at h
  · simp only [Option.bind_eq_some_iff] at h
    obtain ⟨page, hpage, limit, -, q, hq, venue, hvenue, from_, hfrom, to_, hto, h⟩ := h
    split at h
    next hordered =>
      obtain rfl := Option.some.inj h
      have hdate : ∀ value text, QuerySchema.isoDate isDate value = some text →
          isDate text = true := by
        intro value text haccept
        cases value with
        | string given =>
            have hgiven := isoDate_eq_some_iff.mp haccept
            exact hgiven.1 ▸ hgiven.2
        | number n => cases haccept
        | other => cases haccept
      refine ⟨?_, hlimit, optional_accepted (fun _ _ => ValidText.of_text) hq,
        optional_accepted (fun _ _ => ValidText.of_text) hvenue, ?_, hordered⟩
      · cases page with
        | none => simp
        | some page =>
            have hbounds :=
              optional_accepted (fun _ _ => intParam_bounds (by decide)) hpage page rfl
            simp only [Option.getD_some]
            omega
      · rintro text (htext | htext)
        · exact optional_accepted hdate hfrom text htext
        · exact optional_accepted hdate hto text htext
    · simp at h
  · simp at h

end RoundTrip

namespace FilterForm

variable {dates : BrowserDates} {form : FilterForm} {nextPage : ℕ}

/-- The browser spells what the visitor wants. -/
theorem params_eq :
    form.params dates nextPage = (form.wanted dates nextPage).map ListEventsQuery.params := by
  have htext : ∀ name text, textParam name text =
      (if trim text = "" then none else some (trim text)).toList.map ((name, ·)) := by
    intro name text
    unfold textParam
    split <;> rfl
  have hday : ∀ iso name day, dayParam iso name day =
      (if day = "" then some none else (iso day).map some).map fun value =>
        value.toList.map ((name, ·)) := by
    intro iso name day
    unfold dayParam
    split
    · rfl
    · cases iso day <;> rfl
  have hlimit : "9" = toString 9 := by decide
  simp only [params, wanted, htext, hday, hlimit]
  cases (if form.from_ = "" then some none else (dates.startOfDay form.from_).map some) with
  | none => rfl
  | some from_ =>
      cases (if form.to_ = "" then some none else (dates.endOfDay form.to_).map some) <;> rfl

theorem wanted_trimmed {query : ListEventsQuery} (h : form.wanted dates nextPage = some query) :
    (∀ text, query.q = some text → trim text = text) ∧
      ∀ text, query.venue = some text → trim text = text := by
  have htrimmed : ∀ given text : String,
      (if trim given = "" then none else some (trim given)) = some text → trim text = text := by
    intro given text htext
    split at htext
    · simp at htext
    · exact Option.some.inj htext ▸ trim_trim given
  simp only [wanted, Option.bind_eq_some_iff, Option.map_eq_some_iff] at h
  obtain ⟨from_, -, to_, -, rfl⟩ := h
  exact ⟨htrimmed _, htrimmed _⟩

end FilterForm

/-- Whatever a visitor enters: the API reads from the query string of the browser
exactly the query that is wanted, when it is acceptable, and refuses it
otherwise. And any query that it accepts in any spelling, it accepts again from
the parameters that spell it. -/
theorem filters_reach_the_query (ops : TextOps) (isDate : String → Bool)
    (lenient : List Char → List Char) (dates : BrowserDates) :
    (∀ (form : FilterForm) (nextPage : ℕ) (params : List (String × String)),
      form.params dates nextPage = some params →
        ∃ query, form.wanted dates nextPage = some query ∧
          ∀ accepted, listEventsQuerySchema ops isDate
              (requestQuery lenient (encodeParams params)) = some accepted ↔
            accepted = query ∧ query.Acceptable ops isDate) ∧
    ∀ (raw : JsonObject) (query : ListEventsQuery),
      listEventsQuerySchema ops isDate raw = some query →
        listEventsQuerySchema ops isDate (requestQuery lenient (encodeParams query.params)) =
          some query := by
  constructor
  · intro form nextPage params hparams
    rw [FilterForm.params_eq] at hparams
    obtain ⟨query, hwanted, rfl⟩ := Option.map_eq_some_iff.mp hparams
    obtain ⟨hq, hvenue⟩ := FilterForm.wanted_trimmed hwanted
    exact ⟨query, hwanted, fun accepted => requestQuery_params_iff lenient hq hvenue⟩
  · intro raw query hraw
    have hacceptable := listEventsQuerySchema_acceptable hraw
    exact (requestQuery_params_iff lenient (fun text htext => (hacceptable.q text htext).trimmed)
      fun text htext => (hacceptable.venue text htext).trimmed).mpr ⟨rfl, hacceptable⟩

def noDates : BrowserDates := ⟨fun _ => none, fun _ => none⟩

/-- A visitor looks for jazz and has typed a blank too many. -/
def jazzForm : FilterForm := ⟨" jazz & blues", "", "", ""⟩

theorem filters_reach_the_query_jazz :
    ∃ params, jazzForm.params noDates 2 = some params ∧
      encodeParams params = "page=2&limit=9&q=jazz+%26+blues".toList ∧
      listEventsQuerySchema plainText (fun _ => true) (requestQuery id (encodeParams params)) =
        some { page := 2, limit := 9, q := some "jazz & blues" } := by
  obtain ⟨params, hparams, hwritten⟩ : ∃ params, jazzForm.params noDates 2 = some params ∧
      encodeParams params = "page=2&limit=9&q=jazz+%26+blues".toList :=
    ⟨_, rfl, by decide⟩
  obtain ⟨query, hwanted, hread⟩ :=
    (filters_reach_the_query plainText (fun _ => true) id noDates).1 jazzForm 2 params hparams
  have hquery : query = { page := 2, limit := 9, q := some "jazz & blues" } :=
    Option.some.inj (hwanted.symm.trans (by decide))
  refine ⟨params, hparams, hwritten, (hread _).mpr ⟨hquery.symm, ?_⟩⟩
  subst hquery
  exact ⟨by decide, by decide, by rintro text ⟨⟩; exact ⟨by decide, by decide, by decide⟩,
    by simp, by simp, rfl⟩

end Eventify
