import Eventify.Events.Ownership
import Mathlib.Data.List.DropRight

/-!
# What the event tables hold

Only values that the schemas of event bodies accept come into the events table,
into the cache and before the guards, and a booking keeps the event that it is
for: the schema is the only way in, trimming twice is trimming once, and the
database refuses to delete an event with bookings.
-/

namespace Eventify

open Library

/-- `trim`, on the characters. -/
def trimmed (text : List Char) : List Char := (text.dropWhile isTrimmed).rdropWhile isTrimmed

theorem trim_eq (text : String) : trim text = String.ofList (trimmed text.toList) := rfl

theorem trimmed_trimmed (text : List Char) : trimmed (trimmed text) = trimmed text := by
  unfold trimmed
  generalize hl : text.dropWhile isTrimmed = l
  have hfront : l.dropWhile isTrimmed = l := by rw [← hl, List.dropWhile_idempotent]
  have hback : (l.rdropWhile isTrimmed).dropWhile isTrimmed = l.rdropWhile isTrimmed := by
    rw [List.dropWhile_eq_self_iff] at hfront ⊢
    intro hpos
    -- the first character is the one of `l`
    have hshorter := List.rdropWhile_prefix isTrimmed (l := l)
    have hlength := hshorter.length_le
    rw [hshorter.getElem hpos]
    exact hfront (hpos.trans_le hlength)
  rw [hback, List.rdropWhile_idempotent]

theorem trim_trim (text : String) : trim (trim text) = trim text := by
  simp [trim_eq, trimmed_trimmed]

/-- What a text field of an event may be. -/
structure ValidText (limit : ℕ) (text : String) : Prop where
  trimmed : trim text = text
  nonempty : 1 ≤ jsLength text
  bounded : jsLength text ≤ limit

/-- What the columns of an event may hold. -/
structure Event.Valid (event : Event) : Prop where
  title : ValidText 160 event.title
  description : ValidText 5000 event.description
  venue : ValidText 240 event.venue
  capacity : 1 ≤ event.capacity ∧ event.capacity ≤ 1000000
  priceCents : 0 ≤ event.priceCents ∧ event.priceCents ≤ 100000000

structure EventPatch.Valid (patch : EventPatch) : Prop where
  title : ∀ text, patch.title = some text → ValidText 160 text
  description : ∀ text, patch.description = some text → ValidText 5000 text
  venue : ∀ text, patch.venue = some text → ValidText 240 text
  capacity : ∀ capacity, patch.capacity = some capacity → 1 ≤ capacity ∧ capacity ≤ 1000000
  priceCents : ∀ priceCents, patch.priceCents = some priceCents →
    0 ≤ priceCents ∧ priceCents ≤ 100000000

/-- The body that asks for the values of an event, its start spelled as given. -/
def Event.body (event : Event) (startsAt : String) : JsonObject :=
  [("title", .string event.title), ("description", .string event.description),
    ("venue", .string event.venue), ("startsAt", .string startsAt),
    ("capacity", .number event.capacity), ("priceCents", .number event.priceCents)]

def Event.input (event : Event) : EventCreateInput :=
  ⟨event.title, event.description, event.venue, event.startsAt, event.capacity, event.priceCents⟩

/-- An enriched row whose values are valid. -/
structure EventDetail.Valid (detail : EventDetail) : Prop where
  event : detail.toEvent.Valid
  enriched : detail = enrichAvailability detail.toEvent detail.confirmedBookings

structure Database.Valid (db : Database) : Prop where
  events : ∀ id event, db.findEvent id = some event → event.Valid
  bookings : ∀ id booking, db.findBooking id = some booking →
    (db.findEvent booking.eventId).isSome

section Schemas

variable {parseDate : String → Option Time} {body : JsonObject}

theorem ValidText.of_text {limit : ℕ} {value : JsonValue} {text : String}
    (h : EventSchema.text limit value = some text) : ValidText limit text := by
  cases value with
  | string given =>
      simp only [EventSchema.text] at h
      split at h
      next hlength =>
        obtain rfl := Option.some.inj h
        exact ⟨trim_trim given, hlength.1, hlength.2⟩
      · simp at h
  | number n => simp [EventSchema.text] at h
  | other => simp [EventSchema.text] at h

theorem ValidText.text {limit : ℕ} {text : String} (h : ValidText limit text) :
    EventSchema.text limit (.string text) = some text := by
  simp [EventSchema.text, h.trimmed, h.nonempty, h.bounded]

theorem integer_bounds {least greatest n : ℤ} {value : JsonValue}
    (h : EventSchema.integer least greatest value = some n) : least ≤ n ∧ n ≤ greatest := by
  cases value with
  | number given =>
      simp only [EventSchema.integer] at h
      split at h
      next hbounds =>
        obtain rfl := Option.some.inj h
        exact hbounds
      · simp at h
  | string text => simp [EventSchema.integer] at h
  | other => simp [EventSchema.integer] at h

theorem optional_accepted {α : Type} {accept : JsonValue → Option α} {field : String}
    {P : α → Prop} {found : Option α} (haccept : ∀ value x, accept value = some x → P x)
    (h : EventSchema.optional accept body field = some found) : ∀ x, found = some x → P x := by
  rintro x rfl
  unfold EventSchema.optional at h
  split at h
  · simp at h
  next value _ =>
    obtain ⟨y, hy, hxy⟩ := Option.map_eq_some_iff.mp h
    exact Option.some.inj hxy ▸ haccept value y hy

theorem updateEventSchema_valid {patch : EventPatch}
    (h : updateEventSchema parseDate body = some patch) : patch.Valid := by
  unfold updateEventSchema at h
  split at h
  · simp only [Option.bind_eq_some_iff, Option.map_eq_some_iff] at h
    obtain ⟨title, htitle, description, hdescription, venue, hvenue, startsAt, -, capacity,
      hcapacity, priceCents, hprice, rfl⟩ := h
    exact ⟨optional_accepted (fun _ _ => ValidText.of_text) htitle,
      optional_accepted (fun _ _ => ValidText.of_text) hdescription,
      optional_accepted (fun _ _ => ValidText.of_text) hvenue,
      optional_accepted (fun _ _ => integer_bounds) hcapacity,
      optional_accepted (fun _ _ => integer_bounds) hprice⟩
  · simp at h

/-- The row that `createEvent` inserts for an accepted body is valid. -/
theorem createEventSchema_valid {input : EventCreateInput}
    (h : createEventSchema parseDate body = some input) (id organizerId : Uuid) (now : Time) :
    (⟨id, input.title, input.description, input.venue, input.startsAt, input.capacity,
      input.priceCents, organizerId, now⟩ : Event).Valid := by
  simp only [createEventSchema, Option.bind_eq_some_iff, Option.map_eq_some_iff] at h
  obtain ⟨patch, hpatch, title, htitle, description, hdescription, venue, hvenue, startsAt, -,
    capacity, hcapacity, priceCents, hprice, rfl⟩ := h
  have hvalid := updateEventSchema_valid hpatch
  exact ⟨hvalid.title title htitle, hvalid.description description hdescription,
    hvalid.venue venue hvenue, hvalid.capacity capacity hcapacity,
    hvalid.priceCents priceCents hprice⟩

theorem optional_some {α : Type} {accept : JsonValue → Option α} {field : String}
    {value : JsonValue} {x : α} (hfield : body.lookup field = some value)
    (haccept : accept value = some x) : EventSchema.optional accept body field = some (some x) := by
  simp [EventSchema.optional, hfield, haccept]

/-- The values of a valid event pass the schema as they are. -/
theorem Event.Valid.accepted {event : Event} (h : event.Valid) {startsAt : String}
    (hstarts : parseDate startsAt = some event.startsAt) :
    createEventSchema parseDate (event.body startsAt) = some event.input := by
  have hstrict : EventSchema.isStrict (event.body startsAt) = true := rfl
  have htitle : EventSchema.title (.string event.title) = some event.title := h.title.text
  have hdescription : EventSchema.description (.string event.description) =
      some event.description := h.description.text
  have hvenue : EventSchema.venue (.string event.venue) = some event.venue := h.venue.text
  have hdate : EventSchema.isoDate parseDate (.string startsAt) = some event.startsAt := hstarts
  have hcapacity : EventSchema.capacity (.number event.capacity) = some event.capacity :=
    if_pos h.capacity
  have hprice : EventSchema.priceCents (.number event.priceCents) = some event.priceCents :=
    if_pos h.priceCents
  rw [createEventSchema, updateEventSchema, if_pos hstrict, optional_some rfl htitle,
    optional_some rfl hdescription, optional_some rfl hvenue, optional_some rfl hdate,
    optional_some rfl hcapacity, optional_some rfl hprice]
  rfl

end Schemas

section Rows

variable {db db' : Database} {now : Time}

theorem EventPatch.Valid.apply {patch : EventPatch} (h : patch.Valid) {event : Event}
    (hevent : event.Valid) : (patch.apply event).Valid := by
  constructor
  · cases htitle : patch.title with
    | none => simpa [EventPatch.apply, htitle] using hevent.title
    | some text => simpa [EventPatch.apply, htitle] using h.title text htitle
  · cases hdescription : patch.description with
    | none => simpa [EventPatch.apply, hdescription] using hevent.description
    | some text => simpa [EventPatch.apply, hdescription] using h.description text hdescription
  · cases hvenue : patch.venue with
    | none => simpa [EventPatch.apply, hvenue] using hevent.venue
    | some text => simpa [EventPatch.apply, hvenue] using h.venue text hvenue
  · cases hcapacity : patch.capacity with
    | none => simpa [EventPatch.apply, hcapacity] using hevent.capacity
    | some capacity => simpa [EventPatch.apply, hcapacity] using h.capacity capacity hcapacity
  · cases hprice : patch.priceCents with
    | none => simpa [EventPatch.apply, hprice] using hevent.priceCents
    | some price => simpa [EventPatch.apply, hprice] using h.priceCents price hprice

theorem Event.Valid.enriched {event : Event} (h : event.Valid) (confirmedBookings : ℕ) :
    (enrichAvailability event confirmedBookings).Valid := ⟨h, rfl⟩

theorem EventDetail.Valid.seats {detail : EventDetail} (h : detail.Valid) :
    0 ≤ detail.remainingSeats ∧ detail.remainingSeats ≤ detail.capacity ∧
      (detail.soldOut = true ↔ detail.capacity ≤ detail.confirmedBookings) := by
  have hseats : detail.remainingSeats = max 0 (detail.capacity - detail.confirmedBookings) :=
    congrArg EventDetail.remainingSeats h.enriched
  have hsold : detail.soldOut = (max 0 (detail.capacity - detail.confirmedBookings) == 0) :=
    congrArg EventDetail.soldOut h.enriched
  have hcapacity := h.event.capacity.1
  refine ⟨by omega, by omega, ?_⟩
  rw [hsold, beq_iff_eq]
  omega

theorem SeatMove.event_exists {old : Option BookingStatus} {row : Booking}
    (h : SeatMove now db old row db') (hdb : db.Valid) (hold : old ≠ none) :
    (db.findEvent row.eventId).isSome := by
  cases hprior : db.findBooking row.id with
  | none => exact absurd (by rw [← h.status_before, hprior]; rfl) hold
  | some prior =>
      have hkept : row.eventId = prior.eventId := by rw [h.keeps prior hprior]
      rw [hkept]
      exact hdb.bookings row.id prior hprior

theorem SeatMove.valid {old : Option BookingStatus} {row : Booking}
    (h : SeatMove now db old row db') (hdb : db.Valid)
    (hevent : (db.findEvent row.eventId).isSome) : db'.Valid := by
  constructor
  · intro id event hfind
    rw [h.findEvent] at hfind
    exact hdb.events id event hfind
  · intro id booking hfind
    rw [h.findEvent]
    rw [h.find] at hfind
    split at hfind
    · obtain rfl := Option.some.inj hfind
      exact hevent
    · exact hdb.bookings id booking hfind

theorem Seats.valid {old : Option BookingStatus} {row : Booking} (h : Seats now db old row db')
    (hdb : db.Valid) : db'.Valid := by
  obtain ⟨event, hevent, -⟩ := h.room
  exact h.toSeatMove.valid hdb (Option.isSome_of_eq_some hevent)

theorem Promotes.valid {eventId : Uuid} {ws : List Booking} (h : Promotes now eventId db ws db')
    (hdb : db.Valid) : db'.Valid := by
  induction h with
  | nil db => exact hdb
  | cons hevent hfind hseat hrest ih => exact ih (hseat.valid hdb)

theorem Effect.valid (h : Effect now db db') (hdb : db.Valid) : db'.Valid := by
  cases h with
  | unchanged => exact hdb
  | seats h => exact h.valid hdb
  | queues h =>
      obtain ⟨event, hevent, -⟩ := h.full
      exact h.toSeatMove.valid hdb (Option.isSome_of_eq_some hevent)
  | releases h =>
      have hold := h.before
      exact h.toSeatMove.valid hdb (h.toSeatMove.event_exists hdb (by rintro rfl; simp at hold))
  | promotes h => exact h.valid hdb

theorem Database.Valid.withPatch (hdb : db.Valid) {patch : EventPatch} (hpatch : patch.Valid)
    (id : Uuid) : (db.withPatch id patch).Valid := by
  constructor
  · intro e event hevent
    rw [Database.findEvent_withPatch] at hevent
    split at hevent
    · obtain ⟨row, hrow, rfl⟩ := Option.map_eq_some_iff.mp hevent
      exact hpatch.apply (hdb.events _ row hrow)
    · exact hdb.events e event hevent
  · intro b booking hbooking
    have hevent := hdb.bookings b booking hbooking
    rw [Database.findEvent_withPatch]
    split
    next he => simpa [← he] using hevent
    · exact hevent

/-- A booking of the event would have kept it. -/
theorem Database.Valid.deleteEvent (hdb : db.Valid) {id : Uuid}
    (h : db.deleteEvent id = .ok db') : db'.Valid := by
  have hfree : ∀ booking ∈ db.bookings.rows, booking.eventId ≠ id := by
    intro booking hbooking heq
    unfold Database.deleteEvent at h
    split at h
    · simp at h
    · rw [if_pos (List.any_eq_true.mpr ⟨booking, hbooking, by simp [heq]⟩)] at h
      simp at h
  constructor
  · intro e event hevent
    rw [Database.findEvent_deleteEvent h] at hevent
    split at hevent
    · simp at hevent
    · exact hdb.events e event hevent
  · intro b booking hbooking
    have hsame : db'.findBooking b = db.findBooking b := by
      rw [Database.deleteEvent_ok h]
      rfl
    rw [hsame] at hbooking
    have hmem := (Database.findBooking_eq_some_iff.mp hbooking).1
    rw [Database.findEvent_deleteEvent h, if_neg (hfree booking hmem)]
    exact hdb.bookings b booking hbooking

theorem Database.Valid.insert (hdb : db.Valid) {row : Event} {events : Table Event Event.Clash}
    (hrow : row.Valid) (hinsert : db.events.insert row = some events) :
    ({ db with events } : Database).Valid := by
  have hfind : ∀ e, ({ db with events } : Database).findEvent e =
      (db.findEvent e).or (if row.id == e then some row else none) :=
    fun e => Table.find_insert hinsert fun event => event.id == e
  constructor
  · intro e event hevent
    rw [hfind, Option.or_eq_some_iff] at hevent
    rcases hevent with hold | ⟨-, hnew⟩
    · exact hdb.events e event hold
    · split at hnew
      · obtain rfl := Option.some.inj hnew
        exact hrow
      · simp at hnew
  · intro b booking hbooking
    have hevent := hdb.bookings b booking hbooking
    rw [hfind]
    obtain ⟨event, hfound⟩ := Option.isSome_iff_exists.mp hevent
    simp [hfound]

end Rows

/-- The call that an action opens, with what it is to do. -/
def ApiAction.Opens (parseDate : String → Option Time) (c : ℕ) (request : ApiRequest) :
    ApiAction → Prop
  | .begin d _ begun => d = c ∧ begun = request
  | .patchEvent d _ id body actor =>
      d = c ∧ ∃ patch, updateEventSchema parseDate body = some patch ∧
        .updateEvent id patch actor = request
  | _ => False

variable {ids : UuidOps} {parseDate : String → Option Time}
variable {s t : ApiSystem} {a : ApiAction}

theorem request_kept {d : ℕ} {old new : ApiCall} (hold : s.calls d = some old) {c : ℕ}
    {call : ApiCall} (hcall : Function.update s.calls d (some new) c = some call)
    (hsame : old.request = new.request) :
    ∃ before, s.calls c = some before ∧ before.request = call.request := by
  by_cases hc : c = d
  · subst hc
    obtain rfl : new = call := by simpa using hcall
    exact ⟨old, hold, hsame⟩
  · exact ⟨call, by simpa [hc] using hcall, rfl⟩

/-- A call keeps its request from the action that opened it. -/
theorem apiStep_request (h : apiStep ids parseDate s a = some t) {c : ℕ} {call : ApiCall}
    (hcall : t.calls c = some call) :
    (∃ before, s.calls c = some before ∧ before.request = call.request) ∨
      a.Opens parseDate c call.request := by
  have hsame : t.calls = s.calls → (∃ before, s.calls c = some before ∧
      before.request = call.request) ∨ a.Opens parseDate c call.request :=
    fun hcalls => .inl ⟨call, hcalls ▸ hcall, rfl⟩
  cases a with
  | begin d token request =>
      simp only [apiStep] at h
      split at h
      · simp at h
      · simp at h
      · cases h
        by_cases hc : c = d
        · subst hc
          obtain rfl := Option.some.inj ((Function.update_self c _ s.calls).symm.trans hcall)
          exact .inr ⟨rfl, rfl⟩
        · exact .inl ⟨call, (Function.update_of_ne hc _ _).symm.trans hcall, rfl⟩
  | patchEvent d token id body actor =>
      simp only [apiStep] at h
      split at h
      · simp at h
      · cases h
        exact hsame rfl
      next patch _ hpatch =>
        cases h
        by_cases hc : c = d
        · subst hc
          obtain rfl := Option.some.inj ((Function.update_self c _ s.calls).symm.trans hcall)
          exact .inr ⟨rfl, patch, hpatch, rfl⟩
        · exact .inl ⟨call, (Function.update_of_ne hc _ _).symm.trans hcall, rfl⟩
  | advance d =>
      simp only [apiStep] at h
      split at h
      next hold =>
        obtain ⟨next, -, rfl⟩ := Option.map_eq_some_iff.mp h
        exact .inl (request_kept hold hcall rfl)
      · simp at h
  | redisFails d =>
      simp only [apiStep] at h
      split at h
      next hold =>
        obtain ⟨next, -, rfl⟩ := Option.map_eq_some_iff.mp h
        exact .inl (request_kept hold hcall rfl)
      · simp at h
  | load d =>
      simp only [apiStep] at h
      split at h
      next hold =>
        obtain ⟨id, -, rfl⟩ := Option.map_eq_some_iff.mp h
        exact .inl (request_kept hold hcall rfl)
      · simp at h
  | loadPage d page =>
      simp only [apiStep] at h
      split at h
      next hold =>
        cases h
        exact .inl (request_kept hold hcall rfl)
      · simp at h
  | loadThrows d failure =>
      simp only [apiStep] at h
      split at h
      next hold =>
        cases h
        exact .inl (request_kept hold hcall rfl)
      · simp at h
  | authorize d now =>
      simp only [apiStep] at h
      split at h
      next hold =>
        cases h
        exact .inl (request_kept hold hcall rfl)
      next hold =>
        cases h
        exact .inl (request_kept hold hcall rfl)
      next hold =>
        cases h
        exact .inl (request_kept hold hcall rfl)
      · simp at h
  | bookingStats d =>
      simp only [apiStep] at h
      split at h
      next hold =>
        cases h
        exact .inl (request_kept hold hcall rfl)
      next hold =>
        cases h
        exact .inl (request_kept hold hcall rfl)
      · simp at h
  | update d =>
      simp only [apiStep] at h
      split at h
      next hold =>
        split at h
        · cases h
          exact .inl (request_kept hold hcall rfl)
        · cases h
          exact .inl (request_kept hold hcall rfl)
      · simp at h
  | delete d =>
      simp only [apiStep] at h
      split at h
      next hold =>
        split at h
        · cases h
          exact .inl (request_kept hold hcall rfl)
        · cases h
          exact .inl (request_kept hold hcall rfl)
      · simp at h
  | createEvent id body actor now =>
      simp only [apiStep] at h
      split at h
      · simp at h
      · split at h
        · cases h
          exact hsame rfl
        · split at h
          · cases h
            exact hsame rfl
          · split at h
            · cases h
              exact hsame rfl
            · cases h
              exact hsame rfl
  | book ctx op =>
      simp only [apiStep] at h
      split at h
      · split at h
        · cases h
          exact hsame rfl
        · cases h
          exact hsame rfl
      · cases h
        exact hsame rfl
  | expireEntry key =>
      cases h
      exact hsame rfl
  | expireLock key =>
      cases h
      exact hsame rfl

/-- A creation either changes nothing or inserts what the schema accepted. -/
theorem createEvent_inserts {id : Uuid} {body : JsonObject} {actor : AuthUser} {now : Time}
    (h : apiStep ids parseDate s (.createEvent id body actor now) = some t) :
    t.db = s.db ∨ ∃ row events, row.Valid ∧ s.db.events.insert row = some events ∧
      t.db = { s.db with events } := by
  simp only [apiStep] at h
  split at h
  · simp at h
  · split at h
    · cases h
      exact .inl rfl
    next input hinput =>
      split at h
      · cases h
        exact .inl rfl
      · split at h
        · cases h
          exact .inl rfl
        next row db hcreate =>
          cases h
          right
          cases hfuture : assertFutureStart input.startsAt now with
          | error failure => simp [hfuture, Except.bind] at hcreate
          | ok _ =>
              simp only [hfuture, Except.bind, Database.createEvent] at hcreate
              split at hcreate
              · simp at hcreate
              next events hinsert =>
                obtain ⟨-, rfl⟩ := Prod.mk.inj (Except.ok.inj hcreate)
                exact ⟨_, events, createEventSchema_valid hinput _ _ _, hinsert, rfl⟩

/-- The value is the detail of a valid row. -/
def CachedValue.Valid (value : CachedValue) : Prop :=
  ∃ event, value = .detail event ∧ event.Valid

def ApiRequest.Valid : ApiRequest → Prop
  | .updateEvent _ patch _ => patch.Valid
  | _ => True

def ApiCall.Valid (call : ApiCall) : Prop :=
  match call.stage with
  | .fetching phase => call.request.eventId ≠ none →
      phase.Holds (fun _ => True) CachedValue.Valid
  | .counting event => event.Valid
  | .updating event => event.Valid
  | .deleting event => event.Valid
  | .settled => True

structure ApiSystem.Valid (s : ApiSystem) : Prop where
  rows : s.db.Valid
  entries : ∀ id value, s.redis.entries (eventCacheDetailKey id) = some value → value.Valid
  requests : ∀ c call, s.calls c = some call → call.request.Valid
  calls : ∀ c call, s.calls c = some call → call.Valid

theorem ApiSystem.Valid.start {db : Database} (hdb : db.Valid) :
    ApiSystem.Valid (.start db) := by
  constructor
  · exact hdb
  · intro id value hvalue
    cases hvalue
  · intro c call hcall
    cases hcall
  · intro c call hcall
    cases hcall

theorem loadEvent_valid {db : Database} (hdb : db.Valid) {id : String} {detail : EventDetail}
    (h : db.loadEvent ids id = .ok detail) : detail.Valid := by
  unfold Database.loadEvent Database.eventDetail at h
  cases hrow : db.findEvent (ids.read id) with
  | none => simp [hrow] at h
  | some row =>
      simp only [hrow, Option.map_some, Except.ok.injEq] at h
      rw [← h]
      exact (hdb.events _ row hrow).enriched _

theorem ApiRequest.opening_valid (request : ApiRequest) (token : String) :
    ApiCall.Valid ⟨request, token, request.opening ids⟩ := by
  unfold ApiRequest.opening
  split
  · exact fun _ => trivial
  · trivial

theorem ApiRequest.afterGetEvent_valid {event : EventDetail} (hevent : event.Valid)
    (request : ApiRequest) (token : String) (now : Time) :
    ApiCall.Valid ⟨request, token, request.afterGetEvent now event⟩ := by
  cases request with
  | listEvents version digest => trivial
  | getEvent id => trivial
  | getEventStats id actor =>
      simp only [ApiRequest.afterGetEvent]
      split
      · trivial
      · exact hevent
  | updateEvent id patch actor =>
      simp only [ApiRequest.afterGetEvent]
      split
      · trivial
      · exact hevent
  | deleteEvent id actor =>
      simp only [ApiRequest.afterGetEvent]
      split
      · trivial
      · exact hevent

namespace ApiSystem.Valid

theorem advance (hs : s.Valid) {c : ℕ} {request : ApiRequest} {token : String}
    {phase phase' : CachePhase Unit CachedValue} {redis : Redis CachedValue}
    (hcall : s.calls c = some ⟨request, token, .fetching phase⟩)
    (hnext : Eventify.advance () request.cacheKey token s.redis phase = some (phase', redis)) :
    (∀ id value, redis.entries (eventCacheDetailKey id) = some value → value.Valid) ∧
      ApiCall.Valid ⟨request, token, .fetching phase'⟩ := by
  have hsound : request.eventId ≠ none → phase.Holds (fun _ => True) CachedValue.Valid :=
    hs.calls c _ hcall
  constructor
  · intro id value hvalue
    rcases advance_stores hnext hvalue with hold | ⟨hsame, rfl⟩
    · exact hs.entries id value hold
    · refine hsound fun hnone => ?_
      cases request <;> cases hnone
      exact eventCacheListKey_ne_detailKey _ _ _ hsame.symm
  · intro hsome
    obtain ⟨id, hid⟩ := Option.ne_none_iff_exists'.mp hsome
    refine (advance_holds hnext trivial ?_ (hsound hsome)).1
    rw [ApiRequest.cacheKey_detail hid]
    exact hs.entries id

/-- Commands and queries of a call bring only valid values. -/
theorem cached (hs : s.Valid) (h : apiStep ids parseDate s a = some t) :
    (∀ id value, t.redis.entries (eventCacheDetailKey id) = some value → value.Valid) ∧
      ∀ c call, t.calls c = some call → call.Valid := by
  cases apiStep_moves h with
  | idle | created | booked => exact ⟨hs.entries, hs.calls⟩
  | opened => exact ⟨hs.entries, calls_update hs.calls (ApiRequest.opening_valid _ _)⟩
  | advanced hcall hnext =>
      obtain ⟨hentries, hnew⟩ := hs.advance hcall hnext
      exact ⟨hentries, calls_update hs.calls hnew⟩
  | failed hcall hnext =>
      refine ⟨hs.entries, calls_update hs.calls fun hid => ?_⟩
      exact afterFailure_holds hnext trivial (hs.calls _ _ hcall hid)
  | loaded hcall houtcome =>
      refine ⟨hs.entries, calls_update hs.calls fun hsome => ?_⟩
      obtain ⟨id, hid⟩ := Option.ne_none_iff_exists'.mp hsome
      apply afterLoad_holds
      intro value hvalue
      obtain ⟨detail, hdetail, rfl⟩ := map_ok (houtcome id value hid hvalue)
      exact ⟨detail, rfl, loadEvent_valid hs.rows hdetail⟩
  | @authorized c request token event now hcall =>
      refine ⟨hs.entries, calls_update hs.calls ?_⟩
      cases hid : request.eventId with
      | none =>
          cases request <;> cases hid
          trivial
      | some id =>
          obtain ⟨found, hfound, hvalid⟩ := hs.calls c _ hcall (by simp [hid])
          cases hfound
          exact ApiRequest.afterGetEvent_valid hvalid _ _ _
  | counted hcall =>
      have hevent := hs.calls _ _ hcall
      exact ⟨hs.entries, calls_update hs.calls hevent⟩
  | settled | updated | deleted => exact ⟨hs.entries, calls_update hs.calls trivial⟩
  | expired hentries =>
      exact ⟨fun id value hvalue => hs.entries id value (hentries _ _ hvalue), hs.calls⟩

theorem request (hs : s.Valid) (h : apiStep ids parseDate s a = some t) {c : ℕ} {call : ApiCall}
    (hcall : t.calls c = some call) : call.request.Valid := by
  rcases apiStep_request h hcall with ⟨before, hbefore, hsame⟩ | hopens
  · exact hsame ▸ hs.requests c before hbefore
  · cases a with
    | begin d token request =>
        obtain ⟨rfl, rfl⟩ := hopens
        -- `begin` leaves updates to `patchEvent`, which has parsed their body
        cases hrequest : call.request with
        | updateEvent id patch actor =>
            cases hnew : s.calls d <;> simp [apiStep, hrequest, hnew] at h
        | _ => trivial
    | patchEvent d token id body actor =>
        obtain ⟨-, patch, hpatch, hrequest⟩ := hopens
        rw [← hrequest]
        exact updateEventSchema_valid hpatch
    | _ => exact hopens.elim

theorem step (hs : s.Valid) (h : apiStep ids parseDate s a = some t) : t.Valid := by
  obtain ⟨hentries, hcalls⟩ := hs.cached h
  refine ⟨?_, hentries, fun c call hcall => hs.request h hcall, hcalls⟩
  cases apiStep_change h with
  | kept hdb => exact hdb ▸ hs.rows
  | updated hcall hdb =>
      rw [hdb]
      exact hs.rows.withPatch (hs.requests _ _ hcall) _
  | deleted hcall hdb => exact hs.rows.deleteEvent hdb
  | created =>
      rcases createEvent_inserts h with hdb | ⟨row, events, hrow, hinsert, hdb⟩
      · exact hdb ▸ hs.rows
      · exact hdb ▸ hs.rows.insert hrow hinsert
  | booked htx => exact (transaction_effect htx).valid hs.rows

end ApiSystem.Valid

/-- In every run of requests and jobs over valid tables: the values of every
stored event pass the schema of new events unchanged, every booking has its
event, and every detail that is served is the enrichment of valid values,
however old the cache kept it. -/
theorem stored_events_valid {db : Database} {acts : List ApiAction} (hdb : db.Valid)
    (hrun : exec (apiStep ids parseDate) (.start db) acts = some s) :
    (∀ id row startsAt, s.db.findEvent id = some row → parseDate startsAt = some row.startsAt →
      createEventSchema parseDate (row.body startsAt) = some row.input) ∧
    (∀ id booking, s.db.findBooking id = some booking →
      (s.db.findEvent booking.eventId).isSome) ∧
    ∀ c call event, s.calls c = some call → call.request.eventId ≠ none →
      call.stage = .fetching (.finished (.ok (.detail event))) →
        event.Valid ∧ 0 ≤ event.remainingSeats ∧ event.remainingSeats ≤ event.capacity ∧
          (event.soldOut = true ↔ event.capacity ≤ event.confirmedBookings) := by
  have hs : s.Valid := exec_invariant (fun _ _ _ hs hstep => hs.step hstep) (.start hdb) hrun
  refine ⟨?_, hs.rows.bookings, ?_⟩
  · intro id row startsAt hrow hstarts
    exact (hs.rows.events id row hrow).accepted hstarts
  · rintro c ⟨request, token, stage⟩ event hcall hid rfl
    obtain ⟨found, hfound, hvalid⟩ := hs.calls c _ hcall hid
    cases hfound
    exact ⟨hvalid, hvalid.seats⟩

theorem hallDatabase_valid : hallDatabase.Valid := by
  constructor
  · intro id event hevent
    have hmem : event ∈ hallDatabase.events.rows := Table.mem_of_find hevent
    obtain rfl := List.mem_singleton.mp hmem
    exact ⟨⟨by decide, by decide, by decide⟩, ⟨by decide, by decide, by decide⟩,
      ⟨by decide, by decide, by decide⟩, by decide, by decide⟩
  · intro id booking hbooking
    cases hbooking

/-- The organizer renames the event around a booking; a reader is served the new name. -/
def renamingRun : List ApiAction :=
  [.patchEvent 0 "owner" hallId [("title", .string " New hall ")] ⟨"organizer", .organizer⟩,
    .advance 0, .advance 0, .advance 0, .load 0, .advance 0, .advance 0, .authorize 0 0,
    .book (drawing 0 "a") (.createBooking ⟨"ann", .attendee⟩ hallId), .update 0,
    .expireEntry (eventCacheDetailKey hallId), .begin 1 "reader" (.getEvent hallId), .advance 1,
    .advance 1, .advance 1, .load 1, .advance 1, .advance 1]

theorem stored_events_valid_renamed :
    ∃ s row event, exec (apiStep storedSpelling fun _ => some 1000) (.start hallDatabase)
        renamingRun = some s ∧
      s.db.findEvent hallId = some row ∧ row.title = "New hall" ∧
      createEventSchema (fun _ => some 1000) (row.body "then") = some row.input ∧
      (s.calls 1).map ApiCall.stage = some (.fetching (.finished (.ok (.detail event)))) ∧
      event.remainingSeats = 1 ∧ event.Valid := by
  obtain ⟨s, row, call, event, hs, hrow, htitle, hstarts, hcall, hid, hstage, hseats⟩ :
      ∃ s row call event, exec (apiStep storedSpelling fun _ => some 1000) (.start hallDatabase)
          renamingRun = some s ∧ s.db.findEvent hallId = some row ∧ row.title = "New hall" ∧
        row.startsAt = 1000 ∧ s.calls 1 = some call ∧ call.request.eventId = some hallId ∧
        call.stage = .fetching (.finished (.ok (.detail event))) ∧ event.remainingSeats = 1 :=
    ⟨_, _, _, _, rfl, rfl, rfl, rfl, rfl, rfl, rfl, rfl⟩
  obtain ⟨haccepted, -, hserved⟩ := stored_events_valid hallDatabase_valid hs
  refine ⟨s, row, event, hs, hrow, htitle, haccepted hallId row "then" hrow (by rw [hstarts]),
    by rw [hcall, Option.map_some, hstage], hseats, ?_⟩
  exact (hserved 1 call event hcall (by simp [hid]) hstage).1

end Eventify
