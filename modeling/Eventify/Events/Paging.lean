import Eventify.Cache.ListReads
import Eventify.Events.Requests
import Eventify.Events.Schemas
import Eventify.Library.Paging

/-!
# Paging through the events

`listEventsQuerySchema`, the page its loader reads for an accepted query, and
all pages of one filter taken together. Every page is a query of its own, and
PostgreSQL orders the events of one start time as it likes in each of them.
-/

namespace Eventify

open Library

namespace QuerySchema

def fields : List String := ["page", "limit", "q", "venue", "from", "to"]

/-- `/^\d+$/`. -/
def isDigits (text : String) : Bool := !text.isEmpty && text.toList.all Char.isDigit

/-- `Number(text)` of a text of digits, before any rounding: what is rounded
lies above `Number.MAX_SAFE_INTEGER` and is refused. -/
def number (text : String) : ℕ := text.toList.foldl (fun n c => 10 * n + (c.toNat - 48)) 0

def intParam (min max : ℤ) (value : JsonValue) : Option ℕ :=
  let value := match value with
    | .string text => if isDigits text then .number (number text) else .string text
    | value => value
  (EventSchema.integer min max value).map Int.toNat

def page : JsonValue → Option ℕ := intParam 1 9007199254740991

def limit : JsonValue → Option ℕ := intParam 1 100

def q : JsonValue → Option String := EventSchema.text 100

def venue : JsonValue → Option String := EventSchema.text 200

/-- `isoDate`, which keeps the text. -/
def isoDate (isDate : String → Bool) : JsonValue → Option String
  | .string text => if isDate text then some text else none
  | _ => none

/-- `from must be before or equal to to`. -/
def inOrder (ops : TextOps) : Option String → Option String → Bool
  | some since, some until_ =>
      since.isEmpty || until_.isEmpty || decide (ops.parseDate since ≤ ops.parseDate until_)
  | _, _ => true

end QuerySchema

open EventSchema QuerySchema in
/-- `listEventsQuerySchema.safeParse`. -/
def listEventsQuerySchema (ops : TextOps) (isDate : String → Bool) (query : JsonObject) :
    Option ListEventsQuery :=
  if query.all fun field => QuerySchema.fields.contains field.1 then
    (optional QuerySchema.page query "page").bind fun page =>
    (optional QuerySchema.limit query "limit").bind fun limit =>
    (optional QuerySchema.q query "q").bind fun q =>
    (optional QuerySchema.venue query "venue").bind fun venue =>
    (optional (QuerySchema.isoDate isDate) query "from").bind fun from_ =>
    (optional (QuerySchema.isoDate isDate) query "to").bind fun to_ =>
      if inOrder ops from_ to_ then
        some { page := page.getD 1, limit := limit.getD 20, q, venue, from_, to_ }
      else none
  else none

namespace Database

/-- The loader of `listEvents`: its two queries see the same tables. -/
def listEvents (db : Database) (ops : TextOps) (soonestFirst : OrderBy Event.startsAt)
    (query : ListEventsQuery) : EventPage :=
  eventPage query (db.listRows ops soonestFirst query) (db.listTotal ops query)

def matching (db : Database) (ops : TextOps) (query : ListEventsQuery) : List Event :=
  db.events.rows.filter (listWhere ops query)

def withAvailability (db : Database) (event : Event) : EventDetail :=
  enrichAvailability event (db.countBookings event.id .confirmed)

/-- The data of the pages from the first to the last, each ordered its own way. -/
def allPages (db : Database) (ops : TextOps) (orders : ℕ → OrderBy Event.startsAt)
    (query : ListEventsQuery) : List EventDetail :=
  (List.range ((db.listTotal ops query + query.limit - 1) / query.limit)).flatMap fun n =>
    (db.listEvents ops (orders n) { query with page := n + 1 }).data

/-- However PostgreSQL orders the events of one start time, the pages together
hold every matching event once, none is too long, and each states the total. -/
def CoversOnce (db : Database) (ops : TextOps) (query : ListEventsQuery) : Prop :=
  ∀ orders : ℕ → OrderBy Event.startsAt,
    (db.allPages ops orders query).Perm
        ((db.matching ops query).map db.withAvailability) ∧
      ∀ n, let page := db.listEvents ops (orders n) { query with page := n + 1 }
        page.data.length ≤ query.limit ∧ page.total = (db.matching ops query).length

/-- No group of matching events with one start time reaches over the end of a page. -/
def NoTieAcrossPages (db : Database) (ops : TextOps) (query : ListEventsQuery) : Prop :=
  ∀ n, 0 < n → n * query.limit < (db.matching ops query).length →
    NoTieAt Event.startsAt (db.matching ops query) (n * query.limit)

end Database

variable {ops : TextOps} {isDate : String → Bool} {raw : JsonObject} {query : ListEventsQuery}

theorem intParam_bounds {min max : ℤ} {value : JsonValue} {n : ℕ} (hmin : 0 ≤ min)
    (h : QuerySchema.intParam min max value = some n) : min ≤ n ∧ (n : ℤ) ≤ max := by
  unfold QuerySchema.intParam at h
  obtain ⟨k, hk, rfl⟩ := Option.map_eq_some_iff.mp h
  unfold EventSchema.integer at hk
  split at hk
  · split at hk
    · cases hk
      omega
    · cases hk
  · cases hk

theorem listEventsQuerySchema_limit (h : listEventsQuerySchema ops isDate raw = some query) :
    1 ≤ query.limit ∧ query.limit ≤ 100 := by
  unfold listEventsQuerySchema at h
  split at h
  · simp only [Option.bind_eq_some_iff] at h
    obtain ⟨page, -, limit, hlimit, q, -, venue, -, from_, -, to_, -, h⟩ := h
    split at h
    · cases h
      cases limit with
      | none => simp
      | some limit =>
          simp only [EventSchema.optional] at hlimit
          split at hlimit
          · cases hlimit
          · obtain ⟨n, hn, hsame⟩ := Option.map_eq_some_iff.mp hlimit
            cases hsame
            have hbounds := intParam_bounds (by decide) hn
            simp only [Option.getD_some]
            omega
    · cases h
  · cases h

namespace Database

variable {db : Database}

theorem listEvents_data (orders : ℕ → OrderBy Event.startsAt) (n : ℕ) :
    (db.listEvents ops (orders n) { query with page := n + 1 }).data =
      ((orders n).page query.limit n (db.matching ops query)).map db.withAvailability := rfl

theorem allPages_eq (orders : ℕ → OrderBy Event.startsAt) :
    db.allPages ops orders query =
      (pages orders query.limit ((db.listTotal ops query + query.limit - 1) / query.limit)
        (db.matching ops query)).map db.withAvailability := by
  simp only [allPages, pages, listEvents_data, List.map_flatMap]

theorem listTotal_eq : db.listTotal ops query = (db.matching ops query).length := by
  rw [listTotal, Table.count, List.countP_eq_length_filter, matching]

theorem nodup_matching : ((db.matching ops query).map db.withAvailability).Nodup := by
  apply List.pairwise_map.mpr
  apply (db.events.unique.filter _).imp
  intro a b hdistinct hsame
  exact hdistinct (congrArg (fun detail : EventDetail => detail.toEvent.id) hsame)

theorem length_le_pages (total : ℕ) {limit : ℕ} (hlimit : 1 ≤ limit) :
    total ≤ (total + limit - 1) / limit * limit := by
  have hdivide := Nat.div_add_mod (total + limit - 1) limit
  have hrest := Nat.mod_lt (total + limit - 1) hlimit
  rw [Nat.mul_comm] at hdivide
  omega

end Database

/-- Paging covers the matches of an accepted query exactly when no tie of
`startsAt` reaches over the end of a page. -/
theorem listEvents_coversOnce_iff (db : Database)
    (hquery : listEventsQuerySchema ops isDate raw = some query) :
    db.CoversOnce ops query ↔ db.NoTieAcrossPages ops query := by
  have hlimit := (listEventsQuerySchema_limit hquery).1
  have hall := Database.length_le_pages (db.matching ops query).length hlimit
  constructor
  · intro hcovers n hpos hlength
    by_contra htie
    have hcount : n < ((db.matching ops query).length + query.limit - 1) / query.limit :=
      Nat.lt_of_mul_lt_mul_right (hlength.trans_le hall)
    obtain ⟨orders, hrepeated⟩ := exists_pages_not_nodup hpos hlimit hlength hcount htie
    have hperm := (hcovers orders).1
    rw [Database.allPages_eq, Database.listTotal_eq] at hperm
    exact hrepeated (hperm.nodup_iff.mpr Database.nodup_matching).of_map
  · intro hties orders
    constructor
    · rw [Database.allPages_eq, Database.listTotal_eq]
      exact (pages_perm orders hall hties).map _
    · intro n
      refine ⟨?_, Database.listTotal_eq⟩
      rw [Database.listEvents_data, List.length_map]
      exact OrderBy.length_page_le _ _ _ _

def lateEvent : Event := { hallEvent with id := "0198f3a0-0000-7000-8000-00000000000b" }

/-- The hall is booked twice, the second time `delay` after the first. -/
def twoEvents (delay : Time) : Database :=
  ⟨⟨[hallEvent, { lateEvent with startsAt := hallEvent.startsAt + delay }], by
    simp [Event.Clash, hallEvent, lateEvent, hallId]⟩, .empty, .empty⟩

def singly : ListEventsQuery := { page := 1, limit := 1 }

theorem listEvents_coversOnce_iff_twoEvents : (twoEvents 60000).CoversOnce plainText singly := by
  have hquery : listEventsQuerySchema plainText (fun _ => true) [("limit", .string "1")] =
      some singly := by decide
  apply (listEvents_coversOnce_iff (twoEvents 60000) hquery).mpr
  intro n hpos hlength
  obtain rfl : n = 1 := by
    have hcount : ((twoEvents 60000).matching plainText singly).length = 2 := by decide
    have hlimit : singly.limit = 1 := rfl
    rw [hcount, hlimit] at hlength
    omega
  decide

/-- Two events of one start time on pages of one: the second page may repeat
the event of the first. -/
theorem tied_events_repeat :
    listEventsQuerySchema plainText (fun _ => true) [("limit", .string "1")] = some singly ∧
      ¬ (twoEvents 0).CoversOnce plainText singly := by
  refine ⟨by decide, ?_⟩
  intro hcovers
  let orders : ℕ → OrderBy Event.startsAt := fun n =>
    if n = 0 then .stable _ else (OrderBy.stable _).swapping 0
  have hperm := (hcovers orders).1
  have hrepeats : (twoEvents 0).allPages plainText orders singly =
      [(twoEvents 0).withAvailability hallEvent, (twoEvents 0).withAvailability hallEvent] := by
    decide
  have hnodup := hperm.nodup_iff.mpr Database.nodup_matching
  rw [hrepeats] at hnodup
  simp at hnodup

end Eventify
