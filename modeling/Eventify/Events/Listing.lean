import Eventify.Events.Service

/-!
# Listing events

`eventsRepository.list` and the page that `listEvents` makes of it. The
comparison `contains` without regard to case and the reading of a date text
belong to PostgreSQL and JavaScript; they come as `TextOps`.
-/

namespace Eventify

open Library

structure TextOps where
  containsInsensitive : String → String → Bool
  parseDate : String → Time

structure ListEventsQuery where
  page : ℕ
  limit : ℕ
  q : Option String := none
  venue : Option String := none
  from_ : Option String := none
  to_ : Option String := none
  deriving DecidableEq, Repr

structure EventPage where
  data : List EventDetail
  page : ℕ
  limit : ℕ
  total : ℕ
  deriving DecidableEq, Repr

/-- The `where` clause of `eventsRepository.list`. -/
def listWhere (ops : TextOps) (query : ListEventsQuery) (event : Event) : Bool :=
  query.q.all (fun q => ops.containsInsensitive event.title q ||
    ops.containsInsensitive event.description q || ops.containsInsensitive event.venue q) &&
  query.venue.all (fun venue => ops.containsInsensitive event.venue venue) &&
  query.from_.all (fun text => decide (ops.parseDate text ≤ event.startsAt)) &&
  query.to_.all (fun text => decide (event.startsAt ≤ ops.parseDate text))

namespace Database

def listRows (db : Database) (ops : TextOps) (soonestFirst : OrderBy Event.startsAt)
    (query : ListEventsQuery) : List EventDetail :=
  (((soonestFirst.sort (db.events.rows.filter (listWhere ops query))).drop
    ((query.page - 1) * query.limit)).take query.limit).map fun event =>
      enrichAvailability event (db.countBookings event.id .confirmed)

def listTotal (db : Database) (ops : TextOps) (query : ListEventsQuery) : ℕ :=
  db.events.count (listWhere ops query)

end Database

def eventPage (query : ListEventsQuery) (data : List EventDetail) (total : ℕ) : EventPage :=
  ⟨data, query.page, query.limit, total⟩

end Eventify
