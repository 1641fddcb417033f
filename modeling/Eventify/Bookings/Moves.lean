import Eventify.Bookings.Service

/-!
# Seat moves

Every committed booking transaction is a path of seat moves: one booking
enters a status, the counts of its event follow, and the outbox gains what
the change announces. Later invariants are proved for one move and carried
along the paths.
-/

namespace Eventify

open Library

/-- What a change of one booking writes to the outbox: a confirmation on the
way into `confirmed`, a promotion on the way out of it. -/
def announcements (old : Option BookingStatus) (row : Booking) : List Intent :=
  if row.status = .confirmed then [.bookingConfirmation row.id]
  else if old = some .confirmed then [.waitlistPromotion row.eventId]
  else []

/-- Rows appended to the outbox at a time, one for each intent. -/
def Announced (now : Time) (t : Table NotificationOutbox NotificationOutbox.Clash)
    (intents : List Intent) (u : Table NotificationOutbox NotificationOutbox.Clash) : Prop :=
  ∃ added, u.rows = t.rows ++ added ∧ added.map NotificationOutbox.intent = intents ∧
    ∀ r ∈ added, r = Database.outboxRow r.id r.intent now

theorem Announced.none (now : Time) (t : Table NotificationOutbox NotificationOutbox.Clash) :
    Announced now t [] t := ⟨[], by simp⟩

theorem Announced.of_insert {now : Time} {t u : Table NotificationOutbox NotificationOutbox.Clash}
    {id : Uuid} {intent : Intent} (h : t.insert (Database.outboxRow id intent now) = some u) :
    Announced now t [intent] u :=
  ⟨[Database.outboxRow id intent now], Table.insert_rows h, rfl, by simp [Database.outboxRow]⟩

theorem Announced.trans {now : Time} {t u v : Table NotificationOutbox NotificationOutbox.Clash}
    {xs ys : List Intent} (h : Announced now t xs u) (h' : Announced now u ys v) :
    Announced now t (xs ++ ys) v := by
  obtain ⟨added, hrows, hintents, hnew⟩ := h
  obtain ⟨added', hrows', hintents', hnew'⟩ := h'
  refine ⟨added ++ added', by simp [hrows', hrows], by simp [hintents, hintents'], ?_⟩
  intro row hrow
  rcases List.mem_append.mp hrow with hrow | hrow
  · exact hnew row hrow
  · exact hnew' row hrow

/-- The booking `row.id` goes from `old` (no row: `none`) to `row`. -/
structure SeatMove (now : Time) (db : Database) (old : Option BookingStatus) (row : Booking)
    (db' : Database) : Prop where
  events : db'.events = db.events
  status_before : (db.findBooking row.id).map Booking.status = old
  find : ∀ id, db'.findBooking id = if id = row.id then some row else db.findBooking id
  keeps : ∀ prior, db.findBooking row.id = some prior → row = { prior with status := row.status }
  created : db.findBooking row.id = none → row.createdAt = now
  count : ∀ eventId status,
    db'.countBookings eventId status +
        (if row.eventId = eventId ∧ old = some status then 1 else 0) =
      db.countBookings eventId status +
        (if row.eventId = eventId ∧ row.status = status then 1 else 0)
  outbox : Announced now db.outbox (announcements old row) db'.outbox

/-- A free seat is given to a booking that did not hold one. -/
structure Seats (now : Time) (db : Database) (old : Option BookingStatus) (row : Booking)
    (db' : Database) : Prop extends SeatMove now db old row db' where
  before : old ≠ some .confirmed
  after : row.status = .confirmed
  room : ∃ event, db.findEvent row.eventId = some event ∧
    (db.countBookings row.eventId .confirmed : ℤ) < event.capacity

structure Queues (now : Time) (db : Database) (old : Option BookingStatus) (row : Booking)
    (db' : Database) : Prop extends SeatMove now db old row db' where
  before : old = none ∨ old = some .cancelled
  after : row.status = .waitlisted
  full : ∃ event, db.findEvent row.eventId = some event ∧
    event.capacity ≤ db.countBookings row.eventId .confirmed

structure Releases (now : Time) (db : Database) (old : Option BookingStatus) (row : Booking)
    (db' : Database) : Prop extends SeatMove now db old row db' where
  before : old = some .confirmed ∨ old = some .waitlisted
  after : row.status = .cancelled

/-- Waiting bookings of an event are seated one after another. -/
inductive Promotes (now : Time) (eventId : Uuid) : Database → List Booking → Database → Prop
  | nil (db : Database) : Promotes now eventId db [] db
  | cons {db db₁ db₂ : Database} {b : Booking} {rest : List Booking}
      (hevent : b.eventId = eventId) (hfind : db.findBooking b.id = some b)
      (hseat : Seats now db (some .waitlisted) { b with status := .confirmed } db₁)
      (hrest : Promotes now eventId db₁ rest db₂) : Promotes now eventId db (b :: rest) db₂

theorem announcements_of_ne_confirmed {old : Option BookingStatus} (hold : old ≠ some .confirmed)
    (row : Booking) :
    announcements old row =
      if row.status = .confirmed then [.bookingConfirmation row.id] else [] := by
  simp [announcements, hold]

namespace SeatMove

variable {now : Time} {db db' : Database} {old : Option BookingStatus} {row : Booking}

theorem findEvent (h : SeatMove now db old row db') (id : Uuid) :
    db'.findEvent id = db.findEvent id := by
  simp [Database.findEvent, h.events]

theorem count_of_ne (h : SeatMove now db old row db') {e : Uuid} (he : row.eventId ≠ e)
    (status : BookingStatus) : db'.countBookings e status = db.countBookings e status := by
  simpa [he] using h.count e status

theorem seats_or_queues (h : SeatMove now db old row db') {event : Event}
    (hevent : db.findEvent row.eventId = some event)
    (hstatus : row.status = nextStatus (db.countBookings row.eventId .confirmed) event.capacity)
    (hold : old ≠ some .confirmed) (hne : old ≠ some row.status) :
    Seats now db old row db' ∨ Queues now db old row db' := by
  by_cases hroom : (db.countBookings row.eventId .confirmed : ℤ) < event.capacity
  · left
    exact ⟨h, hold, by simpa [nextStatus, hroom] using hstatus, event, hevent, hroom⟩
  · right
    have hafter : row.status = .waitlisted := by simpa [nextStatus, hroom] using hstatus
    refine ⟨h, ?_, hafter, event, hevent, not_lt.mp hroom⟩
    cases old with
    | none => exact .inl rfl
    | some status =>
        cases status with
        | confirmed => exact (hold rfl).elim
        | cancelled => exact .inr rfl
        | waitlisted => exact (hne (by rw [hafter])).elim

end SeatMove

namespace Database

theorem findBooking_withStatus (db : Database) (id : Uuid) (status : BookingStatus) (i : Uuid) :
    (db.withStatus id status).findBooking i =
      if i = id then (db.findBooking i).map fun b => { b with status } else db.findBooking i := by
  have h : (db.withStatus id status).findBooking i =
      (db.findBooking i).map fun b => if b.id == id then { b with status } else b :=
    Table.find_updateWhere db.bookings (fun b => b.id == id) (fun b => b.id == i)
      (fun b => { b with status }) (withStatus_keepsKeys status) fun _ => rfl
  rw [h]
  cases hfind : db.findBooking i with
  | none => simp
  | some b =>
      have hb : b.id = i := findBooking_id hfind
      by_cases hi : i = id <;> simp [hb, hi]

theorem withStatus_seatMove (now : Time) {db : Database} {id : Uuid} {prior : Booking}
    (status : BookingStatus) (outbox : Table NotificationOutbox NotificationOutbox.Clash)
    (hfind : db.findBooking id = some prior)
    (hout : Announced now db.outbox (announcements (some prior.status) { prior with status })
      outbox) :
    SeatMove now db (some prior.status) { prior with status }
      ((db.withStatus id status).withOutbox outbox) := by
  have hid : prior.id = id := findBooking_id hfind
  constructor
  · rfl
  · simp [hid, hfind]
  · intro i
    change (db.withStatus id status).findBooking i = _
    rw [findBooking_withStatus]
    by_cases hi : i = id
    · subst hi
      simp [hfind, hid]
    · simp [hi, hid]
  · intro p hp
    rw [hid, hfind] at hp
    cases hp
    rfl
  · intro hnone
    simp [hid, hfind] at hnone
  · intro eventId st
    have h := Table.count_updateWhere (booking_selects_id id) hfind (fun b => { b with status })
      (withStatus_keepsKeys status) fun b => b.eventId == eventId && b.status == st
    simpa [countBookings, withStatus, withOutbox, Bool.and_eq_true] using h
  · exact hout

theorem create_seatMove {now : Time} {db : Database} {row : Booking}
    {bookings : Table Booking Booking.Clash}
    {outbox : Table NotificationOutbox NotificationOutbox.Clash}
    (hinsert : db.bookings.insert row = some bookings) (hrow : row.createdAt = now)
    (hout : Announced now db.outbox (announcements none row) outbox) :
    SeatMove now db none row (({ db with bookings } : Database).withOutbox outbox) := by
  have hnone : db.findBooking row.id = none :=
    Table.find_none_of_insert hinsert (booking_selects_id row.id) (by simp)
  constructor
  · rfl
  · simp [hnone]
  · intro i
    change bookings.find (fun b => b.id == i) = _
    rw [Table.find_insert hinsert]
    by_cases hi : i = row.id
    · subst hi
      have h : (db.bookings.find fun b => b.id == row.id) = none := hnone
      simp [h]
    · have hne : row.id ≠ i := fun h => hi h.symm
      simp [hi, hne, findBooking]
  · intro prior hprior
    simp [hnone] at hprior
  · exact fun _ => hrow
  · intro eventId st
    have h := Table.count_insert hinsert fun b => b.eventId == eventId && b.status == st
    simpa [countBookings, withOutbox] using h
  · exact hout

end Database

end Eventify
