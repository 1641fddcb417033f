import Eventify.Domain
import Eventify.Library.Table

/-!
# The PostgreSQL tables

The tables the bookings, events and jobs code shares, with the unique
constraints of the migrations built into their types, and the Prisma
operations of the services on them.
-/

namespace Eventify

open Library

def Event.Clash (a b : Event) : Prop := a.id = b.id

/-- `Booking_pkey` and `Booking_userId_eventId_key`. -/
def Booking.Clash (a b : Booking) : Prop :=
  a.id = b.id ∨ (a.userId = b.userId ∧ a.eventId = b.eventId)

def NotificationOutbox.Clash (a b : NotificationOutbox) : Prop := a.id = b.id

instance : DecidableRel Event.Clash := fun a b => inferInstanceAs (Decidable (a.id = b.id))

instance : DecidableRel Booking.Clash := fun a b =>
  inferInstanceAs (Decidable (a.id = b.id ∨ (a.userId = b.userId ∧ a.eventId = b.eventId)))

instance : DecidableRel NotificationOutbox.Clash := fun a b =>
  inferInstanceAs (Decidable (a.id = b.id))

structure Database where
  events : Table Event Event.Clash
  bookings : Table Booking Booking.Clash
  outbox : Table NotificationOutbox NotificationOutbox.Clash

/-- What a transaction takes from outside the tables: the clock it reads, the
ids `uuid(7)` draws for its inserts, and how ties of `createdAt` come out. -/
structure TxContext where
  now : Time
  newId : ℕ → Uuid
  oldestFirst : OrderBy Booking.createdAt

theorem booking_selects_id (id : Uuid) : Table.Selects Booking.Clash fun b => b.id == id := by
  intro a b ha hb
  simp only [beq_iff_eq] at ha hb
  exact .inl (ha.trans hb.symm)

theorem booking_selects_user (userId eventId : Uuid) :
    Table.Selects Booking.Clash fun b => b.userId == userId && b.eventId == eventId := by
  intro a b ha hb
  simp only [Bool.and_eq_true, beq_iff_eq] at ha hb
  exact .inr ⟨ha.1.trans hb.1.symm, ha.2.trans hb.2.symm⟩

theorem withStatus_keepsKeys (status : BookingStatus) :
    Table.KeepsKeys Booking.Clash fun b => { b with status } := fun _ _ => ⟨Iff.rfl, Iff.rfl⟩

namespace Database

/-- `tx.event.findUnique({ where: { id } })`. -/
def findEvent (db : Database) (id : Uuid) : Option Event := db.events.find fun e => e.id == id

/-- `tx.booking.findUnique({ where: { id } })`. -/
def findBooking (db : Database) (id : Uuid) : Option Booking :=
  db.bookings.find fun b => b.id == id

/-- `tx.booking.findUnique({ where: { userId_eventId } })`. -/
def findBookingOf (db : Database) (userId eventId : Uuid) : Option Booking :=
  db.bookings.find fun b => b.userId == userId && b.eventId == eventId

/-- `tx.booking.count({ where: { eventId, status } })`. -/
def countBookings (db : Database) (eventId : Uuid) (status : BookingStatus) : ℕ :=
  db.bookings.count fun b => b.eventId == eventId && b.status == status

def findWaiting (db : Database) (oldestFirst : OrderBy Booking.createdAt)
    (eventId : Uuid) (take : ℕ) : List Booking :=
  (oldestFirst.sort (db.bookings.rows.filter fun b =>
    b.eventId == eventId && b.status == .waitlisted)).take take

def withStatus (db : Database) (id : Uuid) (status : BookingStatus) : Database :=
  { db with
    bookings := db.bookings.updateWhere (fun b => b.id == id) _ (withStatus_keepsKeys status) }

/-- `tx.booking.update({ where: { id }, data: { status } })`. -/
def updateBooking (db : Database) (id : Uuid) (status : BookingStatus) :
    Except Failure (Booking × Database) :=
  match db.findBooking id with
  | none => .error (.prisma "P2025")
  | some booking => .ok ({ booking with status }, db.withStatus id status)

/-- `tx.booking.create({ data: { userId, eventId, status } })`. -/
def createBooking (db : Database) (id userId eventId : Uuid) (status : BookingStatus)
    (now : Time) : Except Failure (Booking × Database) :=
  let row : Booking := ⟨id, userId, eventId, status, now⟩
  match db.bookings.insert row with
  | none => .error (.prisma "P2002")
  | some bookings => .ok (row, { db with bookings })

/-- A row as `tx.notificationOutbox.create` leaves it, with every default. -/
def outboxRow (id : Uuid) (intent : Intent) (now : Time) : NotificationOutbox :=
  { id, intent, status := .pending, attempts := 0, availableAt := now, enqueuedAt := none,
    sentAt := none, lastError := none, createdAt := now }

def withOutbox (db : Database)
    (outbox : Table NotificationOutbox NotificationOutbox.Clash) : Database :=
  { db with outbox }

/-- `tx.notificationOutbox.create({ data: { type, payload } })`. -/
def createOutbox (db : Database) (id : Uuid) (intent : Intent) (now : Time) :
    Except Failure Database :=
  match db.outbox.insert (outboxRow id intent now) with
  | none => .error (.prisma "P2002")
  | some outbox => .ok (db.withOutbox outbox)

@[simp] theorem withStatus_events (db : Database) (id : Uuid) (status : BookingStatus) :
    (db.withStatus id status).events = db.events := rfl

@[simp] theorem withStatus_outbox (db : Database) (id : Uuid) (status : BookingStatus) :
    (db.withStatus id status).outbox = db.outbox := rfl

theorem updateBooking_found {db : Database} {id : Uuid} {b : Booking}
    (hfind : db.findBooking id = some b) (status : BookingStatus) :
    db.updateBooking id status = .ok ({ b with status }, db.withStatus id status) := by
  rw [updateBooking, hfind]

theorem updateBooking_ok {db db' : Database} {id : Uuid} {status : BookingStatus} {b : Booking}
    (h : db.updateBooking id status = .ok (b, db')) :
    ∃ prior, db.findBooking id = some prior ∧ b = { prior with status } ∧
      db' = db.withStatus id status := by
  unfold updateBooking at h
  cases hfind : db.findBooking id with
  | none => simp [hfind] at h
  | some prior =>
      simp only [hfind, Except.ok.injEq, Prod.mk.injEq] at h
      exact ⟨prior, rfl, h.1.symm, h.2.symm⟩

theorem createBooking_ok {db db' : Database} {id userId eventId : Uuid}
    {status : BookingStatus} {now : Time} {b : Booking}
    (h : db.createBooking id userId eventId status now = .ok (b, db')) :
    b = ⟨id, userId, eventId, status, now⟩ ∧
      ∃ bookings, db.bookings.insert b = some bookings ∧ db' = { db with bookings } := by
  unfold createBooking at h
  cases hinsert : db.bookings.insert ⟨id, userId, eventId, status, now⟩ with
  | none => simp [hinsert] at h
  | some bookings =>
      simp only [hinsert, Except.ok.injEq, Prod.mk.injEq] at h
      obtain ⟨rfl, rfl⟩ := h
      exact ⟨rfl, bookings, hinsert, rfl⟩

theorem createOutbox_ok {db db' : Database} {id : Uuid} {intent : Intent} {now : Time}
    (h : db.createOutbox id intent now = .ok db') :
    ∃ outbox, db.outbox.insert (outboxRow id intent now) = some outbox ∧
      db' = db.withOutbox outbox := by
  unfold createOutbox at h
  cases hinsert : db.outbox.insert (outboxRow id intent now) with
  | none => simp [hinsert] at h
  | some outbox =>
      simp only [hinsert, Except.ok.injEq] at h
      exact ⟨outbox, rfl, h.symm⟩

theorem findBooking_id {db : Database} {id : Uuid} {b : Booking}
    (h : db.findBooking id = some b) : b.id = id := by
  simpa using Table.holds_of_find h

theorem findBookingOf_keys {db : Database} {userId eventId : Uuid} {b : Booking}
    (h : db.findBookingOf userId eventId = some b) :
    b.userId = userId ∧ b.eventId = eventId := by
  simpa using Table.holds_of_find h

theorem findBooking_eq_some_iff {db : Database} {id : Uuid} {b : Booking} :
    db.findBooking id = some b ↔ b ∈ db.bookings.rows ∧ b.id = id := by
  simpa [findBooking] using Table.find_eq_some_iff (t := db.bookings) (booking_selects_id id)

theorem findEvent_id {db : Database} {id : Uuid} {e : Event}
    (h : db.findEvent id = some e) : e.id = id := by
  simpa using Table.holds_of_find h

end Database

def soloEvent : Event :=
  ⟨"e", "Solo", "One seat", "Room 1", 1000, 1, 0, "organizer", 0⟩

def soloDatabase : Database :=
  ⟨⟨[soloEvent], by simp⟩, Table.empty, Table.empty⟩

/-- A context at a time that draws the ids `base` followed by `0`, `1`, ... -/
def drawing (now : Time) (base : String) : TxContext :=
  ⟨now, fun n => base ++ "-" ++ toString n, .stable _⟩

end Eventify
