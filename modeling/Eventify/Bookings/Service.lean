import Eventify.Database

/-!
# The booking transactions

The bodies of the three Serializable transactions that move bookings:
`createBooking` and `cancelBooking` of the bookings service and
`promoteWaitlist` of the worker. Each runs against the tables it finds and
returns its result with the tables it leaves; an error discards them.
-/

namespace Eventify

def createConfirmationOutbox (ctx : TxContext) (n : ℕ) (bookingId : Uuid) (db : Database) :
    Except Failure Database :=
  db.createOutbox (ctx.newId n) (.bookingConfirmation bookingId) ctx.now

def announceIfConfirmed (ctx : TxContext) (n : ℕ) (next : Booking) (db : Database) :
    Except Failure (Booking × Database) :=
  if next.status = .confirmed then
    (createConfirmationOutbox ctx n next.id db).map fun db => (next, db)
  else .ok (next, db)

def nextStatus (confirmed : ℕ) (capacity : ℤ) : BookingStatus :=
  if (confirmed : ℤ) < capacity then .confirmed else .waitlisted

def createBookingTx (ctx : TxContext) (actor : AuthUser) (eventId : Uuid) (db : Database) :
    Except Failure (Booking × Database) :=
  match db.findEvent eventId with
  | none => .error (.status 404 "Event not found")
  | some event =>
      if event.startsAt ≤ ctx.now then .error (.status 409 "Event has already started")
      else
        let status := nextStatus (db.countBookings eventId .confirmed) event.capacity
        match db.findBookingOf actor.sub eventId with
        | some existing =>
            if existing.status = .confirmed then
              .error (.status 409 "You already booked this event")
            else if existing.status = status then .ok (existing, db)
            else
              match db.updateBooking existing.id status with
              | .error failure => .error failure
              | .ok (next, db) => announceIfConfirmed ctx 0 next db
        | none =>
            match db.createBooking (ctx.newId 0) actor.sub eventId status ctx.now with
            | .error failure => .error failure
            | .ok (next, db) => announceIfConfirmed ctx 1 next db

def cancelBookingTx (ctx : TxContext) (id : Uuid) (actor : AuthUser) (db : Database) :
    Except Failure (Booking × Database) :=
  match db.findBooking id with
  | none => .error (.status 404 "Booking not found")
  | some booking =>
      if booking.userId ≠ actor.sub ∧ actor.role ≠ .admin then .error (.status 403 "Forbidden")
      else if booking.status = .cancelled then .ok (booking, db)
      else
        match db.updateBooking id .cancelled with
        | .error failure => .error failure
        | .ok (cancelled, db) =>
            if booking.status = .confirmed then
              (db.createOutbox (ctx.newId 0) (.waitlistPromotion booking.eventId) ctx.now).map
                fun db => (cancelled, db)
            else .ok (cancelled, db)

/-- The loop of `promoteWaitlist` over the rows its query returned; `n`
counts the ids drawn so far. -/
def promoteEach (ctx : TxContext) : ℕ → List Booking → Database → Except Failure Database
  | _, [], db => .ok db
  | n, booking :: rest, db =>
      match db.updateBooking booking.id .confirmed with
      | .error failure => .error failure
      | .ok (next, db) =>
          match createConfirmationOutbox ctx n next.id db with
          | .error failure => .error failure
          | .ok db => promoteEach ctx (n + 1) rest db

def openSeats (capacity : ℤ) (confirmed : ℕ) : ℕ := (max 0 (capacity - confirmed)).toNat

def promoteWaitlistTx (ctx : TxContext) (eventId : Uuid) (db : Database) :
    Except Failure (ℕ × Database) :=
  match db.findEvent eventId with
  | none => .ok (0, db)
  | some event =>
      let seats := openSeats event.capacity (db.countBookings eventId .confirmed)
      if seats = 0 then .ok (0, db)
      else
        let waiting := db.findWaiting ctx.oldestFirst eventId seats
        (promoteEach ctx 0 waiting db).map fun db => (waiting.length, db)

inductive BookingOp where
  | createBooking (actor : AuthUser) (eventId : Uuid)
  | cancelBooking (id : Uuid) (actor : AuthUser)
  | promoteWaitlist (eventId : Uuid)
  deriving DecidableEq, Repr

inductive OpResult where
  | booking (booking : Booking)
  | promoted (count : ℕ)
  deriving DecidableEq, Repr

def BookingOp.transaction (ctx : TxContext) (op : BookingOp) (db : Database) :
    Except Failure (OpResult × Database) :=
  match op with
  | createBooking actor eventId =>
      (createBookingTx ctx actor eventId db).map fun r => (.booking r.1, r.2)
  | cancelBooking id actor =>
      (cancelBookingTx ctx id actor db).map fun r => (.booking r.1, r.2)
  | promoteWaitlist eventId =>
      (promoteWaitlistTx ctx eventId db).map fun r => (.promoted r.1, r.2)

end Eventify
