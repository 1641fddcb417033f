import Mathlib.Data.Int.Basic

/-!
# Domain types

Rows follow `prisma/schema.prisma`. A `Uuid` is the lower-case text in which
PostgreSQL returns a `uuid` column; a `Time` counts milliseconds, as a
JavaScript `Date` does.
-/

namespace Eventify

abbrev Uuid := String

abbrev Time := ℤ

inductive Role where
  | attendee
  | organizer
  | admin
  deriving DecidableEq, Repr

structure AuthUser where
  sub : Uuid
  role : Role
  deriving DecidableEq, Repr

inductive BookingStatus where
  | confirmed
  | cancelled
  | waitlisted
  deriving DecidableEq, Repr

structure Event where
  id : Uuid
  title : String
  description : String
  venue : String
  startsAt : Time
  capacity : ℤ
  priceCents : ℤ
  organizerId : Uuid
  createdAt : Time
  deriving DecidableEq, Repr

structure Booking where
  id : Uuid
  userId : Uuid
  eventId : Uuid
  status : BookingStatus
  createdAt : Time
  deriving DecidableEq, Repr

/-- The `type` and `payload` of an outbox row. -/
inductive Intent where
  | bookingConfirmation (bookingId : Uuid)
  | waitlistPromotion (eventId : Uuid)
  deriving DecidableEq, Repr

inductive OutboxStatus where
  | pending
  | enqueued
  | sent
  | failed
  deriving DecidableEq, Repr

theorem OutboxStatus.of_ne_sent {status : OutboxStatus} (h : status ≠ .sent) :
    status = .pending ∨ status = .enqueued ∨ status = .failed := by
  cases status with
  | pending => exact .inl rfl
  | enqueued => exact .inr (.inl rfl)
  | failed => exact .inr (.inr rfl)
  | sent => exact (h rfl).elim

structure NotificationOutbox where
  id : Uuid
  intent : Intent
  status : OutboxStatus
  attempts : ℕ
  availableAt : Time
  enqueuedAt : Option Time
  sentAt : Option Time
  lastError : Option String
  createdAt : Time
  deriving DecidableEq, Repr

structure HttpError where
  status : ℕ
  message : String
  deriving DecidableEq, Repr

/-- An error of the database client: its `code`, and the `originalCode` and
`kind` of its `cause`. -/
structure ClientError where
  code : Option String
  originalCode : Option String
  kind : Option String
  deriving DecidableEq, Repr

inductive Failure where
  | http (error : HttpError)
  | client (error : ClientError)
  deriving DecidableEq, Repr

namespace Failure

def status (status : ℕ) (message : String) : Failure := .http ⟨status, message⟩

/-- A known request error of Prisma, such as `P2002` on a unique violation. -/
def prisma (code : String) : Failure := .client ⟨some code, none, none⟩

end Failure

end Eventify
