import Eventify.Bookings.Changes
import Eventify.Bookings.Ledger

/-!
# First come, first served

Runs of booking transactions with the history of the waitlist: when a booking
entered it last, and whether it did so on a row that was there before.
Promotion goes by the age of the row, so a cancelled row that is booked again
comes before bookings that have waited longer.
-/

namespace Eventify

open Library

/-- `since` is the time of a booking's last transition into `WAITLISTED`,
`requeued` whether that transition found an older row of the booking. -/
structure WaitlistHistory where
  db : Database
  since : Uuid → Time
  requeued : Uuid → Bool

/-- The bookings that wait at the start have waited since they were made. -/
def WaitlistHistory.start (db : Database) : WaitlistHistory :=
  ⟨db, fun id => (db.findBooking id).elim 0 Booking.createdAt, fun _ => false⟩

def Database.isWaiting (db : Database) (id : Uuid) : Bool :=
  (db.findBooking id).any fun b => b.status == .waitlisted

def entersWaitlist (before after : Database) (id : Uuid) : Bool :=
  after.isWaiting id && !before.isWaiting id

def waitlistStep (s : WaitlistHistory) (call : TxContext × BookingOp) : Option WaitlistHistory :=
  match call.2.transaction call.1 s.db with
  | .error _ => some s
  | .ok (_, db) =>
      some {
        db
        since := fun id => if entersWaitlist s.db db id then call.1.now else s.since id
        requeued := fun id =>
          if entersWaitlist s.db db id then (s.db.findBooking id).isSome else s.requeued id }

theorem Database.isWaiting_of_find {db : Database} {id : Uuid} {b : Booking}
    (h : db.findBooking id = some b) : db.isWaiting id = (b.status == .waitlisted) := by
  simp [Database.isWaiting, h]

namespace Database

def waiting (db : Database) (eventId : Uuid) : List Booking :=
  db.bookings.rows.filter fun b => b.eventId == eventId && b.status == .waitlisted

/-- How many bookings of the waitlist have a row older than a time. -/
def waitingBefore (db : Database) (eventId : Uuid) (time : Time) : ℕ :=
  (db.waiting eventId).countP fun b => decide (b.createdAt < time)

def waitingUpTo (db : Database) (eventId : Uuid) (time : Time) : ℕ :=
  (db.waiting eventId).countP fun b => decide (b.createdAt ≤ time)

theorem mem_waiting {db : Database} {eventId : Uuid} {b : Booking} :
    b ∈ db.waiting eventId ↔
      db.findBooking b.id = some b ∧ b.eventId = eventId ∧ b.status = .waitlisted := by
  simp [waiting, findBooking_eq_some_iff]

end Database

/-- The free seats end before `y`, or they reach `x` as well. -/
def OneSideOfSeats (db : Database) (event : Event) (x y : Booking) : Prop :=
  openSeats event.capacity (db.countBookings event.id .confirmed) ≤
      db.waitingBefore event.id y.createdAt ∨
    db.waitingUpTo event.id x.createdAt ≤
      openSeats event.capacity (db.countBookings event.id .confirmed)

/-- No booking that was queued again on an old row waits ahead of a free seat
while one that entered the waitlist before it waits behind the last. -/
def NoneRejoinsAhead (s : WaitlistHistory) (call : TxContext × BookingOp) : Prop :=
  match call.2 with
  | .promoteWaitlist e =>
      match s.db.findEvent e with
      | some event =>
          ∀ x ∈ s.db.waiting e, ∀ y ∈ s.db.waiting e,
            (s.requeued x.id ∨ s.requeued y.id) → s.since x.id < s.since y.id →
              y.createdAt ≤ x.createdAt → OneSideOfSeats s.db event x y
      | none => True
  | _ => True

/-- Whom a promotion seats has waited at least as long as whom it leaves. -/
def FirstComeFirstServed (s : WaitlistHistory) (call : TxContext × BookingOp) : Prop :=
  match call.2 with
  | .promoteWaitlist e =>
      match promoteWaitlistTx call.1 e s.db with
      | .ok (_, db) =>
          ∀ x ∈ s.db.waiting e, ∀ y ∈ s.db.waiting e, db.statusOf y.id = some .confirmed →
            db.statusOf x.id = some .waitlisted → s.since y.id ≤ s.since x.id
      | .error _ => True
  | _ => True

/-- A booking that was not queued again waits since its row was made. -/
def WaitsSinceCreation (s : WaitlistHistory) : Prop :=
  ∀ id b, s.db.findBooking id = some b → b.status = .waitlisted → s.requeued id = false →
    s.since id = b.createdAt

variable {s t : WaitlistHistory} {call : TxContext × BookingOp}

theorem WaitsSinceCreation.start (db : Database) : WaitsSinceCreation (.start db) := by
  intro id b hfind _ _
  simp [WaitlistHistory.start, show db.findBooking id = some b from hfind]

theorem WaitsSinceCreation.step (hs : WaitsSinceCreation s) (h : waitlistStep s call = some t) :
    WaitsSinceCreation t := by
  unfold waitlistStep at h
  split at h
  · cases h
    exact hs
  next result db htx =>
    cases h
    intro id b hfind hwaiting hfresh
    change db.findBooking id = some b at hfind
    change (if entersWaitlist s.db db id then call.1.now else s.since id) = b.createdAt
    change (if entersWaitlist s.db db id then (s.db.findBooking id).isSome
      else s.requeued id) = false at hfresh
    have hkeeps := transaction_keeps_bookings htx id
    rw [hfind] at hkeeps
    cases hprior : s.db.findBooking id with
    | none =>
        have hbefore : s.db.isWaiting id = false := by simp [Database.isWaiting, hprior]
        have henters : entersWaitlist s.db db id = true := by
          simp [entersWaitlist, Database.isWaiting_of_find hfind, hwaiting, hbefore]
        rw [hprior] at hkeeps
        rw [if_pos henters, hkeeps.1]
    | some prior =>
        have henters : entersWaitlist s.db db id = !(prior.status == .waitlisted) := by
          simp [entersWaitlist, Database.isWaiting_of_find hfind, hwaiting,
            Database.isWaiting_of_find hprior]
        rw [hprior] at hkeeps hfresh
        have hcreated : b.createdAt = prior.createdAt := by rw [hkeeps.1]
        by_cases hbefore : prior.status = .waitlisted
        · simp only [henters, hbefore, beq_self_eq_true, Bool.not_true, Bool.false_eq_true,
            if_false] at hfresh ⊢
          rw [hcreated, hs id prior hprior hbefore hfresh]
        · simp [henters, hbefore] at hfresh

/-- A promotion that seats `y` and leaves `x` had a seat for `y`, none for `x`, and
the row of `y` is not the younger one. -/
theorem promoteWaitlistTx_parts {ctx : TxContext} {e : Uuid} {db db' : Database} {k : ℕ}
    (h : promoteWaitlistTx ctx e db = .ok (k, db')) {event : Event}
    (hevent : db.findEvent e = some event) {x y : Booking} (hx : x ∈ db.waiting e)
    (hy : y ∈ db.waiting e) (hseated : db'.statusOf y.id = some .confirmed)
    (hleft : db'.statusOf x.id = some .waitlisted) :
    y.createdAt ≤ x.createdAt ∧ ¬ OneSideOfSeats db event x y := by
  obtain ⟨hfindx, -, hwaitsx⟩ := Database.mem_waiting.mp hx
  obtain ⟨hfindy, -, hwaitsy⟩ := Database.mem_waiting.mp hy
  obtain rfl : event.id = e := Database.findEvent_id hevent
  rcases promoteWaitlistTx_ok h with ⟨hnone, -, -⟩ | ⟨found, hfound, hpromotes, -, -⟩
  · simp [hnone] at hevent
  obtain rfl : found = event := Option.some.inj (hfound.symm.trans hevent)
  unfold OneSideOfSeats
  generalize openSeats found.capacity (db.countBookings found.id .confirmed) = seats at hpromotes ⊢
  have hfirst : y ∈ (ctx.oldestFirst.sort (db.waiting found.id)).take seats := by
    rcases hpromotes.find y.id with ⟨b, hb, -, -, -, hfind, -⟩ | ⟨-, hkept⟩
    · obtain rfl := Option.some.inj (hfindy.symm.trans hfind)
      exact hb
    · simp [Database.statusOf, hkept, hfindy, hwaitsy] at hseated
  have hlast : x ∈ (ctx.oldestFirst.sort (db.waiting found.id)).drop seats := by
    refine ctx.oldestFirst.mem_drop_of_not_mem_take hx fun hfront => ?_
    rcases hpromotes.find x.id with ⟨b, -, -, -, -, -, hconfirmed⟩ | ⟨hnone, -⟩
    · simp [Database.statusOf, hconfirmed] at hleft
    · exact hnone x hfront rfl
  refine ⟨ctx.oldestFirst.le_of_mem_take_of_mem_drop hfirst hlast, ?_⟩
  rintro (hfew | hall)
  · exact absurd (ctx.oldestFirst.countP_lt_of_mem_take hfirst) (not_lt.mpr hfew)
  · exact absurd (ctx.oldestFirst.lt_countP_of_mem_drop hlast) (not_lt.mpr hall)

theorem WaitsSinceCreation.firstComeFirstServed (hs : WaitsSinceCreation s)
    (hgood : NoneRejoinsAhead s call) : FirstComeFirstServed s call := by
  obtain ⟨ctx, op⟩ := call
  cases op with
  | createBooking actor eventId => trivial
  | cancelBooking id actor => trivial
  | promoteWaitlist e =>
      simp only [FirstComeFirstServed]
      split
      next k db htx =>
        intro x hx y hy hseated hleft
        cases hevent : s.db.findEvent e with
        | none =>
            rcases promoteWaitlistTx_ok htx with ⟨-, -, rfl⟩ | ⟨event, hfound, -⟩
            · obtain ⟨hfind, -, hwaits⟩ := Database.mem_waiting.mp hy
              simp [Database.statusOf, hfind, hwaits] at hseated
            · simp [hevent] at hfound
        | some event =>
            simp only [NoneRejoinsAhead, hevent] at hgood
            obtain ⟨hcreated, hparted⟩ := promoteWaitlistTx_parts htx hevent hx hy hseated hleft
            by_contra hlater
            have hsince : s.since x.id < s.since y.id := not_le.mp hlater
            by_cases hrequeued : s.requeued x.id ∨ s.requeued y.id
            · exact hparted (hgood x hx y hy hrequeued hsince hcreated)
            · -- both wait since their rows were made, so the older row has waited longer
              obtain ⟨hfreshx, hfreshy⟩ := not_or.mp hrequeued
              obtain ⟨hfindx, -, hwaitsx⟩ := Database.mem_waiting.mp hx
              obtain ⟨hfindy, -, hwaitsy⟩ := Database.mem_waiting.mp hy
              rw [hs x.id x hfindx hwaitsx (by simpa using hfreshx),
                hs y.id y hfindy hwaitsy (by simpa using hfreshy)] at hsince
              exact absurd hsince (not_lt.mpr hcreated)
      · trivial

/-- In every run in which no promotion meets a booking that was queued again
ahead of one that waited longer, promotion is first come, first served. -/
theorem waitlist_first_come_first_served (db : Database) {acts : List (TxContext × BookingOp)}
    (hgood : Along waitlistStep NoneRejoinsAhead (.start db) acts) :
    Along waitlistStep FirstComeFirstServed (.start db) acts :=
  Along.mono (fun _ _ hs => hs.firstComeFirstServed) (fun _ _ _ hs _ hstep => hs.step hstep)
    (WaitsSinceCreation.start db) hgood

instance (s : WaitlistHistory) (call : TxContext × BookingOp) :
    Decidable (NoneRejoinsAhead s call) := by
  unfold NoneRejoinsAhead OneSideOfSeats
  split
  · split <;> infer_instance
  · infer_instance

instance (s : WaitlistHistory) (call : TxContext × BookingOp) :
    Decidable (FirstComeFirstServed s call) := by
  unfold FirstComeFirstServed
  split
  · split <;> infer_instance
  · infer_instance

/-- Ann holds the seat, Bob waits since time 1, Cid since time 2. -/
def queuedRun : List (TxContext × BookingOp) :=
  [(drawing 0 "a", .createBooking ⟨"ann", .attendee⟩ "e"),
    (drawing 1 "b", .createBooking ⟨"bob", .attendee⟩ "e"),
    (drawing 2 "c", .createBooking ⟨"cid", .attendee⟩ "e")]

def freedRun : List (TxContext × BookingOp) :=
  [(drawing 5 "f", .cancelBooking "a-0" ⟨"ann", .attendee⟩),
    (drawing 6 "g", .promoteWaitlist "e")]

theorem waitlist_first_come_first_served_queued :
    Along waitlistStep FirstComeFirstServed (.start soloDatabase) (queuedRun ++ freedRun) :=
  waitlist_first_come_first_served soloDatabase (by decide)

/-- Bob cancels and books again at time 4, on his row of time 1: he gets the
seat before Cid, who has waited since time 2. -/
theorem rejoined_overtakes :
    ¬ Along waitlistStep FirstComeFirstServed (.start soloDatabase)
      (queuedRun ++ [(drawing 3 "d", .cancelBooking "b-0" ⟨"bob", .attendee⟩),
        (drawing 4 "e", .createBooking ⟨"bob", .attendee⟩ "e")] ++ freedRun) := by
  decide

end Eventify
