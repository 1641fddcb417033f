import Eventify.Bookings.Fairness

/-!
# What one promotion does

`promoteWaitlist` on every table: how many bookings it seats and which, what
it writes to the outbox, what it leaves alone, and that a second run finds
nothing to do.
-/

namespace Eventify

open Library

/-- What `promoteWaitlist` should do: seat the longest waiting bookings of the
event as far as seats last, announce each once, and touch nothing else. -/
structure PromotesOldest (eventId : Uuid) (seats : ℤ) (db db' : Database)
    (promoted : List Booking) : Prop where
  length : (promoted.length : ℤ) = min (db.countBookings eventId .waitlisted : ℤ) (max 0 seats)
  nodup : promoted.Nodup
  waiting : ∀ b ∈ promoted, b ∈ db.waiting eventId
  oldest : ∀ b ∈ promoted, ∀ left ∈ db'.waiting eventId, ¬ left.createdAt < b.createdAt
  bookings : db'.bookings.rows = db.bookings.rows.map fun b =>
    if b ∈ promoted then { b with status := .confirmed } else b
  outbox : ∃ added, db'.outbox.rows = db.outbox.rows ++ added ∧
    added.map NotificationOutbox.intent = promoted.map fun b => .bookingConfirmation b.id
  events : db'.events = db.events

/-- The seats of an event that no confirmed booking takes; none without the event. -/
def Database.freeSeats (db : Database) (eventId : Uuid) : ℤ :=
  (db.findEvent eventId).elim 0 fun event =>
    event.capacity - db.countBookings eventId .confirmed

variable {ctx : TxContext} {eventId : Uuid} {db db' : Database} {k : ℕ}

theorem promoteEach_rows {n : ℕ} {ws : List Booking} (h : promoteEach ctx n ws db = .ok db') :
    db'.bookings.rows = db.bookings.rows.map fun b =>
      if b.id ∈ ws.map Booking.id then { b with status := .confirmed } else b := by
  induction ws generalizing n db with
  | nil =>
      cases h
      simp
  | cons w rest ih =>
      simp only [promoteEach] at h
      split at h
      · cases h
      next next db₁ hupdate =>
        split at h
        · cases h
        next db₂ hcreate =>
          obtain ⟨prior, -, -, rfl⟩ := Database.updateBooking_ok hupdate
          obtain ⟨outbox, -, rfl⟩ := Database.createOutbox_ok hcreate
          rw [ih h]
          simp only [Database.withOutbox, Database.withStatus, Table.updateWhere_rows, List.map_map]
          apply List.map_congr_left
          intro b _
          by_cases hw : b.id = w.id
          · simp [hw]
          · simp [hw]

theorem promoteWaitlistTx_each (h : promoteWaitlistTx ctx eventId db = .ok (k, db'))
    {event : Event} (hevent : db.findEvent eventId = some event) :
    promoteEach ctx 0 (db.findWaiting ctx.oldestFirst eventId
      (openSeats event.capacity (db.countBookings eventId .confirmed))) db = .ok db' := by
  simp only [promoteWaitlistTx, hevent] at h
  split at h
  next hseats =>
    cases h
    rw [hseats]
    rfl
  · obtain ⟨db₁, heach, heq⟩ := map_ok h
    cases heq
    exact heach

/-- Without a free seat or a waiting booking there is nothing to promote. -/
theorem promoteWaitlistTx_idle {event : Event} (hevent : db.findEvent eventId = some event)
    (hidle : event.capacity ≤ db.countBookings eventId .confirmed ∨
      db.countBookings eventId .waitlisted = 0) :
    promoteWaitlistTx ctx eventId db = .ok (0, db) := by
  simp only [promoteWaitlistTx, hevent]
  split
  · rfl
  next hseats =>
    have hnone : db.countBookings eventId .waitlisted = 0 := by
      rcases hidle with hfull | hnone
      · refine (hseats ?_).elim
        simp only [openSeats]
        omega
      · exact hnone
    have hwaiting : db.findWaiting ctx.oldestFirst eventId
        (openSeats event.capacity (db.countBookings eventId .confirmed)) = [] := by
      apply List.eq_nil_of_length_eq_zero
      rw [Database.length_findWaiting, hnone, Nat.min_zero]
    rw [hwaiting]
    rfl

namespace Database

theorem mem_waiting_iff_mem {b : Booking} :
    b ∈ db.waiting eventId ↔
      b ∈ db.bookings.rows ∧ b.eventId = eventId ∧ b.status = .waitlisted := by
  simp [waiting]

theorem eq_of_mem_id {a b : Booking} (ha : a ∈ db.bookings.rows) (hb : b ∈ db.bookings.rows)
    (hid : a.id = b.id) : a = b :=
  List.inj_on_of_nodup_map (booking_ids_nodup db.bookings) ha hb hid

end Database

/-- The loop confirms the bookings it is given, where these are rows of the table. -/
theorem promoteEach_members {n : ℕ} {ws : List Booking} (h : promoteEach ctx n ws db = .ok db')
    (hrows : ∀ w ∈ ws, w ∈ db.bookings.rows) :
    db'.bookings.rows = db.bookings.rows.map fun b =>
      if b ∈ ws then { b with status := .confirmed } else b := by
  rw [promoteEach_rows h]
  apply List.map_congr_left
  intro b hb
  have hmem : b.id ∈ ws.map Booking.id ↔ b ∈ ws := by
    constructor
    · intro hid
      obtain ⟨w, hw, hsame⟩ := List.mem_map.mp hid
      exact Database.eq_of_mem_id (hrows w hw) hb hsame ▸ hw
    · exact fun hb => List.mem_map_of_mem hb
  simp only [hmem]

theorem promotesOldest_of_event (h : promoteWaitlistTx ctx eventId db = .ok (k, db'))
    {event : Event} (hevent : db.findEvent eventId = some event) :
    ∃ promoted, promoted.length = k ∧
      PromotesOldest eventId (event.capacity - db.countBookings eventId .confirmed) db db'
        promoted := by
  have heach := promoteWaitlistTx_each h hevent
  rcases promoteWaitlistTx_ok h with ⟨hnone, -, -⟩ | ⟨found, hfound, hpromotes, hk, -⟩
  · cases hnone.symm.trans hevent
  obtain rfl : found = event := Option.some.inj (hfound.symm.trans hevent)
  have hlength := db.length_findWaiting ctx.oldestFirst eventId
    (openSeats found.capacity (db.countBookings eventId .confirmed))
  have hseats : (openSeats found.capacity (db.countBookings eventId .confirmed) : ℤ) =
      max 0 (found.capacity - db.countBookings eventId .confirmed) := by
    simp [openSeats]
  generalize openSeats found.capacity (db.countBookings eventId .confirmed) = seats at *
  have hwaiting : ∀ b ∈ db.findWaiting ctx.oldestFirst eventId seats, b ∈ db.waiting eventId := by
    intro b hb
    obtain ⟨hfind, hstatus, hevent⟩ := Database.mem_findWaiting hb
    exact Database.mem_waiting.mpr ⟨hfind, hevent, hstatus⟩
  have hrows := promoteEach_members heach fun b hb =>
    (Database.mem_waiting_iff_mem.mp (hwaiting b hb)).1
  refine ⟨db.findWaiting ctx.oldestFirst eventId seats, hlength.trans hk.symm, ?_⟩
  constructor
  · rw [hlength]
    omega
  · exact List.Nodup.of_map Booking.id Database.findWaiting_nodup
  · exact hwaiting
  · intro b hb left hleft
    obtain ⟨hleft, hevent, hstatus⟩ := Database.mem_waiting_iff_mem.mp hleft
    rw [hrows] at hleft
    obtain ⟨old, hold, rfl⟩ := List.mem_map.mp hleft
    split at hstatus
    · cases hstatus
    next hkept =>
      rw [if_neg hkept] at hevent ⊢
      -- who is left waiting stands behind the seats in the query's order
      have hwaits : old ∈ db.waiting eventId :=
        Database.mem_waiting_iff_mem.mpr ⟨hold, hevent, hstatus⟩
      have hbehind := ctx.oldestFirst.mem_drop_of_not_mem_take hwaits hkept
      exact not_lt.mpr (ctx.oldestFirst.le_of_mem_take_of_mem_drop hb hbehind)
  · exact hrows
  · obtain ⟨added, hadded, hintents, -⟩ := hpromotes.announces
    exact ⟨added, hadded, hintents⟩
  · exact hpromotes.events

theorem promotesOldest_nil (eventId : Uuid) (db : Database) :
    PromotesOldest eventId 0 db db [] := by
  constructor
  · simp
  · exact List.nodup_nil
  · simp
  · simp
  · simp
  · exact ⟨[], by simp⟩
  · rfl

/-- A committed promotion seats the longest waiting bookings that the free
seats hold, one confirmation each, and leaves a second one nothing to do. -/
theorem promoteWaitlist_exact (h : promoteWaitlistTx ctx eventId db = .ok (k, db')) :
    (∃ promoted, promoted.length = k ∧
      PromotesOldest eventId (db.freeSeats eventId) db db' promoted) ∧
    ∀ again : TxContext, promoteWaitlistTx again eventId db' = .ok (0, db') := by
  cases hevent : db.findEvent eventId with
  | none =>
      rcases promoteWaitlistTx_ok h with ⟨-, rfl, rfl⟩ | ⟨event, hfound, -⟩
      · refine ⟨⟨[], rfl, ?_⟩, fun again => ?_⟩
        · simpa [Database.freeSeats, hevent] using promotesOldest_nil eventId _
        · simp [promoteWaitlistTx, hevent]
      · cases hfound.symm.trans hevent
  | some event =>
      refine ⟨?_, fun again => ?_⟩
      · simpa [Database.freeSeats, hevent] using promotesOldest_of_event h hevent
      · rcases promoteWaitlistTx_ok h with ⟨hnone, -⟩ | ⟨found, hfound, hpromotes, -, hidle⟩
        · cases hnone.symm.trans hevent
        · obtain rfl : found = event := Option.some.inj (hfound.symm.trans hevent)
          have hevent' : db'.findEvent eventId = some found := by
            rw [Database.findEvent, hpromotes.events]
            exact hevent
          exact promoteWaitlistTx_idle hevent' hidle

/-- One free seat, and Bob waits for it since time 1, Cid since time 2. -/
def twoWaiting : Database :=
  { soloDatabase with
    bookings := ⟨[⟨"c", "cid", "e", .waitlisted, 2⟩, ⟨"b", "bob", "e", .waitlisted, 1⟩], by
      decide⟩ }

theorem promoteWaitlist_exact_two : ∃ db',
    promoteWaitlistTx (drawing 6 "g") "e" twoWaiting = .ok (1, db') ∧
      (∃ promoted, promoted.length = 1 ∧
        PromotesOldest "e" (twoWaiting.freeSeats "e") twoWaiting db' promoted) ∧
      ∀ again : TxContext, promoteWaitlistTx again "e" db' = .ok (0, db') := by
  obtain ⟨db', h⟩ : ∃ db', promoteWaitlistTx (drawing 6 "g") "e" twoWaiting = .ok (1, db') :=
    ⟨_, rfl⟩
  exact ⟨db', h, promoteWaitlist_exact h⟩

end Eventify
