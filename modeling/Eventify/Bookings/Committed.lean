import Eventify.Bookings.Moves

/-!
# What the booking transactions commit

One inversion lemma for each transaction: a committed `createBooking` seats
or queues the caller or repeats a waiting request, a committed
`cancelBooking` releases one booking or repeats a cancellation, a committed
`promoteWaitlist` seats waiting bookings until seats or bookings run out.
-/

namespace Eventify

open Library

namespace Database

theorem findBookingOf_of_findBooking {db : Database} {id : Uuid} {b : Booking}
    (h : db.findBooking id = some b) : db.findBookingOf b.userId b.eventId = some b := by
  have hmem := (findBooking_eq_some_iff.mp h).1
  apply (Table.find_eq_some_iff (booking_selects_user b.userId b.eventId)).mpr
  exact ⟨hmem, by simp⟩

theorem findBooking_of_findBookingOf {db : Database} {userId eventId : Uuid} {b : Booking}
    (h : db.findBookingOf userId eventId = some b) : db.findBooking b.id = some b :=
  findBooking_eq_some_iff.mpr ⟨Table.mem_of_find h, rfl⟩

end Database

theorem announceIfConfirmed_ok {ctx : TxContext} {n : ℕ} {next b : Booking} {db db' : Database}
    (h : announceIfConfirmed ctx n next db = .ok (b, db')) :
    b = next ∧ ∃ outbox, db' = db.withOutbox outbox ∧
      Announced ctx.now db.outbox
        (if next.status = .confirmed then [.bookingConfirmation next.id] else []) outbox := by
  unfold announceIfConfirmed createConfirmationOutbox at h
  by_cases hstatus : next.status = .confirmed
  · rw [if_pos hstatus] at h
    cases hcreate : db.createOutbox (ctx.newId n) (.bookingConfirmation next.id) ctx.now with
    | error failure => simp [hcreate, Except.map] at h
    | ok db₁ =>
        simp only [hcreate, Except.map, Except.ok.injEq, Prod.mk.injEq] at h
        obtain ⟨outbox, hinsert, rfl⟩ := Database.createOutbox_ok hcreate
        refine ⟨h.1.symm, outbox, h.2.symm, ?_⟩
        rw [if_pos hstatus]
        exact .of_insert hinsert
  · rw [if_neg hstatus] at h
    simp only [Except.ok.injEq, Prod.mk.injEq] at h
    refine ⟨h.1.symm, db.outbox, h.2.symm, ?_⟩
    rw [if_neg hstatus]
    exact .none _ _

theorem createBookingTx_ok {ctx : TxContext} {actor : AuthUser} {eventId : Uuid}
    {db db' : Database} {b : Booking} (h : createBookingTx ctx actor eventId db = .ok (b, db')) :
    ∃ event old, db.findEvent eventId = some event ∧ ctx.now < event.startsAt ∧
      b.userId = actor.sub ∧ b.eventId = eventId ∧
      (db.findBookingOf actor.sub eventId).map Booking.status = old ∧
      ((db' = db ∧ db.findBookingOf actor.sub eventId = some b ∧ b.status = .waitlisted ∧
          event.capacity ≤ db.countBookings eventId .confirmed) ∨
        Seats ctx.now db old b db' ∨ Queues ctx.now db old b db') := by
  unfold createBookingTx at h
  cases hevent : db.findEvent eventId with
  | none => simp [hevent] at h
  | some event =>
      by_cases hstart : event.startsAt ≤ ctx.now
      · simp [hevent, hstart] at h
      simp only [hevent, hstart, if_false] at h
      have hnow : ctx.now < event.startsAt := not_le.mp hstart
      cases hexisting : db.findBookingOf actor.sub eventId with
      | some existing =>
          obtain ⟨huser, heid⟩ := Database.findBookingOf_keys hexisting
          have hfind := Database.findBooking_of_findBookingOf hexisting
          by_cases hconf : existing.status = .confirmed
          · simp [hexisting, hconf] at h
          by_cases hsame : existing.status =
              nextStatus (db.countBookings eventId .confirmed) event.capacity
          · simp only [hexisting, hconf, if_false, if_pos hsame, Except.ok.injEq,
              Prod.mk.injEq] at h
            obtain ⟨rfl, rfl⟩ := h
            refine ⟨event, _, rfl, hnow, huser, heid, rfl, .inl ⟨rfl, rfl, ?_⟩⟩
            by_cases hroom : (db.countBookings eventId .confirmed : ℤ) < event.capacity
            · simp [nextStatus, hroom, hconf] at hsame
            · exact ⟨by simpa [nextStatus, hroom] using hsame, not_lt.mp hroom⟩
          · simp only [hexisting, hconf, if_false, if_neg hsame] at h
            rw [Database.updateBooking_found hfind] at h
            obtain ⟨rfl, outbox, rfl, hout⟩ := announceIfConfirmed_ok h
            have hold : some existing.status ≠ some BookingStatus.confirmed := by simpa using hconf
            have hmove := Database.withStatus_seatMove ctx.now _ outbox hfind
              (announcements_of_ne_confirmed hold _ ▸ hout)
            refine ⟨event, _, rfl, hnow, huser, heid, rfl, .inr ?_⟩
            exact hmove.seats_or_queues (heid ▸ hevent) (by rw [heid]) hold
              (by simpa using hsame)
      | none =>
          simp only [hexisting] at h
          cases hcreate : db.createBooking (ctx.newId 0) actor.sub eventId
              (nextStatus (db.countBookings eventId .confirmed) event.capacity) ctx.now with
          | error failure => simp [hcreate] at h
          | ok p =>
              obtain ⟨next, db₁⟩ := p
              simp only [hcreate] at h
              obtain ⟨rfl, bookings, hinsert, rfl⟩ := Database.createBooking_ok hcreate
              obtain ⟨rfl, outbox, rfl, hout⟩ := announceIfConfirmed_ok h
              have hold : (none : Option BookingStatus) ≠ some .confirmed := by simp
              have hmove := Database.create_seatMove hinsert rfl
                (announcements_of_ne_confirmed hold _ ▸ hout)
              refine ⟨event, _, rfl, hnow, rfl, rfl, rfl, .inr ?_⟩
              exact hmove.seats_or_queues hevent rfl hold (by simp)

theorem cancelBookingTx_ok {ctx : TxContext} {id : Uuid} {actor : AuthUser}
    {db db' : Database} {b : Booking} (h : cancelBookingTx ctx id actor db = .ok (b, db')) :
    ∃ booking, db.findBooking id = some booking ∧
      (booking.userId = actor.sub ∨ actor.role = .admin) ∧
      b = { booking with status := .cancelled } ∧
      ((db' = db ∧ booking.status = .cancelled) ∨
        Releases ctx.now db (some booking.status) b db') := by
  unfold cancelBookingTx at h
  cases hfind : db.findBooking id with
  | none => simp [hfind] at h
  | some booking =>
      by_cases hforbidden : booking.userId ≠ actor.sub ∧ actor.role ≠ .admin
      · simp [hfind, hforbidden] at h
      simp only [hfind, if_neg hforbidden] at h
      have howner : booking.userId = actor.sub ∨ actor.role = .admin := by
        by_contra hnot
        exact hforbidden (not_or.mp hnot)
      by_cases hcancelled : booking.status = .cancelled
      · simp only [hcancelled, if_true, Except.ok.injEq, Prod.mk.injEq] at h
        obtain ⟨rfl, rfl⟩ := h
        exact ⟨booking, rfl, howner, by rw [← hcancelled], .inl ⟨rfl, hcancelled⟩⟩
      · simp only [if_neg hcancelled] at h
        rw [Database.updateBooking_found hfind] at h
        by_cases hconf : booking.status = .confirmed
        · simp only [if_pos hconf] at h
          cases hcreate : (db.withStatus id .cancelled).createOutbox (ctx.newId 0)
              (.waitlistPromotion booking.eventId) ctx.now with
          | error failure => simp [hcreate, Except.map] at h
          | ok db₂ =>
              simp only [hcreate, Except.map, Except.ok.injEq, Prod.mk.injEq] at h
              obtain ⟨rfl, rfl⟩ := h
              obtain ⟨outbox, hinsert, rfl⟩ := Database.createOutbox_ok hcreate
              have hmove := Database.withStatus_seatMove ctx.now .cancelled outbox hfind
                (by simpa [announcements, hconf] using Announced.of_insert hinsert)
              exact ⟨booking, rfl, howner, rfl, .inr ⟨hmove, by simp [hconf], rfl⟩⟩
        · simp only [if_neg hconf, Except.ok.injEq, Prod.mk.injEq] at h
          obtain ⟨rfl, rfl⟩ := h
          have hmove := Database.withStatus_seatMove ctx.now .cancelled db.outbox hfind
            (by simpa [announcements, hconf] using Announced.none _ _)
          refine ⟨booking, rfl, howner, rfl, .inr ⟨hmove, ?_, rfl⟩⟩
          cases hstatus : booking.status with
          | confirmed => exact (hconf hstatus).elim
          | cancelled => exact (hcancelled hstatus).elim
          | waitlisted => exact .inr rfl

namespace Promotes

variable {now : Time} {eventId : Uuid} {db db' : Database} {ws : List Booking}

theorem events (h : Promotes now eventId db ws db') : db'.events = db.events := by
  induction h with
  | nil => rfl
  | cons _ _ hseat _ ih => exact ih.trans hseat.events

theorem count (h : Promotes now eventId db ws db') (e : Uuid) :
    db'.countBookings e .confirmed =
        db.countBookings e .confirmed + (if eventId = e then ws.length else 0) ∧
      db'.countBookings e .waitlisted + (if eventId = e then ws.length else 0) =
        db.countBookings e .waitlisted := by
  induction h with
  | nil => simp
  | @cons db db₁ db₂ b rest hevent _ hseat _ ih =>
      have hc := hseat.count e .confirmed
      have hw := hseat.count e .waitlisted
      obtain ⟨ihc, ihw⟩ := ih
      by_cases he : eventId = e
      · simp [hevent, he] at hc hw ihc ihw ⊢
        omega
      · simp [hevent, he] at hc hw ihc ihw ⊢
        omega

theorem announces (h : Promotes now eventId db ws db') :
    Announced now db.outbox (ws.map fun b => .bookingConfirmation b.id) db'.outbox := by
  induction h with
  | nil db => exact .none now db.outbox
  | cons _ _ hseat _ ih => exact hseat.outbox.trans ih

end Promotes

theorem booking_ids_nodup (t : Table Booking Booking.Clash) : (t.rows.map Booking.id).Nodup :=
  List.pairwise_map.mpr (t.unique.imp fun h heq => h (.inl heq))

namespace Database

variable {db : Database} {oldestFirst : OrderBy Booking.createdAt} {eventId : Uuid} {take : ℕ}

theorem findWaiting_nodup : ((db.findWaiting oldestFirst eventId take).map Booking.id).Nodup := by
  have hsub : (db.findWaiting oldestFirst eventId take).Sublist
      (oldestFirst.sort (db.bookings.rows.filter fun b =>
        b.eventId == eventId && b.status == .waitlisted)) := List.take_sublist _ _
  refine (hsub.map Booking.id).nodup ?_
  refine ((oldestFirst.perm _).map Booking.id).nodup_iff.mpr ?_
  exact (List.filter_sublist.map Booking.id).nodup (booking_ids_nodup db.bookings)

theorem mem_findWaiting {b : Booking} (h : b ∈ db.findWaiting oldestFirst eventId take) :
    db.findBooking b.id = some b ∧ b.status = .waitlisted ∧ b.eventId = eventId := by
  have hmem := (oldestFirst.mem_sort).mp (List.mem_of_mem_take h)
  obtain ⟨hrow, hwhere⟩ := List.mem_filter.mp hmem
  simp only [Bool.and_eq_true, beq_iff_eq] at hwhere
  exact ⟨findBooking_eq_some_iff.mpr ⟨hrow, rfl⟩, hwhere.2, hwhere.1⟩

theorem length_findWaiting (db : Database) (oldestFirst : OrderBy Booking.createdAt)
    (eventId : Uuid) (take : ℕ) :
    (db.findWaiting oldestFirst eventId take).length =
      min take (db.countBookings eventId .waitlisted) := by
  simp [findWaiting, countBookings, Table.count, List.countP_eq_length_filter]

end Database

/-- The loop seats its bookings one by one, as long as seats last. -/
theorem promoteEach_promotes {ctx : TxContext} {eventId : Uuid} {event : Event} {n : ℕ}
    {ws : List Booking} {db db' : Database} (h : promoteEach ctx n ws db = .ok db')
    (hevent : db.findEvent eventId = some event)
    (hwaiting : ∀ w ∈ ws, db.findBooking w.id = some w ∧ w.status = .waitlisted ∧
      w.eventId = eventId)
    (hnodup : (ws.map Booking.id).Nodup)
    (hroom : (db.countBookings eventId .confirmed : ℤ) + ws.length ≤ event.capacity) :
    Promotes ctx.now eventId db ws db' := by
  induction ws generalizing n db with
  | nil =>
      simp only [promoteEach, Except.ok.injEq] at h
      exact h ▸ .nil db
  | cons w rest ih =>
      obtain ⟨hfind, hstatus, heid⟩ := hwaiting w (by simp)
      obtain ⟨hw, hrest⟩ : w.id ∉ rest.map Booking.id ∧ (rest.map Booking.id).Nodup :=
        List.nodup_cons.mp hnodup
      simp only [promoteEach] at h
      rw [Database.updateBooking_found hfind] at h
      simp only at h
      cases hcreate : createConfirmationOutbox ctx n w.id (db.withStatus w.id .confirmed) with
      | error failure => simp [hcreate] at h
      | ok db₂ =>
          simp only [hcreate] at h
          obtain ⟨outbox, hinsert, rfl⟩ := Database.createOutbox_ok hcreate
          have hmove := Database.withStatus_seatMove ctx.now .confirmed outbox hfind
            (by simpa [announcements] using Announced.of_insert hinsert)
          rw [hstatus] at hmove
          have hcount := hmove.count eventId .confirmed
          simp only [List.length_cons] at hroom
          have hseat : Seats ctx.now db (some .waitlisted) { w with status := .confirmed }
              ((db.withStatus w.id .confirmed).withOutbox outbox) := by
            refine ⟨hmove, by simp, rfl, event, by simpa [heid] using hevent, ?_⟩
            simp only [heid]
            omega
          refine .cons heid hfind hseat (ih h ?_ ?_ hrest ?_)
          · rw [hmove.findEvent, hevent]
          · intro v hv
            have hne : v.id ≠ w.id := fun heq => hw (heq ▸ List.mem_map.mpr ⟨v, hv, rfl⟩)
            rw [hmove.find, if_neg hne]
            exact hwaiting v (List.mem_cons_of_mem _ hv)
          · simp [heid] at hcount
            omega

theorem promoteWaitlistTx_ok {ctx : TxContext} {eventId : Uuid} {db db' : Database} {k : ℕ}
    (h : promoteWaitlistTx ctx eventId db = .ok (k, db')) :
    (db.findEvent eventId = none ∧ k = 0 ∧ db' = db) ∨
      ∃ event, db.findEvent eventId = some event ∧
        Promotes ctx.now eventId db (db.findWaiting ctx.oldestFirst eventId
          (openSeats event.capacity (db.countBookings eventId .confirmed))) db' ∧
        k = min (openSeats event.capacity (db.countBookings eventId .confirmed))
          (db.countBookings eventId .waitlisted) ∧
        (event.capacity ≤ db'.countBookings eventId .confirmed ∨
          db'.countBookings eventId .waitlisted = 0) := by
  unfold promoteWaitlistTx at h
  cases hevent : db.findEvent eventId with
  | none =>
      simp only [hevent, Except.ok.injEq, Prod.mk.injEq] at h
      exact .inl ⟨rfl, h.1.symm, h.2.symm⟩
  | some event =>
      right
      refine ⟨event, rfl, ?_⟩
      simp only [hevent] at h
      have hseats : (openSeats event.capacity (db.countBookings eventId .confirmed) : ℤ) =
          max 0 (event.capacity - db.countBookings eventId .confirmed) := by
        simp [openSeats]
      generalize hn : openSeats event.capacity (db.countBookings eventId .confirmed) = seats at *
      by_cases hzero : seats = 0
      · subst hzero
        simp only [if_true, Except.ok.injEq, Prod.mk.injEq] at h
        obtain ⟨rfl, rfl⟩ := h
        refine ⟨by simpa [Database.findWaiting] using Promotes.nil db, by simp, .inl ?_⟩
        omega
      · simp only [if_neg hzero] at h
        cases heach : promoteEach ctx 0 (db.findWaiting ctx.oldestFirst eventId seats) db with
        | error failure => simp [heach, Except.map] at h
        | ok db₁ =>
            simp only [heach, Except.map, Except.ok.injEq, Prod.mk.injEq] at h
            obtain ⟨rfl, rfl⟩ := h
            have hlength := db.length_findWaiting ctx.oldestFirst eventId seats
            have hpromotes := promoteEach_promotes heach hevent
              (fun w hw => Database.mem_findWaiting hw) Database.findWaiting_nodup (by omega)
            obtain ⟨hconf, hwait⟩ := hpromotes.count eventId
            simp only [if_true] at hconf hwait
            refine ⟨hpromotes, hlength, ?_⟩
            omega

theorem map_ok {ε β γ : Type} {x : Except ε β} {f : β → γ} {c : γ} (h : x.map f = .ok c) :
    ∃ b, x = .ok b ∧ f b = c := by
  cases x with
  | error e => simp [Except.map] at h
  | ok b => exact ⟨b, rfl, by simpa [Except.map] using h⟩

theorem toOption_eq_some_iff {ε β : Type} {x : Except ε β} {b : β} :
    x.toOption = some b ↔ x = .ok b := by
  cases x <;> simp [Except.toOption]

inductive Effect (now : Time) (db : Database) : Database → Prop
  | unchanged : Effect now db db
  | seats {old : Option BookingStatus} {row : Booking} {db' : Database}
      (h : Seats now db old row db') : Effect now db db'
  | queues {old : Option BookingStatus} {row : Booking} {db' : Database}
      (h : Queues now db old row db') : Effect now db db'
  | releases {old : Option BookingStatus} {row : Booking} {db' : Database}
      (h : Releases now db old row db') : Effect now db db'
  | promotes {eventId : Uuid} {ws : List Booking} {db' : Database}
      (h : Promotes now eventId db ws db') : Effect now db db'

theorem transaction_effect {ctx : TxContext} {op : BookingOp} {result : OpResult}
    {db db' : Database} (h : op.transaction ctx db = .ok (result, db')) :
    Effect ctx.now db db' := by
  cases op with
  | createBooking actor eventId =>
      obtain ⟨⟨b, db₁⟩, htx, heq⟩ := map_ok h
      obtain rfl : db₁ = db' := (Prod.mk.inj heq).2
      obtain ⟨event, old, -, -, -, -, -, ⟨rfl, -⟩ | hseat | hqueue⟩ := createBookingTx_ok htx
      · exact .unchanged
      · exact .seats hseat
      · exact .queues hqueue
  | cancelBooking id actor =>
      obtain ⟨⟨b, db₁⟩, htx, heq⟩ := map_ok h
      obtain rfl : db₁ = db' := (Prod.mk.inj heq).2
      obtain ⟨booking, -, -, -, ⟨rfl, -⟩ | hrelease⟩ := cancelBookingTx_ok htx
      · exact .unchanged
      · exact .releases hrelease
  | promoteWaitlist eventId =>
      obtain ⟨⟨k, db₁⟩, htx, heq⟩ := map_ok h
      obtain rfl : db₁ = db' := (Prod.mk.inj heq).2
      rcases promoteWaitlistTx_ok htx with ⟨-, -, rfl⟩ | ⟨event, -, hpromotes, -, -⟩
      · exact .unchanged
      · exact .promotes hpromotes

end Eventify
