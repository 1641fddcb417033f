import Eventify.Bookings.Committed
import Eventify.Library.Machine

/-!
# Seats are neither oversold nor withheld

Runs of committed booking transactions with capacity edits in between. A
transaction that adds confirmed bookings ends within the capacity it read,
and a caller is only left waiting for a seat when there is none.
-/

namespace Eventify

open Library

/-- The seats given out so far fit the capacity, or none was added since. -/
def WithinRead (db db' : Database) (e : Uuid) : Prop :=
  db'.countBookings e .confirmed ≤ db.countBookings e .confirmed ∨
    ∃ event, db.findEvent e = some event ∧ (db'.countBookings e .confirmed : ℤ) ≤ event.capacity

section Moves

variable {now : Time} {db db' : Database} {old : Option BookingStatus} {row : Booking}

theorem Seats.count_confirmed (h : Seats now db old row db') (e : Uuid) :
    db'.countBookings e .confirmed =
      db.countBookings e .confirmed + (if row.eventId = e then 1 else 0) := by
  have hcount := h.count e .confirmed
  simpa [h.before, h.after] using hcount

theorem Seats.count_waitlisted_le (h : Seats now db old row db') (e : Uuid) :
    db'.countBookings e .waitlisted ≤ db.countBookings e .waitlisted := by
  have hcount := h.count e .waitlisted
  simp only [h.after, reduceCtorEq, and_false, if_false] at hcount
  omega

theorem Queues.count_confirmed (h : Queues now db old row db') (e : Uuid) :
    db'.countBookings e .confirmed = db.countBookings e .confirmed := by
  have hcount := h.count e .confirmed
  rcases h.before with hold | hold <;> simpa [hold, h.after] using hcount

theorem Queues.count_waitlisted (h : Queues now db old row db') (e : Uuid) :
    db'.countBookings e .waitlisted =
      db.countBookings e .waitlisted + (if row.eventId = e then 1 else 0) := by
  have hcount := h.count e .waitlisted
  rcases h.before with hold | hold <;> simpa [hold, h.after] using hcount

theorem Releases.count_confirmed_le (h : Releases now db old row db') (e : Uuid) :
    db'.countBookings e .confirmed ≤ db.countBookings e .confirmed := by
  have hcount := h.count e .confirmed
  simp only [h.after, reduceCtorEq, and_false, if_false] at hcount
  omega

theorem Seats.withinRead (h : Seats now db old row db') (e : Uuid) : WithinRead db db' e := by
  by_cases he : row.eventId = e
  · obtain ⟨event, hevent, hroom⟩ := h.room
    have hcount := h.count_confirmed e
    rw [if_pos he] at hcount
    subst he
    exact .inr ⟨event, hevent, by omega⟩
  · exact .inl (by simp [h.count_confirmed e, he])

theorem Promotes.withinRead {eventId : Uuid} {ws : List Booking}
    (h : Promotes now eventId db ws db') (e : Uuid) : WithinRead db db' e := by
  induction h with
  | nil => exact .inl le_rfl
  | @cons db db₁ db₂ b rest _ _ hseat _ ih =>
      have hevents : db₁.findEvent e = db.findEvent e := hseat.findEvent e
      rcases ih with hle | ⟨event, hevent, hcap⟩
      · rcases hseat.withinRead e with hone | ⟨event, hevent, hcap⟩
        · exact .inl (hle.trans hone)
        · exact .inr ⟨event, hevent, by omega⟩
      · exact .inr ⟨event, hevents ▸ hevent, hcap⟩

end Moves

/-- Every committed transaction leaves each event within the capacity it
read, unless it gave no seat away. -/
theorem Effect.withinRead {now : Time} {db db' : Database} (h : Effect now db db') (e : Uuid) :
    WithinRead db db' e := by
  cases h with
  | unchanged => exact .inl le_rfl
  | seats h => exact h.withinRead e
  | queues h => exact .inl (h.count_confirmed e).le
  | releases h => exact .inl (h.count_confirmed_le e)
  | promotes h => exact h.withinRead e

theorem Effect.findEvent {now : Time} {db db' : Database} (h : Effect now db db') (e : Uuid) :
    db'.findEvent e = db.findEvent e := by
  cases h with
  | unchanged => rfl
  | seats h => exact h.findEvent e
  | queues h => exact h.findEvent e
  | releases h => exact h.findEvent e
  | promotes h => rw [Database.findEvent, h.events, Database.findEvent]

theorem createBookingTx_waitlisted {ctx : TxContext} {actor : AuthUser} {eventId : Uuid}
    {db db' : Database} {b : Booking} (h : createBookingTx ctx actor eventId db = .ok (b, db'))
    {event : Event} (hevent : db.findEvent eventId = some event)
    (hwait : (db'.findBookingOf actor.sub eventId).map Booking.status = some .waitlisted) :
    event.capacity ≤ db.countBookings eventId .confirmed := by
  obtain ⟨found, old, hfound, -, huser, heid, -, hcases⟩ := createBookingTx_ok h
  obtain rfl : found = event := Option.some.inj (hfound.symm.trans hevent)
  rcases hcases with ⟨-, -, -, hfull⟩ | hseat | hqueue
  · exact hfull
  · have hrow : db'.findBooking b.id = some b := by simp [hseat.find]
    have hof := Database.findBookingOf_of_findBooking hrow
    rw [huser, heid] at hof
    simp [hof, hseat.after] at hwait
  · obtain ⟨event', hevent', hfull⟩ := hqueue.full
    rw [heid] at hevent' hfull
    obtain rfl : event' = found := Option.some.inj (hevent'.symm.trans hfound)
    exact hfull

/-- A committed transaction, or an edit of a capacity by its organizer. -/
inductive SeatAction where
  | transaction (ctx : TxContext) (op : BookingOp)
  | editCapacity (eventId : Uuid) (capacity : ℤ)

theorem withCapacity_keepsKeys (capacity : ℤ) :
    Table.KeepsKeys Event.Clash fun e => { e with capacity } := fun _ _ => ⟨Iff.rfl, Iff.rfl⟩

def Database.withCapacity (db : Database) (eventId : Uuid) (capacity : ℤ) : Database :=
  { db with
    events := db.events.updateWhere (fun e => e.id == eventId) _ (withCapacity_keepsKeys capacity) }

def seatStep (db : Database) : SeatAction → Option Database
  | .transaction ctx op => ((op.transaction ctx db).map Prod.snd).toOption
  | .editCapacity eventId capacity => some (db.withCapacity eventId capacity)

theorem seatStep_transaction {db db' : Database} {ctx : TxContext} {op : BookingOp} :
    seatStep db (.transaction ctx op) = some db' ↔
      ∃ result, op.transaction ctx db = .ok (result, db') := by
  simp only [seatStep]
  cases op.transaction ctx db with
  | error failure => simp [Except.map, Except.toOption]
  | ok p =>
      obtain ⟨result, db₁⟩ := p
      simp [Except.map, Except.toOption]

def bookingCalls (eventId : Uuid) (calls : List (TxContext × AuthUser)) : List SeatAction :=
  calls.map fun call => .transaction call.1 (.createBooking call.2 eventId)

theorem SeatMove.findBookingOf_of_ne {now : Time} {db db' : Database}
    {old : Option BookingStatus} {row : Booking} (h : SeatMove now db old row db') {userId : Uuid}
    (hne : row.userId ≠ userId) (e : Uuid) :
    db'.findBookingOf userId e = db.findBookingOf userId e := by
  have hforward : ∀ b, db.findBookingOf userId e = some b →
      db'.findBookingOf userId e = some b := by
    intro b hb
    obtain ⟨huser, heid⟩ := Database.findBookingOf_keys hb
    have hfind := Database.findBooking_of_findBookingOf hb
    have hid : b.id ≠ row.id := by
      intro hid
      have hkeep := h.keeps b (hid ▸ hfind)
      exact hne (by rw [hkeep]; exact huser)
    have hfind' : db'.findBooking b.id = some b := by rw [h.find, if_neg hid, hfind]
    simpa [huser, heid] using Database.findBookingOf_of_findBooking hfind'
  cases hdb : db.findBookingOf userId e with
  | some b => exact hforward b hdb
  | none =>
      cases hdb' : db'.findBookingOf userId e with
      | none => rfl
      | some b =>
          obtain ⟨huser, heid⟩ := Database.findBookingOf_keys hdb'
          have hfind' := Database.findBooking_of_findBookingOf hdb'
          rw [h.find] at hfind'
          by_cases hid : b.id = row.id
          · rw [if_pos hid] at hfind'
            exact (hne (Option.some.inj hfind' ▸ huser)).elim
          · rw [if_neg hid] at hfind'
            have hof := Database.findBookingOf_of_findBooking hfind'
            rw [huser, heid, hdb] at hof
            simp at hof

theorem newcomer_moves {ctx : TxContext} {actor : AuthUser} {e : Uuid} {event : Event}
    {db db' : Database} {result : OpResult} (hevent : db.findEvent e = some event)
    (hnew : db.findBookingOf actor.sub e = none)
    (h : (BookingOp.createBooking actor e).transaction ctx db = .ok (result, db')) :
    ∃ b, b.userId = actor.sub ∧ b.eventId = e ∧ SeatMove ctx.now db none b db' ∧
      ((b.status = .confirmed ∧ (db.countBookings e .confirmed : ℤ) < event.capacity ∧
          db'.countBookings e .confirmed = db.countBookings e .confirmed + 1 ∧
          db'.countBookings e .waitlisted = db.countBookings e .waitlisted) ∨
        (b.status = .waitlisted ∧ event.capacity ≤ db.countBookings e .confirmed ∧
          db'.countBookings e .confirmed = db.countBookings e .confirmed ∧
          db'.countBookings e .waitlisted = db.countBookings e .waitlisted + 1)) := by
  obtain ⟨⟨b, db₁⟩, htx, heq⟩ := map_ok h
  obtain rfl : db₁ = db' := (Prod.mk.inj heq).2
  obtain ⟨found, old, hfound, -, huser, heid, hold, hcases⟩ := createBookingTx_ok htx
  obtain rfl : found = event := Option.some.inj (hfound.symm.trans hevent)
  obtain rfl : none = old := by simpa [hnew] using hold
  rcases hcases with ⟨-, hsome, -⟩ | hseat | hqueue
  · simp [hnew] at hsome
  · obtain ⟨event', hevent', hroom⟩ := hseat.room
    rw [heid] at hevent' hroom
    obtain rfl : event' = found := Option.some.inj (hevent'.symm.trans hfound)
    have hwait := hseat.count e .waitlisted
    refine ⟨b, huser, heid, hseat.toSeatMove, .inl ⟨hseat.after, hroom, ?_, ?_⟩⟩
    · simp [hseat.count_confirmed e, heid]
    · simpa [hseat.after] using hwait
  · obtain ⟨event', hevent', hfull⟩ := hqueue.full
    rw [heid] at hevent' hfull
    obtain rfl : event' = found := Option.some.inj (hevent'.symm.trans hfound)
    refine ⟨b, huser, heid, hqueue.toSeatMove, .inr ⟨hqueue.after, hfull, ?_, ?_⟩⟩
    · exact hqueue.count_confirmed e
    · simp [hqueue.count_waitlisted e, heid]

theorem SeatMove.newcomers {now : Time} {db db' : Database} {old : Option BookingStatus}
    {row : Booking} (h : SeatMove now db old row db') {e : Uuid}
    {calls : List (TxContext × AuthUser)}
    (hother : row.userId ∉ calls.map fun call => call.2.sub)
    (hnew : ∀ call ∈ calls, db.findBookingOf call.2.sub e = none) :
    ∀ call ∈ calls, db'.findBookingOf call.2.sub e = none := by
  intro call hcall
  have hne : row.userId ≠ call.2.sub := fun heq =>
    hother (List.mem_map.mpr ⟨call, hcall, heq.symm⟩)
  rw [h.findBookingOf_of_ne hne]
  exact hnew call hcall

theorem bookingCalls_keep {e u : Uuid} {calls : List (TxContext × AuthUser)}
    {db db' : Database} {event : Event} (hevent : db.findEvent e = some event)
    (hnew : ∀ call ∈ calls, db.findBookingOf call.2.sub e = none)
    (hdistinct : (calls.map fun call => call.2.sub).Nodup)
    (hother : ∀ call ∈ calls, call.2.sub ≠ u)
    (h : exec seatStep db (bookingCalls e calls) = some db') :
    db'.findBookingOf u e = db.findBookingOf u e := by
  induction calls generalizing db with
  | nil => simp [Option.some.inj h]
  | cons call rest ih =>
      obtain ⟨db₁, hone, hrest⟩ := exec_cons_iff.mp h
      obtain ⟨result, htx⟩ := seatStep_transaction.mp hone
      obtain ⟨b, huser, -, hmove, -⟩ := newcomer_moves hevent (hnew call (by simp)) htx
      obtain ⟨hfirst, hnodup⟩ := List.nodup_cons.mp hdistinct
      have hstep := hmove.findBookingOf_of_ne (huser ▸ hother call (by simp)) e
      rw [← hstep]
      exact ih (by rw [hmove.findEvent, hevent])
        (hmove.newcomers (huser ▸ hfirst) fun c hc => hnew c (List.mem_cons_of_mem _ hc)) hnodup
        (fun c hc => hother c (List.mem_cons_of_mem _ hc)) hrest

theorem bookingCalls_fill {e : Uuid} {event : Event} {calls : List (TxContext × AuthUser)}
    {db db' : Database} (hevent : db.findEvent e = some event)
    (hnew : ∀ call ∈ calls, db.findBookingOf call.2.sub e = none)
    (hdistinct : (calls.map fun call => call.2.sub).Nodup)
    (hfits : db.countBookings e .confirmed ≤ event.capacity.toNat)
    (h : exec seatStep db (bookingCalls e calls) = some db') :
    db'.countBookings e .confirmed =
        min (db.countBookings e .confirmed + calls.length) event.capacity.toNat ∧
      db'.countBookings e .confirmed + db'.countBookings e .waitlisted =
        db.countBookings e .confirmed + db.countBookings e .waitlisted + calls.length ∧
      ∀ call ∈ calls, ∃ b, db'.findBookingOf call.2.sub e = some b ∧
        (b.status = .confirmed ∨ b.status = .waitlisted) := by
  induction calls generalizing db with
  | nil =>
      cases h
      exact ⟨by simpa using hfits, by simp, by simp⟩
  | cons call rest ih =>
      obtain ⟨db₁, hone, hrest⟩ := exec_cons_iff.mp h
      obtain ⟨result, htx⟩ := seatStep_transaction.mp hone
      obtain ⟨b, huser, heid, hmove, hcounts⟩ := newcomer_moves hevent (hnew call (by simp)) htx
      obtain ⟨hfirst, hnodup⟩ := List.nodup_cons.mp hdistinct
      have hevent₁ : db₁.findEvent e = some event := by rw [hmove.findEvent, hevent]
      have hnew₁ := hmove.newcomers (huser ▸ hfirst) fun c hc =>
        hnew c (List.mem_cons_of_mem _ hc)
      have hfits₁ : db₁.countBookings e .confirmed ≤ event.capacity.toNat := by
        rcases hcounts with ⟨-, hroom, hc, -⟩ | ⟨-, -, hc, -⟩ <;> omega
      obtain ⟨hconf, hsum, hcallers⟩ := ih hevent₁ hnew₁ hnodup hfits₁ hrest
      refine ⟨?_, ?_, ?_⟩
      · rcases hcounts with ⟨-, hroom, hc, -⟩ | ⟨-, hfull, hc, -⟩ <;>
          simp only [List.length_cons] <;> omega
      · rcases hcounts with ⟨-, -, hc, hw⟩ | ⟨-, -, hc, hw⟩ <;>
          simp only [List.length_cons] <;> omega
      · intro c hc
        rcases List.mem_cons.mp hc with rfl | hc
        · have hrow : db₁.findBooking b.id = some b := by simp [hmove.find]
          have hof := Database.findBookingOf_of_findBooking hrow
          rw [huser, heid] at hof
          have hkeep := bookingCalls_keep hevent₁ hnew₁ hnodup (u := c.2.sub)
            (fun d hd heq => hfirst (List.mem_map.mpr ⟨d, hd, heq⟩)) hrest
          refine ⟨b, hkeep.trans hof, ?_⟩
          rcases hcounts with ⟨hb, -⟩ | ⟨hb, -⟩
          · exact .inl hb
          · exact .inr hb
        · exact hcallers c hc

theorem createBookingTx_commits {ctx : TxContext} {actor : AuthUser} {e : Uuid} {event : Event}
    {db : Database} (hevent : db.findEvent e = some event) (hstart : ctx.now < event.startsAt)
    (hnew : db.findBookingOf actor.sub e = none)
    (hbooking : ∀ b ∈ db.bookings.rows, b.id ≠ ctx.newId 0)
    (houtbox : ∀ r ∈ db.outbox.rows, r.id ≠ ctx.newId 1) :
    ∃ b db', createBookingTx ctx actor e db = .ok (b, db') := by
  let row : Booking := ⟨ctx.newId 0, actor.sub, e,
    nextStatus (db.countBookings e .confirmed) event.capacity, ctx.now⟩
  have hclash : ∀ b ∈ db.bookings.rows, ¬ Booking.Clash b row := by
    rintro b hb (hid | ⟨huser, heid⟩)
    · exact hbooking b hb hid
    · have hnone := List.find?_eq_none.mp hnew b hb
      simp [huser, heid, row] at hnone
  obtain ⟨bookings, hinsert⟩ : ∃ bookings, db.bookings.insert row = some bookings :=
    Table.exists_insert hclash
  have hcreate : db.createBooking (ctx.newId 0) actor.sub e
      (nextStatus (db.countBookings e .confirmed) event.capacity) ctx.now =
        .ok (row, { db with bookings }) := by
    simp only [Database.createBooking]
    rw [hinsert]
  simp only [createBookingTx, hevent, not_le.mpr hstart, if_false, hnew, hcreate]
  by_cases hstatus : row.status = .confirmed
  · obtain ⟨outbox, hout⟩ : ∃ outbox, db.outbox.insert
        (Database.outboxRow (ctx.newId 1) (.bookingConfirmation row.id) ctx.now) = some outbox :=
      Table.exists_insert houtbox
    exact ⟨row, _, by
      simp [announceIfConfirmed, hstatus, createConfirmationOutbox, Database.createOutbox, hout,
        Except.map]; rfl⟩
  · exact ⟨row, { db with bookings }, by simp [announceIfConfirmed, hstatus]⟩

/-- A transaction that adds confirmed bookings ends within the capacity it
read, and `createBooking` leaves its caller waiting only for a full event. -/
def FillsSeats (db : Database) : SeatAction → Prop
  | .transaction ctx op => ∀ result db', op.transaction ctx db = .ok (result, db') →
      (∀ e, db.countBookings e .confirmed < db'.countBookings e .confirmed →
        ∃ event, db.findEvent e = some event ∧
          (db'.countBookings e .confirmed : ℤ) ≤ event.capacity) ∧
      ∀ actor e, op = .createBooking actor e →
        (db'.findBookingOf actor.sub e).map Booking.status = some .waitlisted →
          ∃ event, db.findEvent e = some event ∧
            event.capacity ≤ db.countBookings e .confirmed
  | .editCapacity _ _ => True

theorem fillsSeats (db : Database) (act : SeatAction) : FillsSeats db act := by
  cases act with
  | editCapacity eventId capacity => trivial
  | transaction ctx op =>
      intro result db' htx
      refine ⟨?_, ?_⟩
      · intro e hmore
        rcases (transaction_effect htx).withinRead e with hle | hwithin
        · omega
        · exact hwithin
      · rintro actor e rfl hwait
        obtain ⟨⟨b, db₁⟩, hcreate, heq⟩ := map_ok htx
        obtain rfl : db₁ = db' := (Prod.mk.inj heq).2
        obtain ⟨event, -, hevent, -⟩ := createBookingTx_ok hcreate
        exact ⟨event, hevent, createBookingTx_waitlisted hcreate hevent hwait⟩

/-- No booking transaction oversells or undersells, in any run of committed
transactions and capacity edits from any tables; newcomers to an event
without bookings take exactly its seats and then its waitlist. -/
theorem bookings_fill_capacity (db : Database) (acts : List SeatAction) :
    Along seatStep FillsSeats db acts ∧
    ∀ e event calls db', db.findEvent e = some event →
      (∀ b ∈ db.bookings.rows, b.eventId ≠ e) →
      (calls.map fun call => call.2.sub).Nodup →
      exec seatStep db (bookingCalls e calls) = some db' →
        db'.countBookings e .confirmed = min calls.length event.capacity.toNat ∧
        db'.countBookings e .waitlisted = calls.length - min calls.length event.capacity.toNat ∧
        ∀ call ∈ calls, ∃ b, db'.findBookingOf call.2.sub e = some b ∧
          (b.status = .confirmed ∨ b.status = .waitlisted) := by
  refine ⟨along_of_forall_mem fun a _ s => fillsSeats s a, ?_⟩
  intro e event calls db' hevent hempty hdistinct hcalls
  have hzero : ∀ status, db.countBookings e status = 0 := by
    intro status
    exact List.countP_eq_zero.mpr fun b hb => by simp [hempty b hb]
  have hnew : ∀ call ∈ calls, db.findBookingOf call.2.sub e = none := by
    intro call _
    exact List.find?_eq_none.mpr fun b hb => by simp [hempty b hb]
  obtain ⟨hconf, hsum, hcallers⟩ :=
    bookingCalls_fill hevent hnew hdistinct (by simp [hzero]) hcalls
  rw [hzero, Nat.zero_add] at hconf
  rw [hzero, hzero] at hsum
  exact ⟨hconf, by omega, hcallers⟩

def soloCalls : List (TxContext × AuthUser) :=
  [(drawing 0 "a", ⟨"ann", .attendee⟩), (drawing 1 "b", ⟨"bob", .attendee⟩)]

theorem bookings_fill_capacity_solo :
    ∃ db', exec seatStep soloDatabase (bookingCalls "e" soloCalls) = some db' ∧
      db'.countBookings "e" .confirmed = 1 ∧ db'.countBookings "e" .waitlisted = 1 := by
  obtain ⟨db', h⟩ : ∃ db', exec seatStep soloDatabase (bookingCalls "e" soloCalls) = some db' :=
    ⟨_, rfl⟩
  have hfill := (bookings_fill_capacity soloDatabase []).2 "e" soloEvent
    soloCalls db' rfl (by simp [soloDatabase, Table.empty]) (by decide) h
  exact ⟨db', h, hfill.1, hfill.2.1⟩

end Eventify
