import Eventify.Bookings.Committed

/-!
# What a booking operation does to single bookings

The same transactions seen from one booking: it is created for the caller,
given another status by somebody who may, or left as it is.
-/

namespace Eventify

/-- The operation is a request of the booking's own user, an admin's cancel, or
a promotion off the waitlist. -/
def BookingOp.Authorizes (old new : Booking) : BookingOp → Prop
  | createBooking actor _ => actor.sub = old.userId
  | cancelBooking _ actor =>
      (actor.sub = old.userId ∨ actor.role = .admin) ∧ new.status = .cancelled
  | promoteWaitlist _ => old.status = .waitlisted ∧ new.status = .confirmed

/-- What an operation may do to the booking of an id: create it for its caller,
leave it, or give it a status that the operation may give it. -/
def BookingOp.Keeps (op : BookingOp) (now : Time) : Option Booking → Option Booking → Prop
  | none, none => True
  | none, some new => new.createdAt = now ∧
      ∃ actor eventId, op = .createBooking actor eventId ∧ new.userId = actor.sub
  | some _, none => False
  | some old, some new =>
      new = { old with status := new.status } ∧ (new.status = old.status ∨ op.Authorizes old new)

theorem BookingOp.Keeps.refl (op : BookingOp) (now : Time) (booking : Option Booking) :
    op.Keeps now booking booking := by
  cases booking with
  | none => trivial
  | some b => exact ⟨rfl, .inl rfl⟩

theorem SeatMove.keeps_bookings {now : Time} {db db' : Database} {old : Option BookingStatus}
    {row : Booking} {op : BookingOp} (h : SeatMove now db old row db')
    (hcreated : db.findBooking row.id = none →
      ∃ actor eventId, op = .createBooking actor eventId ∧ row.userId = actor.sub)
    (hchanged : ∀ prior, db.findBooking row.id = some prior → op.Authorizes prior row) (id : Uuid) :
    op.Keeps now (db.findBooking id) (db'.findBooking id) := by
  rw [h.find]
  by_cases hid : id = row.id
  · subst hid
    rw [if_pos rfl]
    cases hprior : db.findBooking row.id with
    | none => exact ⟨h.created hprior, hcreated hprior⟩
    | some prior => exact ⟨h.keeps prior hprior, .inr (hchanged prior hprior)⟩
  · rw [if_neg hid]
    exact .refl op now _

/-- A promotion confirms the bookings of its list and leaves the others. -/
theorem Promotes.find {now : Time} {eventId : Uuid} {db db' : Database} {ws : List Booking}
    (h : Promotes now eventId db ws db') (id : Uuid) :
    (∃ b ∈ ws, b.id = id ∧ b.eventId = eventId ∧ b.status = .waitlisted ∧
        db.findBooking id = some b ∧ db'.findBooking id = some { b with status := .confirmed }) ∨
      ((∀ b ∈ ws, b.id ≠ id) ∧ db'.findBooking id = db.findBooking id) := by
  induction h with
  | nil => exact .inr ⟨by simp, rfl⟩
  | @cons db db₁ db₂ b rest hevent hfind hseat _ ih =>
      have hwaiting : b.status = .waitlisted := by simpa [hfind] using hseat.status_before
      by_cases hid : id = b.id
      · subst hid
        have hseated : db₁.findBooking b.id = some { b with status := .confirmed } := by
          rw [hseat.find, if_pos rfl]
        rcases ih with ⟨b', -, -, -, hwaiting', hfind', -⟩ | ⟨-, hkept⟩
        · -- the booking just seated waits no longer
          rw [hseated] at hfind'
          cases hfind'
          simp at hwaiting'
        · exact .inl ⟨b, List.mem_cons_self, rfl, hevent, hwaiting, hfind, hkept.trans hseated⟩
      · have hother : db₁.findBooking id = db.findBooking id := by rw [hseat.find, if_neg hid]
        rcases ih with ⟨b', hb', hid', hevent', hwaiting', hfind', hseated⟩ | ⟨hnone, hkept⟩
        · exact .inl ⟨b', List.mem_cons_of_mem b hb', hid', hevent', hwaiting', hother ▸ hfind',
            hseated⟩
        · refine .inr ⟨?_, hkept.trans hother⟩
          intro b' hb'
          rcases List.mem_cons.mp hb' with rfl | hrest
          · exact Ne.symm hid
          · exact hnone b' hrest

theorem Promotes.keeps_bookings {now : Time} {eventId e : Uuid} {db db' : Database}
    {ws : List Booking} (h : Promotes now eventId db ws db') (id : Uuid) :
    (BookingOp.promoteWaitlist e).Keeps now (db.findBooking id) (db'.findBooking id) := by
  rcases h.find id with ⟨b, -, -, -, hwaiting, hfind, hseated⟩ | ⟨-, hkept⟩
  · rw [hfind, hseated]
    exact ⟨rfl, .inr ⟨hwaiting, rfl⟩⟩
  · rw [hkept]
    exact .refl _ _ _

theorem transaction_keeps_bookings {ctx : TxContext} {op : BookingOp} {result : OpResult}
    {db db' : Database} (h : op.transaction ctx db = .ok (result, db')) (id : Uuid) :
    op.Keeps ctx.now (db.findBooking id) (db'.findBooking id) := by
  cases op with
  | createBooking actor eventId =>
      obtain ⟨⟨b, db₁⟩, htx, heq⟩ := map_ok h
      obtain rfl : db₁ = db' := (Prod.mk.inj heq).2
      obtain ⟨event, old, -, -, huser, -, -, hcases⟩ := createBookingTx_ok htx
      have hmove : ∀ move : SeatMove ctx.now db old b db₁,
          (BookingOp.createBooking actor eventId).Keeps ctx.now (db.findBooking id)
            (db₁.findBooking id) := by
        intro move
        refine move.keeps_bookings (fun _ => ⟨actor, eventId, rfl, huser⟩) ?_ id
        intro prior hprior
        have hsame := move.keeps prior hprior
        calc
          actor.sub = b.userId := huser.symm
          _ = prior.userId := by rw [hsame]
      rcases hcases with ⟨rfl, -⟩ | hseat | hqueue
      · exact .refl _ _ _
      · exact hmove hseat.toSeatMove
      · exact hmove hqueue.toSeatMove
  | cancelBooking bookingId actor =>
      obtain ⟨⟨b, db₁⟩, htx, heq⟩ := map_ok h
      obtain rfl : db₁ = db' := (Prod.mk.inj heq).2
      obtain ⟨booking, hbooking, howner, rfl, ⟨rfl, -⟩ | hrelease⟩ := cancelBookingTx_ok htx
      · exact .refl _ _ _
      · have hfind : db.findBooking booking.id = some booking :=
          Database.findBooking_id hbooking ▸ hbooking
        refine hrelease.toSeatMove.keeps_bookings (fun hnone => ?_) (fun prior hprior => ?_) id
        · simp [hfind] at hnone
        · obtain rfl := Option.some.inj (hfind.symm.trans hprior)
          exact ⟨howner.imp_left Eq.symm, rfl⟩
  | promoteWaitlist eventId =>
      obtain ⟨⟨k, db₁⟩, htx, heq⟩ := map_ok h
      obtain rfl : db₁ = db' := (Prod.mk.inj heq).2
      rcases promoteWaitlistTx_ok htx with ⟨-, -, rfl⟩ | ⟨event, -, hpromotes, -, -⟩
      · exact .refl _ _ _
      · exact hpromotes.keeps_bookings id

end Eventify
