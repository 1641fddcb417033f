import Eventify.Bookings.Fairness
import Eventify.Outbox.Waitlist

/-!
# When seats are granted, and past whom

`createBooking` grants a seat before the event starts, but past a waitlist
whose promotion is still owed; `promoteWaitlist` grants seats to whoever
waits, without a look at the start of the event.
-/

namespace Eventify

open Library

def StartsAfter (now : Time) (db : Database) (e : Uuid) : Prop :=
  ∃ event, db.findEvent e = some event ∧ now < event.startsAt

/-- Every seat and every confirmation that is new in `db'` is for an event that
started after `now`, as `db` has it. -/
structure Grants (now : Time) (db db' : Database) : Prop where
  seats : ∀ id b, db'.findBooking id = some b → b.status = .confirmed →
    db.statusOf id = some .confirmed ∨ StartsAfter now db b.eventId
  announced : ∀ row ∈ db'.outbox.rows, row ∈ db.outbox.rows ∨
    ∀ bookingId, row.intent = .bookingConfirmation bookingId →
      ∃ b, db'.findBooking bookingId = some b ∧ b.status = .confirmed ∧
        StartsAfter now db b.eventId

section Transactions

variable {now : Time} {db db₁ db' : Database}

theorem Grants.refl (now : Time) (db : Database) : Grants now db db := by
  constructor
  · intro id b hfind hconfirmed
    exact .inl (by simp [Database.statusOf, hfind, hconfirmed])
  · exact fun row hrow => .inl hrow

theorem Grants.trans (h : Grants now db db₁) (h' : Grants now db₁ db')
    (hevents : db₁.events = db.events)
    (hkept : ∀ id b, db₁.findBooking id = some b → b.status = .confirmed →
      db'.findBooking id = some b) : Grants now db db' := by
  have hstarts : ∀ e, StartsAfter now db₁ e → StartsAfter now db e := by
    rintro e ⟨event, hevent, hnow⟩
    refine ⟨event, ?_, hnow⟩
    rw [Database.findEvent, ← hevents]
    exact hevent
  constructor
  · intro id b hfind hconfirmed
    rcases h'.seats id b hfind hconfirmed with hbefore | hstart
    · obtain ⟨b₁, hfind₁, hconfirmed₁⟩ := Option.map_eq_some_iff.mp hbefore
      obtain rfl := Option.some.inj (hfind.symm.trans (hkept id b₁ hfind₁ hconfirmed₁))
      exact h.seats id b hfind₁ hconfirmed₁
    · exact .inr (hstarts _ hstart)
  · intro row hrow
    rcases h'.announced row hrow with hmid | hnew
    · rcases h.announced row hmid with hold | hnew
      · exact .inl hold
      · refine .inr fun bookingId hintent => ?_
        obtain ⟨b, hfind, hconfirmed, hstart⟩ := hnew bookingId hintent
        exact ⟨b, hkept bookingId b hfind hconfirmed, hconfirmed, hstart⟩
    · refine .inr fun bookingId hintent => ?_
      obtain ⟨b, hfind, hconfirmed, hstart⟩ := hnew bookingId hintent
      exact ⟨b, hfind, hconfirmed, hstarts _ hstart⟩

theorem SeatMove.grants {old : Option BookingStatus} {row : Booking}
    (h : SeatMove now db old row db')
    (hstarts : row.status = .confirmed → StartsAfter now db row.eventId) : Grants now db db' := by
  constructor
  · intro id b hfind hconfirmed
    rw [h.find] at hfind
    split at hfind
    · cases hfind
      exact .inr (hstarts hconfirmed)
    · exact .inl (by simp [Database.statusOf, hfind, hconfirmed])
  · intro out hout
    obtain ⟨added, hrows, hintents, -⟩ := h.outbox
    rw [hrows] at hout
    rcases List.mem_append.mp hout with hold | hadded
    · exact .inl hold
    · refine .inr fun bookingId hintent => ?_
      have hmem : Intent.bookingConfirmation bookingId ∈ announcements old row := by
        rw [← hintents, ← hintent]
        exact List.mem_map_of_mem hadded
      unfold announcements at hmem
      split at hmem
      next hconfirmed =>
        have hid : bookingId = row.id := by simpa using hmem
        exact ⟨row, by rw [hid]; exact h.find_self, hconfirmed, hstarts hconfirmed⟩
      · split at hmem <;> simp at hmem

theorem Promotes.keeps_confirmed {eventId : Uuid} {ws : List Booking}
    (h : Promotes now eventId db ws db') {id : Uuid} {b : Booking}
    (hfind : db.findBooking id = some b) (hconfirmed : b.status = .confirmed) :
    db'.findBooking id = some b := by
  rcases h.find id with ⟨b', -, -, -, hwaiting, hfind', -⟩ | ⟨-, hkept⟩
  · obtain rfl := Option.some.inj (hfind.symm.trans hfind')
    simp [hconfirmed] at hwaiting
  · exact hkept.trans hfind

theorem Promotes.grants {eventId : Uuid} {ws : List Booking}
    (h : Promotes now eventId db ws db') (hstarts : StartsAfter now db eventId) :
    Grants now db db' := by
  induction h with
  | nil db => exact .refl now db
  | @cons db db₁ db₂ b rest hevent _ hseat hrest ih =>
      have hstarts₁ : StartsAfter now db₁ eventId := by
        obtain ⟨event, hevent, hnow⟩ := hstarts
        exact ⟨event, by rw [hseat.findEvent, hevent], hnow⟩
      have hone : Grants now db db₁ := by
        apply hseat.toSeatMove.grants
        intro _
        simpa [hevent] using hstarts
      apply hone.trans (ih hstarts₁) hseat.events
      intro id b hfind hconfirmed
      exact hrest.keeps_confirmed hfind hconfirmed

theorem createBookingTx_grants {ctx : TxContext} {actor : AuthUser} {eventId : Uuid} {b : Booking}
    (h : createBookingTx ctx actor eventId db = .ok (b, db')) : Grants ctx.now db db' := by
  obtain ⟨event, old, hevent, hnow, -, heid, -, hcases⟩ := createBookingTx_ok h
  have hstarts : StartsAfter ctx.now db b.eventId := ⟨event, by rw [heid, hevent], hnow⟩
  rcases hcases with ⟨rfl, -⟩ | hseat | hqueue
  · exact .refl _ _
  · exact hseat.toSeatMove.grants fun _ => hstarts
  · exact hqueue.toSeatMove.grants fun _ => hstarts

theorem cancelBookingTx_grants {ctx : TxContext} {id : Uuid} {actor : AuthUser} {b : Booking}
    (h : cancelBookingTx ctx id actor db = .ok (b, db')) : Grants ctx.now db db' := by
  obtain ⟨booking, -, -, rfl, ⟨rfl, -⟩ | hrelease⟩ := cancelBookingTx_ok h
  · exact .refl _ _
  · apply hrelease.toSeatMove.grants
    simp

/-- The event starts later, or a promotion has no seat or nobody to seat. -/
def PromotesInTime (now : Time) (db : Database) (e : Uuid) : Prop :=
  match db.findEvent e with
  | none => True
  | some event => now < event.startsAt ∨
      openSeats event.capacity (db.countBookings e .confirmed) = 0 ∨
      db.countBookings e .waitlisted = 0

theorem promoteWaitlistTx_grants {ctx : TxContext} {e : Uuid} {k : ℕ}
    (h : promoteWaitlistTx ctx e db = .ok (k, db')) (htime : PromotesInTime ctx.now db e) :
    Grants ctx.now db db' := by
  rcases promoteWaitlistTx_ok h with ⟨-, -, rfl⟩ | ⟨event, hevent, hpromotes, -, -⟩
  · exact .refl _ _
  simp only [PromotesInTime, hevent] at htime
  rcases htime with hnow | hnone
  · exact hpromotes.grants ⟨event, hevent, hnow⟩
  · have hempty : db.findWaiting ctx.oldestFirst e
        (openSeats event.capacity (db.countBookings e .confirmed)) = [] := by
      apply List.eq_nil_of_length_eq_zero
      rw [Database.length_findWaiting]
      rcases hnone with hseats | hwaiting
      · simp [hseats]
      · simp [hwaiting]
    rw [hempty] at hpromotes
    cases hpromotes
    exact .refl _ _

end Transactions

variable {retentionDays : ℕ} {s t : Backend} {a : BackendAction}

/-- The clock that the transaction of a step reads. -/
def BackendAction.time : BackendAction → Option Time
  | transact ctx _ => some ctx.now
  | handlerReturns _ ctx => some ctx.now
  | _ => none

/-- Whatever the step confirms or announces as confirmed, it does in a
transaction that reads a start of the event later than its own time. -/
structure GrantsInTime (s : Backend) (a : BackendAction) (t : Backend) : Prop where
  seats : ∀ id b, t.db.findBooking id = some b → b.status = .confirmed →
    s.db.statusOf id = some .confirmed ∨
      ∃ now, a.time = some now ∧ StartsAfter now s.db b.eventId
  announced : ∀ row ∈ t.db.outbox.rows, (∃ old ∈ s.db.outbox.rows, old.id = row.id) ∨
    ∀ bookingId, row.intent = .bookingConfirmation bookingId →
      ∃ now b, a.time = some now ∧ t.db.findBooking bookingId = some b ∧
        b.status = .confirmed ∧ StartsAfter now s.db b.eventId

def SeatsBeforeStart (retentionDays : ℕ) (s : Backend) (a : BackendAction) : Prop :=
  ∀ t, backendStep retentionDays s a = some t → GrantsInTime s a t

/-- No promotion with a free seat and a waiting booking runs from the start of
the event on. -/
def PromotesBeforeStart (s : Backend) : BackendAction → Prop
  | .transact ctx (.promoteWaitlist e) => PromotesInTime ctx.now s.db e
  | .handlerReturns i ctx =>
      match s.executions[i]? with
      | some ⟨_, .waitlistPromotion e, false⟩ => PromotesInTime ctx.now s.db e
      | _ => True
  | _ => True

instance (now : Time) (db : Database) (e : Uuid) : Decidable (PromotesInTime now db e) := by
  unfold PromotesInTime
  split <;> infer_instance

instance (s : Backend) (a : BackendAction) : Decidable (PromotesBeforeStart s a) := by
  unfold PromotesBeforeStart
  split
  · infer_instance
  · split <;> infer_instance
  · infer_instance

theorem Grants.inTime {now : Time} (h : Grants now s.db t.db) (htime : a.time = some now) :
    GrantsInTime s a t := by
  constructor
  · intro id b hfind hconfirmed
    exact (h.seats id b hfind hconfirmed).imp_right fun hstart => ⟨now, htime, hstart⟩
  · intro row hrow
    rcases h.announced row hrow with hold | hnew
    · exact .inl ⟨row, hold, rfl⟩
    · refine .inr fun bookingId hintent => ?_
      obtain ⟨b, hfind, hconfirmed, hstart⟩ := hnew bookingId hintent
      exact ⟨now, b, htime, hfind, hconfirmed, hstart⟩

/-- A step that touches no booking and draws no outbox row grants nothing. -/
theorem RowsChange.grantsInTime (h : RowsChange retentionDays s a t)
    (hcreated : t.created = s.created) (hbookings : t.db.bookings = s.db.bookings) :
    GrantsInTime s a t := by
  constructor
  · intro id b hfind hconfirmed
    rw [Database.findBooking, hbookings] at hfind
    left
    rw [Database.statusOf, Database.findBooking, hfind]
    exact congrArg some hconfirmed
  · intro row hrow
    left
    rcases h.origin hrow with hold | ⟨old, hold, hwrite⟩ | ⟨now, -, -, hdrawn, hfresh⟩
    · exact ⟨row, hold, rfl⟩
    · exact ⟨old, hold, hwrite.keys.1.symm⟩
    · rw [hcreated] at hdrawn
      exact absurd (List.mem_map_of_mem hdrawn) hfresh

theorem handlerReturns_grants {i : ℕ} {ctx : TxContext}
    (hgood : PromotesBeforeStart s (.handlerReturns i ctx))
    (h : backendStep retentionDays s (.handlerReturns i ctx) = some t) :
    GrantsInTime s (.handlerReturns i ctx) t := by
  cases backendStep_moves h with
  | @returns _ _ id intent u hget hu =>
      refine Grants.inTime ?_ rfl
      change Grants ctx.now s.db u.db
      cases intent with
      | bookingConfirmation bookingId =>
          cases hu
          exact .refl _ _
      | waitlistPromotion e =>
          obtain ⟨k, htx, -⟩ := Backend.processJob_promotes hu
          exact promoteWaitlistTx_grants htx (by simpa [PromotesBeforeStart, hget] using hgood)

theorem PromotesBeforeStart.seats (hgood : PromotesBeforeStart s a) :
    SeatsBeforeStart retentionDays s a := by
  intro t h
  have hchange := backendStep_change h
  have hrows := hchange.rows
  cases hchange with
  | @committed ctx op result _ htx =>
      refine Grants.inTime ?_ rfl
      cases op with
      | createBooking actor eventId =>
          obtain ⟨⟨b, db⟩, hcreate, heq⟩ := map_ok htx
          obtain rfl : db = t.db := (Prod.mk.inj heq).2
          exact createBookingTx_grants hcreate
      | cancelBooking id actor =>
          obtain ⟨⟨b, db⟩, hcancel, heq⟩ := map_ok htx
          obtain rfl : db = t.db := (Prod.mk.inj heq).2
          exact cancelBookingTx_grants hcancel
      | promoteWaitlist e =>
          obtain ⟨⟨k, db⟩, hpromote, heq⟩ := map_ok htx
          obtain rfl : db = t.db := (Prod.mk.inj heq).2
          exact promoteWaitlistTx_grants hpromote hgood
  | confirmed => exact handlerReturns_grants hgood h
  | promoted => exact handlerReturns_grants hgood h
  | quiet _ hdb hcreated => exact hrows.grantsInTime hcreated (by rw [hdb])
  | edited hdb hcreated => exact hrows.grantsInTime hcreated (by rw [hdb]; rfl)
  | enqueued _ hdb hcreated =>
      exact hrows.grantsInTime hcreated (Database.recordEnqueued_rows hdb).1
  | errored hdb hcreated => exact hrows.grantsInTime hcreated (Database.recordError_rows hdb).1
  | @marked i at_ mark _ _ hdb hcreated =>
      apply hrows.grantsInTime hcreated
      rw [hdb]
      cases mark <;> rfl
  | purged _ hdb hcreated => exact hrows.grantsInTime hcreated (by rw [hdb]; rfl)

/-- In every run whose promotions that have a seat to give come before the
start of the event, every seat is granted before the event starts. -/
theorem seats_granted_before_start (retentionDays : ℕ) (s : Backend) {acts : List BackendAction}
    (hgood : Along (backendStep retentionDays) PromotesBeforeStart s acts) :
    Along (backendStep retentionDays) (SeatsBeforeStart retentionDays) s acts :=
  Along.mono (I := fun _ => True) (fun _ _ _ hgood => hgood.seats)
    (fun _ _ _ _ _ _ => trivial) trivial hgood

/-- Ann's seat is vacated at time 0; its promotion starts 1500 later. -/
def promotionDue : List BackendAction :=
  vacatedRun ++ [.beginPass 0 0, .select 0 (OrderBy.stable _), .add 0, .recordEnqueued 0 0,
    .add 0, .recordEnqueued 0 0, .endPass 0, .tick 1500, .startJob "c-0"]

theorem seats_granted_before_start_due :
    Along (backendStep 7) (SeatsBeforeStart 7) (.start soloDatabase 0)
      (promotionDue ++ [.handlerReturns 0 (drawing 999 "p")]) :=
  seats_granted_before_start 7 _ (by decide)

/-- The promotion seats Bob 500 milliseconds into the event. -/
theorem seat_granted_after_start :
    ∃ s t, exec (backendStep 7) (.start soloDatabase 0) promotionDue = some s ∧
      backendStep 7 s (.handlerReturns 0 (drawing 1500 "p")) = some t ∧
      s.db.statusOf "b-0" = some .waitlisted ∧ t.db.statusOf "b-0" = some .confirmed ∧
      ¬ SeatsBeforeStart 7 s (.handlerReturns 0 (drawing 1500 "p")) := by
  refine ⟨_, _, rfl, rfl, rfl, rfl, ?_⟩
  intro hsafe
  rcases (hsafe _ rfl).seats "b-0" _ rfl rfl with hbefore | ⟨now, htime, event, hevent, hnow⟩
  · exact absurd hbefore (by decide)
  · cases htime
    cases hevent
    exact absurd hnow (by decide)

theorem stranded_of_confirmed {ctx : TxContext} {actor : AuthUser} {e : Uuid} {b x : Booking}
    {db db' : Database} (htx : createBookingTx ctx actor e db = .ok (b, db'))
    (hconfirmed : b.status = .confirmed) (hx : x ∈ db.waiting e) : Stranded db e := by
  obtain ⟨event, old, -, -, -, heid, -, hcases⟩ := createBookingTx_ok htx
  constructor
  · rcases hcases with ⟨-, -, hwaitlisted, -⟩ | hseat | hqueue
    · simp [hconfirmed] at hwaitlisted
    · simpa [heid] using hseat.room
    · have hafter := hqueue.after
      simp [hconfirmed] at hafter
  · have hcount : db.countBookings e .waitlisted = (db.waiting e).length :=
      List.countP_eq_length_filter
    rw [hcount]
    exact List.length_pos_of_mem hx

/-- A call of `createBooking` takes a seat while somebody waits only while the
newest promotion of a freed seat is still owed; right after a promotion none does. -/
theorem seat_taken_while_promotion_owed {db : Database} {now : Time} {acts : List BackendAction}
    {e : Uuid} (hempty : db.bookings.rows = [])
    (hgood : Along (backendStep retentionDays) (RaisesNoFullCapacity e) (.start db now) acts)
    (hrun : exec (backendStep retentionDays) (.start db now) acts = some s) :
    (∀ ctx actor b db' x, createBookingTx ctx actor e s.db = .ok (b, db') →
      b.status = .confirmed → x ∈ s.db.waiting e →
        Stranded s.db e ∧
        ∃ row ∈ s.db.outbox.rows, s.newestPromotion e = some row.id ∧
          row.intent = .waitlistPromotion e ∧ row.id ∉ s.handled ∧
          (row.status = .pending ∨ row.status = .enqueued ∨ row.status = .failed)) ∧
    ∀ ctx k promoted, promoteWaitlistTx ctx e s.db = .ok (k, promoted) →
      ∀ ctx actor b db', createBookingTx ctx actor e promoted = .ok (b, db') →
        b.status = .confirmed → promoted.waiting e = [] := by
  constructor
  · intro ctx actor b db' x htx hconfirmed hx
    have hstranded := stranded_of_confirmed htx hconfirmed hx
    obtain ⟨row, hrow, hnewest, hintent, hstatus, hunhandled⟩ :=
      (SeatInv.exec hempty hgood hrun).owed hstranded
    exact ⟨hstranded, row, hrow, hnewest, hintent, hunhandled, OutboxStatus.of_ne_sent hstatus⟩
  · intro ctx k promoted hpromote ctx' actor b db' htx hconfirmed
    by_contra hne
    obtain ⟨x, hx⟩ := List.exists_mem_of_ne_nil _ hne
    exact not_stranded_of_promoteWaitlistTx hpromote (stranded_of_confirmed htx hconfirmed hx)

theorem seat_taken_while_promotion_owed_vacated :
    ∃ s, exec (backendStep 7) (.start soloDatabase 0) vacatedRun = some s ∧
      (∃ b db', createBookingTx (drawing 0 "d") ⟨"cid", .attendee⟩ "e" s.db = .ok (b, db') ∧
        b.status = .confirmed) ∧
      ∃ row ∈ s.db.outbox.rows, s.newestPromotion "e" = some row.id ∧
        row.intent = .waitlistPromotion "e" ∧ row.id ∉ s.handled ∧
        (row.status = .pending ∨ row.status = .enqueued ∨ row.status = .failed) := by
  obtain ⟨s, hs, b, db', htx, hconfirmed, x, hx⟩ : ∃ s,
      exec (backendStep 7) (.start soloDatabase 0) vacatedRun = some s ∧
        ∃ b db', createBookingTx (drawing 0 "d") ⟨"cid", .attendee⟩ "e" s.db = .ok (b, db') ∧
          b.status = .confirmed ∧ ∃ x, x ∈ s.db.waiting "e" :=
    ⟨_, rfl, _, _, rfl, rfl, _, List.mem_cons_self⟩
  have howed := (seat_taken_while_promotion_owed rfl (along_of_forall_mem ?_) hs).1
    _ _ b db' x htx hconfirmed hx
  · exact ⟨s, hs, ⟨b, db', htx, hconfirmed⟩, howed.2⟩
  · intro a ha u patch actor read event capacity heq
    simp [vacatedRun, heq] at ha

/-- Cid books after Ann's cancellation and is seated past Bob, who waits. -/
theorem newcomer_overtakes :
    ∃ s b db', exec (backendStep 7) (.start soloDatabase 0) vacatedRun = some s ∧
      createBookingTx (drawing 0 "d") ⟨"cid", .attendee⟩ "e" s.db = .ok (b, db') ∧
      s.db.findBookingOf "cid" "e" = none ∧ b.status = .confirmed ∧
      s.db.statusOf "b-0" = some .waitlisted ∧ db'.statusOf "b-0" = some .waitlisted :=
  ⟨_, _, _, rfl, rfl, rfl, rfl, rfl, rfl⟩

end Eventify
