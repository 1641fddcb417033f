import Eventify.Bookings.Calls
import Eventify.Bookings.Seats

/-!
# The booking ledger

Every way into a seat writes one confirmation, every way out of one writes
one promotion. So the outbox rows ever created for an event account for its
confirmed bookings, and those of one booking count its confirmations.
-/

namespace Eventify

open Library

def isConfirmationFor (id : Uuid) : Intent → Bool
  | .bookingConfirmation bookingId => bookingId == id
  | .waitlistPromotion _ => false

def isConfirmationIn (db : Database) (eventId : Uuid) : Intent → Bool
  | .bookingConfirmation bookingId =>
      (db.findBooking bookingId).map Booking.eventId == some eventId
  | .waitlistPromotion _ => false

def isPromotionOf (eventId : Uuid) : Intent → Bool
  | .bookingConfirmation _ => false
  | .waitlistPromotion promoted => promoted == eventId

namespace Database

def statusOf (db : Database) (id : Uuid) : Option BookingStatus :=
  (db.findBooking id).map Booking.status

def intents (db : Database) : List Intent := db.outbox.rows.map NotificationOutbox.intent

end Database

/-- `added` is what the outbox gains between two states, and it accounts for
the confirmed bookings of every event. -/
structure Recorded (db db' : Database) (added : List Intent) : Prop where
  intents : db'.intents = db.intents ++ added
  keeps : ∀ i b, db.findBooking i = some b →
    ∃ b', db'.findBooking i = some b' ∧ b'.eventId = b.eventId
  known : ∀ i, .bookingConfirmation i ∈ added → ∃ b, db'.findBooking i = some b
  balance : ∀ e, added.countP (isConfirmationIn db' e) + db.countBookings e .confirmed =
    added.countP (isPromotionOf e) + db'.countBookings e .confirmed

namespace Recorded

variable {db db₁ db₂ : Database} {xs ys : List Intent}

theorem refl (db : Database) : Recorded db db [] :=
  ⟨by simp, fun _ b hb => ⟨b, hb, rfl⟩, by simp, by simp⟩

theorem count_confirmationIn (h : Recorded db₁ db₂ ys)
    (hknown : ∀ i, .bookingConfirmation i ∈ xs → ∃ b, db₁.findBooking i = some b) (e : Uuid) :
    xs.countP (isConfirmationIn db₂ e) = xs.countP (isConfirmationIn db₁ e) := by
  apply List.countP_congr
  intro intent hmem
  cases intent with
  | waitlistPromotion promoted => rfl
  | bookingConfirmation i =>
      obtain ⟨b, hb⟩ := hknown i hmem
      obtain ⟨b', hb', heid⟩ := h.keeps i b hb
      simp [isConfirmationIn, hb, hb', heid]

theorem trans (h₁ : Recorded db db₁ xs) (h₂ : Recorded db₁ db₂ ys) :
    Recorded db db₂ (xs ++ ys) := by
  constructor
  · rw [h₂.intents, h₁.intents, List.append_assoc]
  · intro i b hb
    obtain ⟨b₁, hb₁, heq₁⟩ := h₁.keeps i b hb
    obtain ⟨b₂, hb₂, heq₂⟩ := h₂.keeps i b₁ hb₁
    exact ⟨b₂, hb₂, heq₂.trans heq₁⟩
  · intro i hi
    rcases List.mem_append.mp hi with hi | hi
    · obtain ⟨b, hb⟩ := h₁.known i hi
      obtain ⟨b', hb', -⟩ := h₂.keeps i b hb
      exact ⟨b', hb'⟩
    · exact h₂.known i hi
  · intro e
    have hbalance₁ := h₁.balance e
    have hbalance₂ := h₂.balance e
    rw [List.countP_append, List.countP_append, h₂.count_confirmationIn h₁.known e]
    omega

end Recorded

namespace SeatMove

variable {now : Time} {db db' : Database} {old : Option BookingStatus} {row : Booking}

theorem statusOf (h : SeatMove now db old row db') (id : Uuid) :
    db'.statusOf id = if id = row.id then some row.status else db.statusOf id := by
  rw [Database.statusOf, h.find]
  split <;> rfl

theorem old_eq (h : SeatMove now db old row db') : old = db.statusOf row.id := h.status_before.symm

theorem find_self (h : SeatMove now db old row db') : db'.findBooking row.id = some row := by
  simp [h.find]

theorem intents (h : SeatMove now db old row db') :
    db'.intents = db.intents ++ announcements old row := by
  obtain ⟨added, hrows, hintents, -⟩ := h.outbox
  simp [Database.intents, hrows, hintents]

theorem recorded (h : SeatMove now db old row db')
    (hbalance : ∀ e, (announcements old row).countP (isConfirmationIn db' e) +
        db.countBookings e .confirmed =
      (announcements old row).countP (isPromotionOf e) + db'.countBookings e .confirmed) :
    Recorded db db' (announcements old row) := by
  refine ⟨h.intents, ?_, ?_, hbalance⟩
  · intro i b hb
    rw [h.find]
    by_cases hi : i = row.id
    · subst hi
      exact ⟨row, if_pos rfl, by rw [h.keeps b hb]⟩
    · exact ⟨b, by rw [if_neg hi, hb], rfl⟩
  · intro i hi
    have hrow : i = row.id := by
      by_cases hafter : row.status = .confirmed
      · simpa [announcements, hafter] using hi
      · by_cases hold : old = some .confirmed <;> simp [announcements, hafter, hold] at hi
    exact ⟨row, hrow ▸ h.find_self⟩

end SeatMove

section Moves

variable {now : Time} {db db' : Database} {old : Option BookingStatus} {row : Booking}

theorem Seats.recorded (h : Seats now db old row db') :
    Recorded db db' [.bookingConfirmation row.id] := by
  have hann : announcements old row = [.bookingConfirmation row.id] := by
    simp [announcements, h.after]
  rw [← hann]
  apply h.toSeatMove.recorded
  intro e
  have hcount := h.count e .confirmed
  by_cases he : row.eventId = e
  · simp [hann, isConfirmationIn, isPromotionOf, h.find_self, h.before, h.after, he] at hcount ⊢
    omega
  · simp [hann, isConfirmationIn, isPromotionOf, h.find_self, he] at hcount ⊢
    omega

theorem Queues.recorded (h : Queues now db old row db') : Recorded db db' [] := by
  have hann : announcements old row = [] := by
    rcases h.before with hold | hold <;> simp [announcements, h.after, hold]
  rw [← hann]
  apply h.toSeatMove.recorded
  intro e
  have hcount := h.count e .confirmed
  rcases h.before with hold | hold <;>
    simpa [announcements, hold, h.after] using hcount.symm

theorem Releases.recorded (h : Releases now db old row db') :
    Recorded db db' (announcements old row) := by
  apply h.toSeatMove.recorded
  intro e
  have hcount := h.count e .confirmed
  rcases h.before with hold | hold
  · by_cases he : row.eventId = e <;>
      simp [announcements, hold, h.after, isConfirmationIn, isPromotionOf, he] at hcount ⊢ <;>
      omega
  · simpa [announcements, hold, h.after] using hcount.symm

end Moves

/-- `id` holds a seat, as a count. -/
def seated (db : Database) (id : Uuid) : ℕ := if db.statusOf id = some .confirmed then 1 else 0

def enters (db db' : Database) (id : Uuid) : ℕ :=
  if db.statusOf id ≠ some .confirmed ∧ db'.statusOf id = some .confirmed then 1 else 0

theorem Promotes.recorded {now : Time} {eventId : Uuid} {db db' : Database} {ws : List Booking}
    (h : Promotes now eventId db ws db') :
    ∃ added, Recorded db db' added ∧
      (∀ id, added.countP (isConfirmationFor id) + seated db id = seated db' id) := by
  induction h with
  | nil db => exact ⟨[], .refl db, by simp⟩
  | @cons db db₁ db₂ b rest _ _ hseat _ ih =>
      obtain ⟨added, hrecorded, hseated⟩ := ih
      refine ⟨_, hseat.recorded.trans hrecorded, ?_⟩
      intro id
      have hrest := hseated id
      have hbefore := hseat.before
      rw [hseat.old_eq] at hbefore
      by_cases hid : id = b.id
      · subst hid
        simp only [seated, hseat.statusOf, if_true] at hrest
        simp [seated, isConfirmationFor, hbefore] at hrest ⊢
        omega
      · have hne : (b.id == id) = false := by simpa using fun heq => hid heq.symm
        simp only [seated, hseat.statusOf, if_neg hid] at hrest
        simp [seated, isConfirmationFor, hne] at hrest ⊢
        omega

theorem enters_of_seated {db db' : Database} {id : Uuid} {n : ℕ}
    (h : n + seated db id = seated db' id) : n = enters db db' id := by
  unfold seated at h
  unfold enters
  by_cases hbefore : db.statusOf id = some .confirmed
  · rw [if_pos hbefore] at h
    rw [if_neg fun hnew => hnew.1 hbefore]
    split at h <;> omega
  · by_cases hafter : db'.statusOf id = some .confirmed
    · rw [if_neg hbefore, if_pos hafter] at h
      rw [if_pos ⟨hbefore, hafter⟩]
      exact h
    · rw [if_neg hbefore, if_neg hafter] at h
      rw [if_neg fun hnew => hafter hnew.2]
      exact h

/-- What every committed transaction records: intents that balance the
confirmed bookings, with one confirmation for each booking it confirms. -/
theorem Effect.recorded {now : Time} {db db' : Database} (h : Effect now db db') :
    ∃ added, Recorded db db' added ∧
      ∀ id, added.countP (isConfirmationFor id) = enters db db' id := by
  cases h with
  | unchanged => exact ⟨[], .refl db, fun id => by simp [enters]⟩
  | @seats old row _ h =>
      refine ⟨_, h.recorded, fun id => enters_of_seated ?_⟩
      have hbefore := h.before
      rw [h.old_eq] at hbefore
      by_cases hid : id = row.id
      · subst hid
        simp [seated, h.statusOf, isConfirmationFor, hbefore, h.after]
      · have hne : (row.id == id) = false := by simpa using fun heq => hid heq.symm
        simp [seated, h.statusOf, isConfirmationFor, hid, hne]
  | @queues old row _ h =>
      refine ⟨[], h.recorded, fun id => ?_⟩
      by_cases hid : id = row.id <;> simp [enters, h.statusOf, hid, h.after]
  | @releases old row _ h =>
      refine ⟨_, h.recorded, fun id => ?_⟩
      have hnone : (announcements old row).countP (isConfirmationFor id) = 0 := by
        by_cases hold : old = some .confirmed <;>
          simp [announcements, h.after, hold, isConfirmationFor]
      rw [hnone]
      by_cases hid : id = row.id <;> simp [enters, h.statusOf, hid, h.after]
  | promotes h =>
      obtain ⟨added, hrecorded, hseated⟩ := h.recorded
      exact ⟨added, hrecorded, fun id => enters_of_seated (hseated id)⟩

theorem Effect.confirmed_not_waitlisted {now : Time} {db db' : Database} (h : Effect now db db')
    {id : Uuid} (hbefore : db.statusOf id = some .confirmed) :
    db'.statusOf id ≠ some .waitlisted := by
  cases h with
  | unchanged => simp [hbefore]
  | @seats old row _ h =>
      rw [h.statusOf]
      split <;> simp [h.after, hbefore]
  | @queues old row _ h =>
      have hold := h.before
      rw [h.old_eq] at hold
      rw [h.statusOf]
      split
      · next hid => simp [← hid, hbefore] at hold
      · simp [hbefore]
  | @releases old row _ h =>
      rw [h.statusOf]
      split <;> simp [h.after, hbefore]
  | promotes h =>
      obtain ⟨added, -, hseated⟩ := h.recorded
      have hkept := hseated id
      by_cases hafter : db'.statusOf id = some .confirmed
      · simp [hafter]
      · simp [seated, hbefore, hafter] at hkept

def createdIntents (s₀ s : CallSystem) : List Intent :=
  s.db.intents.drop s₀.db.intents.length

def confirmations (id : Uuid) : CallSystem → List CallAction → ℕ :=
  tally callStep fun s _ t => enters s.db t.db id

/-- What a step may do to existing rows: a confirmed booking does not go back
to the waitlist; only an attempt that commits, and so ends its call with a
result, changes a row; and it changes none when it finds the caller waiting
and leaves the caller waiting, or cancels what is cancelled. -/
def KeepsRows (s : CallSystem) (a : CallAction) : Prop :=
  ∀ t, callStep s a = some t →
    (∀ id, s.db.statusOf id = some .confirmed → t.db.statusOf id ≠ some .waitlisted) ∧
    (t.db = s.db ∨ ∃ c ctx call result, a = .attempt c ctx ∧ s.calls c = some call ∧
      call.op.transaction ctx s.db = .ok (result, t.db) ∧ t.calls c = none) ∧
    ∀ c ctx call, a = .attempt c ctx → s.calls c = some call →
      (∀ actor e b, call.op = .createBooking actor e → s.db.findBookingOf actor.sub e = some b →
        b.status = .waitlisted → t.db.statusOf b.id = some .waitlisted → t.db = s.db) ∧
      (∀ id actor b, call.op = .cancelBooking id actor → s.db.findBooking id = some b →
        b.status = .cancelled → t.db = s.db)

theorem createBookingTx_repeats {ctx : TxContext} {actor : AuthUser} {e : Uuid}
    {db db' : Database} {b b' : Booking} (h : createBookingTx ctx actor e db = .ok (b', db'))
    (hfind : db.findBookingOf actor.sub e = some b) (hbefore : b.status = .waitlisted)
    (hafter : db'.statusOf b.id = some .waitlisted) : db' = db := by
  obtain ⟨event, old, -, -, huser, heid, hold, hcases⟩ := createBookingTx_ok h
  rw [hfind, Option.map_some, hbefore] at hold
  rcases hcases with ⟨hsame, -⟩ | hseat | hqueue
  · exact hsame
  · have hrow := Database.findBookingOf_of_findBooking hseat.find_self
    -- the seated row is the caller's own, so it is `b` that left the waitlist
    have hid : b.id = b'.id := by
      by_contra hne
      have hkept : db'.findBooking b.id = some b := by
        rw [hseat.find, if_neg hne]
        exact Database.findBooking_of_findBookingOf hfind
      obtain ⟨hbuser, hbeid⟩ := Database.findBookingOf_keys hfind
      have hof := Database.findBookingOf_of_findBooking hkept
      rw [hbuser, hbeid, ← huser, ← heid, hrow] at hof
      exact hne (by rw [Option.some.inj hof])
    rw [hid, hseat.statusOf, if_pos rfl, hseat.after] at hafter
    simp at hafter
  · rcases hqueue.before with hnone | hcancelled
    · simp [hnone] at hold
    · simp [hcancelled] at hold

theorem keepsRows (s : CallSystem) (a : CallAction) : KeepsRows s a := by
  intro t h
  refine ⟨?_, callStep_cases h, ?_⟩
  · intro id hbefore
    obtain ⟨now, heffect⟩ := callStep_effect h
    exact heffect.confirmed_not_waitlisted hbefore
  · rintro c ctx call rfl hcall
    rcases callStep_cases h with hsame | ⟨c', ctx', call', result, heq, hcall', htx, -⟩
    · exact ⟨fun _ _ _ _ _ _ _ => hsame, fun _ _ _ _ _ _ => hsame⟩
    obtain ⟨rfl, rfl⟩ := CallAction.attempt.inj heq
    obtain rfl : call' = call := Option.some.inj (hcall'.symm.trans hcall)
    refine ⟨?_, ?_⟩
    · intro actor e b hop hfind hbefore hafter
      rw [hop] at htx
      obtain ⟨⟨b', db'⟩, hcreate, hresult⟩ := map_ok htx
      obtain rfl : db' = t.db := (Prod.mk.inj hresult).2
      exact createBookingTx_repeats hcreate hfind hbefore hafter
    · intro id actor b hop hfind hbefore
      rw [hop] at htx
      obtain ⟨⟨b', db'⟩, hcancel, hresult⟩ := map_ok htx
      obtain rfl : db' = t.db := (Prod.mk.inj hresult).2
      obtain ⟨booking, hbooking, -, -, ⟨hsame, -⟩ | hrelease⟩ := cancelBookingTx_ok hcancel
      · exact hsame
      · obtain rfl : booking = b := Option.some.inj (hbooking.symm.trans hfind)
        have hold := hrelease.before
        simp [hbefore] at hold

theorem exec_recorded {s t : CallSystem} {acts : List CallAction}
    (hrun : exec callStep s acts = some t) : ∃ added, Recorded s.db t.db added := by
  refine exec_relation (I := fun _ => True) (R := fun s t => ∃ added, Recorded s.db t.db added)
    (fun s => ⟨[], .refl s.db⟩) ?_ (fun _ _ _ _ _ => trivial) ?_ trivial hrun
  · rintro s t u ⟨xs, hxs⟩ ⟨ys, hys⟩
    exact ⟨xs ++ ys, hxs.trans hys⟩
  · intro s a t _ h
    obtain ⟨now, heffect⟩ := callStep_effect h
    obtain ⟨added, hrecorded, -⟩ := heffect.recorded
    exact ⟨added, hrecorded⟩

theorem exec_confirmations {s t : CallSystem} {acts : List CallAction} (id : Uuid)
    (hrun : exec callStep s acts = some t) :
    t.db.intents.countP (isConfirmationFor id) =
      s.db.intents.countP (isConfirmationFor id) + confirmations id s acts := by
  have hbalance := tally_balance (I := fun _ => True)
    (fun s : CallSystem => s.db.intents.countP (isConfirmationFor id))
    (fun s _ t => enters s.db t.db id) (fun _ _ _ => 0)
    (fun _ _ _ _ _ => trivial) (by
      intro s a t _ h
      obtain ⟨now, heffect⟩ := callStep_effect h
      obtain ⟨added, hrecorded, hcount⟩ := heffect.recorded
      simp [hrecorded.intents, List.countP_append, hcount id]) trivial hrun
  have hzero : ∀ (s : CallSystem) as, tally callStep (fun _ _ _ => 0) s as = 0 := by
    intro s as
    induction as generalizing s with
    | nil => rfl
    | cons a as ih => cases h : callStep s a <;> simp [tally, h, ih]
  simpa [hzero, confirmations] using hbalance

/-- The booking/outbox ledger over every run of calls, attempts and aborts
from an empty bookings table. -/
theorem booking_ledger {s₀ s : CallSystem} {acts : List CallAction}
    (hempty : s₀.db.bookings.rows = []) (hrun : exec callStep s₀ acts = some s) :
    (∀ e, (createdIntents s₀ s).countP (isConfirmationIn s.db e) =
      (createdIntents s₀ s).countP (isPromotionOf e) + s.db.countBookings e .confirmed) ∧
    (∀ b ∈ s.db.bookings.rows, (createdIntents s₀ s).countP (isConfirmationFor b.id) =
      confirmations b.id s₀ acts) ∧
    Along callStep KeepsRows s₀ acts := by
  obtain ⟨added, hrecorded⟩ := exec_recorded hrun
  have hcreated : createdIntents s₀ s = added := by
    rw [createdIntents, hrecorded.intents, List.drop_left]
  refine ⟨?_, ?_, along_of_forall_mem fun a _ s => keepsRows s a⟩
  · intro e
    have hzero : s₀.db.countBookings e .confirmed = 0 := by
      simp [Database.countBookings, Table.count, hempty]
    have hbalance := hrecorded.balance e
    rw [hcreated]
    omega
  · intro b _
    have hcount := exec_confirmations b.id hrun
    rw [hrecorded.intents, List.countP_append] at hcount
    rw [hcreated]
    omega

def soloRun : List CallAction :=
  [.begin 0 (.createBooking ⟨"ann", .attendee⟩ "e"), .attempt 0 (drawing 0 "a"),
    .begin 1 (.createBooking ⟨"bob", .attendee⟩ "e"), .attempt 1 (drawing 1 "b"),
    .begin 2 (.cancelBooking "a-0" ⟨"ann", .attendee⟩), .conflict 2 (.prisma "P2034"),
    .attempt 2 (drawing 2 "c"), .begin 3 (.promoteWaitlist "e"), .attempt 3 (drawing 3 "d")]

theorem booking_ledger_solo :
    ∃ s, exec callStep ⟨soloDatabase, fun _ => none⟩ soloRun = some s ∧
      (createdIntents ⟨soloDatabase, fun _ => none⟩ s).countP (isConfirmationIn s.db "e") =
        (createdIntents ⟨soloDatabase, fun _ => none⟩ s).countP (isPromotionOf "e") +
          s.db.countBookings "e" .confirmed := by
  obtain ⟨s, h⟩ : ∃ s, exec callStep ⟨soloDatabase, fun _ => none⟩ soloRun = some s := ⟨_, rfl⟩
  exact ⟨s, h, (booking_ledger rfl h).1 "e"⟩

end Eventify
