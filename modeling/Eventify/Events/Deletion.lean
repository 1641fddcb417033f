import Eventify.Events.Coherence

/-!
# Deleting an event

`deleteEvent` refuses an event with confirmed or waitlisted bookings, the
foreign key of the bookings one with any booking at all. A request that no
other meets, for every table and every text of the id.
-/

namespace Eventify

open Library

/-- `Booking_eventId_fkey`. -/
def Database.ReferencesEvents (db : Database) : Prop :=
  ∀ b ∈ db.bookings.rows, db.findEvent b.eventId ≠ none

def Database.activeBookings (db : Database) (eventId : Uuid) : ℕ :=
  db.countBookings eventId .confirmed + db.countBookings eventId .waitlisted

/-- With active bookings the deletion is a conflict and changes nothing;
without them the event is gone, and no booking refers to it. -/
def DecidedByActiveBookings (ids : UuidOps) (s : Site) (id : String) (actor : AuthUser) : Prop :=
  let answer := s.deleteEvent ids id actor
  if 0 < s.db.activeBookings (ids.read id) then
    (∃ message, answer.1 = .error (.status 409 message)) ∧ answer.2.db = s.db
  else
    (∃ event, answer.1 = .ok event) ∧ answer.2.db.findEvent (ids.read id) = none ∧
      answer.2.db.ReferencesEvents

variable {ids : UuidOps} {s : Site} {id : String} {actor : AuthUser} {event : Event}

/-- `getEvent` returns the event with its organizer, from the cache or not. -/
theorem getEvent_of_stored (haccepts : ids.accepts id = true)
    (hevent : s.db.findEvent (ids.read id) = some event)
    (hcached : ∀ detail, s.redis.entries (eventCacheDetailKey id) = some detail →
      detail.organizerId = event.organizerId) :
    ∃ found, (s.getEvent ids id).1 = .ok found ∧ found.organizerId = event.organizerId := by
  cases hentry : s.redis.entries (eventCacheDetailKey id) with
  | some detail => exact ⟨detail, Site.getEvent_of_hit haccepts hentry, hcached detail hentry⟩
  | none =>
      refine ⟨enrichAvailability event (s.db.countBookings (ids.read id) .confirmed), ?_, rfl⟩
      simp [Site.getEvent, haccepts, cacheAside, hentry, Database.loadEvent, Database.eventDetail,
        hevent]

theorem assertEventOwner_of_allowed {organizerId : Uuid}
    (hactor : actor.role = .admin ∨ organizerId = actor.sub) :
    assertEventOwner organizerId actor = .ok () := by
  unfold assertEventOwner
  split
  · rfl
  next hrole =>
    rcases hactor with hadmin | howner
    · exact (hrole hadmin).elim
    · simp [howner]

/-- What an allowed `deleteEvent` answers, and the tables it leaves. -/
theorem deleteEvent_allowed (haccepts : ids.accepts id = true)
    (hevent : s.db.findEvent (ids.read id) = some event)
    (hcached : ∀ detail, s.redis.entries (eventCacheDetailKey id) = some detail →
      detail.organizerId = event.organizerId)
    (hactor : actor.role = .admin ∨ event.organizerId = actor.sub) :
    ∃ found, (s.deleteEvent ids id actor).1 =
        (if 0 < s.db.activeBookings (ids.read id) then
          .error (.status 409 "Events with confirmed or waitlisted bookings cannot be deleted")
        else (s.db.deleteEvent (ids.read id)).map fun _ => found) ∧
      (s.deleteEvent ids id actor).2.db =
        if 0 < s.db.activeBookings (ids.read id) then s.db
        else match s.db.deleteEvent (ids.read id) with
          | .error _ => s.db
          | .ok db => db := by
  obtain ⟨found, hget, horganizer⟩ := getEvent_of_stored haccepts hevent hcached
  have howner := assertEventOwner_of_allowed (horganizer ▸ hactor)
  have hremove : s.db.removeEvent ids id actor (.ok found) =
      if 0 < s.db.activeBookings (ids.read id) then
        .error (.status 409 "Events with confirmed or waitlisted bookings cannot be deleted")
      else (s.db.deleteEvent (ids.read id)).map fun db => (found, db) := by
    simp only [Database.removeEvent, howner]
    rfl
  refine ⟨found, ?_⟩
  simp only [Site.deleteEvent, hget, Site.getEvent_db, hremove]
  by_cases hactive : 0 < s.db.activeBookings (ids.read id)
  · simp only [hactive, if_true]
    exact ⟨trivial, Site.getEvent_db s ids id⟩
  · simp only [hactive, if_false]
    cases hdelete : s.db.deleteEvent (ids.read id) with
    | error failure => exact ⟨rfl, Site.getEvent_db s ids id⟩
    | ok db => exact ⟨rfl, rfl⟩

namespace Database

variable {db db' : Database} {eventId : Uuid}

theorem not_active_of_activeBookings (h : ¬ 0 < db.activeBookings eventId) {b : Booking}
    (hb : b ∈ db.bookings.rows) (hevent : b.eventId = eventId) : b.status = .cancelled := by
  have hconfirmed : db.countBookings eventId .confirmed = 0 := by
    simp only [activeBookings] at h
    omega
  have hwaitlisted : db.countBookings eventId .waitlisted = 0 := by
    simp only [activeBookings] at h
    omega
  have hnotc := List.countP_eq_zero.mp hconfirmed b hb
  have hnotw := List.countP_eq_zero.mp hwaitlisted b hb
  cases hstatus : b.status with
  | cancelled => rfl
  | confirmed => simp [hevent, hstatus] at hnotc
  | waitlisted => simp [hevent, hstatus] at hnotw

theorem ReferencesEvents.delete (hrefs : db.ReferencesEvents)
    (h : db.deleteEvent eventId = .ok db')
    (hfree : ∀ b ∈ db.bookings.rows, b.eventId ≠ eventId) : db'.ReferencesEvents := by
  intro b hb
  have hbookings : db'.bookings = db.bookings := by rw [deleteEvent_ok h]
  rw [hbookings] at hb
  rw [findEvent_deleteEvent h, if_neg (hfree b hb)]
  exact hrefs b hb

end Database

/-- An allowed deletion is decided by the active bookings exactly when the
event has one, or has no cancelled booking either. -/
theorem deleteEvent_decided_iff (haccepts : ids.accepts id = true)
    (hevent : s.db.findEvent (ids.read id) = some event) (hrefs : s.db.ReferencesEvents)
    (hcached : ∀ detail, s.redis.entries (eventCacheDetailKey id) = some detail →
      detail.organizerId = event.organizerId)
    (hactor : actor.role = .admin ∨ event.organizerId = actor.sub) :
    DecidedByActiveBookings ids s id actor ↔
      0 < s.db.activeBookings (ids.read id) ∨
        ∀ b ∈ s.db.bookings.rows, b.eventId = ids.read id → b.status ≠ .cancelled := by
  obtain ⟨found, hanswer, hdb⟩ := deleteEvent_allowed haccepts hevent hcached hactor
  simp only [DecidedByActiveBookings, hanswer, hdb]
  by_cases hactive : 0 < s.db.activeBookings (ids.read id)
  · simp [hactive]
  simp only [hactive, if_false, false_or]
  by_cases hbooked : (s.db.bookings.rows.any fun b => b.eventId == ids.read id) = true
  · -- the foreign key restricts the deletion: all that is left of the bookings is cancelled
    have hrestricted : s.db.deleteEvent (ids.read id) = .error (.prisma "P2003") := by
      simp [Database.deleteEvent, hevent, hbooked]
    obtain ⟨b, hb, hsame⟩ := List.any_eq_true.mp hbooked
    have hsame : b.eventId = ids.read id := beq_iff_eq.mp hsame
    have hcancelled := Database.not_active_of_activeBookings hactive hb hsame
    constructor
    · rintro ⟨⟨deleted, hok⟩, -⟩
      rw [hrestricted] at hok
      cases hok
    · intro hnone
      exact (hnone b hb hsame hcancelled).elim
  · have hfree : ∀ b ∈ s.db.bookings.rows, b.eventId ≠ ids.read id := by
      intro b hb hsame
      exact hbooked (List.any_eq_true.mpr ⟨b, hb, beq_iff_eq.mpr hsame⟩)
    obtain ⟨db, hdelete⟩ : ∃ db, s.db.deleteEvent (ids.read id) = .ok db := by
      simp [Database.deleteEvent, hevent, hbooked]
    rw [hdelete]
    constructor
    · exact fun _ b hb hsame => (hfree b hb hsame).elim
    · intro _
      refine ⟨⟨found, rfl⟩, ?_, hrefs.delete hdelete hfree⟩
      rw [Database.findEvent_deleteEvent hdelete, if_pos rfl]

def hallWith (status : BookingStatus) : Database :=
  { hallDatabase with
    bookings := ⟨[⟨"b", "bob", hallId, status, 1⟩], List.pairwise_singleton _ _⟩ }

theorem hallWith_references (status : BookingStatus) : (hallWith status).ReferencesEvents := by
  intro b hb
  obtain rfl := List.mem_singleton.mp hb
  simp [Database.findEvent, Table.find, hallWith, hallDatabase, hallEvent]

theorem deleteEvent_decided_iff_waitlisted :
    DecidedByActiveBookings storedSpelling (.start (hallWith .waitlisted)) hallId
      ⟨"organizer", .organizer⟩ := by
  have hevent : (hallWith .waitlisted).findEvent (storedSpelling.read hallId) = some hallEvent :=
    rfl
  have hcached : ∀ detail : EventDetail, (Site.start (hallWith .waitlisted)).redis.entries
      (eventCacheDetailKey hallId) = some detail →
        detail.organizerId = hallEvent.organizerId := by
    intro detail hentry
    cases hentry
  apply (deleteEvent_decided_iff rfl hevent (hallWith_references .waitlisted) hcached
    (.inr rfl)).mpr
  exact .inl (by decide)

/-- Bob's booking is cancelled, and its row still restricts the deletion. -/
theorem cancelled_booking_restricts :
    (Site.deleteEvent (.start (hallWith .cancelled)) storedSpelling hallId
      ⟨"organizer", .organizer⟩).1 = .error (.prisma "P2003") ∧
    ¬ DecidedByActiveBookings storedSpelling (.start (hallWith .cancelled)) hallId
      ⟨"organizer", .organizer⟩ := by
  refine ⟨rfl, ?_⟩
  rintro ⟨⟨event, hok⟩, -⟩
  cases hok

end Eventify
