import Eventify.Database

/-!
# The events service

The repository operations on events and the steps of `updateEvent` and
`deleteEvent` that decide without the database: what `getEvent` serves, and
the checks a change has to pass before it is written.
-/

namespace Eventify

open Library

structure EventCreateInput where
  title : String
  description : String
  venue : String
  startsAt : Time
  capacity : ℤ
  priceCents : ℤ
  deriving DecidableEq, Repr

/-- `Partial<EventCreateInput>`. -/
structure EventPatch where
  title : Option String := none
  description : Option String := none
  venue : Option String := none
  startsAt : Option Time := none
  capacity : Option ℤ := none
  priceCents : Option ℤ := none
  deriving DecidableEq, Repr

structure EventDetail extends Event where
  confirmedBookings : ℕ
  remainingSeats : ℤ
  soldOut : Bool
  deriving DecidableEq, Repr

def enrichAvailability (event : Event) (confirmedBookings : ℕ) : EventDetail :=
  let remainingSeats := max 0 (event.capacity - confirmedBookings)
  { event with confirmedBookings, remainingSeats, soldOut := remainingSeats == 0 }

def EventPatch.apply (patch : EventPatch) (event : Event) : Event :=
  { event with
    title := patch.title.getD event.title
    description := patch.description.getD event.description
    venue := patch.venue.getD event.venue
    startsAt := patch.startsAt.getD event.startsAt
    capacity := patch.capacity.getD event.capacity
    priceCents := patch.priceCents.getD event.priceCents }

@[simp] theorem EventPatch.apply_capacity (patch : EventPatch) (event : Event) :
    (patch.apply event).capacity = patch.capacity.getD event.capacity := rfl

theorem EventPatch.apply_keepsKeys (patch : EventPatch) :
    Table.KeepsKeys Event.Clash patch.apply := fun _ _ => ⟨Iff.rfl, Iff.rfl⟩

def assertFutureStart (startsAt now : Time) : Except Failure Unit :=
  if startsAt ≤ now then .error (.status 409 "Event start time must be in the future")
  else .ok ()

def assertEventOwner (organizerId : Uuid) (actor : AuthUser) : Except Failure Unit :=
  if actor.role = .admin then .ok ()
  else if organizerId ≠ actor.sub then .error (.status 403 "Forbidden")
  else .ok ()

/-- The guards of `updateEvent` on the event that `getEvent` returned. -/
def updateEventGuards (now : Time) (event : EventDetail) (patch : EventPatch)
    (actor : AuthUser) : Except Failure Unit :=
  match assertEventOwner event.organizerId actor with
  | .error failure => .error failure
  | .ok () =>
      if event.startsAt ≤ now then
        .error (.status 409 "Started events can no longer be edited")
      else
        match patch.startsAt.elim (.ok ()) fun startsAt => assertFutureStart startsAt now with
        | .error failure => .error failure
        | .ok () =>
            if patch.capacity.any fun capacity => capacity < (event.confirmedBookings : ℤ) then
              .error (.status 409 ("Capacity cannot be lower than " ++
                toString event.confirmedBookings ++ " confirmed bookings"))
            else .ok ()

namespace Database

/-- `eventsRepository.findById`, the confirmed count included, as enriched by
the loader of `getEvent`. -/
def eventDetail (db : Database) (id : Uuid) : Option EventDetail :=
  (db.findEvent id).map fun event => enrichAvailability event (db.countBookings id .confirmed)

def withPatch (db : Database) (id : Uuid) (patch : EventPatch) : Database :=
  { db with
    events := db.events.updateWhere (fun e => e.id == id) patch.apply patch.apply_keepsKeys }

def updateEvent (db : Database) (id : Uuid) (patch : EventPatch) :
    Except Failure (Event × Database) :=
  match db.findEvent id with
  | none => .error (.prisma "P2025")
  | some event => .ok (patch.apply event, db.withPatch id patch)

def createEvent (db : Database) (id : Uuid) (input : EventCreateInput) (organizerId : Uuid)
    (now : Time) : Except Failure (Event × Database) :=
  let row : Event := ⟨id, input.title, input.description, input.venue, input.startsAt,
    input.capacity, input.priceCents, organizerId, now⟩
  match db.events.insert row with
  | none => .error (.prisma "P2002")
  | some events => .ok (row, { db with events })

/-- `eventsRepository.delete`; a booking of the event restricts it. -/
def deleteEvent (db : Database) (id : Uuid) : Except Failure Database :=
  match db.findEvent id with
  | none => .error (.prisma "P2025")
  | some _ =>
      if db.bookings.rows.any fun b => b.eventId == id then .error (.prisma "P2003")
      else .ok { db with events := db.events.deleteWhere fun e => e.id == id }

@[simp] theorem withPatch_countBookings (db : Database) (id : Uuid) (patch : EventPatch)
    (e : Uuid) (status : BookingStatus) :
    (db.withPatch id patch).countBookings e status = db.countBookings e status := rfl

theorem updateEvent_ok {db db' : Database} {id : Uuid} {patch : EventPatch} {updated : Event}
    (h : db.updateEvent id patch = .ok (updated, db')) :
    ∃ event, db.findEvent id = some event ∧ updated = patch.apply event ∧
      db' = db.withPatch id patch := by
  unfold updateEvent at h
  cases hfind : db.findEvent id with
  | none => simp [hfind] at h
  | some event =>
      simp only [hfind, Except.ok.injEq, Prod.mk.injEq] at h
      exact ⟨event, rfl, h.1.symm, h.2.symm⟩

theorem createEvent_ok {db db' : Database} {id organizerId : Uuid} {input : EventCreateInput}
    {now : Time} {created : Event}
    (h : db.createEvent id input organizerId now = .ok (created, db')) :
    ∃ events, db.events.insert created = some events ∧ db' = { db with events } := by
  unfold createEvent at h
  simp only at h
  split at h
  · simp at h
  next events hinsert =>
    obtain ⟨rfl, rfl⟩ := Prod.mk.inj (Except.ok.inj h)
    exact ⟨events, hinsert, rfl⟩

theorem createEvent_row {db db' : Database} {id organizerId : Uuid} {input : EventCreateInput}
    {now : Time} {created : Event}
    (h : db.createEvent id input organizerId now = .ok (created, db')) :
    created.id = id ∧ created.organizerId = organizerId := by
  unfold createEvent at h
  simp only at h
  split at h
  · simp at h
  · obtain ⟨rfl, -⟩ := Prod.mk.inj (Except.ok.inj h)
    exact ⟨rfl, rfl⟩

theorem deleteEvent_ok {db db' : Database} {id : Uuid} (h : db.deleteEvent id = .ok db') :
    db' = { db with events := db.events.deleteWhere fun e => e.id == id } := by
  unfold deleteEvent at h
  split at h
  · simp at h
  · split at h
    · simp at h
    · exact (Except.ok.inj h).symm

theorem findEvent_withPatch (db : Database) (id : Uuid) (patch : EventPatch) (i : Uuid) :
    (db.withPatch id patch).findEvent i =
      if i = id then (db.findEvent i).map patch.apply else db.findEvent i := by
  have h : (db.withPatch id patch).findEvent i =
      (db.findEvent i).map fun e => if e.id == id then patch.apply e else e :=
    Table.find_updateWhere db.events (fun e => e.id == id) (fun e => e.id == i) patch.apply
      patch.apply_keepsKeys fun _ => rfl
  rw [h]
  cases hfind : db.findEvent i with
  | none => simp
  | some e =>
      have he : e.id = i := findEvent_id hfind
      by_cases hi : i = id <;> simp [he, hi]

theorem findEvent_deleteEvent {db db' : Database} {id : Uuid}
    (h : db.deleteEvent id = .ok db') (i : Uuid) :
    db'.findEvent i = if i = id then none else db.findEvent i := by
  obtain rfl := deleteEvent_ok h
  by_cases hi : i = id
  · subst hi
    rw [if_pos rfl]
    exact List.find?_eq_none.mpr fun e he => by simpa using (List.mem_filter.mp he).2
  · rw [if_neg hi]
    apply Table.find_deleteWhere
    intro e he
    have hid : e.id = i := by simpa using he
    simpa [hid] using hi

end Database

theorem updateEventGuards_ok {now : Time} {event : EventDetail} {patch : EventPatch}
    {actor : AuthUser} (h : updateEventGuards now event patch actor = .ok ()) :
    (actor.role = .admin ∨ event.organizerId = actor.sub) ∧ now < event.startsAt ∧
      (∀ startsAt, patch.startsAt = some startsAt → now < startsAt) ∧
      ∀ capacity, patch.capacity = some capacity → (event.confirmedBookings : ℤ) ≤ capacity := by
  unfold updateEventGuards assertEventOwner at h
  split at h
  · simp at h
  next howner =>
    split at h
    · simp at h
    next hstarted =>
      split at h
      · simp at h
      next hstart =>
        split at h
        · simp at h
        next hcapacity =>
          refine ⟨?_, not_le.mp hstarted, ?_, ?_⟩
          · by_cases hadmin : actor.role = .admin
            · exact .inl hadmin
            · rw [if_neg hadmin] at howner
              by_contra hother
              simp [not_or.mp hother] at howner
          · intro startsAt hpatch
            by_contra hpast
            simp [hpatch, assertFutureStart, not_lt.mp hpast] at hstart
          · intro capacity hpatch
            simpa [hpatch] using hcapacity

end Eventify
