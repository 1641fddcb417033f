import Eventify.Bookings.Seats
import Eventify.Cache.CacheAside
import Eventify.Events.Service

/-!
# Updates of events among bookings

`updateEvent` as its separate steps: `getEvent` through the cache, the guards
on the event it returned, the repository update, the invalidation. Other
requests and booking transactions come in between. A request names an event by
a text; the cache takes the text as it is, PostgreSQL reads a `uuid` from it.
-/

namespace Eventify

open Library

/-- `z.uuid()`, and the value that PostgreSQL reads from an accepted text. -/
structure UuidOps where
  accepts : String → Bool
  read : String → Uuid

def Database.loadEvent (db : Database) (ids : UuidOps) (id : String) :
    Except Failure EventDetail :=
  match db.eventDetail (ids.read id) with
  | none => .error (.status 404 "Event not found")
  | some event => .ok event

def BookingOp.read (ids : UuidOps) : BookingOp → BookingOp
  | createBooking actor eventId => createBooking actor (ids.read eventId)
  | cancelBooking id actor => cancelBooking (ids.read id) actor
  | promoteWaitlist eventId => promoteWaitlist (ids.read eventId)

def BookingOp.idText : BookingOp → String
  | createBooking _ eventId => eventId
  | cancelBooking id _ => id
  | promoteWaitlist eventId => eventId

/-- The text that a booking call passes to the invalidation after its commit. -/
def BookingOp.invalidated : BookingOp → OpResult → Option String
  | createBooking _ eventId, _ => some eventId
  | cancelBooking _ _, .booking booking => some booking.eventId
  | cancelBooking _ _, .promoted _ => none
  | promoteWaitlist eventId, .promoted count => if 0 < count then some eventId else none
  | promoteWaitlist _, .booking _ => none

inductive EventRequest where
  | getEvent
  | updateEvent (patch : EventPatch) (actor : AuthUser)

inductive EventStage where
  | getting (request : EventRequest) (phase : CachePhase Unit EventDetail)
  | updating (event : EventDetail) (patch : EventPatch)
  | settled (outcome : Except Failure Event)

structure EventCall where
  id : String
  token : String
  stage : EventStage

/-- `pending` lists the ids whose invalidation is due. -/
structure EventSystem where
  db : Database
  redis : Redis EventDetail
  calls : ℕ → Option EventCall
  pending : List String

inductive EventAction where
  | begin (c : ℕ) (id token : String) (request : EventRequest)
  | advance (c : ℕ)
  | redisFails (c : ℕ)
  | load (c : ℕ)
  | loadThrows (c : ℕ) (failure : Failure)
  | guards (c : ℕ) (now : Time)
  | update (c : ℕ)
  | book (ctx : TxContext) (op : BookingOp)
  | expireEntry (key : String)
  | expireLock (key : String)
  | invalidate (id : String)
  | invalidationFails (id : String)

namespace EventSystem

def start (db : Database) : EventSystem := ⟨db, .empty, fun _ => none, []⟩

def withCall (s : EventSystem) (c : ℕ) (call : EventCall) : EventSystem :=
  { s with calls := Function.update s.calls c (some call) }

end EventSystem

section Steps

variable (ids : UuidOps)

def eventStep (s : EventSystem) : EventAction → Option EventSystem
  | .begin c id token request =>
      match s.calls c with
      | some _ => none
      | none => some (s.withCall c ⟨id, token, .getting request
          (if ids.accepts id then .reading
            else .finished (.error (.status 404 "Event not found")))⟩)
  | .advance c =>
      match s.calls c with
      | some ⟨id, token, .getting request phase⟩ =>
          (advance () (eventCacheDetailKey id) token s.redis phase).map fun next =>
            { s.withCall c ⟨id, token, .getting request next.1⟩ with redis := next.2 }
      | _ => none
  | .redisFails c =>
      match s.calls c with
      | some ⟨id, token, .getting request phase⟩ =>
          (phase.afterFailure ()).map fun next => s.withCall c ⟨id, token, .getting request next⟩
      | _ => none
  | .load c =>
      match s.calls c with
      | some ⟨id, token, .getting request (.loading owner ())⟩ =>
          some (s.withCall c ⟨id, token,
            .getting request (.afterLoad owner (s.db.loadEvent ids id))⟩)
      | _ => none
  | .loadThrows c failure =>
      match s.calls c with
      | some ⟨id, token, .getting request (.loading owner ())⟩ =>
          some (s.withCall c ⟨id, token, .getting request (.afterLoad owner (.error failure))⟩)
      | _ => none
  | .guards c now =>
      match s.calls c with
      | some ⟨id, token, .getting (.updateEvent patch actor) (.finished outcome)⟩ =>
          match outcome.bind fun event =>
            (updateEventGuards now event patch actor).map fun _ => event with
          | .error failure => some (s.withCall c ⟨id, token, .settled (.error failure)⟩)
          | .ok event => some (s.withCall c ⟨id, token, .updating event patch⟩)
      | _ => none
  | .update c =>
      match s.calls c with
      | some ⟨id, token, .updating _ patch⟩ =>
          match s.db.updateEvent (ids.read id) patch with
          | .error failure => some (s.withCall c ⟨id, token, .settled (.error failure)⟩)
          | .ok (updated, db) =>
              some { s.withCall c ⟨id, token, .settled (.ok updated)⟩ with
                db, pending := id :: s.pending }
      | _ => none
  | .book ctx op =>
      if ids.accepts op.idText then
        match (op.read ids).transaction ctx s.db with
        | .error _ => some s
        | .ok (result, db) =>
            some { s with db, pending := (op.invalidated result).toList ++ s.pending }
      else some s
  | .expireEntry key => some { s with redis := s.redis.del key }
  | .expireLock key => some { s with redis := s.redis.setLock key none }
  | .invalidate id =>
      if id ∈ s.pending then
        some { s with
          redis := s.redis.del (eventCacheDetailKey id), pending := s.pending.erase id }
      else none
  | .invalidationFails id =>
      if id ∈ s.pending then some { s with pending := s.pending.erase id } else none

/-- An update that lowers a capacity was compared with a confirmed count that
the database has not passed since. -/
def ComparesCurrent (s : EventSystem) (a : EventAction) : Prop :=
  ∀ c id token event patch, a = .update c → s.calls c = some ⟨id, token, .updating event patch⟩ →
    ∀ capacity row, patch.capacity = some capacity → s.db.findEvent (ids.read id) = some row →
      capacity < row.capacity →
        s.db.countBookings (ids.read id) .confirmed ≤ event.confirmedBookings

def CommitsAbove (s : EventSystem) (a : EventAction) : Prop :=
  ∀ c id token event patch, a = .update c → s.calls c = some ⟨id, token, .updating event patch⟩ →
    ∀ capacity row, patch.capacity = some capacity → s.db.findEvent (ids.read id) = some row →
      (s.db.countBookings (ids.read id) .confirmed : ℤ) ≤ capacity

end Steps

def GuardedFrom (s t : EventSystem) : Prop :=
  ∀ c id token event patch, t.calls c = some ⟨id, token, .updating event patch⟩ →
    s.calls c = some ⟨id, token, .updating event patch⟩ ∨
      ∃ now actor, updateEventGuards now event patch actor = .ok ()

inductive EventChange (ids : UuidOps) (s : EventSystem) : EventAction → EventSystem → Prop
  | kept {a : EventAction} {t : EventSystem} (hdb : t.db = s.db) : EventChange ids s a t
  | updated {c : ℕ} {id token : String} {event : EventDetail} {patch : EventPatch} {row : Event}
      {t : EventSystem} (hcall : s.calls c = some ⟨id, token, .updating event patch⟩)
      (hrow : s.db.findEvent (ids.read id) = some row)
      (hdb : t.db = s.db.withPatch (ids.read id) patch) : EventChange ids s (.update c) t
  | booked {ctx : TxContext} {op : BookingOp} {t : EventSystem}
      (heffect : Effect ctx.now s.db t.db) : EventChange ids s (.book ctx op) t

variable {ids : UuidOps} {s t : EventSystem} {a : EventAction}

theorem guardedFrom_withCall {c : ℕ} {call : EventCall}
    (hcall : ∀ event patch, call.stage = .updating event patch →
      ∃ now actor, updateEventGuards now event patch actor = .ok ()) :
    GuardedFrom s (s.withCall c call) := by
  intro d id token event patch hd
  by_cases hdc : d = c
  · subst hdc
    have hsame : call = ⟨id, token, .updating event patch⟩ := by
      simpa [EventSystem.withCall] using hd
    exact .inr (hcall event patch (by rw [hsame]))
  · exact .inl (by simpa [EventSystem.withCall, hdc] using hd)

theorem eventStep_change (h : eventStep ids s a = some t) :
    EventChange ids s a t ∧ GuardedFrom s t := by
  have hsame : GuardedFrom s s := fun _ _ _ _ _ hcall => .inl hcall
  cases a with
  | begin c id token request =>
      simp only [eventStep] at h
      split at h
      · simp at h
      · cases h
        exact ⟨.kept rfl, guardedFrom_withCall (by simp)⟩
  | advance c =>
      simp only [eventStep] at h
      split at h
      next id token request phase hcall =>
        obtain ⟨next, -, rfl⟩ := Option.map_eq_some_iff.mp h
        exact ⟨.kept rfl, guardedFrom_withCall (c := c) (by simp)⟩
      · simp at h
  | redisFails c =>
      simp only [eventStep] at h
      split at h
      next id token request phase hcall =>
        obtain ⟨next, -, rfl⟩ := Option.map_eq_some_iff.mp h
        exact ⟨.kept rfl, guardedFrom_withCall (by simp)⟩
      · simp at h
  | load c =>
      simp only [eventStep] at h
      split at h
      · cases h
        exact ⟨.kept rfl, guardedFrom_withCall (by simp)⟩
      · simp at h
  | loadThrows c failure =>
      simp only [eventStep] at h
      split at h
      · cases h
        exact ⟨.kept rfl, guardedFrom_withCall (by simp)⟩
      · simp at h
  | guards c now =>
      simp only [eventStep] at h
      split at h
      next id token patch actor outcome hcall =>
        split at h
        · cases h
          exact ⟨.kept rfl, guardedFrom_withCall (by simp)⟩
        next event hguards =>
          cases h
          refine ⟨.kept rfl, guardedFrom_withCall ?_⟩
          intro event' patch' hstage
          obtain ⟨rfl, rfl⟩ := EventStage.updating.inj hstage
          cases outcome with
          | error failure => simp [Except.bind] at hguards
          | ok found =>
              obtain ⟨passed, hpassed, rfl⟩ := map_ok hguards
              exact ⟨now, actor, hpassed⟩
      · simp at h
  | update c =>
      simp only [eventStep] at h
      split at h
      next id token event patch hcall =>
        split at h
        · cases h
          exact ⟨.kept rfl, guardedFrom_withCall (by simp)⟩
        next updated db hupdate =>
          cases h
          obtain ⟨row, hrow, -, rfl⟩ := Database.updateEvent_ok hupdate
          exact ⟨.updated hcall hrow rfl, guardedFrom_withCall (c := c) (by simp)⟩
      · simp at h
  | book ctx op =>
      simp only [eventStep] at h
      split at h
      · split at h
        · cases h
          exact ⟨.kept rfl, hsame⟩
        next result db htx =>
          cases h
          exact ⟨.booked (transaction_effect htx), hsame⟩
      · cases h
        exact ⟨.kept rfl, hsame⟩
  | expireEntry key | expireLock key =>
      cases h
      exact ⟨.kept rfl, hsame⟩
  | invalidate id | invalidationFails id =>
      simp only [eventStep] at h
      split at h
      · cases h
        exact ⟨.kept rfl, hsame⟩
      · simp at h

/-- No event has more confirmed bookings than seats. -/
def Database.Covered (db : Database) : Prop :=
  ∀ e event, db.findEvent e = some event →
    (db.countBookings e .confirmed : ℤ) ≤ event.capacity

theorem Database.Covered.effect {now : Time} {db db' : Database} (hdb : db.Covered)
    (h : Effect now db db') : db'.Covered := by
  intro e event hevent
  rw [h.findEvent] at hevent
  rcases h.withinRead e with hle | ⟨event', hevent', hcap⟩
  · have hold := hdb e event hevent
    omega
  · obtain rfl : event = event' := Option.some.inj (hevent.symm.trans hevent')
    exact hcap

theorem Database.Covered.withPatch {db : Database} {id : Uuid} {patch : EventPatch} {row : Event}
    (hdb : db.Covered) (hrow : db.findEvent id = some row)
    (hpatch : ∀ capacity, patch.capacity = some capacity →
      (db.countBookings id .confirmed : ℤ) ≤ capacity) : (db.withPatch id patch).Covered := by
  intro e event hevent
  rw [Database.findEvent_withPatch] at hevent
  rw [Database.withPatch_countBookings]
  split at hevent
  next he =>
    subst he
    obtain rfl : patch.apply row = event := by simpa [hrow] using hevent
    have hold := hdb e row hrow
    cases hcapacity : patch.capacity with
    | none => simpa [hcapacity] using hold
    | some capacity => simpa [hcapacity] using hpatch capacity hcapacity
  · exact hdb e event hevent

structure Guarded (s : EventSystem) : Prop where
  covered : s.db.Covered
  passed : ∀ c id token event patch, s.calls c = some ⟨id, token, .updating event patch⟩ →
    ∀ capacity, patch.capacity = some capacity → (event.confirmedBookings : ℤ) ≤ capacity

theorem Guarded.start {db : Database} (hdb : db.Covered) : Guarded (.start db) :=
  ⟨hdb, fun _ _ _ _ _ hcall => nomatch hcall⟩

/-- An update that was compared with the current count commits above it; one
that lowers no capacity is above the count anyway. -/
theorem Guarded.commitsAbove (hs : Guarded s) (hcurrent : ComparesCurrent ids s a) :
    CommitsAbove ids s a := by
  intro c id token event patch ha hcall capacity row hcapacity hrow
  by_cases hlower : capacity < row.capacity
  · have hcount := hcurrent c id token event patch ha hcall capacity row hcapacity hrow hlower
    have hpassed := hs.passed c id token event patch hcall capacity hcapacity
    omega
  · have hcovered := hs.covered (ids.read id) row hrow
    omega

theorem Guarded.step (hs : Guarded s) (hcurrent : ComparesCurrent ids s a)
    (h : eventStep ids s a = some t) : Guarded t := by
  obtain ⟨hchange, hguarded⟩ := eventStep_change h
  constructor
  · cases hchange with
    | kept hdb => exact hdb ▸ hs.covered
    | booked heffect => exact hs.covered.effect heffect
    | @updated c id token event patch row _ hcall hrow hdb =>
        rw [hdb]
        apply hs.covered.withPatch hrow
        intro capacity hcapacity
        exact hs.commitsAbove hcurrent c id token event patch rfl hcall capacity row hcapacity hrow
  · intro c id token event patch hcall capacity hcapacity
    rcases hguarded c id token event patch hcall with hold | ⟨now, actor, hpassed⟩
    · exact hs.passed c id token event patch hold capacity hcapacity
    · exact (updateEventGuards_ok hpassed).2.2.2 capacity hcapacity

/-- As long as no lowered capacity was compared with a count that bookings have
passed since, updates commit above the confirmed count and every event stays
covered. -/
theorem capacity_covers_confirmed {db : Database} {acts : List EventAction} (hdb : db.Covered)
    (hcurrent : Along (eventStep ids) (ComparesCurrent ids) (.start db) acts)
    (hrun : exec (eventStep ids) (.start db) acts = some t) :
    t.db.Covered ∧ Along (eventStep ids) (CommitsAbove ids) (.start db) acts := by
  have hstart : Guarded (.start db) := .start hdb
  have hstep : ∀ s a t, Guarded s → ComparesCurrent ids s a → eventStep ids s a = some t →
      Guarded t := fun _ _ _ hs hgood hstep => hs.step hgood hstep
  constructor
  · exact (exec_invariant_along hstep hstart hcurrent hrun).covered
  · exact Along.mono (fun _ _ hs hgood => hs.commitsAbove hgood) hstep hstart hcurrent

def storedSpelling : UuidOps := ⟨fun _ => true, id⟩

def hallId : Uuid := "0198f3a0-0000-7000-8000-00000000000a"

def hallEvent : Event := { soloEvent with id := hallId, capacity := 2 }

def hallDatabase : Database :=
  ⟨⟨[hallEvent], by simp⟩, .empty, .empty⟩

theorem hallDatabase_covered : hallDatabase.Covered := by
  intro e event hevent
  have hmem : event ∈ hallDatabase.events.rows := Table.mem_of_find hevent
  obtain rfl := List.mem_singleton.mp hmem
  have hnone : hallDatabase.countBookings e .confirmed = 0 := rfl
  rw [hnone]
  decide

/-- An organizer asks for one seat; the guards pass. -/
def guardedEdit : List EventAction :=
  [.begin 0 hallId "editor" (.updateEvent { capacity := some 1 } ⟨"organizer", .organizer⟩),
    .advance 0, .advance 0, .advance 0, .load 0, .advance 0, .advance 0, .guards 0 0]

/-- Between the guards of an update and its write one user gives up a seat and
another one takes it. -/
def handedOn : List EventAction :=
  .book (drawing 0 "a") (.createBooking ⟨"ann", .attendee⟩ hallId) :: guardedEdit ++
    [.book (drawing 1 "b") (.cancelBooking "a-0" ⟨"ann", .attendee⟩),
      .book (drawing 2 "c") (.createBooking ⟨"bob", .attendee⟩ hallId)]

theorem capacity_covers_confirmed_hall :
    ∃ t, exec (eventStep storedSpelling) (.start hallDatabase) (handedOn ++ [.update 0]) = some t ∧
      t.db.Covered ∧ t.db.countBookings hallId .confirmed = 1 ∧
      Along (eventStep storedSpelling) (CommitsAbove storedSpelling) (.start hallDatabase)
        (handedOn ++ [.update 0]) := by
  obtain ⟨s, t, hs, hcompares, ht, hcount⟩ : ∃ s t,
      exec (eventStep storedSpelling) (.start hallDatabase) handedOn = some s ∧
        ComparesCurrent storedSpelling s (.update 0) ∧
        eventStep storedSpelling s (.update 0) = some t ∧
        t.db.countBookings hallId .confirmed = 1 := by
    refine ⟨_, _, rfl, ?_, rfl, by decide⟩
    rintro c id token event patch ⟨⟩ hcall capacity row - - -
    cases hcall
    decide
  have hrun : exec (eventStep storedSpelling) (.start hallDatabase) (handedOn ++ [.update 0]) =
      some t := exec_append_iff.mpr ⟨s, hs, by simpa using ht⟩
  have hcurrent : Along (eventStep storedSpelling) (ComparesCurrent storedSpelling)
      (.start hallDatabase) (handedOn ++ [.update 0]) := by
    rw [along_append_iff]
    constructor
    · apply along_of_forall_mem
      rintro a ha u c id token event patch rfl
      simp [handedOn, guardedEdit] at ha
    · rintro u hu
      obtain rfl : s = u := Option.some.inj (hs.symm.trans hu)
      exact ⟨hcompares, fun _ _ => trivial⟩
  obtain ⟨hcovered, habove⟩ := capacity_covers_confirmed hallDatabase_covered hcurrent hrun
  exact ⟨t, hrun, hcovered, hcount, habove⟩

/-- Two bookings commit between the guards of an update and its write. -/
theorem capacity_lowered_below_confirmed :
    hallDatabase.Covered ∧ ∃ s t,
      exec (eventStep storedSpelling) (.start hallDatabase) (guardedEdit ++
        [.book (drawing 0 "a") (.createBooking ⟨"ann", .attendee⟩ hallId),
          .book (drawing 1 "b") (.createBooking ⟨"bob", .attendee⟩ hallId)]) = some s ∧
      eventStep storedSpelling s (.update 0) = some t ∧
      ¬ CommitsAbove storedSpelling s (.update 0) ∧ ¬ t.db.Covered := by
  refine ⟨hallDatabase_covered, _, _, rfl, rfl, ?_, ?_⟩
  · intro habove
    have hcount := habove 0 hallId "editor" _ _ rfl rfl 1 _ rfl rfl
    revert hcount
    decide
  · intro hcovered
    have hcount := hcovered hallId _ rfl
    revert hcount
    decide

end Eventify
