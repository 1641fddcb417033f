import Eventify.Bookings.Changes
import Eventify.Events.Listing
import Eventify.Events.Requests
import Eventify.Events.Schemas

/-!
# Who may change events and bookings

The requests of the API as their separate steps over one Redis that holds list
pages and event details, and the booking transactions of the API and the
worker. Entries and locks may vanish at any time, commands may fail, an
invalidation may never come: authorization then rests on values as old as the
cache can keep them.
-/

namespace Eventify

open Library

/-- What the event cache stores under a key. -/
inductive CachedValue where
  | page (page : EventPage)
  | detail (detail : EventDetail)

inductive ApiRequest where
  | listEvents (version : ℕ) (digest : String)
  | getEvent (id : String)
  | getEventStats (id : String) (actor : AuthUser)
  | updateEvent (id : String) (patch : EventPatch) (actor : AuthUser)
  | deleteEvent (id : String) (actor : AuthUser)

namespace ApiRequest

def cacheKey : ApiRequest → String
  | listEvents version digest => eventCacheListKey version digest
  | getEvent id => eventCacheDetailKey id
  | getEventStats id _ => eventCacheDetailKey id
  | updateEvent id _ _ => eventCacheDetailKey id
  | deleteEvent id _ => eventCacheDetailKey id

def eventId : ApiRequest → Option String
  | listEvents _ _ => none
  | getEvent id => some id
  | getEventStats id _ => some id
  | updateEvent id _ _ => some id
  | deleteEvent id _ => some id

def actor : ApiRequest → Option AuthUser
  | listEvents _ _ => none
  | getEvent _ => none
  | getEventStats _ actor => some actor
  | updateEvent _ _ actor => some actor
  | deleteEvent _ actor => some actor

end ApiRequest

/-- `requireRole("ORGANIZER", "ADMIN")`. -/
def requireRole (actor : AuthUser) : Bool := actor.role != .attendee

inductive ApiStage where
  | fetching (phase : CachePhase Unit CachedValue)
  | counting (event : EventDetail)
  | updating (event : EventDetail)
  | deleting (event : EventDetail)
  | settled

structure ApiCall where
  request : ApiRequest
  token : String
  stage : ApiStage

/-- `organizers` remembers the organizer of every event that ever was. -/
structure ApiSystem where
  db : Database
  redis : Redis CachedValue
  calls : ℕ → Option ApiCall
  organizers : Uuid → Option Uuid

inductive ApiAction where
  | begin (c : ℕ) (token : String) (request : ApiRequest)
  | patchEvent (c : ℕ) (token id : String) (body : JsonObject) (actor : AuthUser)
  | advance (c : ℕ)
  | redisFails (c : ℕ)
  | load (c : ℕ)
  | loadPage (c : ℕ) (page : EventPage)
  | loadThrows (c : ℕ) (failure : Failure)
  | authorize (c : ℕ) (now : Time)
  | bookingStats (c : ℕ)
  | update (c : ℕ)
  | delete (c : ℕ)
  | createEvent (id : Uuid) (body : JsonObject) (actor : AuthUser) (now : Time)
  | book (ctx : TxContext) (op : BookingOp)
  | expireEntry (key : String)
  | expireLock (key : String)

namespace ApiSystem

def start (db : Database) : ApiSystem :=
  ⟨db, .empty, fun _ => none, fun id => (db.findEvent id).map Event.organizerId⟩

def withCall (s : ApiSystem) (c : ℕ) (call : ApiCall) : ApiSystem :=
  { s with calls := Function.update s.calls c (some call) }

end ApiSystem

/-- What a request does with the event that `getEvent` gave it. -/
def ApiRequest.afterGetEvent (now : Time) (event : EventDetail) : ApiRequest → ApiStage
  | listEvents _ _ => .settled
  | getEvent _ => .settled
  | getEventStats _ actor =>
      match assertEventOwner event.organizerId actor with
      | .error _ => .settled
      | .ok () => .counting event
  | updateEvent _ patch actor =>
      match updateEventGuards now event patch actor with
      | .error _ => .settled
      | .ok () => .updating event
  | deleteEvent _ actor =>
      match assertEventOwner event.organizerId actor with
      | .error _ => .settled
      | .ok () => .counting event

section Steps

variable (ids : UuidOps) (parseDate : String → Option Time)

/-- The stage in which a request starts: a wrong role is a 403, an id that is no
UUID a 404. -/
def ApiRequest.opening (request : ApiRequest) : ApiStage :=
  if request.actor.all requireRole && request.eventId.all ids.accepts then .fetching .reading
  else .settled

def apiStep (s : ApiSystem) : ApiAction → Option ApiSystem
  | .begin c token request =>
      match s.calls c, request with
      | some _, _ => none
      | none, .updateEvent _ _ _ => none
      | none, request => some (s.withCall c ⟨request, token, request.opening ids⟩)
  | .patchEvent c token id body actor =>
      match s.calls c, updateEventSchema parseDate body with
      | some _, _ => none
      | none, none => some s
      | none, some patch =>
          let request := .updateEvent id patch actor
          some (s.withCall c ⟨request, token, request.opening ids⟩)
  | .advance c =>
      match s.calls c with
      | some ⟨request, token, .fetching phase⟩ =>
          (advance () request.cacheKey token s.redis phase).map fun next =>
            { s.withCall c ⟨request, token, .fetching next.1⟩ with redis := next.2 }
      | _ => none
  | .redisFails c =>
      match s.calls c with
      | some ⟨request, token, .fetching phase⟩ =>
          (phase.afterFailure ()).map fun next => s.withCall c ⟨request, token, .fetching next⟩
      | _ => none
  | .load c =>
      match s.calls c with
      | some ⟨request, token, .fetching (.loading owner ())⟩ =>
          request.eventId.map fun id =>
            s.withCall c ⟨request, token, .fetching (.afterLoad owner
              ((s.db.loadEvent ids id).map CachedValue.detail))⟩
      | _ => none
  | .loadPage c page =>
      match s.calls c with
      | some ⟨.listEvents version digest, token, .fetching (.loading owner ())⟩ =>
          some (s.withCall c ⟨.listEvents version digest, token,
            .fetching (.afterLoad owner (.ok (.page page)))⟩)
      | _ => none
  | .loadThrows c failure =>
      match s.calls c with
      | some ⟨request, token, .fetching (.loading owner ())⟩ =>
          some (s.withCall c ⟨request, token, .fetching (.afterLoad owner (.error failure))⟩)
      | _ => none
  | .authorize c now =>
      match s.calls c with
      | some ⟨request, token, .fetching (.finished (.error _))⟩ =>
          some (s.withCall c ⟨request, token, .settled⟩)
      | some ⟨request, token, .fetching (.finished (.ok (.detail event)))⟩ =>
          some (s.withCall c ⟨request, token, request.afterGetEvent now event⟩)
      | some ⟨.listEvents version digest, token, .fetching (.finished (.ok (.page _)))⟩ =>
          some (s.withCall c ⟨.listEvents version digest, token, .settled⟩)
      | _ => none
  | .bookingStats c =>
      match s.calls c with
      | some ⟨.deleteEvent id actor, token, .counting event⟩ =>
          let active := s.db.countBookings (ids.read id) .confirmed +
            s.db.countBookings (ids.read id) .waitlisted
          some (s.withCall c ⟨.deleteEvent id actor, token,
            if 0 < active then .settled else .deleting event⟩)
      | some ⟨request, token, .counting _⟩ => some (s.withCall c ⟨request, token, .settled⟩)
      | _ => none
  | .update c =>
      match s.calls c with
      | some ⟨.updateEvent id patch actor, token, .updating _⟩ =>
          match s.db.updateEvent (ids.read id) patch with
          | .error _ => some (s.withCall c ⟨.updateEvent id patch actor, token, .settled⟩)
          | .ok (_, db) =>
              some { s.withCall c ⟨.updateEvent id patch actor, token, .settled⟩ with db }
      | _ => none
  | .delete c =>
      match s.calls c with
      | some ⟨.deleteEvent id actor, token, .deleting _⟩ =>
          match s.db.deleteEvent (ids.read id) with
          | .error _ => some (s.withCall c ⟨.deleteEvent id actor, token, .settled⟩)
          | .ok db => some { s.withCall c ⟨.deleteEvent id actor, token, .settled⟩ with db }
      | _ => none
  | .createEvent id body actor now =>
      -- `uuid(7)` draws an id that no event had before
      if (s.organizers id).isSome then none
      else
        match createEventSchema parseDate body with
        | none => some s
        | some input =>
            if !requireRole actor then some s else
            match (assertFutureStart input.startsAt now).bind fun _ =>
              s.db.createEvent id input actor.sub now with
            | .error _ => some s
            | .ok (_, db) =>
                some { s with
                  db, organizers := Function.update s.organizers id (some actor.sub) }
  | .book ctx op =>
      if ids.accepts op.idText then
        match (op.read ids).transaction ctx s.db with
        | .error _ => some s
        | .ok (_, db) => some { s with db }
      else some s
  | .expireEntry key => some { s with redis := s.redis.del key }
  | .expireLock key => some { s with redis := s.redis.setLock key none }

/-- The value is the detail of an event whose organizer it names. -/
def NamesOrganizer (organizers : Uuid → Option Uuid) (id : String) (value : CachedValue) : Prop :=
  ∃ event, value = .detail event ∧ organizers (ids.read id) = some event.organizerId

/-- The request is an admin's or the organizer's own. -/
def ApiRequest.MayChange (organizers : Uuid → Option Uuid) (request : ApiRequest) : Prop :=
  ∃ id actor, request.eventId = some id ∧ request.actor = some actor ∧
    (actor.role = .admin ∨ organizers (ids.read id) = some actor.sub)

def ApiCall.Sound (organizers : Uuid → Option Uuid) (call : ApiCall) : Prop :=
  match call.stage with
  | .fetching phase => ∀ id, call.request.eventId = some id →
      phase.Holds (fun _ => True) (NamesOrganizer ids organizers id)
  | .counting _ => call.request.MayChange ids organizers
  | .updating _ => call.request.MayChange ids organizers
  | .deleting _ => call.request.MayChange ids organizers
  | .settled => True

/-- All that a step can do, with what it finds before. -/
inductive ApiMove (s : ApiSystem) : ApiAction → ApiSystem → Prop
  | idle {a : ApiAction} : ApiMove s a s
  | opened {a : ApiAction} {c : ℕ} {request : ApiRequest} {token : String}
      (hnew : s.calls c = none) :
      ApiMove s a (s.withCall c ⟨request, token, request.opening ids⟩)
  | advanced {c : ℕ} {request : ApiRequest} {token : String}
      {phase next : CachePhase Unit CachedValue} {redis : Redis CachedValue}
      (hcall : s.calls c = some ⟨request, token, .fetching phase⟩)
      (hnext : advance () request.cacheKey token s.redis phase = some (next, redis)) :
      ApiMove s (.advance c) { s.withCall c ⟨request, token, .fetching next⟩ with redis }
  | failed {c : ℕ} {request : ApiRequest} {token : String}
      {phase next : CachePhase Unit CachedValue}
      (hcall : s.calls c = some ⟨request, token, .fetching phase⟩)
      (hnext : phase.afterFailure () = some next) :
      ApiMove s (.redisFails c) (s.withCall c ⟨request, token, .fetching next⟩)
  | loaded {a : ApiAction} {c : ℕ} {request : ApiRequest} {token : String} {owner : Bool}
      {outcome : Except Failure CachedValue}
      (hcall : s.calls c = some ⟨request, token, .fetching (.loading owner ())⟩)
      (houtcome : ∀ id value, request.eventId = some id → outcome = .ok value →
        (s.db.loadEvent ids id).map CachedValue.detail = .ok value) :
      ApiMove s a (s.withCall c ⟨request, token, .fetching (.afterLoad owner outcome)⟩)
  | authorized {c : ℕ} {request : ApiRequest} {token : String} {event : EventDetail} {now : Time}
      (hcall : s.calls c = some ⟨request, token, .fetching (.finished (.ok (.detail event)))⟩) :
      ApiMove s (.authorize c now)
        (s.withCall c ⟨request, token, request.afterGetEvent now event⟩)
  | counted {c : ℕ} {id token : String} {actor : AuthUser} {event : EventDetail}
      (hcall : s.calls c = some ⟨.deleteEvent id actor, token, .counting event⟩) :
      ApiMove s (.bookingStats c) (s.withCall c ⟨.deleteEvent id actor, token, .deleting event⟩)
  | settled {a : ApiAction} {c : ℕ} {request : ApiRequest} {token : String} {stage : ApiStage}
      (hcall : s.calls c = some ⟨request, token, stage⟩) :
      ApiMove s a (s.withCall c ⟨request, token, .settled⟩)
  | updated {c : ℕ} {id token : String} {patch : EventPatch} {actor : AuthUser}
      {event : EventDetail}
      (hcall : s.calls c = some ⟨.updateEvent id patch actor, token, .updating event⟩) :
      ApiMove s (.update c) { s.withCall c ⟨.updateEvent id patch actor, token, .settled⟩ with
        db := s.db.withPatch (ids.read id) patch }
  | deleted {c : ℕ} {id token : String} {actor : AuthUser} {event : EventDetail} {db : Database}
      (hcall : s.calls c = some ⟨.deleteEvent id actor, token, .deleting event⟩)
      (hdb : s.db.deleteEvent (ids.read id) = .ok db) :
      ApiMove s (.delete c) { s.withCall c ⟨.deleteEvent id actor, token, .settled⟩ with db }
  | created {row : Event} {body : JsonObject} {actor : AuthUser} {now : Time}
      {events : Table Event Event.Clash} (hnew : s.organizers row.id = none)
      (howner : row.organizerId = actor.sub) (hinsert : s.db.events.insert row = some events) :
      ApiMove s (.createEvent row.id body actor now) { s with
        db := { s.db with events }
        organizers := Function.update s.organizers row.id (some actor.sub) }
  | booked {ctx : TxContext} {op : BookingOp} {result : OpResult} {db : Database}
      (htx : (op.read ids).transaction ctx s.db = .ok (result, db)) :
      ApiMove s (.book ctx op) { s with db }
  | expired {a : ApiAction} {redis : Redis CachedValue}
      (hentries : ∀ key value, redis.entries key = some value →
        s.redis.entries key = some value) :
      ApiMove s a { s with redis }

/-- What a step does to the rows and to the organizers on record. -/
inductive ApiChange (s : ApiSystem) : ApiAction → ApiSystem → Prop
  | kept {a : ApiAction} {t : ApiSystem} (hdb : t.db = s.db)
      (horganizers : t.organizers = s.organizers) : ApiChange s a t
  | updated {c : ℕ} {id token : String} {patch : EventPatch} {actor : AuthUser}
      {event : EventDetail} {t : ApiSystem}
      (hcall : s.calls c = some ⟨.updateEvent id patch actor, token, .updating event⟩)
      (hdb : t.db = s.db.withPatch (ids.read id) patch)
      (horganizers : t.organizers = s.organizers) : ApiChange s (.update c) t
  | deleted {c : ℕ} {id token : String} {actor : AuthUser} {event : EventDetail} {t : ApiSystem}
      (hcall : s.calls c = some ⟨.deleteEvent id actor, token, .deleting event⟩)
      (hdb : s.db.deleteEvent (ids.read id) = .ok t.db)
      (horganizers : t.organizers = s.organizers) : ApiChange s (.delete c) t
  | created {row : Event} {body : JsonObject} {actor : AuthUser} {now : Time}
      {events : Table Event Event.Clash} {t : ApiSystem} (hnew : s.organizers row.id = none)
      (howner : row.organizerId = actor.sub) (hinsert : s.db.events.insert row = some events)
      (hdb : t.db = { s.db with events })
      (horganizers : t.organizers = Function.update s.organizers row.id (some actor.sub)) :
      ApiChange s (.createEvent row.id body actor now) t
  | booked {ctx : TxContext} {op : BookingOp} {result : OpResult} {t : ApiSystem}
      (htx : (op.read ids).transaction ctx s.db = .ok (result, t.db))
      (horganizers : t.organizers = s.organizers) : ApiChange s (.book ctx op) t

end Steps

variable {ids : UuidOps} {parseDate : String → Option Time} {s t : ApiSystem} {a : ApiAction}

theorem apiStep_moves (h : apiStep ids parseDate s a = some t) : ApiMove ids s a t := by
  cases a with
  | begin c token request =>
      simp only [apiStep] at h
      split at h
      · simp at h
      · simp at h
      next hnew _ =>
        cases h
        exact .opened hnew
  | patchEvent c token id body actor =>
      simp only [apiStep] at h
      split at h
      · simp at h
      · cases h
        exact .idle
      next hnew _ =>
        cases h
        exact .opened hnew
  | advance c =>
      simp only [apiStep] at h
      split at h
      next request token phase hcall =>
        obtain ⟨⟨next, redis⟩, hnext, rfl⟩ := Option.map_eq_some_iff.mp h
        exact .advanced hcall hnext
      · simp at h
  | redisFails c =>
      simp only [apiStep] at h
      split at h
      next request token phase hcall =>
        obtain ⟨next, hnext, rfl⟩ := Option.map_eq_some_iff.mp h
        exact .failed hcall hnext
      · simp at h
  | load c =>
      simp only [apiStep] at h
      split at h
      next request token owner hcall =>
        obtain ⟨id, hid, rfl⟩ := Option.map_eq_some_iff.mp h
        refine .loaded hcall fun id' value hid' hvalue => ?_
        obtain rfl := Option.some.inj (hid.symm.trans hid')
        exact hvalue
      · simp at h
  | loadPage c page =>
      simp only [apiStep] at h
      split at h
      next hcall =>
        cases h
        exact .loaded hcall fun id value hid => nomatch hid
      · simp at h
  | loadThrows c failure =>
      simp only [apiStep] at h
      split at h
      next hcall =>
        cases h
        exact .loaded hcall fun id value _ hvalue => nomatch hvalue
      · simp at h
  | authorize c now =>
      simp only [apiStep] at h
      split at h
      next hcall =>
        cases h
        exact .settled hcall
      next hcall =>
        cases h
        exact .authorized hcall
      next hcall =>
        cases h
        exact .settled hcall
      · simp at h
  | bookingStats c =>
      simp only [apiStep] at h
      split at h
      next hcall =>
        cases h
        split
        · exact .settled hcall
        · exact .counted hcall
      next hcall =>
        cases h
        exact .settled hcall
      · simp at h
  | update c =>
      simp only [apiStep] at h
      split at h
      next hcall =>
        split at h
        · cases h
          exact .settled hcall
        next updated db hupdate =>
          cases h
          obtain ⟨row, -, -, rfl⟩ := Database.updateEvent_ok hupdate
          exact .updated hcall
      · simp at h
  | delete c =>
      simp only [apiStep] at h
      split at h
      next hcall =>
        split at h
        · cases h
          exact .settled hcall
        next db hdelete =>
          cases h
          exact .deleted hcall hdelete
      · simp at h
  | createEvent id body actor now =>
      simp only [apiStep] at h
      split at h
      · simp at h
      next hnew =>
        split at h
        · cases h
          exact .idle
        next input _ =>
          split at h
          · cases h
            exact .idle
          · split at h
            · cases h
              exact .idle
            next row db hcreate =>
              cases h
              have hrow : s.db.createEvent id input actor.sub now = .ok (row, db) := by
                cases hfuture : assertFutureStart input.startsAt now with
                | error failure => simp [hfuture, Except.bind] at hcreate
                | ok _ => simpa [hfuture, Except.bind] using hcreate
              obtain ⟨events, hinsert, rfl⟩ := Database.createEvent_ok hrow
              obtain ⟨rfl, howner⟩ := Database.createEvent_row hrow
              exact .created (by simpa using hnew) howner hinsert
  | book ctx op =>
      simp only [apiStep] at h
      split at h
      · split at h
        · cases h
          exact .idle
        next result db htx =>
          cases h
          exact .booked htx
      · cases h
        exact .idle
  | expireEntry key =>
      cases h
      exact .expired fun _ _ => Redis.del_entries_some
  | expireLock key =>
      cases h
      exact .expired fun _ _ hvalue => hvalue

theorem apiStep_change (h : apiStep ids parseDate s a = some t) : ApiChange ids s a t := by
  cases apiStep_moves h with
  | idle | opened | advanced | failed | loaded | authorized | counted | settled | expired =>
      exact .kept rfl rfl
  | updated hcall => exact .updated hcall rfl rfl
  | deleted hcall hdb => exact .deleted hcall hdb rfl
  | created hnew howner hinsert => exact .created hnew howner hinsert rfl rfl
  | booked htx => exact .booked htx rfl

theorem ApiRequest.afterGetEvent_sound {organizers : Uuid → Option Uuid} {request : ApiRequest}
    {id token : String} {event : EventDetail} {now : Time} (hid : request.eventId = some id)
    (howner : organizers (ids.read id) = some event.organizerId) :
    ApiCall.Sound ids organizers ⟨request, token, request.afterGetEvent now event⟩ := by
  have hasserted : ∀ actor, assertEventOwner event.organizerId actor = .ok () →
      actor.role = .admin ∨ organizers (ids.read id) = some actor.sub := by
    intro actor hassert
    unfold assertEventOwner at hassert
    split at hassert
    next hadmin => exact .inl hadmin
    · split at hassert
      · simp at hassert
      next hsame => exact .inr (howner.trans (congrArg some (not_not.mp hsame)))
  cases request with
  | listEvents version digest => trivial
  | getEvent id => trivial
  | getEventStats id actor =>
      simp only [ApiRequest.afterGetEvent]
      split
      · trivial
      next hassert => exact ⟨id, actor, rfl, rfl, Option.some.inj hid ▸ hasserted actor hassert⟩
  | updateEvent id patch actor =>
      simp only [ApiRequest.afterGetEvent]
      split
      · trivial
      next hguards =>
        refine ⟨id, actor, rfl, rfl, ?_⟩
        rcases (updateEventGuards_ok hguards).1 with hadmin | hsame
        · exact .inl hadmin
        · exact .inr (by rw [Option.some.inj hid, howner, hsame])
  | deleteEvent id actor =>
      simp only [ApiRequest.afterGetEvent]
      split
      · trivial
      next hassert => exact ⟨id, actor, rfl, rfl, Option.some.inj hid ▸ hasserted actor hassert⟩

/-- Every cached detail names the organizer of its event, and a change that
waits for its query passed the check against that organizer. -/
structure Accountable (ids : UuidOps) (s : ApiSystem) : Prop where
  rows : ∀ id row, s.db.findEvent id = some row → s.organizers id = some row.organizerId
  entries : ∀ id value, s.redis.entries (eventCacheDetailKey id) = some value →
    NamesOrganizer ids s.organizers id value
  calls : ∀ c call, s.calls c = some call → call.Sound ids s.organizers

theorem Accountable.start (db : Database) : Accountable ids (.start db) := by
  constructor
  · intro id row hrow
    simp [ApiSystem.start, show db.findEvent id = some row from hrow]
  · intro id value hvalue
    cases hvalue
  · intro c call hcall
    cases hcall

theorem loadEvent_names {db : Database} {organizers : Uuid → Option Uuid}
    (hrows : ∀ id row, db.findEvent id = some row → organizers id = some row.organizerId)
    {id : String} {detail : EventDetail} (h : db.loadEvent ids id = .ok detail) :
    organizers (ids.read id) = some detail.organizerId := by
  unfold Database.loadEvent Database.eventDetail at h
  cases hrow : db.findEvent (ids.read id) with
  | none => simp [hrow] at h
  | some row =>
      simp only [hrow, Option.map_some, Except.ok.injEq] at h
      rw [hrows _ row hrow, ← h]
      rfl

theorem ApiRequest.opening_sound (organizers : Uuid → Option Uuid) (request : ApiRequest)
    (token : String) : ApiCall.Sound ids organizers ⟨request, token, request.opening ids⟩ := by
  unfold ApiRequest.opening
  split
  · exact fun _ _ => trivial
  · trivial

theorem ApiRequest.cacheKey_detail {request : ApiRequest} {id : String}
    (hid : request.eventId = some id) : request.cacheKey = eventCacheDetailKey id := by
  cases request <;> cases hid <;> rfl

theorem Accountable.advance (hs : Accountable ids s) {c : ℕ} {request : ApiRequest}
    {token : String} {phase phase' : CachePhase Unit CachedValue} {redis : Redis CachedValue}
    (hcall : s.calls c = some ⟨request, token, .fetching phase⟩)
    (hnext : advance () request.cacheKey token s.redis phase = some (phase', redis)) :
    (∀ id value, redis.entries (eventCacheDetailKey id) = some value →
      NamesOrganizer ids s.organizers id value) ∧
    ∀ d call, Function.update s.calls c (some ⟨request, token, .fetching phase'⟩) d = some call →
      call.Sound ids s.organizers := by
  have hsound : ∀ id, request.eventId = some id →
      phase.Holds (fun _ => True) (NamesOrganizer ids s.organizers id) := hs.calls c _ hcall
  constructor
  · intro id value hvalue
    rcases advance_stores hnext hvalue with hold | ⟨hsame, rfl⟩
    · exact hs.entries id value hold
    · cases hid : request.eventId with
      | none =>
          cases request <;> cases hid
          exact absurd hsame.symm (eventCacheListKey_ne_detailKey _ _ _)
      | some id' =>
          have hkey := ApiRequest.cacheKey_detail hid
          obtain rfl := eventCacheDetailKey_inj.mp (hsame.trans hkey)
          exact hsound id hid
  · apply calls_update hs.calls
    intro id hid
    refine (advance_holds hnext trivial ?_ (hsound id hid)).1
    rw [ApiRequest.cacheKey_detail hid]
    exact hs.entries id

theorem Accountable.authorize (hs : Accountable ids s) {c : ℕ} {request : ApiRequest}
    {token : String} {event : EventDetail}
    (hcall : s.calls c = some ⟨request, token, .fetching (.finished (.ok (.detail event)))⟩)
    (now : Time) :
    ApiCall.Sound ids s.organizers ⟨request, token, request.afterGetEvent now event⟩ := by
  cases hid : request.eventId with
  | none =>
      cases request <;> cases hid
      trivial
  | some id =>
      obtain ⟨event', hevent', howner⟩ := hs.calls c _ hcall id hid
      cases hevent'
      exact ApiRequest.afterGetEvent_sound hid howner

/-- Commands and queries of a call keep what it and the cache know sound. -/
theorem Accountable.cached (hs : Accountable ids s) (h : apiStep ids parseDate s a = some t) :
    (∀ id value, t.redis.entries (eventCacheDetailKey id) = some value →
      NamesOrganizer ids s.organizers id value) ∧
    ∀ c call, t.calls c = some call → call.Sound ids s.organizers := by
  cases apiStep_moves h with
  | idle | created | booked => exact ⟨hs.entries, hs.calls⟩
  | opened => exact ⟨hs.entries, calls_update hs.calls (ApiRequest.opening_sound _ _ _)⟩
  | advanced hcall hnext => exact hs.advance hcall hnext
  | failed hcall hnext =>
      refine ⟨hs.entries, calls_update hs.calls ?_⟩
      intro id hid
      exact afterFailure_holds hnext trivial (hs.calls _ _ hcall id hid)
  | loaded hcall houtcome =>
      refine ⟨hs.entries, calls_update hs.calls ?_⟩
      intro id hid
      apply afterLoad_holds
      intro value hvalue
      obtain ⟨detail, hdetail, rfl⟩ := map_ok (houtcome id value hid hvalue)
      exact ⟨detail, rfl, loadEvent_names hs.rows hdetail⟩
  | authorized hcall => exact ⟨hs.entries, calls_update hs.calls (hs.authorize hcall _)⟩
  | counted hcall =>
      have hmay := hs.calls _ _ hcall
      exact ⟨hs.entries, calls_update hs.calls hmay⟩
  | settled | updated | deleted => exact ⟨hs.entries, calls_update hs.calls trivial⟩
  | expired hentries =>
      exact ⟨fun id value hvalue => hs.entries id value (hentries _ _ hvalue), hs.calls⟩

theorem ApiChange.organizers (h : ApiChange ids s a t) {id organizer : Uuid}
    (hid : s.organizers id = some organizer) : t.organizers id = some organizer := by
  cases h with
  | kept _ horganizers => rwa [horganizers]
  | updated _ _ horganizers => rwa [horganizers]
  | deleted _ _ horganizers => rwa [horganizers]
  | booked _ horganizers => rwa [horganizers]
  | @created row _ _ _ _ _ hnew _ _ _ horganizers =>
      have hne : id ≠ row.id := fun heq => by simp [heq, hnew] at hid
      rw [horganizers, Function.update_of_ne hne, hid]

/-- Every event row of the next state was there, up to a patch, or is new. -/
theorem ApiChange.row (h : ApiChange ids s a t) {id : Uuid} {row : Event}
    (hrow : t.db.findEvent id = some row) :
    (∃ old, s.db.findEvent id = some old ∧ row.organizerId = old.organizerId) ∨
      t.organizers id = some row.organizerId := by
  cases h with
  | kept hdb => exact .inl ⟨row, hdb ▸ hrow, rfl⟩
  | booked htx =>
      rw [(transaction_effect htx).findEvent] at hrow
      exact .inl ⟨row, hrow, rfl⟩
  | updated _ hdb =>
      rw [hdb, Database.findEvent_withPatch] at hrow
      split at hrow
      · obtain ⟨old, hold, rfl⟩ := Option.map_eq_some_iff.mp hrow
        exact .inl ⟨old, hold, rfl⟩
      · exact .inl ⟨row, hrow, rfl⟩
  | deleted _ hdb =>
      rw [Database.findEvent_deleteEvent hdb] at hrow
      split at hrow
      · simp at hrow
      · exact .inl ⟨row, hrow, rfl⟩
  | @created new _ actor _ events _ _ howner hinsert hdb horganizers =>
      have hfind : t.db.findEvent id = events.find fun e => e.id == id := by rw [hdb]; rfl
      rw [hfind, Table.find_insert hinsert] at hrow
      rcases Option.or_eq_some_iff.mp hrow with hold | ⟨-, hnew⟩
      · exact .inl ⟨row, hold, rfl⟩
      · right
        split at hnew
        next hid =>
          cases hnew
          obtain rfl : row.id = id := by simpa using hid
          rw [horganizers, Function.update_self, howner]
        · simp at hnew

theorem Accountable.step (hs : Accountable ids s) (h : apiStep ids parseDate s a = some t) :
    Accountable ids t := by
  have hchange := apiStep_change h
  have hgrow : ∀ id organizer, s.organizers id = some organizer →
      t.organizers id = some organizer := fun _ _ => hchange.organizers
  obtain ⟨hentries, hcalls⟩ := hs.cached h
  have hnames : ∀ id value, NamesOrganizer ids s.organizers id value →
      NamesOrganizer ids t.organizers id value := by
    rintro id value ⟨event, rfl, howner⟩
    exact ⟨event, rfl, hgrow _ _ howner⟩
  have hmay : ∀ request : ApiRequest, request.MayChange ids s.organizers →
      request.MayChange ids t.organizers := by
    rintro request ⟨id, actor, hid, hactor, hallowed⟩
    exact ⟨id, actor, hid, hactor, hallowed.imp_right (hgrow _ _)⟩
  refine ⟨?_, fun id value hvalue => hnames id value (hentries id value hvalue), ?_⟩
  · intro id row hrow
    rcases hchange.row hrow with ⟨old, hold, hsame⟩ | hnew
    · rw [hsame]
      exact hgrow _ _ (hs.rows id old hold)
    · exact hnew
  · intro c call hcall
    have hsound := hcalls c call hcall
    obtain ⟨request, token, stage⟩ := call
    cases stage with
    | fetching phase => exact fun id hid => (hsound id hid).imp (fun _ _ => trivial) (hnames id)
    | counting event => exact hmay _ hsound
    | updating event => exact hmay _ hsound
    | deleting event => exact hmay _ hsound
    | settled => trivial

theorem BookingOp.Keeps.of_read {op : BookingOp} {now : Time} {old new : Option Booking}
    (h : (op.read ids).Keeps now old new) : op.Keeps now old new := by
  cases old with
  | none =>
      cases new with
      | none => trivial
      | some row =>
          obtain ⟨hcreated, actor, eventId, heq, huser⟩ := h
          cases op with
          | createBooking actor' eventId' =>
              obtain ⟨rfl, -⟩ := BookingOp.createBooking.inj heq
              exact ⟨hcreated, actor', eventId', rfl, huser⟩
          | cancelBooking id actor' => cases heq
          | promoteWaitlist id => cases heq
  | some prior =>
      cases new with
      | none => exact h
      | some row => cases op <;> exact h

/-- Only the update or the deletion of an admin or of its organizer touches an
event row. -/
def EventsByOwner (ids : UuidOps) (s : ApiSystem) (a : ApiAction) (t : ApiSystem) : Prop :=
  ∀ id row, s.db.findEvent id = some row → t.db.findEvent id ≠ some row →
    ∃ c call actor, (a = .update c ∨ a = .delete c) ∧ s.calls c = some call ∧
      call.request.eventId.map ids.read = some id ∧ call.request.actor = some actor ∧
      (actor.role = .admin ∨ actor.sub = row.organizerId)

/-- Only a booking operation touches a booking row, within what it may do. -/
def BookingsByUser (s : ApiSystem) (a : ApiAction) (t : ApiSystem) : Prop :=
  ∀ id, t.db.findBooking id = s.db.findBooking id ∨
    ∃ ctx op, a = .book ctx op ∧ op.Keeps ctx.now (s.db.findBooking id) (t.db.findBooking id)

theorem Accountable.eventsByOwner (hs : Accountable ids s)
    (h : apiStep ids parseDate s a = some t) : EventsByOwner ids s a t := by
  intro id row hrow hlost
  have hallowed : ∀ {c : ℕ} {call : ApiCall} {i : String} {actor : AuthUser},
      s.calls c = some call → call.request.eventId = some i → call.request.actor = some actor →
      call.request.MayChange ids s.organizers → ids.read i = id →
      actor.role = .admin ∨ actor.sub = row.organizerId := by
    rintro c call i actor hcall hid hactor ⟨i', actor', hid', hactor', hmay⟩ rfl
    obtain rfl := Option.some.inj (hid.symm.trans hid')
    obtain rfl := Option.some.inj (hactor.symm.trans hactor')
    rcases hmay with hadmin | howner
    · exact .inl hadmin
    · exact .inr (Option.some.inj (howner.symm.trans (hs.rows _ row hrow)))
  cases apiStep_change h with
  | kept hdb => exact absurd (hdb ▸ hrow) hlost
  | booked htx => exact absurd (by rw [(transaction_effect htx).findEvent, hrow]) hlost
  | @updated c i token patch actor event _ hcall hdb =>
      have hid : ids.read i = id := by
        by_contra hne
        rw [hdb, Database.findEvent_withPatch, if_neg (Ne.symm hne)] at hlost
        exact hlost hrow
      exact ⟨c, _, actor, .inl rfl, hcall, congrArg some hid, rfl,
        hallowed hcall rfl rfl (hs.calls c _ hcall) hid⟩
  | @deleted c i token actor event _ hcall hdb =>
      have hid : ids.read i = id := by
        by_contra hne
        rw [Database.findEvent_deleteEvent hdb, if_neg (Ne.symm hne)] at hlost
        exact hlost hrow
      exact ⟨c, _, actor, .inr rfl, hcall, congrArg some hid, rfl,
        hallowed hcall rfl rfl (hs.calls c _ hcall) hid⟩
  | created _ _ hinsert hdb =>
      refine absurd ?_ hlost
      rw [hdb]
      change Table.find _ _ = _
      rw [Table.find_insert hinsert, Option.or_eq_some_iff]
      exact .inl hrow

theorem bookingsByUser (h : apiStep ids parseDate s a = some t) : BookingsByUser s a t := by
  intro id
  cases apiStep_change h with
  | kept hdb => exact .inl (by rw [hdb])
  | updated _ hdb => exact .inl (by rw [hdb]; rfl)
  | deleted _ hdb => exact .inl (by rw [Database.deleteEvent_ok hdb]; rfl)
  | created _ _ _ hdb => exact .inl (by rw [hdb]; rfl)
  | @booked ctx op result _ htx =>
      exact .inr ⟨ctx, op, rfl, (transaction_keeps_bookings htx id).of_read⟩

/-- In every run of requests and jobs, whatever the cache still holds: events
are changed and deleted by their organizer or an admin only and keep their
organizer, bookings are created and moved for their user, cancelled by an
admin, or promoted off the waitlist. -/
theorem ownership_sound {db : Database} {acts : List ApiAction}
    (hrun : exec (apiStep ids parseDate) (.start db) acts = some s) :
    (∀ a t, apiStep ids parseDate s a = some t →
      EventsByOwner ids s a t ∧ BookingsByUser s a t) ∧
    ∀ more t, exec (apiStep ids parseDate) s more = some t →
      ∀ id row row', s.db.findEvent id = some row → t.db.findEvent id = some row' →
        row'.organizerId = row.organizerId := by
  have hs : Accountable ids s :=
    exec_invariant (fun _ _ _ hs hstep => hs.step hstep) (.start db) hrun
  refine ⟨fun a t hstep => ⟨hs.eventsByOwner hstep, bookingsByUser hstep⟩, ?_⟩
  intro more t hmore id row row' hrow hrow'
  have ht : Accountable ids t := exec_invariant (fun _ _ _ hs hstep => hs.step hstep) hs hmore
  have hkept : t.organizers id = some row.organizerId := by
    refine exec_invariant (I := fun u => u.organizers id = some row.organizerId) ?_
      (hs.rows id row hrow) hmore
    intro u a v hu hstep
    exact (apiStep_change hstep).organizers hu
  exact Option.some.inj ((ht.rows id row' hrow').symm.trans hkept)

/-- A stranger edits an event whose detail is cached; the organizer deletes it. -/
def contestedRun : List ApiAction :=
  [.begin 0 "reader" (.getEvent hallId), .advance 0, .advance 0, .advance 0, .load 0, .advance 0,
    .patchEvent 1 "stranger" hallId [("capacity", .number 9)] ⟨"stranger", .organizer⟩,
    .advance 1, .authorize 1 0,
    .begin 2 "owner" (.deleteEvent hallId ⟨"organizer", .organizer⟩), .advance 2,
    .authorize 2 0, .bookingStats 2]

theorem ownership_sound_contested :
    ∃ s t, exec (apiStep storedSpelling fun _ => none) (.start hallDatabase) contestedRun =
        some s ∧
      (s.calls 1).map ApiCall.stage = some .settled ∧
      apiStep storedSpelling (fun _ => none) s (.delete 2) = some t ∧
      t.db.findEvent hallId = none ∧ EventsByOwner storedSpelling s (.delete 2) t := by
  obtain ⟨s, t, hs, hsettled, ht, hgone⟩ : ∃ s t,
      exec (apiStep storedSpelling fun _ => none) (.start hallDatabase) contestedRun = some s ∧
        (s.calls 1).map ApiCall.stage = some .settled ∧
        apiStep storedSpelling (fun _ => none) s (.delete 2) = some t ∧
        t.db.findEvent hallId = none := ⟨_, _, rfl, rfl, rfl, rfl⟩
  exact ⟨s, t, hs, hsettled, ht, hgone, ((ownership_sound hs).1 _ t ht).1⟩

end Eventify
