import Eventify.Events.Requests

/-!
# Event details under several spellings

Requests one at a time, each with its invalidation, over a cache that never
fails. The cache knows an event by the text of the request, PostgreSQL by the
value of the text, so one event can have several details in the cache.
-/

namespace Eventify

open Library

namespace Database

variable (db : Database) (ids : UuidOps)

/-- `getEvent` without the cache. -/
def fetchEvent (id : String) : Except Failure EventDetail :=
  if ids.accepts id then db.loadEvent ids id else .error (.status 404 "Event not found")

/-- `updateEvent` after its `getEvent`. -/
def editEvent (now : Time) (id : String) (patch : EventPatch) (actor : AuthUser)
    (found : Except Failure EventDetail) : Except Failure (Event × Database) :=
  match found with
  | .error failure => .error failure
  | .ok event =>
      match updateEventGuards now event patch actor with
      | .error failure => .error failure
      | .ok () => db.updateEvent (ids.read id) patch

/-- `deleteEvent` after its `getEvent`. -/
def removeEvent (id : String) (actor : AuthUser) (found : Except Failure EventDetail) :
    Except Failure (EventDetail × Database) :=
  match found with
  | .error failure => .error failure
  | .ok event =>
      match assertEventOwner event.organizerId actor with
      | .error failure => .error failure
      | .ok () =>
          if 0 < db.countBookings (ids.read id) .confirmed +
              db.countBookings (ids.read id) .waitlisted then
            .error (.status 409
              "Events with confirmed or waitlisted bookings cannot be deleted")
          else (db.deleteEvent (ids.read id)).map fun db => (event, db)

end Database

structure Site where
  db : Database
  redis : Redis EventDetail

inductive SiteAction where
  | getEvent (id : String)
  | createEvent (newId : Uuid) (now : Time) (input : EventCreateInput) (actor : AuthUser)
  | updateEvent (now : Time) (id : String) (patch : EventPatch) (actor : AuthUser)
  | deleteEvent (id : String) (actor : AuthUser)
  | book (ctx : TxContext) (op : BookingOp)
  | expireEntry (key : String)

namespace Database

variable {db db' : Database} {ids : UuidOps} {id : String} {actor : AuthUser}
  {found : Except Failure EventDetail}

theorem editEvent_ok {now : Time} {patch : EventPatch} {updated : Event}
    (h : db.editEvent ids now id patch actor found = .ok (updated, db')) :
    db' = db.withPatch (ids.read id) patch := by
  unfold editEvent at h
  split at h
  · simp at h
  · split at h
    · simp at h
    · obtain ⟨row, -, -, hdb⟩ := updateEvent_ok h
      exact hdb

theorem removeEvent_ok {event : EventDetail}
    (h : db.removeEvent ids id actor found = .ok (event, db')) :
    db.deleteEvent (ids.read id) = .ok db' := by
  unfold removeEvent at h
  split at h
  · simp at h
  · split at h
    · simp at h
    · split at h
      · simp at h
      · obtain ⟨deleted, hdelete, heq⟩ := map_ok h
        obtain rfl : deleted = db' := (Prod.mk.inj heq).2
        exact hdelete

end Database

def SiteAction.texts : SiteAction → List String
  | getEvent id | updateEvent _ id _ _ | deleteEvent id _ => [id]
  | book _ (.createBooking _ eventId) | book _ (.promoteWaitlist eventId) => [eventId]
  | book _ (.cancelBooking _ _) | createEvent _ _ _ _ | expireEntry _ => []

namespace Site

def start (db : Database) : Site := ⟨db, .empty⟩

def invalidateEvent (s : Site) (id : String) : Site :=
  { s with redis := s.redis.del (eventCacheDetailKey id) }

variable (s : Site) (ids : UuidOps)

def getEvent (id : String) : Except Failure EventDetail × Site :=
  if ids.accepts id then
    let call := cacheAside (eventCacheDetailKey id) (s.db.loadEvent ids id) s.redis
    (call.1, { s with redis := call.2 })
  else (.error (.status 404 "Event not found"), s)

def createEvent (newId : Uuid) (now : Time) (input : EventCreateInput) (actor : AuthUser) :
    Except Failure Event × Site :=
  match assertFutureStart input.startsAt now with
  | .error failure => (.error failure, s)
  | .ok () =>
      match s.db.createEvent newId input actor.sub now with
      | .error failure => (.error failure, s)
      | .ok (created, db) => (.ok created, { s with db })

def updateEvent (now : Time) (id : String) (patch : EventPatch) (actor : AuthUser) :
    Except Failure Event × Site :=
  let (found, s) := s.getEvent ids id
  match s.db.editEvent ids now id patch actor found with
  | .error failure => (.error failure, s)
  | .ok (updated, db) => (.ok updated, { s with db }.invalidateEvent id)

def deleteEvent (id : String) (actor : AuthUser) : Except Failure EventDetail × Site :=
  let (found, s) := s.getEvent ids id
  match s.db.removeEvent ids id actor found with
  | .error failure => (.error failure, s)
  | .ok (event, db) => (.ok event, { s with db }.invalidateEvent id)

def book (ctx : TxContext) (op : BookingOp) : Except Failure OpResult × Site :=
  match (op.read ids).transaction ctx s.db with
  | .error failure => (.error failure, s)
  | .ok (result, db) =>
      match op.invalidated result with
      | none => (.ok result, { s with db })
      | some id => (.ok result, { s with db }.invalidateEvent id)

end Site

section Steps

variable (ids : UuidOps)

def siteStep (s : Site) : SiteAction → Option Site
  | .getEvent id => some (s.getEvent ids id).2
  | .createEvent newId now input actor => some (s.createEvent newId now input actor).2
  | .updateEvent now id patch actor => some (s.updateEvent ids now id patch actor).2
  | .deleteEvent id actor => some (s.deleteEvent ids id actor).2
  | .book ctx op => if ids.accepts op.idText then some (s.book ids ctx op).2 else some s
  | .expireEntry key => some { s with redis := s.redis.del key }

/-- What an action commits, and the text it then invalidates, when `getEvent`
is served by the database. -/
def commits (db : Database) : SiteAction → Option (Database × Option String)
  | .getEvent _ => none
  | .createEvent newId now input actor =>
      match assertFutureStart input.startsAt now with
      | .error _ => none
      | .ok () => (db.createEvent newId input actor.sub now).toOption.map fun r => (r.2, none)
  | .updateEvent now id patch actor =>
      (db.editEvent ids now id patch actor (db.fetchEvent ids id)).toOption.map
        fun r => (r.2, some id)
  | .deleteEvent id actor =>
      (db.removeEvent ids id actor (db.fetchEvent ids id)).toOption.map fun r => (r.2, some id)
  | .book ctx op =>
      if ids.accepts op.idText then
        ((op.read ids).transaction ctx db).toOption.map fun r => (r.2, op.invalidated r.1)
      else none
  | .expireEntry _ => none

/-- Requests are served what the database holds: `getEvent` returns it and
`updateEvent` decides on it. -/
structure ServesCurrent (s : Site) : Prop where
  get : ∀ id, (s.getEvent ids id).1 = s.db.fetchEvent ids id
  update : ∀ now id patch actor, (s.updateEvent ids now id patch actor).1 =
    (s.db.editEvent ids now id patch actor (s.db.fetchEvent ids id)).map Prod.fst

def KeepsCurrent (s : Site) (a : SiteAction) : Prop :=
  ∀ t, siteStep ids s a = some t → ServesCurrent ids t

/-- When the action commits, Redis holds the detail of an event that changes
under no other text than the one that is invalidated. -/
def OneSpelling (s : Site) (a : SiteAction) : Prop :=
  ∀ db invalidated, commits ids s.db a = some (db, invalidated) →
    ∀ id detail, ids.accepts id = true →
      s.redis.entries (eventCacheDetailKey id) = some detail →
      db.eventDetail (ids.read id) ≠ s.db.eventDetail (ids.read id) → invalidated = some id

def Coherent (s : Site) : Prop :=
  ∀ id detail, ids.accepts id = true →
    s.redis.entries (eventCacheDetailKey id) = some detail →
      s.db.eventDetail (ids.read id) = some detail

end Steps

variable {ids : UuidOps} {s t : Site} {a : SiteAction}

@[simp] theorem Site.getEvent_db (s : Site) (ids : UuidOps) (id : String) :
    (s.getEvent ids id).2.db = s.db := by
  unfold Site.getEvent
  split <;> rfl

theorem Site.getEvent_entries_of_ne {id : String} {key : String}
    (h : key ≠ eventCacheDetailKey id) :
    (s.getEvent ids id).2.redis.entries key = s.redis.entries key := by
  unfold Site.getEvent
  split
  · exact cacheAside_entries_of_ne _ _ h
  · rfl

theorem Database.loadEvent_ok_iff {db : Database} {id : String} {detail : EventDetail} :
    db.loadEvent ids id = .ok detail ↔ db.eventDetail (ids.read id) = some detail := by
  rw [loadEvent]
  cases db.eventDetail (ids.read id) <;> simp

theorem Site.getEvent_entries {id other : String} {detail : EventDetail}
    (h : (s.getEvent ids id).2.redis.entries (eventCacheDetailKey other) = some detail) :
    s.redis.entries (eventCacheDetailKey other) = some detail ∨
      (other = id ∧ s.db.eventDetail (ids.read other) = some detail) := by
  unfold Site.getEvent at h
  split at h
  · rcases cacheAside_entries h with hold | ⟨hkey, hload⟩
    · exact .inl hold
    · obtain rfl := eventCacheDetailKey_inj.mp hkey
      exact .inr ⟨rfl, Database.loadEvent_ok_iff.mp hload⟩
  · exact .inl h

theorem Site.getEvent_of_hit {id : String} {detail : EventDetail} (hid : ids.accepts id = true)
    (h : s.redis.entries (eventCacheDetailKey id) = some detail) :
    (s.getEvent ids id).1 = .ok detail := by
  simp [Site.getEvent, cacheAside, hid, h]

theorem Site.getEvent_of_miss {id : String}
    (h : s.redis.entries (eventCacheDetailKey id) = none) :
    (s.getEvent ids id).1 = s.db.fetchEvent ids id := by
  unfold Site.getEvent Database.fetchEvent cacheAside
  split
  · rw [h]
    cases hload : s.db.loadEvent ids id <;> rfl
  · rfl

theorem Database.fetchEvent_ok_iff {db : Database} {id : String} (hid : ids.accepts id = true)
    {detail : EventDetail} :
    db.fetchEvent ids id = .ok detail ↔ db.eventDetail (ids.read id) = some detail := by
  rw [fetchEvent, if_pos hid, loadEvent_ok_iff]

theorem Coherent.getEvent (hs : Coherent ids s) (id : String) :
    (s.getEvent ids id).1 = s.db.fetchEvent ids id := by
  cases hentry : s.redis.entries (eventCacheDetailKey id) with
  | none => exact Site.getEvent_of_miss hentry
  | some detail =>
      by_cases hid : ids.accepts id = true
      · rw [Site.getEvent_of_hit hid hentry]
        exact ((Database.fetchEvent_ok_iff hid).mpr (hs id detail hid hentry)).symm
      · simp [Site.getEvent, Database.fetchEvent, hid]

theorem servesCurrent_iff : ServesCurrent ids s ↔ Coherent ids s := by
  constructor
  · intro h id detail hid hentry
    rw [← Database.fetchEvent_ok_iff hid, ← h.get id]
    exact Site.getEvent_of_hit hid hentry
  · intro hs
    refine ⟨hs.getEvent, ?_⟩
    intro now id patch actor
    simp only [Site.updateEvent, hs.getEvent, Site.getEvent_db]
    cases s.db.editEvent ids now id patch actor (s.db.fetchEvent ids id) <;> rfl

/-- All that a step of a coherent site can do: it commits nothing and adds
what the database holds, or it commits and deletes one text. -/
inductive SiteChange (ids : UuidOps) (s : Site) (a : SiteAction) (t : Site) : Prop
  | served (hcommit : commits ids s.db a = none) (hdb : t.db = s.db)
      (hentries : ∀ id detail, t.redis.entries (eventCacheDetailKey id) = some detail →
        s.redis.entries (eventCacheDetailKey id) = some detail ∨
          (id ∈ a.texts ∧ s.db.eventDetail (ids.read id) = some detail))
  | wrote {db : Database} {invalidated : Option String}
      (hcommit : commits ids s.db a = some (db, invalidated)) (hdb : t.db = db)
      (hentries : ∀ id, t.redis.entries (eventCacheDetailKey id) =
        if invalidated = some id then none else s.redis.entries (eventCacheDetailKey id))

theorem entries_invalidate {redis redis' : Redis EventDetail} {id : String}
    (h : ∀ key, key ≠ eventCacheDetailKey id → redis'.entries key = redis.entries key)
    (other : String) :
    (redis'.del (eventCacheDetailKey id)).entries (eventCacheDetailKey other) =
      if some id = some other then none else redis.entries (eventCacheDetailKey other) := by
  by_cases hid : id = other
  · subst hid
    simp [Redis.del]
  · have hkey : eventCacheDetailKey other ≠ eventCacheDetailKey id :=
      eventCacheDetailKey_inj.not.mpr fun h => hid h.symm
    simp [Redis.del, hkey, hid, h]

theorem siteStep_change (hs : Coherent ids s) (h : siteStep ids s a = some t) :
    SiteChange ids s a t := by
  have hfound := hs.getEvent
  cases a with
  | getEvent id =>
      cases h
      refine .served rfl (by simp) fun other detail hentry => ?_
      simpa [SiteAction.texts] using Site.getEvent_entries hentry
  | createEvent newId now input actor =>
      cases h
      unfold Site.createEvent
      cases hstart : assertFutureStart input.startsAt now with
      | error failure => exact .served (by simp [commits, hstart]) rfl fun _ _ => .inl
      | ok u =>
          cases hcreate : s.db.createEvent newId input actor.sub now with
          | error failure =>
              exact .served (by simp [commits, hstart, hcreate, Except.toOption]) rfl
                fun _ _ => .inl
          | ok r =>
              exact .wrote (by simp [commits, hstart, hcreate, Except.toOption]; rfl) rfl (by simp)
  | updateEvent now id patch actor =>
      cases h
      simp only [Site.updateEvent, hfound, Site.getEvent_db]
      cases hedit : s.db.editEvent ids now id patch actor (s.db.fetchEvent ids id) with
      | error failure =>
          refine .served (by simp [commits, hedit, Except.toOption]) (by simp) ?_
          intro other detail hentry
          simpa [SiteAction.texts] using Site.getEvent_entries hentry
      | ok r =>
          exact .wrote (by simp [commits, hedit, Except.toOption]; rfl) rfl
            (entries_invalidate fun _ => Site.getEvent_entries_of_ne)
  | deleteEvent id actor =>
      cases h
      simp only [Site.deleteEvent, hfound, Site.getEvent_db]
      cases hremove : s.db.removeEvent ids id actor (s.db.fetchEvent ids id) with
      | error failure =>
          refine .served (by simp [commits, hremove, Except.toOption]) (by simp) ?_
          intro other detail hentry
          simpa [SiteAction.texts] using Site.getEvent_entries hentry
      | ok r =>
          exact .wrote (by simp [commits, hremove, Except.toOption]; rfl) rfl
            (entries_invalidate fun _ => Site.getEvent_entries_of_ne)
  | book ctx op =>
      simp only [siteStep] at h
      split at h
      next haccepts =>
        cases h
        cases htx : (op.read ids).transaction ctx s.db with
        | error failure =>
            have hbook : (s.book ids ctx op).2 = s := by simp [Site.book, htx]
            rw [hbook]
            exact .served (by simp [commits, haccepts, htx, Except.toOption]) rfl fun _ _ => .inl
        | ok r =>
            have hcommit : commits ids s.db (.book ctx op) = some (r.2, op.invalidated r.1) := by
              simp [commits, haccepts, htx, Except.toOption]
            cases hinvalidated : op.invalidated r.1 with
            | none =>
                have hbook : (s.book ids ctx op).2 = { s with db := r.2 } := by
                  simp [Site.book, htx, hinvalidated]
                rw [hbook]
                exact .wrote (hinvalidated ▸ hcommit) rfl (by simp)
            | some id =>
                have hbook : (s.book ids ctx op).2 = { s with db := r.2 }.invalidateEvent id := by
                  simp [Site.book, htx, hinvalidated]
                rw [hbook]
                exact .wrote (hinvalidated ▸ hcommit) rfl (entries_invalidate fun _ _ => rfl)
      next haccepts =>
        cases h
        exact .served (by simp [commits, haccepts]) rfl fun _ _ => .inl
  | expireEntry key =>
      cases h
      exact .served rfl rfl fun _ _ hentry => .inl (Redis.del_entries_some hentry)

theorem Coherent.step (hs : Coherent ids s) (hone : OneSpelling ids s a)
    (h : siteStep ids s a = some t) : Coherent ids t := by
  intro id detail hid hentry
  cases siteStep_change hs h with
  | served _ hdb hentries =>
      rw [hdb]
      rcases hentries id detail hentry with hold | ⟨-, hnew⟩
      · exact hs id detail hid hold
      · exact hnew
  | @wrote db invalidated hcommit hdb hentries =>
      rw [hentries] at hentry
      split at hentry
      · simp at hentry
      next hother =>
        rw [hdb]
        by_contra hstale
        have hold := hs id detail hid hentry
        exact hother (hone db invalidated hcommit id detail hid hentry (hold ▸ hstale))

theorem keepsCurrent_iff (hs : Coherent ids s) :
    KeepsCurrent ids s a ↔ OneSpelling ids s a := by
  constructor
  · intro hkeeps db invalidated hcommit id detail hid hentry hchanged
    obtain ⟨t, ht⟩ : ∃ t, siteStep ids s a = some t := by
      cases a <;> simp only [siteStep, Option.some.injEq, exists_eq', ← apply_ite some]
    have hcoherent := servesCurrent_iff.mp (hkeeps t ht)
    cases siteStep_change hs ht with
    | served hnone => simp [hcommit] at hnone
    | wrote hcommit' hdb hentries =>
        obtain ⟨rfl, rfl⟩ := Prod.mk.inj (Option.some.inj (hcommit'.symm.trans hcommit))
        by_contra hother
        have hkept := hentries id
        rw [if_neg hother, hentry] at hkept
        apply hchanged
        rw [hs id detail hid hentry, ← hdb]
        exact hcoherent id detail hid hkept
  · intro hone t ht
    exact servesCurrent_iff.mpr (hs.step hone ht)

/-- From an empty cache on, requests are served what the database holds iff
no commit leaves a detail of an event it changes under another text. -/
theorem details_current_iff (ids : UuidOps) (db : Database) (acts : List SiteAction) :
    ServesCurrent ids (.start db) ∧
      (Along (siteStep ids) (KeepsCurrent ids) (.start db) acts ↔
        Along (siteStep ids) (OneSpelling ids) (.start db) acts) := by
  have hstart : Coherent ids (.start db) := fun _ _ _ hentry => nomatch hentry
  constructor
  · exact servesCurrent_iff.mpr hstart
  · refine along_iff (I := Coherent ids) (fun _ _ hs => keepsCurrent_iff hs) ?_ hstart acts
    exact fun _ _ _ hs hone h => hs.step hone h

section Alone

variable {s : EventSystem}

def EventSystem.site (s : EventSystem) : Site := ⟨s.db, s.redis⟩

@[simp] theorem EventSystem.site_db (s : EventSystem) : s.site.db = s.db := rfl

@[simp] theorem EventSystem.site_redis (s : EventSystem) : s.site.redis = s.redis := rfl

/-- The steps of a `getEvent` that meets no other request have the effect of
one request of the site. -/
theorem getEvent_alone (ids : UuidOps) {c : ℕ} {id : String} (token : String)
    (request : EventRequest) (hnew : s.calls c = none)
    (hfree : s.redis.locks (eventCacheDetailKey id) = none) :
    ∃ acts, exec (eventStep ids) s (.begin c id token request :: acts) =
      some { s with
        redis := (s.site.getEvent ids id).2.redis
        calls := Function.update s.calls c (some ⟨id, token,
          .getting request (.finished (s.site.getEvent ids id).1)⟩) } := by
  by_cases hid : ids.accepts id = true
  · cases hentry : s.redis.entries (eventCacheDetailKey id) with
    | some detail =>
        refine ⟨[.advance c], ?_⟩
        simp [exec, eventStep, hnew, EventSystem.withCall, hid, advance, hentry,
          CachePhase.afterRead, Site.getEvent, cacheAside]
    | none =>
        cases hload : s.db.loadEvent ids id with
        | error failure =>
            refine ⟨[.advance c, .advance c, .advance c, .load c, .advance c], ?_⟩
            simp [exec, eventStep, hnew, EventSystem.withCall, hid, advance, hentry,
              CachePhase.afterRead, CachePhase.afterLock, CachePhase.afterRecheck,
              CachePhase.afterLoad, hload, hfree, Redis.setLock_releaseLock, Site.getEvent,
              cacheAside]
        | ok detail =>
            refine ⟨[.advance c, .advance c, .advance c, .load c, .advance c, .advance c], ?_⟩
            simp [exec, eventStep, hnew, EventSystem.withCall, hid, advance, hentry,
              CachePhase.afterRead, CachePhase.afterLock, CachePhase.afterRecheck,
              CachePhase.afterLoad, hload, hfree, Redis.set_releaseLock, Site.getEvent, cacheAside]
  · refine ⟨[], ?_⟩
    simp [exec, eventStep, hnew, hid, Site.getEvent, EventSystem.withCall]

theorem updateEvent_alone (ids : UuidOps) {c : ℕ} {id : String} (token : String)
    (patch : EventPatch) (actor : AuthUser) (now : Time) (hnew : s.calls c = none)
    (hfree : s.redis.locks (eventCacheDetailKey id) = none) :
    ∃ acts, exec (eventStep ids) s (.begin c id token (.updateEvent patch actor) :: acts) =
      some { s with
        db := (s.site.updateEvent ids now id patch actor).2.db
        redis := (s.site.updateEvent ids now id patch actor).2.redis
        calls := Function.update s.calls c (some ⟨id, token,
          .settled (s.site.updateEvent ids now id patch actor).1⟩) } := by
  obtain ⟨acts, hget⟩ := getEvent_alone ids token (.updateEvent patch actor) hnew hfree
  -- the rest of the run starts where `getEvent` has settled
  have hrest : ∀ rest t, exec (eventStep ids) { s with
      redis := (s.site.getEvent ids id).2.redis
      calls := Function.update s.calls c (some ⟨id, token,
        .getting (.updateEvent patch actor) (.finished (s.site.getEvent ids id).1)⟩) } rest =
        some t →
      ∃ acts, exec (eventStep ids) s (.begin c id token (.updateEvent patch actor) :: acts) =
        some t := by
    intro rest t hrest
    exact ⟨acts ++ rest, by rw [← List.cons_append, exec_append_iff]; exact ⟨_, hget, hrest⟩⟩
  cases hfound : (s.site.getEvent ids id).1 with
  | error failure =>
      apply hrest [.guards c now]
      simp [hfound, exec, eventStep, Except.bind, EventSystem.withCall, Site.updateEvent,
        Database.editEvent]
  | ok event =>
      cases hguards : updateEventGuards now event patch actor with
      | error failure =>
          apply hrest [.guards c now]
          simp [hfound, exec, eventStep, Except.bind, Except.map, hguards, EventSystem.withCall,
            Site.updateEvent, Database.editEvent]
      | ok u =>
          cases hupdate : s.db.updateEvent (ids.read id) patch with
          | error failure =>
              apply hrest [.guards c now, .update c]
              simp [hfound, exec, eventStep, Except.bind, Except.map, hguards, hupdate,
                EventSystem.withCall, Site.updateEvent, Database.editEvent]
          | ok r =>
              apply hrest [.guards c now, .update c, .invalidate id]
              simp [hfound, exec, eventStep, Except.bind, Except.map, hguards, hupdate,
                EventSystem.withCall, Site.updateEvent, Database.editEvent, Site.invalidateEvent]

theorem book_alone {ids : UuidOps} (ctx : TxContext) {op : BookingOp}
    (hid : ids.accepts op.idText = true) :
    ∃ acts, exec (eventStep ids) s (.book ctx op :: acts) =
      some { s with
        db := (s.site.book ids ctx op).2.db, redis := (s.site.book ids ctx op).2.redis } := by
  cases htx : (op.read ids).transaction ctx s.db with
  | error failure =>
      refine ⟨[], ?_⟩
      simp [exec, eventStep, hid, htx, Site.book]
  | ok r =>
      cases hinvalidated : op.invalidated r.1 with
      | none =>
          refine ⟨[], ?_⟩
          simp [exec, eventStep, hid, htx, hinvalidated, Site.book]
      | some id =>
          refine ⟨[.invalidate id], ?_⟩
          simp [exec, eventStep, hid, htx, hinvalidated, Site.book, Site.invalidateEvent]

end Alone

theorem invalidated_of_count {ctx : TxContext} {op : BookingOp} {result : OpResult}
    {db db' : Database} (h : op.transaction ctx db = .ok (result, db')) {e : Uuid}
    (hcount : db'.countBookings e .confirmed ≠ db.countBookings e .confirmed) :
    op.invalidated result = some e := by
  cases op with
  | createBooking actor eventId =>
      obtain ⟨⟨b, db₁⟩, htx, heq⟩ := map_ok h
      obtain rfl : db₁ = db' := (Prod.mk.inj heq).2
      obtain rfl := (Prod.mk.inj heq).1
      obtain ⟨event, old, -, -, -, heid, -, hcases⟩ := createBookingTx_ok htx
      apply congrArg some
      by_contra hne
      rcases hcases with ⟨rfl, -⟩ | hseat | hqueue
      · exact hcount rfl
      · exact hcount (hseat.count_of_ne (heid ▸ hne) _)
      · exact hcount (hqueue.count_of_ne (heid ▸ hne) _)
  | cancelBooking id actor =>
      obtain ⟨⟨b, db₁⟩, htx, heq⟩ := map_ok h
      obtain rfl : db₁ = db' := (Prod.mk.inj heq).2
      obtain rfl := (Prod.mk.inj heq).1
      obtain ⟨booking, -, -, -, hcases⟩ := cancelBookingTx_ok htx
      apply congrArg some
      by_contra hne
      rcases hcases with ⟨rfl, -⟩ | hrelease
      · exact hcount rfl
      · exact hcount (hrelease.count_of_ne hne _)
  | promoteWaitlist eventId =>
      obtain ⟨⟨k, db₁⟩, htx, heq⟩ := map_ok h
      obtain rfl : db₁ = db' := (Prod.mk.inj heq).2
      obtain rfl := (Prod.mk.inj heq).1
      rcases promoteWaitlistTx_ok htx with ⟨-, -, rfl⟩ | ⟨event, -, hpromotes, hk, -⟩
      · exact absurd rfl hcount
      · have hmoved := (hpromotes.count e).1
        rw [Database.length_findWaiting, ← hk] at hmoved
        by_cases he : eventId = e
        · rw [if_pos he] at hmoved
          have hpos : 0 < k := by omega
          simp [BookingOp.invalidated, hpos, he]
        · exact absurd (by simpa [he] using hmoved) hcount

/-- An action that names events by their values invalidates what it changes;
a created event has no detail before. -/
theorem invalidated_of_change {db db' : Database} {invalidated : Option String}
    (hspelled : ∀ text ∈ a.texts, ids.read text = text)
    (h : commits ids db a = some (db', invalidated)) {e : Uuid}
    (hchanged : db'.eventDetail e ≠ db.eventDetail e) :
    invalidated = some e ∨ db.eventDetail e = none := by
  have hunchanged : db'.findEvent e = db.findEvent e →
      db'.countBookings e .confirmed = db.countBookings e .confirmed → False := by
    intro hfind hcount
    exact hchanged (by rw [Database.eventDetail, Database.eventDetail, hfind, hcount])
  cases a with
  | getEvent id => simp [commits] at h
  | expireEntry key => simp [commits] at h
  | createEvent newId now input actor =>
      simp only [commits] at h
      split at h
      · simp at h
      · obtain ⟨⟨created, db₁⟩, hok, heq⟩ := Option.map_eq_some_iff.mp h
        obtain ⟨rfl, -⟩ := Prod.mk.inj heq
        obtain ⟨events, hinsert, rfl⟩ := Database.createEvent_ok (toOption_eq_some_iff.mp hok)
        right
        rw [Database.eventDetail, Option.map_eq_none_iff]
        by_contra hfound
        obtain ⟨row, hrow⟩ := Option.ne_none_iff_exists'.mp hfound
        apply hunchanged _ rfl
        have hfind := Table.find_insert hinsert fun row => row.id == e
        rw [Database.findEvent] at hrow
        rw [Database.findEvent, hfind, hrow, Database.findEvent, hrow]
        rfl
  | updateEvent now id patch actor =>
      obtain ⟨⟨updated, db₁⟩, hok, heq⟩ := Option.map_eq_some_iff.mp h
      obtain ⟨rfl, rfl⟩ := Prod.mk.inj heq
      have hid : ids.read id = id := hspelled id (by simp [SiteAction.texts])
      obtain rfl := Database.editEvent_ok (toOption_eq_some_iff.mp hok)
      left
      apply congrArg some
      by_contra hne
      refine hunchanged ?_ rfl
      rw [Database.findEvent_withPatch, hid, if_neg (Ne.symm hne)]
  | deleteEvent id actor =>
      obtain ⟨⟨event, db₁⟩, hok, heq⟩ := Option.map_eq_some_iff.mp h
      obtain ⟨rfl, rfl⟩ := Prod.mk.inj heq
      have hid : ids.read id = id := hspelled id (by simp [SiteAction.texts])
      have hdelete := Database.removeEvent_ok (toOption_eq_some_iff.mp hok)
      left
      apply congrArg some
      by_contra hne
      apply hunchanged
      · rw [Database.findEvent_deleteEvent hdelete, hid, if_neg (Ne.symm hne)]
      · rw [Database.deleteEvent_ok hdelete]
        rfl
  | book ctx op =>
      simp only [commits] at h
      split at h
      · obtain ⟨⟨result, db₁⟩, hok, heq⟩ := Option.map_eq_some_iff.mp h
        obtain ⟨rfl, rfl⟩ := Prod.mk.inj heq
        have htx := toOption_eq_some_iff.mp hok
        have hcount := fun heq => hunchanged ((transaction_effect htx).findEvent e) heq
        have hinvalidated := invalidated_of_count htx hcount
        left
        cases op with
        | createBooking actor eventId =>
            have hid : ids.read eventId = eventId := hspelled eventId (by simp [SiteAction.texts])
            simpa [BookingOp.read, BookingOp.invalidated, hid] using hinvalidated
        | cancelBooking id actor => cases result <;> exact hinvalidated
        | promoteWaitlist eventId =>
            have hid : ids.read eventId = eventId := hspelled eventId (by simp [SiteAction.texts])
            simpa [BookingOp.read, hid] using hinvalidated
      · simp at h

structure SpelledAsStored (ids : UuidOps) (s : Site) : Prop where
  coherent : Coherent ids s
  texts : ∀ id detail, s.redis.entries (eventCacheDetailKey id) = some detail → ids.read id = id

theorem SpelledAsStored.oneSpelling (hs : SpelledAsStored ids s)
    (hspelled : ∀ text ∈ a.texts, ids.read text = text) : OneSpelling ids s a := by
  intro db invalidated hcommit id detail hid hentry hchanged
  rw [hs.texts id detail hentry] at hchanged
  rcases invalidated_of_change hspelled hcommit hchanged with hsame | hnone
  · exact hsame
  · have hfound := hs.coherent id detail hid hentry
    rw [hs.texts id detail hentry, hnone] at hfound
    simp at hfound

theorem SpelledAsStored.step (hs : SpelledAsStored ids s)
    (hspelled : ∀ text ∈ a.texts, ids.read text = text) (h : siteStep ids s a = some t) :
    SpelledAsStored ids t := by
  refine ⟨hs.coherent.step (hs.oneSpelling hspelled) h, ?_⟩
  intro id detail hentry
  cases siteStep_change hs.coherent h with
  | served _ _ hentries =>
      rcases hentries id detail hentry with hold | ⟨htext, -⟩
      · exact hs.texts id detail hold
      · exact hspelled id htext
  | wrote _ _ hentries =>
      rw [hentries] at hentry
      split at hentry
      · simp at hentry
      · exact hs.texts id detail hentry

/-- Requests that spell every id as PostgreSQL returns it keep to one spelling. -/
theorem along_oneSpelling (ids : UuidOps) (db : Database) {acts : List SiteAction}
    (hspelled : ∀ a ∈ acts, ∀ text ∈ a.texts, ids.read text = text) :
    Along (siteStep ids) (OneSpelling ids) (.start db) acts := by
  have hstart : SpelledAsStored ids (.start db) := by
    constructor
    · exact fun _ _ _ hentry => nomatch hentry
    · exact fun _ _ hentry => nomatch hentry
  have hstored : Along (siteStep ids) (fun _ a => ∀ text ∈ a.texts, ids.read text = text)
      (.start db) acts := along_of_forall_mem fun a ha _ => hspelled a ha
  exact hstored.mono (fun _ _ hs => hs.oneSpelling) (fun _ _ _ hs hgood h => hs.step hgood h) hstart

def isUuid (text : String) : Bool :=
  let hexDigits := "0123456789abcdefABCDEF".toList
  match text.toList.splitOn '-' with
  | [a, b, c, d, e] =>
      [a, b, c, d, e].map List.length == [8, 4, 4, 4, 12] &&
        c.head?.any "12345678".toList.contains && d.head?.any "89abAB".toList.contains &&
        [a, b, c, d, e].all fun part => part.all hexDigits.contains
  | _ => false

def postgresIds : UuidOps := ⟨isUuid, String.toLower⟩

def upperHallId : String := "0198F3A0-0000-7000-8000-00000000000A"

theorem accepts_hallId : postgresIds.accepts hallId = true := rfl

theorem accepts_upperHallId : postgresIds.accepts upperHallId = true := rfl

theorem read_hallId : postgresIds.read hallId = hallId := by
  apply String.toList_inj.mp
  change (hallId.map Char.toLower).toList = hallId.toList
  simp [hallId]

theorem read_upperHallId : postgresIds.read upperHallId = hallId := by
  apply String.toList_inj.mp
  change (upperHallId.map Char.toLower).toList = hallId.toList
  simp [hallId, upperHallId]

/-- A booking under the stored spelling leaves the detail of another spelling. -/
theorem upper_case_detail_stale :
    ∃ s, exec (siteStep postgresIds) (.start hallDatabase) [.getEvent upperHallId,
        .book (drawing 0 "a") (.createBooking ⟨"ann", .attendee⟩ hallId)] = some s ∧
      (s.getEvent postgresIds upperHallId).1 = .ok (enrichAvailability hallEvent 0) ∧
      s.db.fetchEvent postgresIds upperHallId = .ok (enrichAvailability hallEvent 1) ∧
      ¬ ServesCurrent postgresIds s := by
  have hlower := accepts_hallId
  have hupper := accepts_upperHallId
  have hlowerRead := read_hallId
  have hupperRead := read_upperHallId
  -- from here on only these four facts about the two texts are used
  generalize postgresIds = ids at *
  have hget : siteStep ids (.start hallDatabase) (.getEvent upperHallId) =
      some ⟨hallDatabase, Redis.empty.set (eventCacheDetailKey upperHallId)
        (enrichAvailability hallEvent 0)⟩ := by
    simp only [siteStep, Site.getEvent, hupper, if_true, Database.loadEvent, hupperRead]
    rfl
  obtain ⟨s, hbook, hdb, hentry⟩ : ∃ s,
      siteStep ids ⟨hallDatabase, Redis.empty.set (eventCacheDetailKey upperHallId)
        (enrichAvailability hallEvent 0)⟩
        (.book (drawing 0 "a") (.createBooking ⟨"ann", .attendee⟩ hallId)) = some s ∧
      s.db.eventDetail hallId = some (enrichAvailability hallEvent 1) ∧
      s.redis.entries (eventCacheDetailKey upperHallId) =
        some (enrichAvailability hallEvent 0) := by
    simp only [siteStep, BookingOp.idText, hlower, if_true, Site.book, BookingOp.read, hlowerRead]
    exact ⟨_, rfl, rfl, rfl⟩
  have hserved := Site.getEvent_of_hit hupper hentry
  have hheld : s.db.fetchEvent ids upperHallId = .ok (enrichAvailability hallEvent 1) := by
    rw [Database.fetchEvent_ok_iff hupper, hupperRead]
    exact hdb
  refine ⟨s, exec_cons_iff.mpr ⟨_, hget, by simpa using hbook⟩, hserved, hheld, ?_⟩
  intro hcurrent
  have hsame := hcurrent.get upperHallId
  rw [hserved, hheld] at hsame
  have hcount := congrArg EventDetail.confirmedBookings (Except.ok.inj hsame)
  simp [enrichAvailability] at hcount

end Eventify
