import Eventify.Outbox.Delivery

/-!
# No free seat is stranded

While an event has both a free seat and a waiting booking, the promotion of
its waitlist that was written last is still owed by the outbox. A raised
capacity is the one thing that frees seats without owing a promotion, so the
runs meant here do not raise the capacity of that event over the heads of its
waitlist; other events may be raised at any time.
-/

namespace Eventify

open Library

variable {retentionDays : ℕ} {s t : Backend} {a : BackendAction}

/-- A free seat while somebody waits. -/
def Stranded (db : Database) (e : Uuid) : Prop :=
  (∃ event, db.findEvent e = some event ∧
    (db.countBookings e .confirmed : ℤ) < event.capacity) ∧ 0 < db.countBookings e .waitlisted

theorem Stranded.of_counts {db db' : Database} {e : Uuid} (h : Stranded db' e)
    (hevents : db'.findEvent e = db.findEvent e)
    (hconfirmed : db.countBookings e .confirmed ≤ db'.countBookings e .confirmed)
    (hwaitlisted : db'.countBookings e .waitlisted ≤ db.countBookings e .waitlisted) :
    Stranded db e := by
  obtain ⟨⟨event, hevent, hfree⟩, hwaiting⟩ := h
  exact ⟨⟨event, hevents ▸ hevent, by omega⟩, by omega⟩

theorem Stranded.congr {db db' : Database} {e : Uuid} (h : Stranded db' e)
    (hbookings : db'.bookings = db.bookings) (hevents : db'.events = db.events) :
    Stranded db e := by
  have hcount : ∀ status, db'.countBookings e status = db.countBookings e status := fun status => by
    rw [Database.countBookings, hbookings, Database.countBookings]
  exact h.of_counts (by rw [Database.findEvent, hevents, Database.findEvent]) (hcount _).ge
    (hcount _).le

theorem Promotes.stranded {now : Time} {eventId e : Uuid} {db db' : Database} {ws : List Booking}
    (h : Promotes now eventId db ws db') (hstranded : Stranded db' e) : Stranded db e := by
  obtain ⟨hconfirmed, hwaitlisted⟩ := h.count e
  exact hstranded.of_counts (by rw [Database.findEvent, h.events, Database.findEvent]) (by omega)
    (by omega)

theorem Queues.stranded {now : Time} {db db' : Database} {old : Option BookingStatus}
    {row : Booking} (h : Queues now db old row db') {e : Uuid} (hstranded : Stranded db' e) :
    Stranded db e := by
  by_cases he : row.eventId = e
  · -- the event was full when the caller joined its waitlist
    obtain ⟨⟨event, hevent, hfree⟩, -⟩ := hstranded
    obtain ⟨found, hfound, hfull⟩ := h.full
    rw [he] at hfound hfull
    rw [h.findEvent, hfound] at hevent
    cases hevent
    rw [h.count_confirmed e] at hfree
    omega
  · have hwaitlisted := h.count_waitlisted e
    rw [if_neg he] at hwaitlisted
    exact hstranded.of_counts (h.findEvent e) (h.count_confirmed e).ge (by omega)

theorem Releases.stranded {now : Time} {db db' : Database} {old : Option BookingStatus}
    {row : Booking} (h : Releases now db old row db') {e : Uuid} (hstranded : Stranded db' e) :
    Stranded db e ∨ announcements old row = [.waitlistPromotion e] := by
  have hconfirmed := h.count e .confirmed
  have hwaitlisted := h.count e .waitlisted
  simp only [h.after, reduceCtorEq, and_false, if_false] at hconfirmed hwaitlisted
  by_cases howed : row.eventId = e ∧ old = some .confirmed
  · right
    simp [announcements, h.after, howed.1, howed.2]
  · left
    rw [if_neg howed] at hconfirmed
    exact hstranded.of_counts (h.findEvent e) (by omega) (by omega)

/-- A transaction that leaves an event stranded found it so or appends a
promotion of its waitlist. -/
theorem Effect.stranded {now : Time} {db db' : Database} (h : Effect now db db') {e : Uuid}
    (hstranded : Stranded db' e) :
    Stranded db e ∨ ∃ row ∈ db'.outbox.rows.drop db.outbox.rows.length,
      row.intent = .waitlistPromotion e := by
  cases h with
  | unchanged => exact .inl hstranded
  | seats h =>
      have hconfirmed := h.count_confirmed e
      exact .inl (hstranded.of_counts (h.findEvent e) (by omega) (h.count_waitlisted_le e))
  | queues h => exact .inl (h.stranded hstranded)
  | releases h =>
      rcases h.stranded hstranded with hold | howed
      · exact .inl hold
      · obtain ⟨added, hrows, hintents, -⟩ := h.outbox
        rw [howed] at hintents
        obtain ⟨row, hrow, hintent⟩ : ∃ row ∈ added, row.intent = .waitlistPromotion e := by
          rw [← List.mem_map, hintents]
          exact List.mem_singleton.mpr rfl
        exact .inr ⟨row, by rwa [hrows, List.drop_left], hintent⟩
  | promotes h => exact .inl (h.stranded hstranded)

/-- The promotion of the waitlist of `e` that was written last, whatever became of its row. -/
def Backend.newestPromotion (s : Backend) (e : Uuid) : Option Uuid :=
  ((s.created.filter fun written => written.2 = .waitlistPromotion e).getLast?).map Prod.fst

/-- No processor has served the promotion of the waitlist of `e` that was written last. -/
def Owed (s : Backend) (e : Uuid) : Prop :=
  ∃ row ∈ s.db.outbox.rows, s.newestPromotion e = some row.id ∧
    row.intent = .waitlistPromotion e ∧ row.status ≠ .sent ∧ row.id ∉ s.handled

/-- A promotion that a step writes is the newest one, and nobody has served it. -/
theorem Owed.written (hs : Known s) (h : Change retentionDays s a t) {e : Uuid} {now : Time}
    {added : List NotificationOutbox} (hrows : t.db.outbox.rows = s.db.outbox.rows ++ added)
    (hcreated : t.created = s.created ++ added.map (fun row => (row.id, row.intent)))
    (hnew : ∀ row ∈ added, row = Database.outboxRow row.id row.intent now ∧
      row.id ∉ s.created.map Prod.fst)
    {row : NotificationOutbox} (hrow : row ∈ added) (hintent : row.intent = .waitlistPromotion e) :
    Owed t e := by
  have hne : (added.filter fun row => row.intent = .waitlistPromotion e) ≠ [] :=
    List.ne_nil_of_mem (List.mem_filter.mpr ⟨hrow, by simpa using hintent⟩)
  obtain ⟨hlast, hpromotes⟩ := List.mem_filter.mp (List.getLast_mem hne)
  set last := (added.filter fun row => row.intent = .waitlistPromotion e).getLast hne
  obtain ⟨hfresh, hunused⟩ := hnew last hlast
  refine ⟨last, by rw [hrows]; exact List.mem_append_right _ hlast, ?_, by simpa using hpromotes,
    by rw [hfresh]; simp [Database.outboxRow], fun hmem => hunused ?_⟩
  · have hmap : (added.map fun row => (row.id, row.intent)).filter
        (fun written => written.2 = .waitlistPromotion e) =
        (added.filter fun row => row.intent = .waitlistPromotion e).map
          fun row => (row.id, row.intent) := by
      rw [List.filter_map]
      rfl
    rw [Backend.newestPromotion, hcreated, List.filter_append, hmap, List.getLast?_append,
      List.getLast?_map, List.getLast?_eq_some_getLast hne]
    rfl
  · -- what has been served by now was written before this step
    rcases h.handled with hsame | ⟨x, hx, hcons⟩
    · exact hs.handled _ (hsame ▸ hmem)
    · rcases List.mem_cons.mp (hcons ▸ hmem) with hid | hold
      · rw [hid]
        exact List.mem_map_of_mem (hs.carried _ _ (.running hx))
      · exact hs.handled _ hold

theorem Change.newestPromotion (hs : Known s) (h : Change retentionDays s a t) (e : Uuid) :
    t.newestPromotion e = s.newestPromotion e ∨ Owed t e := by
  cases h.rows with
  | appended hdraws =>
      obtain ⟨now, -, added, hrows, hcreated, hnew⟩ := hdraws
      by_cases hsome : ∃ row ∈ added, row.intent = .waitlistPromotion e
      · obtain ⟨row, hrow, hintent⟩ := hsome
        exact .inr (.written hs h hrows hcreated hnew hrow hintent)
      · left
        have hnone : (added.map fun row => (row.id, row.intent)).filter
            (fun written => written.2 = .waitlistPromotion e) = [] := by
          simpa [List.filter_eq_nil_iff] using hsome
        rw [Backend.newestPromotion, hcreated, List.filter_append, hnone, List.append_nil,
          Backend.newestPromotion]
  | rewritten _ _ hcreated | purged _ _ _ hcreated =>
      left
      rw [Backend.newestPromotion, hcreated, Backend.newestPromotion]

theorem Owed.kept (hs : Known s) (h : backendStep retentionDays s a = some t) {e : Uuid}
    (hserved : ∀ x ∈ s.executions, t.handled = x.id :: s.handled →
      x.intent ≠ .waitlistPromotion e)
    (howed : Owed s e) : Owed t e := by
  have hchange := backendStep_change h
  rcases hchange.newestPromotion hs e with hnewest | hwritten
  swap
  · exact hwritten
  obtain ⟨row, hrow, hlast, hintent, hstatus, hunhandled⟩ := howed
  have hnot : row.id ∉ t.handled := by
    rcases hchange.handled with hsame | ⟨x, hx, hcons⟩
    · rwa [hsame]
    · rw [hcons]
      intro hmem
      rcases List.mem_cons.mp hmem with hid | hold
      · have hrowkey := hs.rows row hrow
        rw [hid] at hrowkey
        exact hserved x hx hcons
          ((hs.intent_unique (hs.carried _ _ (.running hx)) hrowkey).trans hintent)
      · exact hunhandled hold
  rcases hchange.rows.fate hrow with ⟨row', hrow', rfl | hwrite⟩ | ⟨-, -, hsent, -⟩
  · exact ⟨row', hrow', hnewest.trans hlast, hintent, hstatus, hnot⟩
  · obtain ⟨hid, hintent', -⟩ := hwrite.keys
    refine ⟨row', hrow', ?_, hintent'.trans hintent, ?_, by rwa [hid]⟩
    · rw [hnewest, hlast, hid]
    cases hwrite with
    | enqueued => simp [NotificationOutbox.enqueue]
    | errored => exact hstatus
    | sent _ hmark =>
        exact (hunhandled (hs.finished _ (.marking (List.mem_of_getElem? hmark)))).elim
    | failed => simp [NotificationOutbox.markFailed]
  · exact (hstatus hsent).elim

/-- The step does not raise the capacity of `e` above its confirmed bookings
while it is full and somebody waits. -/
def RaisesNoFullCapacity (e : Uuid) (s : Backend) (a : BackendAction) : Prop :=
  ∀ patch actor read event capacity, a = .updateEvent e patch actor read →
    s.db.findEvent e = some event → patch.capacity = some capacity →
    event.capacity ≤ s.db.countBookings e .confirmed → 0 < s.db.countBookings e .waitlisted →
    capacity ≤ s.db.countBookings e .confirmed

theorem stranded_of_withPatch {e id : Uuid} {patch : EventPatch} {actor : AuthUser}
    {read : EventDetail} (hgood : RaisesNoFullCapacity e s (.updateEvent id patch actor read))
    (h : Stranded (s.db.withPatch id patch) e) : Stranded s.db e := by
  obtain ⟨⟨updated, hupdated, hfree⟩, hwaiting⟩ := h
  simp only [Database.withPatch_countBookings] at hfree hwaiting
  rw [Database.findEvent_withPatch] at hupdated
  by_cases he : e = id
  · subst he
    rw [if_pos rfl] at hupdated
    obtain ⟨event, hevent, rfl⟩ := Option.map_eq_some_iff.mp hupdated
    refine ⟨⟨event, hevent, ?_⟩, hwaiting⟩
    by_contra hfull
    rw [EventPatch.apply_capacity] at hfree
    cases hcapacity : patch.capacity with
    | none => exact hfull (by simpa [hcapacity] using hfree)
    | some capacity =>
        have hle := hgood patch actor read event capacity rfl hevent hcapacity
          (not_lt.mp hfull) hwaiting
        simp only [hcapacity, Option.getD_some] at hfree
        omega
  · rw [if_neg he] at hupdated
    exact ⟨⟨updated, hupdated, hfree⟩, hwaiting⟩

theorem not_stranded_of_promoteWaitlistTx {ctx : TxContext} {e : Uuid} {db db' : Database} {k : ℕ}
    (h : promoteWaitlistTx ctx e db = .ok (k, db')) : ¬ Stranded db' e := by
  rintro ⟨⟨event, hevent, hfree⟩, hwaiting⟩
  rcases promoteWaitlistTx_ok h with ⟨hnone, -, rfl⟩ | ⟨found, hfound, hpromotes, -, hdone⟩
  · simp [hnone] at hevent
  · rw [Database.findEvent, hpromotes.events] at hevent
    obtain rfl := Option.some.inj (hfound.symm.trans hevent)
    rcases hdone with hfull | hnobody <;> omega

structure SeatInv (e : Uuid) (s : Backend) : Prop extends Known s where
  owed : Stranded s.db e → Owed s e

theorem SeatInv.step {e : Uuid} (hs : SeatInv e s) (hgood : RaisesNoFullCapacity e s a)
    (h : backendStep retentionDays s a = some t) : SeatInv e t := by
  refine ⟨hs.toKnown.step h, fun hstranded => ?_⟩
  have hkeep : t.handled = s.handled → Stranded s.db e → Owed t e := fun hsame hold =>
    (hs.owed hold).kept hs.toKnown h fun x _ hcons => by simp [hsame] at hcons
  have hchange := backendStep_change h
  cases hchange with
  | quiet _ hdb _ hhandled => exact hkeep hhandled (hdb ▸ hstranded)
  | committed htx hdraws hhandled =>
      rcases (transaction_effect htx).stranded hstranded with hold | ⟨row, hrow, hintent⟩
      · exact hkeep hhandled hold
      · obtain ⟨now, -, added, hrows, hcreated, hnew⟩ := hdraws
        rw [hrows, List.drop_left] at hrow
        exact .written hs.toKnown (backendStep_change h) hrows hcreated hnew hrow hintent
  | edited hdb _ hhandled => exact hkeep hhandled (stranded_of_withPatch hgood (hdb ▸ hstranded))
  | enqueued _ hdb _ hhandled =>
      obtain ⟨hbookings, hevents, -⟩ := Database.recordEnqueued_rows hdb
      exact hkeep hhandled (hstranded.congr hbookings hevents)
  | errored hdb _ hhandled =>
      obtain ⟨hbookings, hevents, -⟩ := Database.recordError_rows hdb
      exact hkeep hhandled (hstranded.congr hbookings hevents)
  | @confirmed i ctx id bookingId _ hrun hdb _ hhandled =>
      refine (hs.owed (hdb ▸ hstranded)).kept hs.toKnown h fun x hx hcons hpromotion => ?_
      -- the completed job is a confirmation, so it is not the promotion that is owed
      have hid : x.id = id := (List.cons.inj (hcons.symm.trans hhandled)).1
      have hkey := hs.carried _ _ (.running hx)
      rw [hid, hpromotion] at hkey
      simpa using hs.intent_unique hkey (hs.carried _ _ (.running hrun))
  | @promoted i ctx id eventId k _ hrun htx hdraws hhandled =>
      by_cases he : e = eventId
      · exact (not_stranded_of_promoteWaitlistTx htx (he ▸ hstranded)).elim
      · have hold : Stranded s.db e := by
          rcases promoteWaitlistTx_ok htx with ⟨-, -, hdb⟩ | ⟨event, -, hpromotes, -, -⟩
          · exact hdb ▸ hstranded
          · exact hpromotes.stranded hstranded
        refine (hs.owed hold).kept hs.toKnown h fun x hx hcons hpromotion => ?_
        have hid : x.id = id := (List.cons.inj (hcons.symm.trans hhandled)).1
        have hkey := hs.carried _ _ (.running hx)
        rw [hid, hpromotion] at hkey
        have hsame := hs.intent_unique hkey (hs.carried _ _ (.running hrun))
        exact he (by simpa using hsame)
  | @marked i at_ mark _ _ hdb _ hhandled =>
      refine hkeep hhandled (hstranded.congr ?_ ?_) <;> rw [hdb] <;> cases mark <;> rfl
  | purged _ hdb _ hhandled =>
      refine hkeep hhandled (hstranded.congr ?_ ?_) <;> rw [hdb] <;> rfl

theorem SeatInv.start {db : Database} (hempty : db.bookings.rows = []) (now : Time) (e : Uuid) :
    SeatInv e (.start db now) := by
  refine ⟨Known.start db now, fun hstranded => ?_⟩
  have hnone : (Backend.start db now).db.countBookings e .waitlisted = 0 := by
    simp [Backend.start, Database.countBookings, Database.withOutbox, Table.count, hempty]
  exact absurd hstranded.2 (by omega)

theorem SeatInv.exec {db : Database} {now : Time} {acts : List BackendAction} {e : Uuid}
    (hempty : db.bookings.rows = [])
    (hgood : Along (backendStep retentionDays) (RaisesNoFullCapacity e) (.start db now) acts)
    (hrun : exec (backendStep retentionDays) (.start db now) acts = some s) : SeatInv e s :=
  exec_invariant_along (fun _ _ _ hu hgood hstep => hu.step hgood hstep) (.start hempty now e)
    hgood hrun

/-- In every run from an empty bookings table that does not raise the capacity
of `e` while it is full and somebody waits, a free seat of `e` that somebody
waits for is owed: the promotion of its waitlist that was written last is
pending, enqueued or failed, and no processor has served it. -/
theorem stranded_seat_owed {db : Database} {now : Time} {acts : List BackendAction} {e : Uuid}
    (hempty : db.bookings.rows = [])
    (hgood : Along (backendStep retentionDays) (RaisesNoFullCapacity e) (.start db now) acts)
    (hrun : exec (backendStep retentionDays) (.start db now) acts = some s)
    (hstranded : Stranded s.db e) :
    ∃ row ∈ s.db.outbox.rows, s.newestPromotion e = some row.id ∧
      row.intent = .waitlistPromotion e ∧ row.id ∉ s.handled ∧
      (row.status = .pending ∨ row.status = .enqueued ∨ row.status = .failed) := by
  obtain ⟨row, hrow, hnewest, hintent, hstatus, hunhandled⟩ :=
    (SeatInv.exec hempty hgood hrun).owed hstranded
  exact ⟨row, hrow, hnewest, hintent, hunhandled, OutboxStatus.of_ne_sent hstatus⟩

def vacatedRun : List BackendAction :=
  [.transact (drawing 0 "a") (.createBooking ⟨"ann", .attendee⟩ "e"),
    .transact (drawing 0 "b") (.createBooking ⟨"bob", .attendee⟩ "e"),
    .transact (drawing 0 "c") (.cancelBooking "a-0" ⟨"ann", .attendee⟩)]

def soloPair : Database :=
  ⟨⟨[soloEvent, { soloEvent with id := "f" }], by simp [soloEvent, Event.Clash]⟩, Table.empty,
    Table.empty⟩

/-- In the same run the capacity of another full event is raised while Bob waits for it. -/
def raisedElsewhere : List BackendAction :=
  vacatedRun ++ [.transact (drawing 0 "d") (.createBooking ⟨"ann", .attendee⟩ "f"),
    .transact (drawing 0 "g") (.createBooking ⟨"bob", .attendee⟩ "f"),
    .updateEvent "f" { capacity := some 2 } ⟨"organizer", .organizer⟩
      (enrichAvailability { soloEvent with id := "f" } 1)]

theorem stranded_seat_owed_vacated :
    ∃ s, exec (backendStep 7) (.start soloPair 0) raisedElsewhere = some s ∧
      Stranded s.db "e" ∧ Stranded s.db "f" ∧
      ∃ row ∈ s.db.outbox.rows, s.newestPromotion "e" = some row.id ∧
        row.intent = .waitlistPromotion "e" ∧ row.id ∉ s.handled ∧
        (row.status = .pending ∨ row.status = .enqueued ∨ row.status = .failed) := by
  obtain ⟨s, hs, hstranded, hother⟩ : ∃ s,
      exec (backendStep 7) (.start soloPair 0) raisedElsewhere = some s ∧
        Stranded s.db "e" ∧ Stranded s.db "f" :=
    ⟨_, rfl, ⟨⟨_, rfl, by decide⟩, by decide⟩, ⟨_, rfl, by decide⟩, by decide⟩
  refine ⟨s, hs, hstranded, hother, stranded_seat_owed rfl (along_of_forall_mem ?_) hs hstranded⟩
  intro a ha u patch actor read event capacity heq
  simp [raisedElsewhere, vacatedRun, heq] at ha

def failedRun : List BackendAction :=
  vacatedRun ++ [.beginPass 0 0, .select 0 (OrderBy.stable _), .add 0, .recordEnqueued 0 0,
    .add 0, .recordEnqueued 0 0, .endPass 0] ++
  (List.replicate 5 [.startJob "c-0", .handlerThrows 0 "timeout"]).flatten ++ [.mark 0 0]

def raisedRun : List BackendAction :=
  vacatedRun.take 2 ++ [.updateEvent "e" { capacity := some 2 } ⟨"organizer", .organizer⟩
    (enrichAvailability soloEvent 1)]

/-- A promotion job that fails for good, or a raised capacity, leaves the free
seat with no promotion that is pending or enqueued. -/
theorem stranded_seat_not_owed :
    (∃ s, exec (backendStep 7) (.start soloDatabase 0) failedRun = some s ∧
      Stranded s.db "e" ∧
      ∀ row ∈ s.db.outbox.rows, row.intent = .waitlistPromotion "e" → row.status = .failed) ∧
    ∃ s, exec (backendStep 7) (.start soloDatabase 0) raisedRun = some s ∧
      Stranded s.db "e" ∧ ∀ row ∈ s.db.outbox.rows, row.intent ≠ .waitlistPromotion "e" :=
  ⟨⟨_, rfl, ⟨⟨_, rfl, by decide⟩, by decide⟩, by decide⟩,
    ⟨_, rfl, ⟨⟨_, rfl, by decide⟩, by decide⟩, by decide⟩⟩

end Eventify
