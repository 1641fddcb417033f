import Eventify.Bookings.Seats
import Eventify.Outbox.Rows

/-!
# No intent is lost

The ids in memory and in the table are ids that a transaction created, and
only a job that ran to its end is marked sent. So a row stays in the table
until its delivery has been on record for the retention time, and until then
the dispatcher finds it again unless it is sent or failed.
-/

namespace Eventify

open Library

variable {retentionDays : ℕ} {s t : Backend} {a : BackendAction}

def Backend.start (db : Database) (now : Time) : Backend where
  db := db.withOutbox .empty
  now := now
  queue := []
  passes := fun _ => none
  executions := []
  marks := []
  handled := []
  created := []

/-- Every id stands for one created intent, and completion is never recorded
ahead of the processor. -/
structure Known (s : Backend) : Prop where
  rows : ∀ row ∈ s.db.outbox.rows, (row.id, row.intent) ∈ s.created
  carried : ∀ id intent, Carried s id intent → (id, intent) ∈ s.created
  unique : (s.created.map Prod.fst).Nodup
  finished : ∀ id, Finished s id → id ∈ s.handled
  sent : ∀ row ∈ s.db.outbox.rows, row.status = .sent → row.id ∈ s.handled
  handled : ∀ id ∈ s.handled, id ∈ s.created.map Prod.fst

theorem Known.start (db : Database) (now : Time) : Known (Backend.start db now) := by
  constructor
  · intro row hrow
    cases hrow
  · intro id intent hcarried
    cases hcarried with
    | held hpass _ => cases hpass
    | queued hjob => cases hjob
    | running hx => cases hx
  · exact List.nodup_nil
  · intro id hfinished
    cases hfinished with
    | returned hx _ => cases hx
    | marking hmark => cases hmark
  · intro row hrow
    cases hrow
  · intro id hid
    cases hid

theorem Known.intent_unique (h : Known s) {id : Uuid} {x y : Intent}
    (hx : (id, x) ∈ s.created) (hy : (id, y) ∈ s.created) : x = y := by
  have hinj := List.inj_on_of_nodup_map h.unique hx hy rfl
  exact (Prod.mk.inj hinj).2

theorem Flow.carried (h : Flow s a t) {id : Uuid} {intent : Intent}
    (hcarried : Carried t id intent) :
    Carried s id intent ∨ ∃ row ∈ s.db.outbox.rows, row.id = id ∧ row.intent = intent := by
  cases hcarried with
  | held hpass hrow =>
      rcases h.passes _ _ hpass _ hrow with ⟨old, hold, hrow, -⟩ | ⟨-, hnew, -⟩
      · exact .inl (.held hold hrow)
      · exact .inr ⟨_, hnew, rfl, rfl⟩
  | queued hjob => exact .inl (h.queue _ hjob)
  | running hx => exact .inl (h.executions _ hx).1

theorem Flow.finished (h : Flow s a t) {id : Uuid} (hfinished : Finished t id) :
    Finished s id ∨ id ∈ t.handled := by
  cases hfinished with
  | returned hx hreturned => exact (h.executions _ hx).2 hreturned
  | marking hmark => exact .inl (h.marks _ hmark)

theorem Draws.unique (h : Draws s t) (hs : (s.created.map Prod.fst).Nodup) :
    (t.created.map Prod.fst).Nodup := by
  obtain ⟨now, -, added, hrows, hcreated, hnew⟩ := h
  have htable := t.db.outbox.unique
  rw [hrows] at htable
  have hadded : (added.map NotificationOutbox.id).Nodup :=
    List.pairwise_map.mpr (List.pairwise_append.mp htable).2.1
  have hkeys : (added.map fun row => (row.id, row.intent)).map Prod.fst =
      added.map NotificationOutbox.id := by simp
  rw [hcreated, List.map_append, hkeys]
  refine List.nodup_append'.mpr ⟨hs, hadded, ?_⟩
  intro id hold hid
  obtain ⟨row, hrow, rfl⟩ := List.mem_map.mp hid
  exact (hnew row hrow).2 hold

theorem Known.step (hs : Known s) (h : backendStep retentionDays s a = some t) : Known t := by
  have hchange := backendStep_change h
  have hflow := backendStep_flow h
  have hrows := hchange.rows
  obtain ⟨new, hcreated⟩ := hrows.created
  have hgrow : ∀ key ∈ s.created, key ∈ t.created := fun key hkey => by
    rw [hcreated]
    exact List.mem_append_left _ hkey
  have hhandled : ∀ id ∈ s.handled, id ∈ t.handled := hchange.handled_grows
  constructor
  · intro row hrow
    rcases hrows.origin hrow with hold | ⟨old, hold, hwrite⟩ | ⟨now, -, -, hnew, -⟩
    · exact hgrow _ (hs.rows row hold)
    · obtain ⟨hid, hintent, -⟩ := hwrite.keys
      rw [hid, hintent]
      exact hgrow _ (hs.rows old hold)
    · exact hnew
  · intro id intent hcarried
    rcases hflow.carried hcarried with hold | ⟨row, hrow, rfl, rfl⟩
    · exact hgrow _ (hs.carried id intent hold)
    · exact hgrow _ (hs.rows row hrow)
  · cases hrows with
    | appended hdraws => exact hdraws.unique hs.unique
    | rewritten _ _ hsame | purged _ _ _ hsame => exact hsame ▸ hs.unique
  · intro id hfinished
    rcases hflow.finished hfinished with hold | hnew
    · exact hhandled id (hs.finished id hold)
    · exact hnew
  · intro row hrow hstatus
    rcases hrows.origin hrow with hold | ⟨old, hold, hwrite⟩ | ⟨now, -, hfresh, -⟩
    · exact hhandled _ (hs.sent row hold hstatus)
    · cases hwrite with
      | enqueued => simp [NotificationOutbox.enqueue] at hstatus
      | errored => exact hhandled _ (hs.sent old hold hstatus)
      | sent _ hmark =>
          exact hhandled _ (hs.finished _ (.marking (List.mem_of_getElem? hmark)))
      | failed => simp [NotificationOutbox.markFailed] at hstatus
    · rw [hfresh] at hstatus
      simp [Database.outboxRow] at hstatus
  · intro id hid
    have hsub : ∀ id ∈ s.created.map Prod.fst, id ∈ t.created.map Prod.fst := by
      intro id hid
      rw [hcreated, List.map_append]
      exact List.mem_append_left _ hid
    rcases hchange.handled with hsame | ⟨x, hx, hcons⟩
    · exact hsub id (hs.handled id (hsame ▸ hid))
    · rw [hcons] at hid
      rcases List.mem_cons.mp hid with rfl | hid
      · exact hsub _ (List.mem_map.mpr ⟨_, hs.carried _ _ (.running hx), rfl⟩)
      · exact hsub id (hs.handled id hid)

theorem Known.run {acts : List BackendAction} (hs : Known s)
    (h : exec (backendStep retentionDays) s acts = some t) : Known t :=
  exec_invariant (fun _ _ _ hu hstep => hu.step hstep) hs h

/-- A row is in one of the four states the outbox knows, with the timestamp
that belongs to it, and was available when it was created. -/
structure Settled (now : Time) (row : NotificationOutbox) : Prop where
  available : row.availableAt ≤ now
  status : row.status = .pending ∨ (row.status = .enqueued ∧ ∃ at_, row.enqueuedAt = some at_) ∨
    (row.status = .sent ∧ ∃ at_, row.sentAt = some at_) ∨ row.status = .failed

theorem Settled.step (hs : ∀ row ∈ s.db.outbox.rows, Settled s.now row)
    (h : backendStep retentionDays s a = some t) : ∀ row ∈ t.db.outbox.rows, Settled t.now row := by
  have hnow := (backendStep_flow h).now
  intro row hrow
  rcases (backendStep_change h).rows.origin hrow with hold | ⟨old, hold, hwrite⟩ |
    ⟨now, hpast, hfresh, -⟩
  · exact ⟨(hs row hold).available.trans hnow, (hs row hold).status⟩
  · have havailable : row.availableAt ≤ t.now :=
      hwrite.keys.2.2 ▸ (hs old hold).available.trans hnow
    refine ⟨havailable, ?_⟩
    cases hwrite with
    | enqueued => exact .inr (.inl ⟨rfl, _, rfl⟩)
    | errored => exact (hs old hold).status
    | sent => exact .inr (.inr (.inl ⟨rfl, _, rfl⟩))
    | failed => exact .inr (.inr (.inr rfl))
  · rw [hfresh]
    exact ⟨hpast.trans hnow, .inl rfl⟩

theorem Settled.run {acts : List BackendAction} (hs : ∀ row ∈ s.db.outbox.rows, Settled s.now row)
    (h : exec (backendStep retentionDays) s acts = some t) :
    ∀ row ∈ t.db.outbox.rows, Settled t.now row :=
  exec_invariant (I := fun u : Backend => ∀ row ∈ u.db.outbox.rows, Settled u.now row)
    (fun _ _ _ hu hstep => Settled.step hu hstep) hs h

/-- The dispatcher selects every row that is neither sent nor failed: at once
while it is pending, and when its enqueue time has gone stale otherwise. -/
theorem Settled.due {now later : Time} {row : NotificationOutbox} (h : Settled now row)
    (hsent : row.status ≠ .sent) (hfailed : row.status ≠ .failed) (hlater : now ≤ later)
    (hstale : row.status = .enqueued → ∀ at_, row.enqueuedAt = some at_ →
      at_ + staleEnqueuedMs < later) :
    dueForDispatch later (later - staleEnqueuedMs) row = true := by
  apply dueForDispatch_iff.mpr
  refine ⟨h.available.trans hlater, ?_⟩
  rcases h.status with hpending | ⟨henqueued, at_, hat⟩ | ⟨hstatus, -⟩ | hstatus
  · exact .inl hpending
  · exact .inr ⟨henqueued, at_, hat, Int.lt_sub_right_of_add_lt (hstale henqueued at_ hat)⟩
  · exact (hsent hstatus).elim
  · exact (hfailed hstatus).elim

/-- The row was delivered and its retention time is over. -/
def Retired (retentionDays : ℕ) (u : Backend) (row : NotificationOutbox) : Prop :=
  row.status = .sent ∧ row.id ∈ u.handled ∧
    ∃ sentAt, row.sentAt = some sentAt ∧ sentAt + retentionMs retentionDays < u.now

theorem row_kept_until_retired {acts : List BackendAction} (hs : Known s)
    (h : exec (backendStep retentionDays) s acts = some t) {row : NotificationOutbox}
    (hrow : row ∈ s.db.outbox.rows) :
    (∃ row' ∈ t.db.outbox.rows, row'.id = row.id ∧ row'.intent = row.intent) ∨
      ∃ mid at_ rest u, acts = mid ++ .purge at_ :: rest ∧
        exec (backendStep retentionDays) s mid = some u ∧
        ∃ last ∈ u.db.outbox.rows, last.id = row.id ∧ last.intent = row.intent ∧
          Retired retentionDays u last := by
  have hlife := exec_keeps_or_ends
    (fun u : Backend => ∃ row' ∈ u.db.outbox.rows, row'.id = row.id ∧ row'.intent = row.intent)
    ⟨row, hrow, rfl, rfl⟩ h
  rcases hlife with hkept |
    ⟨mid, b, rest, u, v, rfl, hmid, ⟨last, hlast, hid, hintent⟩, hstep, hgone⟩
  · exact .inl hkept
  · right
    rcases (backendStep_change hstep).rows.fate hlast with ⟨row', hrow', hsame⟩ |
      ⟨at_, rfl, hstatus, hretention⟩
    · have hkeys : row'.id = last.id ∧ row'.intent = last.intent := by
        rcases hsame with rfl | hwrite
        · exact ⟨rfl, rfl⟩
        · exact ⟨hwrite.keys.1, hwrite.keys.2.1⟩
      exact (hgone ⟨row', hrow', hkeys.1.trans hid, hkeys.2.trans hintent⟩).elim
    · have hhandled := (hs.run hmid).sent last hlast hstatus
      exact ⟨mid, at_, rest, u, rfl, hmid, last, hlast, hid, hintent, hstatus, hhandled, hretention⟩

/-- No intent is lost: in every run from an empty outbox, with crashes, lost
queues and late or missing marks, a row that was ever in the table stays there
until a purge retires it, is in a state the outbox knows, and is due for
dispatch again unless it is sent or failed. -/
theorem no_intent_lost {db : Database} {now : Time} {pre post : List BackendAction}
    (hpre : exec (backendStep retentionDays) (.start db now) pre = some s)
    (hpost : exec (backendStep retentionDays) s post = some t) :
    (∀ row ∈ s.db.outbox.rows,
      (∃ row' ∈ t.db.outbox.rows, row'.id = row.id ∧ row'.intent = row.intent) ∨
        ∃ mid at_ rest u, post = mid ++ .purge at_ :: rest ∧
          exec (backendStep retentionDays) s mid = some u ∧
          ∃ last ∈ u.db.outbox.rows, last.id = row.id ∧ last.intent = row.intent ∧
            Retired retentionDays u last) ∧
    (∀ row ∈ t.db.outbox.rows, row.status = .pending ∨
      (row.status = .enqueued ∧ ∃ at_, row.enqueuedAt = some at_) ∨
      (row.status = .sent ∧ ∃ at_, row.sentAt = some at_) ∨ row.status = .failed) ∧
    (∀ row ∈ t.db.outbox.rows, row.status ≠ .sent → row.status ≠ .failed →
      ∀ later, t.now ≤ later →
        (row.status = .enqueued → ∀ at_, row.enqueuedAt = some at_ →
          at_ + staleEnqueuedMs < later) →
        dueForDispatch later (later - staleEnqueuedMs) row = true) := by
  have hknown : Known s := (Known.start db now).run hpre
  have hsettled : ∀ row ∈ t.db.outbox.rows, Settled t.now row := by
    apply Settled.run _ (exec_append_iff.mpr ⟨s, hpre, hpost⟩)
    intro row hrow
    cases hrow
  refine ⟨?_, ?_, ?_⟩
  · intro row hrow
    exact row_kept_until_retired hknown hpost hrow
  · intro row hrow
    exact (hsettled row hrow).status
  · intro row hrow hsent hfailed later hlater hstale
    exact (hsettled row hrow).due hsent hfailed hlater hstale

def deliveredRun : List BackendAction :=
  [.beginPass 0 0, .select 0 (OrderBy.stable _), .add 0, .recordEnqueued 0 0, .endPass 0,
    .startJob "a-1", .handlerReturns 0 (drawing 0 "b"), .completed 0, .mark 0 0, .tick 86400001,
    .purge 86400001]

theorem no_intent_lost_delivered :
    ∃ s t, exec (backendStep 1) (.start soloDatabase 0)
        [.transact (drawing 0 "a") (.createBooking ⟨"ann", .attendee⟩ "e")] = some s ∧
      exec (backendStep 1) s deliveredRun = some t ∧
      s.db.outbox.rows.map NotificationOutbox.id = ["a-1"] ∧ t.db.outbox.rows = [] ∧
      ∀ row ∈ s.db.outbox.rows, ∃ mid at_ rest u, deliveredRun = mid ++ .purge at_ :: rest ∧
        exec (backendStep 1) s mid = some u ∧
        ∃ last ∈ u.db.outbox.rows, last.id = row.id ∧ last.intent = row.intent ∧
          Retired 1 u last := by
  obtain ⟨s, hs, hrows⟩ : ∃ s, exec (backendStep 1) (.start soloDatabase 0)
      [.transact (drawing 0 "a") (.createBooking ⟨"ann", .attendee⟩ "e")] = some s ∧
      s.db.outbox.rows.map NotificationOutbox.id = ["a-1"] := ⟨_, rfl, rfl⟩
  obtain ⟨t, ht, hgone⟩ : ∃ t, exec (backendStep 1) s deliveredRun = some t ∧
      t.db.outbox.rows = [] := by
    cases hs
    exact ⟨_, rfl, rfl⟩
  refine ⟨s, t, hs, ht, hrows, hgone, fun row hrow => ?_⟩
  rcases (no_intent_lost hs ht).1 row hrow with ⟨row', hrow', -⟩ | hretired
  · simp [hgone] at hrow'
  · exact hretired

end Eventify
