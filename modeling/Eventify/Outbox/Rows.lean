import Eventify.Outbox.Steps

/-!
# The life of an outbox row

What one step writes to a row, and what therefore holds of the rows and of
every id in memory in all states a backend reaches.
-/

namespace Eventify

open Library

variable {retentionDays : ℕ} {s t : Backend} {a : BackendAction}

inductive RowWrite (s : Backend) (a : BackendAction) (row : NotificationOutbox) :
    NotificationOutbox → Prop
  | enqueued {w : ℕ} {at_ : Time} {read : NotificationOutbox} {rest : List NotificationOutbox}
      {marked : List Uuid} {dispatched : ℕ} (ha : a = .recordEnqueued w at_)
      (hpass : s.passes w = some ⟨.added read rest, marked, dispatched⟩) (hid : row.id = read.id) :
      RowWrite s a row (row.enqueue at_)
  | errored {w : ℕ} {message : String} (ha : a = .recordError w) :
      RowWrite s a row (row.recordError message)
  | sent {i : ℕ} {at_ : Time} (ha : a = .mark i at_)
      (hmark : s.marks[i]? = some (.sent row.id)) (hstatus : row.status ≠ .sent) :
      RowWrite s a row (row.markSent at_)
  | failed {i : ℕ} {at_ : Time} {message : String} (ha : a = .mark i at_)
      (hmark : s.marks[i]? = some (.failed row.id message)) (hstatus : row.status ≠ .sent) :
      RowWrite s a row (row.markFailed message)

/-- A step appends rows, rewrites rows in place, or purges delivered ones. -/
inductive RowsChange (retentionDays : ℕ) (s : Backend) (a : BackendAction) (t : Backend) : Prop
  | appended (hcreated : Draws s t)
  | rewritten {g : NotificationOutbox → NotificationOutbox}
      (hrows : t.db.outbox.rows = s.db.outbox.rows.map g)
      (hg : ∀ row ∈ s.db.outbox.rows, g row = row ∨ RowWrite s a row (g row))
      (hcreated : t.created = s.created)
  | purged {at_ : Time} (ha : a = .purge at_) (hnow : at_ ≤ s.now)
      (hdb : t.db = s.db.purgeDeliveredOutbox (at_ - retentionMs retentionDays))
      (hcreated : t.created = s.created)

theorem RowsChange.same (hrows : t.db.outbox.rows = s.db.outbox.rows)
    (hcreated : t.created = s.created) : RowsChange retentionDays s a t :=
  .rewritten (g := id) (by simpa using hrows) (fun _ _ => .inl rfl) hcreated

theorem Change.rows (h : Change retentionDays s a t) : RowsChange retentionDays s a t := by
  cases h with
  | quiet _ hdb hcreated _ => exact .same (by rw [hdb]) hcreated
  | committed _ hdraws _ => exact .appended hdraws
  | edited hdb hcreated _ => exact .same (by rw [hdb]; rfl) hcreated
  | @enqueued w at_ read rest marked dispatched _ hpass hdb hcreated _ =>
      refine .rewritten (Database.recordEnqueued_rows hdb).2.2 ?_ hcreated
      intro row _
      split
      · next hid => exact .inr (.enqueued rfl hpass (by simpa using hid))
      · exact .inl rfl
  | errored hdb hcreated _ =>
      refine .rewritten (Database.recordError_rows hdb).2.2 ?_ hcreated
      intro row _
      split
      · exact .inr (.errored rfl)
      · exact .inl rfl
  | confirmed _ hdb hcreated _ => exact .same (by rw [hdb]) hcreated
  | promoted _ _ hdraws _ => exact .appended hdraws
  | @marked i at_ mark _ hmark hdb hcreated _ =>
      cases mark with
      | sent id =>
          refine .rewritten (by rw [hdb]; exact Database.markOutboxSent_rows) ?_ hcreated
          intro row _
          split
          · next hwhere =>
            simp only [Bool.and_eq_true, beq_iff_eq, bne_iff_ne] at hwhere
            exact .inr (.sent rfl (hwhere.1 ▸ hmark) hwhere.2)
          · exact .inl rfl
      | failed id message =>
          refine .rewritten (by rw [hdb]; exact Database.markOutboxFailed_rows) ?_ hcreated
          intro row _
          split
          · next hwhere =>
            simp only [Bool.and_eq_true, beq_iff_eq, bne_iff_ne] at hwhere
            exact .inr (.failed rfl (hwhere.1 ▸ hmark) hwhere.2)
          · exact .inl rfl
  | purged hnow hdb hcreated _ => exact .purged rfl hnow hdb hcreated

theorem RowWrite.keys {row row' : NotificationOutbox} (h : RowWrite s a row row') :
    row'.id = row.id ∧ row'.intent = row.intent ∧ row'.availableAt = row.availableAt := by
  cases h <;> exact ⟨rfl, rfl, rfl⟩

theorem RowsChange.origin (h : RowsChange retentionDays s a t) {row' : NotificationOutbox}
    (hrow' : row' ∈ t.db.outbox.rows) :
    row' ∈ s.db.outbox.rows ∨ (∃ row ∈ s.db.outbox.rows, RowWrite s a row row') ∨
      ∃ now ≤ s.now, row' = Database.outboxRow row'.id row'.intent now ∧
        (row'.id, row'.intent) ∈ t.created ∧ row'.id ∉ s.created.map Prod.fst := by
  cases h with
  | appended hdraws =>
      obtain ⟨now, hnow, added, hrows, hcreated, hnew⟩ := hdraws
      rw [hrows] at hrow'
      rcases List.mem_append.mp hrow' with hold | hadded
      · exact .inl hold
      · refine .inr (.inr ⟨now, hnow, (hnew row' hadded).1, ?_, (hnew row' hadded).2⟩)
        rw [hcreated]
        exact List.mem_append_right _ (List.mem_map.mpr ⟨row', hadded, rfl⟩)
  | rewritten hrows hg _ =>
      rw [hrows] at hrow'
      obtain ⟨row, hrow, rfl⟩ := List.mem_map.mp hrow'
      rcases hg row hrow with hsame | hwrite
      · exact .inl (by rwa [hsame])
      · exact .inr (.inl ⟨row, hrow, hwrite⟩)
  | purged _ _ hdb _ =>
      rw [hdb] at hrow'
      exact .inl (List.mem_of_mem_filter hrow')

theorem RowsChange.fate (h : RowsChange retentionDays s a t) {row : NotificationOutbox}
    (hrow : row ∈ s.db.outbox.rows) :
    (∃ row' ∈ t.db.outbox.rows, row' = row ∨ RowWrite s a row row') ∨
      ∃ at_, a = .purge at_ ∧ row.status = .sent ∧
        ∃ sentAt, row.sentAt = some sentAt ∧ sentAt + retentionMs retentionDays < s.now := by
  cases h with
  | appended hdraws =>
      obtain ⟨now, -, added, hrows, -⟩ := hdraws
      exact .inl ⟨row, by rw [hrows]; exact List.mem_append_left _ hrow, .inl rfl⟩
  | @rewritten g hrows hg _ =>
      exact .inl ⟨g row, by rw [hrows]; exact List.mem_map.mpr ⟨row, hrow, rfl⟩, hg row hrow⟩
  | @purged at_ ha hnow hdb _ =>
      by_cases hdue : row.status = .sent ∧
          ∃ sentAt, row.sentAt = some sentAt ∧ sentAt < at_ - retentionMs retentionDays
      · obtain ⟨hstatus, sentAt, hsentAt, hbefore⟩ := hdue
        refine .inr ⟨at_, ha, hstatus, sentAt, hsentAt, ?_⟩
        exact lt_of_lt_of_le (Int.add_lt_of_lt_sub_right hbefore) hnow
      · refine .inl ⟨row, ?_, .inl rfl⟩
        rw [hdb]
        apply List.mem_filter.mpr
        refine ⟨hrow, ?_⟩
        cases hsentAt : row.sentAt with
        | none => simp [hsentAt]
        | some sentAt =>
            simp only [hsentAt, Option.some.injEq, exists_eq_left', not_and, not_lt] at hdue
            simpa [hsentAt] using imp_iff_not_or.mp hdue

theorem RowsChange.created (h : RowsChange retentionDays s a t) :
    ∃ new, t.created = s.created ++ new := by
  cases h with
  | appended hdraws =>
      obtain ⟨now, -, added, -, hcreated, -⟩ := hdraws
      exact ⟨_, hcreated⟩
  | rewritten _ _ hcreated => exact ⟨[], by simp [hcreated]⟩
  | purged _ _ _ hcreated => exact ⟨[], by simp [hcreated]⟩

theorem Change.handled (h : Change retentionDays s a t) :
    t.handled = s.handled ∨ ∃ x ∈ s.executions, t.handled = x.id :: s.handled := by
  cases h with
  | quiet _ _ _ hhandled | committed _ _ hhandled | edited _ _ hhandled | enqueued _ _ _ hhandled
  | errored _ _ hhandled | marked _ _ _ hhandled | purged _ _ _ hhandled => exact .inl hhandled
  | confirmed hrun _ _ hhandled | promoted hrun _ _ hhandled => exact .inr ⟨_, hrun, hhandled⟩

theorem Change.handled_grows (h : Change retentionDays s a t) :
    ∀ id ∈ s.handled, id ∈ t.handled := by
  intro id hid
  rcases h.handled with hsame | ⟨x, -, hcons⟩
  · rwa [hsame]
  · rw [hcons]
    exact List.mem_cons_of_mem _ hid

end Eventify
