import Eventify.Outbox.Delivery

/-!
# When terminal states are terminal

The dispatcher updates a row without looking at its status, so a mark that
is written between its query and this update is overwritten. Sent and failed
rows keep their status in exactly the runs without that race.
-/

namespace Eventify

open Library

variable {retentionDays : ℕ} {s t : Backend} {a : BackendAction}

/-- A step leaves sent rows sent and moves no failed row back to the queue. -/
def KeepsTerminal (retentionDays : ℕ) (s : Backend) (a : BackendAction) : Prop :=
  ∀ t, backendStep retentionDays s a = some t →
    ∀ row ∈ s.db.outbox.rows, ∀ row' ∈ t.db.outbox.rows, row'.id = row.id →
      (row.status = .sent → row'.status = .sent) ∧
      (row.status = .failed → row'.status ≠ .enqueued)

/-- When a pass records a row as enqueued, no mark of that row has been
written since the pass read it. -/
def RecordsUnmarked (retentionDays : ℕ) (s : Backend) (a : BackendAction) : Prop :=
  ∀ t, backendStep retentionDays s a = some t → ∀ w at_ row rest marked dispatched,
    a = .recordEnqueued w at_ → s.passes w = some ⟨.added row rest, marked, dispatched⟩ →
      row.id ∉ marked

/-- A row that a pass holds is unfinished until a mark of it is written, and
terminal from then on. -/
def Raced (db : Database) (pass : Pass) : Prop :=
  ∀ row ∈ pass.phase.snapshot, ∀ stored ∈ db.outbox.rows, stored.id = row.id →
    (row.id ∉ pass.marked → stored.Unfinished) ∧ (row.id ∈ pass.marked → stored.Terminal)

structure RaceInv (s : Backend) : Prop extends Known s where
  raced : ∀ w pass, s.passes w = some pass → Raced s.db pass

theorem RaceInv.start (db : Database) (now : Time) : RaceInv (.start db now) :=
  ⟨Known.start db now, fun w pass hpass => by cases hpass⟩

theorem outbox_id_inj {t : Table NotificationOutbox NotificationOutbox.Clash}
    {row row' : NotificationOutbox} (hrow : row ∈ t.rows) (hrow' : row' ∈ t.rows)
    (hid : row'.id = row.id) : row' = row := by
  have hnodup : (t.rows.map NotificationOutbox.id).Nodup := List.pairwise_map.mpr t.unique
  exact List.inj_on_of_nodup_map hnodup hrow' hrow hid

theorem Mark.write_terminal {mark : Mark} {at_ : Time} {db : Database} {row : NotificationOutbox}
    (hrow : row ∈ (mark.write at_ db).outbox.rows) (hid : row.id = mark.id) : row.Terminal := by
  cases mark with
  | sent id =>
      obtain ⟨old, -, rfl⟩ := List.mem_map.mp (Database.markOutboxSent_rows ▸ hrow)
      split at hid
      · next hwhere =>
        rw [if_pos hwhere]
        exact .inl rfl
      · next hwhere =>
        rw [if_neg hwhere]
        simp only [Mark.id] at hid
        exact .inl (by simpa [hid] using hwhere)
  | failed id message =>
      obtain ⟨old, -, rfl⟩ := List.mem_map.mp (Database.markOutboxFailed_rows ▸ hrow)
      split at hid
      · next hwhere =>
        rw [if_pos hwhere]
        exact .inr rfl
      · next hwhere =>
        rw [if_neg hwhere]
        simp only [Mark.id] at hid
        exact .inl (by simpa [hid] using hwhere)

theorem RaceInv.recorded (hs : RaceInv s) {w : ℕ} {read row : NotificationOutbox}
    {rest : List NotificationOutbox} {marked : List Uuid} {dispatched : ℕ}
    (hpass : s.passes w = some ⟨.added read rest, marked, dispatched⟩)
    (hrow : row ∈ s.db.outbox.rows) (hid : row.id = read.id) :
    (read.id ∉ marked → row.Unfinished) ∧ (read.id ∈ marked → row.Terminal) :=
  hs.raced w _ hpass read (by simp [Phase.snapshot]) row hrow hid

theorem RaceInv.step (hs : RaceInv s) (hgood : RecordsUnmarked retentionDays s a)
    (h : backendStep retentionDays s a = some t) : RaceInv t := by
  have hchange := backendStep_change h
  refine ⟨hs.toKnown.step h, fun w next hnext row hrow stored hstored hid => ?_⟩
  rcases (backendStep_flow h).passes w next hnext row hrow with
    ⟨pass, hpass, hheld, hmarked⟩ | ⟨hmarked, hread, hunfinished, oldestFirst, rfl⟩
  · have hbefore := hs.raced w pass hpass row hheld
    rw [hmarked]
    by_cases hnoted : row.id ∈ noted s a
    · refine ⟨fun hunmarked => (hunmarked (List.mem_append_left _ hnoted)).elim, fun _ => ?_⟩
      cases hchange with
      | @marked i at_ mark _ hmark hdb =>
          have hrowid : row.id = mark.id := by simpa [noted, hmark] using hnoted
          exact Mark.write_terminal (hdb ▸ hstored) (hid.trans hrowid)
      | quiet hnone => simp [hnone] at hnoted
      | _ => simp [noted] at hnoted
    · have hmem : row.id ∈ noted s a ++ pass.marked ↔ row.id ∈ pass.marked := by simp [hnoted]
      rw [hmem]
      rcases hchange.rows.origin hstored with hold | ⟨old, hold, hwrite⟩ | ⟨-, -, -, -, hfresh⟩
      · exact hbefore stored hold hid
      · have hold' := hbefore old hold (hwrite.keys.1.symm.trans hid)
        cases hwrite with
        | enqueued ha hpass₂ hid₂ =>
            have hunmarked := hgood t h _ _ _ _ _ _ ha hpass₂
            have hunfinished := (hs.recorded hpass₂ hold hid₂).1 hunmarked
            exact ⟨fun _ => .inr rfl, fun hin => (hunfinished.not_terminal (hold'.2 hin)).elim⟩
        | errored => exact hold'
        | sent ha hmark | failed ha hmark =>
            subst ha
            have hrowid : old.id = row.id := hid
            simp [noted, hmark, Mark.id, hrowid] at hnoted
      · have hcreated : row.id ∈ s.created.map Prod.fst :=
          List.mem_map.mpr ⟨_, hs.carried _ _ (.held hpass hheld), rfl⟩
        exact (hfresh (hid ▸ hcreated)).elim
  · cases hchange with
    | quiet _ hdb =>
        obtain rfl := outbox_id_inj hread (hdb ▸ hstored) hid
        exact ⟨fun _ => hunfinished, fun hin => by simp [hmarked] at hin⟩

theorem keepsTerminal_iff (hs : RaceInv s) (a : BackendAction) :
    KeepsTerminal retentionDays s a ↔ RecordsUnmarked retentionDays s a := by
  constructor
  · rintro hkeeps t h w at_ row rest marked dispatched rfl hpass hmarked
    obtain ⟨read, _, _, _, hpass', hdb, -⟩ := recordEnqueued_some h
    rw [hpass] at hpass'
    cases hpass'
    obtain ⟨stored, hstored, hid, henqueued⟩ := Database.recordEnqueued_present hdb
    have hnow := hkeeps t h stored hstored _ henqueued rfl
    rcases (hs.recorded hpass hstored hid).2 hmarked with hsent | hfailed
    · exact absurd (hnow.1 hsent) (by simp [NotificationOutbox.enqueue])
    · exact hnow.2 hfailed rfl
  · intro hgood t h row hrow row' hrow' hid
    rcases (backendStep_change h).rows.origin hrow' with hold | ⟨old, hold, hwrite⟩ |
      ⟨-, -, -, -, hfresh⟩
    · obtain rfl := outbox_id_inj hrow hold hid
      exact ⟨id, fun hfailed => by simp [hfailed]⟩
    · obtain rfl := outbox_id_inj hrow hold (hwrite.keys.1.symm.trans hid)
      cases hwrite with
      | enqueued ha hpass hid' =>
          have hunfinished := (hs.recorded hpass hrow hid').1 (hgood t h _ _ _ _ _ _ ha hpass)
          have hnot := hunfinished.not_terminal
          exact ⟨fun hsent => (hnot (.inl hsent)).elim, fun hfailed => (hnot (.inr hfailed)).elim⟩
      | errored => exact ⟨id, fun hfailed => by simp [NotificationOutbox.recordError, hfailed]⟩
      | sent _ _ hstatus =>
          exact ⟨fun hsent => (hstatus hsent).elim, fun _ => by simp [NotificationOutbox.markSent]⟩
      | failed _ _ hstatus =>
          exact ⟨fun hsent => (hstatus hsent).elim,
            fun _ => by simp [NotificationOutbox.markFailed]⟩
    · exact (hfresh (hid ▸ List.mem_map.mpr ⟨_, hs.rows row hrow, rfl⟩)).elim

/-- Sent rows stay sent and failed rows are not queued again in exactly the
runs in which no pass records a row as enqueued after a mark of it. -/
theorem terminal_states_iff (retentionDays : ℕ) (db : Database) (now : Time)
    (acts : List BackendAction) :
    Along (backendStep retentionDays) (KeepsTerminal retentionDays) (.start db now) acts ↔
      Along (backendStep retentionDays) (RecordsUnmarked retentionDays) (.start db now) acts :=
  along_iff (fun _ a hs => keepsTerminal_iff hs a) (fun _ _ _ hs hgood h => hs.step hgood h)
    (RaceInv.start db now) acts

def racedRun : List BackendAction :=
  [.transact (drawing 0 "a") (.createBooking ⟨"ann", .attendee⟩ "e"), .beginPass 0 0,
    .select 0 (OrderBy.stable _), .add 0, .startJob "a-1", .handlerReturns 0 (drawing 0 "b"),
    .completed 0, .mark 0 0, .recordEnqueued 0 0]

theorem sent_row_enqueued_again :
    ¬ Along (backendStep 7) (KeepsTerminal 7) (.start soloDatabase 0) racedRun := by
  intro h
  obtain ⟨s, hs, hrows⟩ : ∃ s, exec (backendStep 7) (.start soloDatabase 0) (racedRun.take 8) =
      some s ∧ ∃ row ∈ s.db.outbox.rows, row.id = "a-1" ∧ row.status = .sent ∧
        ∃ t, backendStep 7 s (.recordEnqueued 0 0) = some t ∧
          ∃ row' ∈ t.db.outbox.rows, row'.id = "a-1" ∧ row'.status = .enqueued :=
    ⟨_, rfl, _, .head _, rfl, rfl, _, rfl, _, .head _, rfl, rfl⟩
  obtain ⟨row, hrow, hid, hsent, t, ht, row', hrow', hid', henqueued⟩ := hrows
  have hsplit : Along (backendStep 7) (KeepsTerminal 7) (.start soloDatabase 0)
      (racedRun.take 8 ++ [.recordEnqueued 0 0]) := h
  have hlast := (along_append_iff.mp hsplit).2 s hs
  have hstays := (hlast.1 t ht row hrow row' hrow' (hid'.trans hid.symm)).1 hsent
  simp [henqueued] at hstays

end Eventify
