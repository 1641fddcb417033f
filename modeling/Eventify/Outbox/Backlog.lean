import Eventify.Library.Batches
import Eventify.Library.Machine
import Eventify.Outbox.Dispatch
import Mathlib.Tactic.Linarith

/-!
# Passes over a backlog

Consecutive passes of `dispatchOutbox` while the queue refuses some of the
rows. A refused row stays due and is among the oldest again in the next pass,
where it takes a place of the batch.
-/

namespace Eventify

open Library

/-- What one pass takes from outside: the clock at `new Date()` and at
`Date.now()`, for each row what `queue.add` throws and when its update reads
the clock, how ties of `createdAt` come out, and the text of an error. -/
structure DispatchPass where
  now : Time
  staleNow : Time
  oldestFirst : OrderBy NotificationOutbox.createdAt
  queueAdd : Uuid → Option String
  clock : Uuid → Time
  finish : Time
  message : Failure → String

def DispatchPass.staleBefore (pass : DispatchPass) : Time := pass.staleNow - staleEnqueuedMs

/-- The rows a pass has selected, those it has tried to add, those the queue
took, and the number it returns. -/
structure PassLog where
  selected : List NotificationOutbox
  tried : List NotificationOutbox
  added : List NotificationOutbox
  dispatched : ℕ

/-- The loop of `dispatchOutbox`; an update that throws sends the row to the
`catch` block, one that throws there ends the pass. -/
def dispatchRows (pass : DispatchPass) :
    List NotificationOutbox → Database → PassLog → Except Failure (Database × PassLog)
  | [], db, log => .ok (db, log)
  | row :: rest, db, log =>
      let log := { log with tried := log.tried ++ [row] }
      match pass.queueAdd row.id with
      | some message =>
          match db.recordError row.id message with
          | .ok db => dispatchRows pass rest db log
          | .error failure => .error failure
      | none =>
          let log := { log with added := log.added ++ [row] }
          match db.recordEnqueued row.id (pass.clock row.id) with
          | .ok db => dispatchRows pass rest db { log with dispatched := log.dispatched + 1 }
          | .error failure =>
              match db.recordError row.id (pass.message failure) with
              | .ok db => dispatchRows pass rest db log
              | .error failure => .error failure

def Database.dispatchOutbox (db : Database) (pass : DispatchPass) :
    Except Failure (Database × PassLog) :=
  let rows := db.findDispatchable pass.oldestFirst pass.now pass.staleBefore
  dispatchRows pass rows db ⟨rows, [], [], 0⟩

/-- The rows that a pass finds due. -/
def Database.dueRows (db : Database) (pass : DispatchPass) : List NotificationOutbox :=
  db.outbox.rows.filter (dueForDispatch pass.now pass.staleBefore)

structure DispatchRun where
  db : Database
  now : Time
  passes : List PassLog

def DispatchRun.start (db : Database) (now : Time) : DispatchRun := ⟨db, now, []⟩

def DispatchRun.added (s : DispatchRun) : List NotificationOutbox := s.passes.flatMap (·.added)

/-- One `tick`: a pass starts after the one before it has ended. -/
def dispatchStep (s : DispatchRun) (pass : DispatchPass) : Option DispatchRun :=
  match s.db.dispatchOutbox pass with
  | .ok (db, log) => some ⟨db, pass.finish, s.passes ++ [log]⟩
  | .error _ => none

/-- Passes one after the other that end within `STALE_ENQUEUED_MS` of `since`,
with a queue that refuses the rows of `fails` and no others. -/
structure Consecutive (fails : Uuid → Bool) (since : Time) (s : DispatchRun)
    (pass : DispatchPass) : Prop where
  later : s.now ≤ pass.now
  read : pass.now ≤ pass.staleNow
  clock : ∀ id, pass.staleNow ≤ pass.clock id ∧ pass.clock id ≤ pass.finish
  window : pass.finish ≤ since + staleEnqueuedMs
  queue : ∀ id, (pass.queueAdd id).isSome = fails id

namespace NotificationOutbox

/-- What of a row no pass changes. -/
def stamp (row : NotificationOutbox) : Uuid × Time := (row.id, row.createdAt)

end NotificationOutbox

/-! ### One pass -/

/-- What a pass makes of a row, given the rows it has selected. -/
def DispatchPass.rewrite (pass : DispatchPass) (selected : List NotificationOutbox)
    (row : NotificationOutbox) : NotificationOutbox :=
  if row.id ∈ selected.map (·.id) then
    match pass.queueAdd row.id with
    | some message => row.recordError message
    | none => row.enqueue (pass.clock row.id)
  else row

def DispatchPass.takes (pass : DispatchPass) (row : NotificationOutbox) : Bool :=
  (pass.queueAdd row.id).isNone

def PassLog.after (log : PassLog) (pass : DispatchPass) (rows : List NotificationOutbox) :
    PassLog :=
  ⟨log.selected, log.tried ++ rows, log.added ++ rows.filter pass.takes,
    log.dispatched + rows.countP pass.takes⟩

section Pass

variable {pass : DispatchPass} {db : Database} {selected : List NotificationOutbox}
  {row : NotificationOutbox}

@[simp] theorem rewrite_id : (pass.rewrite selected row).id = row.id := by
  unfold DispatchPass.rewrite
  split
  · split <;> rfl
  · rfl

@[simp] theorem rewrite_stamp : (pass.rewrite selected row).stamp = row.stamp := by
  unfold DispatchPass.rewrite
  split
  · split <;> rfl
  · rfl

theorem rewrite_nil : pass.rewrite [] = id := by
  funext row
  simp [DispatchPass.rewrite]

/-- The first selected row is rewritten before the others, which are other rows. -/
theorem rewrite_cons (hnew : row.id ∉ selected.map (·.id)) (x : NotificationOutbox) :
    pass.rewrite (row :: selected) x = pass.rewrite selected (pass.rewrite [row] x) := by
  by_cases hx : x.id = row.id
  · have hkeep : ∀ y : NotificationOutbox, y.id = row.id → pass.rewrite selected y = y := by
      intro y hy
      rw [DispatchPass.rewrite, hy, if_neg hnew]
    rw [hkeep _ (rewrite_id.trans hx)]
    simp [DispatchPass.rewrite, hx]
  · simp [DispatchPass.rewrite, hx]

theorem find_outbox_present {id : Uuid} (h : ∃ x ∈ db.outbox.rows, x.id = id) :
    ∃ x, (db.outbox.find fun row => row.id == id) = some x := by
  obtain ⟨x, hx, rfl⟩ := h
  apply Option.isSome_iff_exists.mp
  exact List.find?_isSome.mpr ⟨x, hx, by simp⟩

/-- The update of a row that is there succeeds. -/
theorem exists_recordError {id : Uuid} (h : ∃ x ∈ db.outbox.rows, x.id = id) (message : String) :
    ∃ db', db.recordError id message = .ok db' := by
  obtain ⟨x, hx⟩ := find_outbox_present h
  simp [Database.recordError, hx]

theorem exists_recordEnqueued {id : Uuid} (h : ∃ x ∈ db.outbox.rows, x.id = id) (now : Time) :
    ∃ db', db.recordEnqueued id now = .ok db' := by
  obtain ⟨x, hx⟩ := find_outbox_present h
  simp [Database.recordEnqueued, hx]

theorem rewrite_refused {message : String} (hqueue : pass.queueAdd row.id = some message) :
    pass.rewrite [row] = fun x => if x.id == row.id then x.recordError message else x := by
  funext x
  by_cases hx : x.id = row.id
  · simp [DispatchPass.rewrite, hx, hqueue]
  · simp [DispatchPass.rewrite, hx]

theorem rewrite_taken (hqueue : pass.queueAdd row.id = none) :
    pass.rewrite [row] = fun x => if x.id == row.id then x.enqueue (pass.clock row.id) else x := by
  funext x
  by_cases hx : x.id = row.id
  · simp [DispatchPass.rewrite, hx, hqueue]
  · simp [DispatchPass.rewrite, hx]

/-- The loop goes on behind the first row, whichever update that row gets. -/
theorem dispatchRows_cons (pass : DispatchPass) (hrow : ∃ x ∈ db.outbox.rows, x.id = row.id)
    (rest : List NotificationOutbox) (log : PassLog) :
    ∃ db₁ : Database, db₁.outbox.rows = db.outbox.rows.map (pass.rewrite [row]) ∧
      dispatchRows pass (row :: rest) db log =
        dispatchRows pass rest db₁ (log.after pass [row]) := by
  cases hqueue : pass.queueAdd row.id with
  | some message =>
      obtain ⟨db₁, hok⟩ := exists_recordError hrow message
      refine ⟨db₁, ?_, ?_⟩
      · rw [(Database.recordError_rows hok).2.2, rewrite_refused hqueue]
      · simp [dispatchRows, hqueue, hok, PassLog.after, DispatchPass.takes]
  | none =>
      obtain ⟨db₁, hok⟩ := exists_recordEnqueued hrow (pass.clock row.id)
      refine ⟨db₁, ?_, ?_⟩
      · rw [(Database.recordEnqueued_rows hok).2.2, rewrite_taken hqueue]
      · simp [dispatchRows, hqueue, hok, PassLog.after, DispatchPass.takes]

theorem PassLog.after_cons (log : PassLog) (row : NotificationOutbox)
    (rest : List NotificationOutbox) :
    (log.after pass [row]).after pass rest = log.after pass (row :: rest) := by
  by_cases htakes : pass.takes row = true
  · simp [PassLog.after, htakes, List.append_assoc, Nat.add_assoc, Nat.add_comm]
  · simp [PassLog.after, htakes]

/-- A pass tries every row it has selected; those that the queue takes are
enqueued, the others keep all but their `lastError`. -/
theorem dispatchRows_ok (pass : DispatchPass) (rows : List NotificationOutbox) :
    ∀ (db : Database) (log : PassLog), (rows.map (·.id)).Nodup →
      (∀ row ∈ rows, ∃ x ∈ db.outbox.rows, x.id = row.id) →
      ∃ db', dispatchRows pass rows db log = .ok (db', log.after pass rows) ∧
        db'.outbox.rows = db.outbox.rows.map (pass.rewrite rows) := by
  induction rows with
  | nil =>
      intro db log _ _
      exact ⟨db, by simp [dispatchRows, PassLog.after], by simp [rewrite_nil]⟩
  | cons row rest ih =>
      intro db log hnodup hpresent
      obtain ⟨hnew, hrest⟩ := List.nodup_cons.mp hnodup
      obtain ⟨db₁, hrows, hloop⟩ :=
        dispatchRows_cons pass (hpresent row List.mem_cons_self) rest log
      have hpresent₁ : ∀ other ∈ rest, ∃ x ∈ db₁.outbox.rows, x.id = other.id := by
        intro other hother
        obtain ⟨y, hy, hid⟩ := hpresent other (List.mem_cons_of_mem row hother)
        rw [hrows]
        exact ⟨_, List.mem_map_of_mem hy, rewrite_id.trans hid⟩
      obtain ⟨db', hdb', hrows'⟩ := ih db₁ (log.after pass [row]) hrest hpresent₁
      refine ⟨db', ?_, ?_⟩
      · rw [hloop, hdb', PassLog.after_cons]
      · rw [hrows', hrows, List.map_map]
        apply List.map_congr_left
        exact fun y _ => (rewrite_cons hnew y).symm

theorem outbox_ids_nodup (db : Database) : (db.outbox.rows.map (·.id)).Nodup :=
  List.pairwise_map.mpr db.outbox.unique

theorem dueRows_ids_nodup (db : Database) (pass : DispatchPass) :
    ((db.dueRows pass).map (·.id)).Nodup :=
  (outbox_ids_nodup db).sublist (List.filter_sublist.map _)

theorem dispatchOutbox_ok (db : Database) (pass : DispatchPass) :
    let selected := db.findDispatchable pass.oldestFirst pass.now pass.staleBefore
    ∃ db', db.dispatchOutbox pass = .ok (db', ⟨selected, selected, selected.filter pass.takes,
        selected.countP pass.takes⟩) ∧
      db'.outbox.rows = db.outbox.rows.map (pass.rewrite selected) := by
  intro selected
  have hsub : (selected.map (·.id)).Nodup := by
    have hsort : ((pass.oldestFirst.sort (db.dueRows pass)).map (·.id)).Nodup := by
      apply ((pass.oldestFirst.perm (db.dueRows pass)).map _).nodup_iff.mpr
      exact dueRows_ids_nodup db pass
    exact hsort.sublist ((List.take_sublist _ _).map _)
  have hpresent : ∀ row ∈ selected, ∃ x ∈ db.outbox.rows, x.id = row.id :=
    fun row hrow => ⟨row, (Database.mem_findDispatchable hrow).1, rfl⟩
  obtain ⟨db', hok, hrows⟩ := dispatchRows_ok pass selected db ⟨selected, [], [], 0⟩ hsub hpresent
  refine ⟨db', ?_, hrows⟩
  change dispatchRows pass selected db ⟨selected, [], [], 0⟩ = _
  rw [hok]
  simp [PassLog.after]

end Pass

/-! ### The rows of a table -/

section Rows

variable {pass : DispatchPass} {db : Database} {selected : List NotificationOutbox}
  {row : NotificationOutbox}

theorem stamps_nodup (db : Database) : (db.outbox.rows.map (·.stamp)).Nodup := by
  apply List.Nodup.of_map Prod.fst
  rw [List.map_map]
  exact outbox_ids_nodup db

theorem mem_dueRows_iff :
    row ∈ db.dueRows pass ↔
      row ∈ db.outbox.rows ∧ dueForDispatch pass.now pass.staleBefore row = true :=
  List.mem_filter

theorem dueRows_stamps_nodup (db : Database) (pass : DispatchPass) :
    ((db.dueRows pass).map (·.stamp)).Nodup :=
  (stamps_nodup db).sublist (List.filter_sublist.map _)

theorem stamp_inj {x y : NotificationOutbox} (hx : x ∈ db.outbox.rows) (hy : y ∈ db.outbox.rows)
    (h : x.stamp = y.stamp) : x = y :=
  List.inj_on_of_nodup_map (stamps_nodup db) hx hy h

/-- The id alone tells the stamps of a table's rows apart. -/
theorem stamp_eq_of_id {x y : Uuid × Time} (hx : x ∈ db.outbox.rows.map (·.stamp))
    (hy : y ∈ db.outbox.rows.map (·.stamp)) (h : x.1 = y.1) : x = y := by
  have hids : ((db.outbox.rows.map (·.stamp)).map Prod.fst).Nodup := by
    rw [List.map_map]
    exact outbox_ids_nodup db
  exact List.inj_on_of_nodup_map hids hx hy h

/-- A stamp of the due rows belongs to a due row. -/
theorem mem_dueRows_of_stamp (hrow : row ∈ db.outbox.rows)
    (h : row.stamp ∈ (db.dueRows pass).map (·.stamp)) : row ∈ db.dueRows pass := by
  obtain ⟨other, hother, hsame⟩ := List.mem_map.mp h
  rwa [← stamp_inj (mem_dueRows_iff.mp hother).1 hrow hsame]

theorem mem_of_selected_id (hselected : ∀ x ∈ selected, x ∈ db.outbox.rows)
    (hrow : row ∈ db.outbox.rows) (hid : row.id ∈ selected.map (·.id)) : row ∈ selected := by
  obtain ⟨other, hother, hsame⟩ := List.mem_map.mp hid
  have heq := List.inj_on_of_nodup_map (outbox_ids_nodup db) (hselected other hother) hrow hsame
  rwa [← heq]

/-- A row is enqueued when the pass has selected it and the queue takes it;
otherwise nothing but its `lastError` may change. -/
theorem rewrite_cases (hselected : ∀ x ∈ selected, x ∈ db.outbox.rows)
    (hrow : row ∈ db.outbox.rows) :
    (row ∈ selected ∧ pass.takes row = true ∧
      pass.rewrite selected row = row.enqueue (pass.clock row.id)) ∨
    (row ∉ selected.filter pass.takes ∧
      (pass.rewrite selected row = row ∨
        ∃ message, pass.rewrite selected row = row.recordError message)) := by
  by_cases hid : row.id ∈ selected.map (·.id)
  · have hmember := mem_of_selected_id hselected hrow hid
    simp only [DispatchPass.rewrite, if_pos hid]
    cases hqueue : pass.queueAdd row.id with
    | none => exact .inl ⟨hmember, by simp [DispatchPass.takes, hqueue], rfl⟩
    | some message =>
        refine .inr ⟨fun hmem => ?_, .inr ⟨message, rfl⟩⟩
        have htakes := (List.mem_filter.mp hmem).2
        simp [DispatchPass.takes, hqueue] at htakes
  · rw [DispatchPass.rewrite, if_neg hid]
    refine .inr ⟨fun hmem => hid ?_, .inl rfl⟩
    exact List.mem_map_of_mem (List.mem_filter.mp hmem).1

theorem findDispatchable_eq_batch (db : Database) (pass : DispatchPass) :
    db.findDispatchable pass.oldestFirst pass.now pass.staleBefore =
      pass.oldestFirst.batch dispatchBatch (db.dueRows pass) := rfl

end Rows

/-! ### Passes in a row -/

/-- A pass of the window that `first` opens. -/
structure Within (first : DispatchPass) (fails : Uuid → Bool) (s : DispatchRun)
    (pass : DispatchPass) : Prop extends Consecutive fails first.now s pass where
  now : first.now ≤ pass.now
  stale : first.staleNow ≤ pass.staleNow

/-- The places of a batch that rows take which the queue refuses, or which were
not due at the start. -/
def lostPlaces (fails : Uuid → Bool) (start : List (Uuid × Time)) (s : DispatchRun)
    (pass : DispatchPass) (_ : DispatchRun) : ℕ :=
  (s.db.findDispatchable pass.oldestFirst pass.now pass.staleBefore).countP fun row =>
    fails row.id || decide (row.stamp ∉ start)

/-- What holds after any number of passes that start at the table `db`: a row
that was due then stays due until it is added, and an added row is no longer due. -/
structure Progress (db : Database) (first : DispatchPass) (fails : Uuid → Bool)
    (s : DispatchRun) : Prop where
  stamps : s.db.outbox.rows.map (·.stamp) = db.outbox.rows.map (·.stamp)
  waits : ∀ row ∈ s.db.outbox.rows, row.stamp ∈ (db.dueRows first).map (·.stamp) →
    row.stamp ∉ s.added.map (·.stamp) → dueForDispatch first.now first.staleBefore row = true
  enqueued : ∀ row ∈ s.db.outbox.rows, row.stamp ∈ s.added.map (·.stamp) →
    row.status = .enqueued ∧ ∃ at_, row.enqueuedAt = some at_ ∧ first.now ≤ at_
  stored : ∀ a ∈ s.added, a.stamp ∈ db.outbox.rows.map (·.stamp)
  sound : ∀ a ∈ s.added, fails a.id = false
  nodup : (s.added.map (·.stamp)).Nodup
  ordered : s.added.Pairwise fun a b =>
    b.stamp ∈ (db.dueRows first).map (·.stamp) → a.createdAt ≤ b.createdAt
  before : ∀ a ∈ s.added, ∀ r ∈ db.dueRows first, fails r.id = false →
    r.stamp ∉ s.added.map (·.stamp) → a.createdAt ≤ r.createdAt
  tried : ∀ log ∈ s.passes, log.tried = log.selected

section Runs

variable {db : Database} {first pass : DispatchPass} {fails : Uuid → Bool} {s t : DispatchRun}

theorem Progress.start (db : Database) (first : DispatchPass) (fails : Uuid → Bool) :
    Progress db first fails (.start db first.now) := by
  refine ⟨rfl, ?_, ?_, ?_, ?_, ?_, ?_, ?_, ?_⟩
  · intro row hrow hstamp _
    exact (mem_dueRows_iff.mp (mem_dueRows_of_stamp hrow hstamp)).2
  all_goals simp [DispatchRun.start, DispatchRun.added]

theorem Within.staleNow_le (h : Within first fails s pass) :
    pass.staleNow ≤ first.now + staleEnqueuedMs := by
  obtain ⟨hread, hend⟩ := h.clock ""
  exact (hread.trans hend).trans h.window

theorem Within.takes (h : Within first fails s pass) (row : NotificationOutbox) :
    pass.takes row = !fails row.id := by
  have hqueue := h.queue row.id
  cases hadd : pass.queueAdd row.id <;> simp_all [DispatchPass.takes]

/-- A row that was due at the start and that no pass has added is due again. -/
theorem Progress.due (hs : Progress db first fails s) (hgood : Within first fails s pass)
    {r : NotificationOutbox} (hr : r ∈ db.dueRows first)
    (hwaits : r.stamp ∉ s.added.map (·.stamp)) :
    ∃ row ∈ s.db.dueRows pass, row.stamp = r.stamp := by
  have hstamp : r.stamp ∈ s.db.outbox.rows.map (·.stamp) := by
    rw [hs.stamps]
    exact List.mem_map_of_mem (mem_dueRows_iff.mp hr).1
  obtain ⟨row, hrow, hsame⟩ := List.mem_map.mp hstamp
  have hdue := hs.waits row hrow (hsame ▸ List.mem_map_of_mem hr) (hsame ▸ hwaits)
  obtain ⟨havailable, hstatus⟩ := dueForDispatch_iff.mp hdue
  refine ⟨row, mem_dueRows_iff.mpr ⟨hrow, dueForDispatch_iff.mpr ?_⟩, hsame⟩
  refine ⟨havailable.trans hgood.now, hstatus.imp_right ?_⟩
  rintro ⟨henqueued, at_, hat, hlate⟩
  refine ⟨henqueued, at_, hat, ?_⟩
  have hstale := hgood.stale
  simp only [DispatchPass.staleBefore] at hlate ⊢
  linarith

/-- An added row is enqueued until the window ends. -/
theorem Progress.not_due (hs : Progress db first fails s) (hgood : Within first fails s pass)
    {row : NotificationOutbox} (hrow : row ∈ s.db.dueRows pass) :
    row.stamp ∉ s.added.map (·.stamp) := by
  intro hadded
  obtain ⟨hstored, hdue⟩ := mem_dueRows_iff.mp hrow
  obtain ⟨hstatus, at_, hat, hlate⟩ := hs.enqueued row hstored hadded
  rcases (dueForDispatch_iff.mp hdue).2 with hpending | ⟨-, at', hat', hearly⟩
  · rw [hstatus] at hpending
    cases hpending
  · cases hat.symm.trans hat'
    have hwindow := hgood.staleNow_le
    simp only [DispatchPass.staleBefore] at hearly
    linarith

/-- The outcome of one pass. -/
structure Passed (fails : Uuid → Bool) (s : DispatchRun) (pass : DispatchPass)
    (batch : List NotificationOutbox) (t : DispatchRun) : Prop where
  selected : batch = s.db.findDispatchable pass.oldestFirst pass.now pass.staleBefore
  added : t.added = s.added ++ batch.filter fun row => !fails row.id
  rows : t.db.outbox.rows = s.db.outbox.rows.map (pass.rewrite batch)
  count : t.passes.length = s.passes.length + 1
  now : t.now = pass.finish
  tried : ∀ log ∈ t.passes, log ∈ s.passes ∨ log.tried = log.selected

theorem Within.passes (hgood : Within first fails s pass) :
    ∃ batch t, dispatchStep s pass = some t ∧ Passed fails s pass batch t := by
  obtain ⟨db', hok, hrows⟩ := dispatchOutbox_ok s.db pass
  have htakes : pass.takes = fun row => !fails row.id := funext hgood.takes
  refine ⟨s.db.findDispatchable pass.oldestFirst pass.now pass.staleBefore, ⟨db', pass.finish,
    s.passes ++ [_]⟩, by rw [dispatchStep, hok], rfl, ?_, hrows, by simp, rfl, ?_⟩
  · simp [DispatchRun.added, htakes]
  · intro log hlog
    refine (List.mem_append.mp hlog).imp_right fun hnew => ?_
    obtain rfl := List.mem_singleton.mp hnew
    rfl

section Batch

variable {batch : List NotificationOutbox}

theorem Passed.due (h : Passed fails s pass batch t) {row : NotificationOutbox}
    (hrow : row ∈ batch) : row ∈ s.db.dueRows pass := by
  rw [h.selected, findDispatchable_eq_batch] at hrow
  exact OrderBy.mem_of_mem_batch hrow

theorem Passed.stored (h : Passed fails s pass batch t) :
    ∀ row ∈ batch, row ∈ s.db.outbox.rows :=
  fun _ hrow => (mem_dueRows_iff.mp (h.due hrow)).1

theorem Passed.mem_stamps_iff (h : Passed fails s pass batch t) {x : Uuid × Time} :
    x ∈ t.added.map (·.stamp) ↔
      x ∈ s.added.map (·.stamp) ∨ ∃ row ∈ batch, fails row.id = false ∧ row.stamp = x := by
  rw [h.added, List.map_append, List.mem_append]
  simp [and_assoc]

/-- What is left of the rows due at the start comes no earlier than the batch, which is full. -/
theorem Progress.left (hs : Progress db first fails s) (hgood : Within first fails s pass)
    (h : Passed fails s pass batch t) {r : NotificationOutbox} (hr : r ∈ db.dueRows first)
    (hsound : fails r.id = false) (hleft : r.stamp ∉ t.added.map (·.stamp)) :
    batch.length = dispatchBatch ∧ ∀ a ∈ batch, a.createdAt ≤ r.createdAt := by
  have hwaits : r.stamp ∉ s.added.map (·.stamp) :=
    fun hadded => hleft (h.mem_stamps_iff.mpr (.inl hadded))
  obtain ⟨row, hrow, hsame⟩ := hs.due hgood hr hwaits
  have hout : row ∉ batch := by
    intro hin
    have hid : row.id = r.id := congrArg Prod.fst hsame
    exact hleft (h.mem_stamps_iff.mpr (.inr ⟨row, hin, hid ▸ hsound, hsame⟩))
  have hcreated : row.createdAt = r.createdAt := congrArg Prod.snd hsame
  rw [h.selected, findDispatchable_eq_batch] at hout ⊢
  refine ⟨OrderBy.length_batch_of_left hrow hout, fun a ha => ?_⟩
  rw [← hcreated]
  exact OrderBy.batch_le_of_left ha hrow hout

theorem Progress.step (hs : Progress db first fails s) (hgood : Within first fails s pass)
    (h : Passed fails s pass batch t) : Progress db first fails t := by
  have hnew : ∀ row ∈ batch, row.stamp ∉ s.added.map (·.stamp) :=
    fun row hrow => hs.not_due hgood (h.due hrow)
  have hbatch : ∀ a ∈ t.added, a ∈ s.added ∨ a ∈ batch ∧ fails a.id = false := by
    intro a ha
    rw [h.added] at ha
    simpa using ha
  have hclock : ∀ id, first.now ≤ pass.clock id :=
    fun id => (hgood.now.trans hgood.read).trans (hgood.clock id).1
  have hrow : ∀ row ∈ t.db.outbox.rows, ∃ old ∈ s.db.outbox.rows, old.stamp = row.stamp ∧
      ((row.stamp ∈ t.added.map (·.stamp) ∧ row = old.enqueue (pass.clock old.id)) ∨
        ((row.stamp ∈ t.added.map (·.stamp) ↔ row.stamp ∈ s.added.map (·.stamp)) ∧
          (row = old ∨ ∃ message, row = old.recordError message))) := by
    intro row hrow
    rw [h.rows] at hrow
    obtain ⟨old, hold, rfl⟩ := List.mem_map.mp hrow
    refine ⟨old, hold, rewrite_stamp.symm, ?_⟩
    rw [rewrite_stamp]
    rcases rewrite_cases h.stored hold with ⟨hin, htakes, heq⟩ | ⟨hout, heq⟩
    · rw [hgood.takes, Bool.not_eq_true'] at htakes
      exact .inl ⟨h.mem_stamps_iff.mpr (.inr ⟨old, hin, htakes, rfl⟩), heq⟩
    · refine .inr ⟨h.mem_stamps_iff.trans (or_iff_left ?_), heq⟩
      rintro ⟨other, hother, hsound, hsame⟩
      obtain rfl := stamp_inj (h.stored other hother) hold hsame
      exact hout (List.mem_filter.mpr ⟨hother, by rw [hgood.takes, hsound]; rfl⟩)
  refine ⟨?_, ?_, ?_, ?_, ?_, ?_, ?_, ?_, ?_⟩
  · rw [← hs.stamps, h.rows, List.map_map]
    exact List.map_congr_left fun row _ => rewrite_stamp
  · intro row hmem hstart hwaits
    obtain ⟨old, hold, hstamp, ⟨hadded, -⟩ | ⟨hiff, heq⟩⟩ := hrow row hmem
    · exact (hwaits hadded).elim
    · have hdue := hs.waits old hold (hstamp ▸ hstart) (hstamp ▸ fun hin => hwaits (hiff.mpr hin))
      rcases heq with rfl | ⟨message, rfl⟩
      · exact hdue
      · exact hdue
  · intro row hmem hadded
    obtain ⟨old, hold, hstamp, ⟨-, rfl⟩ | ⟨hiff, heq⟩⟩ := hrow row hmem
    · exact ⟨rfl, _, rfl, hclock _⟩
    · have hkept := hs.enqueued old hold (hstamp ▸ hiff.mp hadded)
      rcases heq with rfl | ⟨message, rfl⟩
      · exact hkept
      · exact hkept
  · intro a ha
    rcases hbatch a ha with hold | ⟨hin, -⟩
    · exact hs.stored a hold
    · rw [← hs.stamps]
      exact List.mem_map_of_mem (h.stored a hin)
  · intro a ha
    rcases hbatch a ha with hold | ⟨-, hsound⟩
    · exact hs.sound a hold
    · exact hsound
  · rw [h.added, List.map_append]
    refine List.nodup_append.mpr ⟨hs.nodup, ?_, ?_⟩
    · have hnodup : (batch.map (·.stamp)).Nodup := by
        rw [h.selected, findDispatchable_eq_batch]
        exact OrderBy.batch_map_nodup (dueRows_stamps_nodup s.db pass)
      exact hnodup.sublist (List.filter_sublist.map _)
    · rintro x hold y hy rfl
      obtain ⟨row, hin, rfl⟩ := List.mem_map.mp hy
      exact hnew row (List.mem_filter.mp hin).1 hold
  · rw [h.added]
    refine List.pairwise_append.mpr ⟨hs.ordered, ?_, ?_⟩
    · have hsorted : batch.Pairwise fun a b => a.createdAt ≤ b.createdAt := by
        rw [h.selected, findDispatchable_eq_batch]
        exact OrderBy.batch_sorted
      apply (List.Pairwise.imp ?_ hsorted).filter
      exact fun hab _ => hab
    · intro a ha b hb hstart
      obtain ⟨hin, hsound⟩ := List.mem_filter.mp hb
      obtain ⟨r, hr, hsame⟩ := List.mem_map.mp hstart
      have hid : r.id = b.id := congrArg Prod.fst hsame
      have hle := hs.before a ha r hr (by simpa [hid] using hsound) (hsame ▸ hnew b hin)
      exact hle.trans_eq (congrArg Prod.snd hsame)
  · intro a ha r hr hsound hleft
    rcases hbatch a ha with hold | ⟨hin, -⟩
    · exact hs.before a hold r hr hsound fun hadded => hleft (h.mem_stamps_iff.mpr (.inl hadded))
    · exact (hs.left hgood h hr hsound hleft).2 a hin
  · intro log hlog
    exact (h.tried log hlog).elim (hs.tried log) id

end Batch

/-- Every row that was due at the start and that the queue takes is added. -/
def AllAdded (db : Database) (first : DispatchPass) (fails : Uuid → Bool) (s : DispatchRun) :
    Prop :=
  ∀ r ∈ db.dueRows first, fails r.id = false → r.id ∈ s.added.map (·.id)

/-- The added rows that were due at the start. -/
def servedRows (db : Database) (first : DispatchPass) (s : DispatchRun) : List NotificationOutbox :=
  s.added.filter fun row => decide (row.stamp ∈ (db.dueRows first).map (·.stamp))

theorem Progress.mem_stamps_iff (hs : Progress db first fails s) {r : NotificationOutbox}
    (hr : r ∈ db.dueRows first) : r.stamp ∈ s.added.map (·.stamp) ↔ r.id ∈ s.added.map (·.id) := by
  constructor
  · intro hadded
    obtain ⟨row, hrow, hsame⟩ := List.mem_map.mp hadded
    exact List.mem_map.mpr ⟨row, hrow, congrArg Prod.fst hsame⟩
  · intro hadded
    obtain ⟨row, hrow, hid⟩ := List.mem_map.mp hadded
    refine List.mem_map.mpr ⟨row, hrow, stamp_eq_of_id (hs.stored row hrow) ?_ hid⟩
    exact List.mem_map_of_mem (mem_dueRows_iff.mp hr).1

theorem Progress.ids_nodup (hs : Progress db first fails s) : (s.added.map (·.id)).Nodup := by
  have hmap : s.added.map (·.id) = (s.added.map (·.stamp)).map Prod.fst := by
    rw [List.map_map]
    rfl
  rw [hmap]
  apply hs.nodup.map_on
  intro x hx y hy hsame
  obtain ⟨a, ha, rfl⟩ := List.mem_map.mp hx
  obtain ⟨b, hb, rfl⟩ := List.mem_map.mp hy
  exact stamp_eq_of_id (hs.stored a ha) (hs.stored b hb) hsame

/-- All are added when as many are as there are. -/
theorem Progress.allAdded_iff (hs : Progress db first fails s) :
    AllAdded db first fails s ↔
      ((db.dueRows first).countP fun row => !fails row.id) ≤ (servedRows db first s).length := by
  have hserved : ((servedRows db first s).map (·.stamp)).Nodup :=
    hs.nodup.sublist (List.filter_sublist.map _)
  have hgoal : (((db.dueRows first).filter fun row => !fails row.id).map (·.stamp)).Nodup :=
    (dueRows_stamps_nodup db first).sublist (List.filter_sublist.map _)
  have hsub : (servedRows db first s).map (·.stamp) ⊆
      ((db.dueRows first).filter fun row => !fails row.id).map (·.stamp) := by
    intro x hx
    obtain ⟨a, ha, rfl⟩ := List.mem_map.mp hx
    obtain ⟨hadded, hstart⟩ := List.mem_filter.mp ha
    obtain ⟨r, hr, hsame⟩ := List.mem_map.mp (of_decide_eq_true hstart)
    have hid : r.id = a.id := congrArg Prod.fst hsame
    rw [← hsame]
    refine List.mem_map_of_mem (List.mem_filter.mpr ⟨hr, ?_⟩)
    simp [hid, hs.sound a hadded]
  rw [List.countP_eq_length_filter]
  constructor
  · intro hall
    have hsup : ((db.dueRows first).filter fun row => !fails row.id).map (·.stamp) ⊆
        (servedRows db first s).map (·.stamp) := by
      intro x hx
      obtain ⟨r, hr, rfl⟩ := List.mem_map.mp hx
      obtain ⟨hdue, hsound⟩ := List.mem_filter.mp hr
      have hadded := (hs.mem_stamps_iff hdue).mpr (hall r hdue (by simpa using hsound))
      obtain ⟨a, ha, hsame⟩ := List.mem_map.mp hadded
      rw [← hsame]
      refine List.mem_map_of_mem (List.mem_filter.mpr ⟨ha, decide_eq_true ?_⟩)
      exact hsame ▸ List.mem_map_of_mem hdue
    simpa using (List.subperm_of_subset hgoal hsup).length_le
  · intro hmany r hr hsound
    have hperm := (List.subperm_of_subset hserved hsub).perm_of_length_le (by simpa using hmany)
    have hmem : r.stamp ∈ (servedRows db first s).map (·.stamp) :=
      hperm.mem_iff.mpr (List.mem_map_of_mem (List.mem_filter.mpr ⟨hr, by simp [hsound]⟩))
    rw [← hs.mem_stamps_iff hr]
    exact List.filter_sublist.map _ |>.subset hmem

/-- The passes start in the window that the first one opens. -/
theorem within_along {rest : List DispatchPass}
    (hgood : Along dispatchStep (Consecutive fails first.now) (.start db first.now)
      (first :: rest)) :
    Along dispatchStep (Within first fails) (.start db first.now) (first :: rest) := by
  refine ⟨⟨hgood.1, le_rfl, le_rfl⟩, fun u hu => ?_⟩
  obtain ⟨batch, v, hv, hpassed⟩ := Within.passes ⟨hgood.1, le_rfl, le_rfl⟩
  obtain rfl := Option.some.inj (hu.symm.trans hv)
  have hlater : ∀ s pass, first.staleNow ≤ s.now → Consecutive fails first.now s pass →
      Within first fails s pass := by
    intro s pass hnow hpass
    have hstale := hnow.trans hpass.later
    exact ⟨hpass, hgood.1.read.trans hstale, hstale.trans hpass.read⟩
  refine Along.mono (I := fun s => first.staleNow ≤ s.now) hlater ?_ ?_ (hgood.2 u hu)
  · intro s pass t hnow hpass ht
    have hwithin := hlater s pass hnow hpass
    obtain ⟨batch, v, hv, hpassed⟩ := hwithin.passes
    obtain rfl := Option.some.inj (ht.symm.trans hv)
    obtain ⟨hread, hend⟩ := hpass.clock ""
    rw [hpassed.now]
    exact (hwithin.stale.trans hread).trans hend
  · obtain ⟨hread, hend⟩ := hgood.1.clock ""
    rw [hpassed.now]
    exact hread.trans hend

/-- What every pass of the window keeps, the run of passes keeps, and the run goes through. -/
theorem progress_run {acts : List DispatchPass}
    (hgood : Along dispatchStep (Within first fails) (.start db first.now) acts) :
    ∃ t, exec dispatchStep (.start db first.now) acts = some t ∧ Progress db first fails t := by
  refine exec_exists_along (fun s pass hs hpass => ?_) (.start db first fails) hgood
  obtain ⟨batch, t, ht, hpassed⟩ := hpass.passes
  exact ⟨t, ht, hs.step hpass hpassed⟩

/-- The places of a batch go to rows that the goal counts and to others. -/
theorem Progress.places (hs : Progress db first fails s) (hgood : Within first fails s pass)
    {batch : List NotificationOutbox} (h : Passed fails s pass batch t) {lost : ℕ}
    (hplaces : Places dispatchBatch s.passes.length (servedRows db first s).length lost
      (AllAdded db first fails s)) :
    Places dispatchBatch t.passes.length (servedRows db first t).length
      (lost + lostPlaces fails ((db.dueRows first).map (·.stamp)) s pass t)
      (AllAdded db first fails t) := by
  have hnext := hs.step hgood h
  let lostTo (row : NotificationOutbox) : Bool :=
    fails row.id || decide (row.stamp ∉ (db.dueRows first).map (·.stamp))
  have hserved : (servedRows db first t).length =
      (servedRows db first s).length + batch.countP fun row => !lostTo row := by
    have hrest : ((batch.filter fun row => !fails row.id).filter fun row =>
        decide (row.stamp ∈ (db.dueRows first).map (·.stamp))) =
          batch.filter fun row => !lostTo row := by
      rw [List.filter_filter]
      apply List.filter_congr
      intro row _
      rw [Bool.and_comm, Bool.not_or, decide_not, Bool.not_not]
    rw [servedRows, h.added, List.filter_append, List.length_append, hrest,
      List.countP_eq_length_filter, servedRows]
  have hsplit : batch.length = (batch.countP fun row => !lostTo row) + batch.countP lostTo := by
    rw [Nat.add_comm]
    simpa using List.length_eq_countP_add_countP lostTo
  have hroom : batch.length ≤ dispatchBatch := by
    rw [h.selected, findDispatchable_eq_batch]
    exact OrderBy.length_batch_le
  rw [h.count, hserved, lostPlaces, ← h.selected]
  apply hplaces.round (by rwa [← hsplit])
  · intro hall r hr hsound
    have hadded := hall r hr hsound
    rw [h.added, List.map_append]
    exact List.mem_append_left _ hadded
  · rw [← hsplit]
    by_contra hneither
    push Not at hneither
    obtain ⟨hnot, hfew⟩ := hneither
    apply hnot
    intro r hr hsound
    rw [← hnext.mem_stamps_iff hr]
    by_contra hleft
    exact hfew (hs.left hgood h hr hsound hleft).1

theorem passes_length {acts : List DispatchPass} (h : exec dispatchStep s acts = some t) :
    t.passes.length = s.passes.length + acts.length := by
  induction acts generalizing s with
  | nil =>
      cases h
      rfl
  | cons pass acts ih =>
      obtain ⟨u, hu, ht⟩ := exec_cons_iff.mp h
      have hone : u.passes.length = s.passes.length + 1 := by
        simp only [dispatchStep] at hu
        split at hu
        · cases hu
          simp
        · cases hu
      rw [ih ht, hone, List.length_cons]
      omega

/-- Passes in a row add all rows that were due at the start and that the queue
takes exactly when their batches have the places for these rows and for what
else was on them. In any case no row that was due at the start is added behind
a newer one, no row is added twice, and every pass tries all rows it has selected. -/
theorem dispatch_serves_backlog (db : Database) (first : DispatchPass) (rest : List DispatchPass)
    (fails : Uuid → Bool)
    (hgood : Along dispatchStep (Consecutive fails first.now) (.start db first.now)
      (first :: rest)) :
    ∃ t, exec dispatchStep (.start db first.now) (first :: rest) = some t ∧
      ((∀ r ∈ db.dueRows first, fails r.id = false → r.id ∈ t.added.map (·.id)) ↔
        ((db.dueRows first).countP fun row => !fails row.id) +
          tally dispatchStep (lostPlaces fails ((db.dueRows first).map (·.stamp)))
            (.start db first.now) (first :: rest) ≤ 50 * (first :: rest).length) ∧
      (t.added.Pairwise fun a b =>
        b.stamp ∈ (db.dueRows first).map (·.stamp) → a.createdAt ≤ b.createdAt) ∧
      (t.added.map (·.id)).Nodup ∧
      ∀ log ∈ t.passes, log.tried = log.selected := by
  have hwithin := within_along hgood
  obtain ⟨t, ht, hprogress⟩ := progress_run hwithin
  have hstep : ∀ s pass t n, (Progress db first fails s ∧ Places dispatchBatch s.passes.length
      (servedRows db first s).length n (AllAdded db first fails s)) →
      Within first fails s pass → dispatchStep s pass = some t →
      Progress db first fails t ∧ Places dispatchBatch t.passes.length
        (servedRows db first t).length
        (n + lostPlaces fails ((db.dueRows first).map (·.stamp)) s pass t)
        (AllAdded db first fails t) := by
    rintro s pass t n ⟨hs, hplaces⟩ hpass ht
    obtain ⟨batch, u, hu, hpassed⟩ := hpass.passes
    obtain rfl := Option.some.inj (ht.symm.trans hu)
    exact ⟨hs.step hpass hpassed, hs.places hpass hpassed hplaces⟩
  obtain ⟨-, hplaces⟩ := exec_counts_along hstep ⟨.start db first fails, .start _ _⟩ hwithin ht
  have hlength : t.passes.length = (first :: rest).length := by
    simpa [DispatchRun.start] using passes_length ht
  rw [hlength, Nat.zero_add] at hplaces
  exact ⟨t, ht, hplaces.done_iff hprogress.allAdded_iff, hprogress.ordered, hprogress.ids_nodup,
    hprogress.tried⟩

/-- Rows of the start that stay due are due again, so a later pass counts no fewer. -/
theorem Progress.countP_le (hs : Progress db first fails s) (hgood : Within first fails s pass)
    (p : Uuid × Time → Bool)
    (hwaits : ∀ r ∈ db.dueRows first, p r.stamp = true → r.stamp ∉ s.added.map (·.stamp)) :
    ((db.dueRows first).countP fun row => p row.stamp) ≤
      (s.db.dueRows pass).countP fun row => p row.stamp := by
  have hnodup : (((db.dueRows first).filter fun row => p row.stamp).map (·.stamp)).Nodup :=
    (dueRows_stamps_nodup db first).sublist (List.filter_sublist.map _)
  have hsub : ((db.dueRows first).filter fun row => p row.stamp).map (·.stamp) ⊆
      ((s.db.dueRows pass).filter fun row => p row.stamp).map (·.stamp) := by
    intro x hx
    obtain ⟨r, hr, rfl⟩ := List.mem_map.mp hx
    obtain ⟨hdue, hp⟩ := List.mem_filter.mp hr
    obtain ⟨row, hrow, hsame⟩ := hs.due hgood hdue (hwaits r hdue hp)
    rw [← hsame]
    exact List.mem_map_of_mem (List.mem_filter.mpr ⟨hrow, by rwa [hsame]⟩)
  simpa [List.countP_eq_length_filter] using (List.subperm_of_subset hnodup hsub).length_le

/-- Behind a batch of older rows that the queue refuses, a row is never added. -/
theorem dispatch_starves (db : Database) (first : DispatchPass) (rest : List DispatchPass)
    (fails : Uuid → Bool) {r : NotificationOutbox} (hr : r ∈ db.dueRows first)
    (hmany : dispatchBatch ≤ (db.dueRows first).countP fun row =>
      fails row.id && decide (row.createdAt < r.createdAt))
    (hgood : Along dispatchStep (Consecutive fails first.now) (.start db first.now)
      (first :: rest)) :
    ∃ t, exec dispatchStep (.start db first.now) (first :: rest) = some t ∧
      r.id ∉ t.added.map (·.id) := by
  have hstep : ∀ s pass, (Progress db first fails s ∧ r.stamp ∉ s.added.map (·.stamp)) →
      Within first fails s pass →
      ∃ t, dispatchStep s pass = some t ∧
        Progress db first fails t ∧ r.stamp ∉ t.added.map (·.stamp) := by
    rintro s pass ⟨hs, hwaits⟩ hpass
    obtain ⟨batch, t, ht, hpassed⟩ := hpass.passes
    refine ⟨t, ht, hs.step hpass hpassed, fun hadded => ?_⟩
    rcases hpassed.mem_stamps_iff.mp hadded with hold | ⟨row, hin, -, hsame⟩
    · exact hwaits hold
    · have hcount := hs.countP_le hpass
        (fun x => fails x.1 && decide (x.2 < r.createdAt)) (fun other _ hrefused hold => by
          obtain ⟨a, ha, hstamp⟩ := List.mem_map.mp hold
          have hid : a.id = other.id := congrArg Prod.fst hstamp
          simp [NotificationOutbox.stamp, ← hid, hs.sound a ha] at hrefused)
      have hcreated : row.createdAt = r.createdAt := congrArg Prod.snd hsame
      rw [hpassed.selected, findDispatchable_eq_batch] at hin
      refine OrderBy.not_mem_batch ((hmany.trans hcount).trans ?_) hin
      apply List.countP_mono_left
      intro other _ hother
      rw [hcreated]
      exact (Bool.and_eq_true_iff.mp hother).2
  obtain ⟨t, ht, hprogress, hnot⟩ := exec_exists_along hstep
    ⟨.start db first fails, by simp [DispatchRun.start, DispatchRun.added]⟩ (within_along hgood)
  exact ⟨t, ht, fun hadded => hnot ((hprogress.mem_stamps_iff hr).mpr hadded)⟩

/-- A pass finds no row due that was not due at the start. -/
def NothingNew (start : List (Uuid × Time)) (s : DispatchRun) (pass : DispatchPass) : Prop :=
  ∀ row ∈ s.db.dueRows pass, row.stamp ∈ start

/-- When nothing becomes due in the period, the rows that the queue refuses
take at most one place each in every pass. -/
theorem lostPlaces_tally_le {rest : List DispatchPass}
    (hgood : Along dispatchStep (Consecutive fails first.now) (.start db first.now)
      (first :: rest))
    (hnone : Along dispatchStep (NothingNew ((db.dueRows first).map (·.stamp)))
      (.start db first.now) (first :: rest)) :
    tally dispatchStep (lostPlaces fails ((db.dueRows first).map (·.stamp)))
      (.start db first.now) (first :: rest) ≤
        ((db.dueRows first).countP fun row => fails row.id) * (first :: rest).length := by
  refine tally_le_along (I := Progress db first fails) ?_ ?_ (.start db first fails)
    ((within_along hgood).and hnone)
  · rintro s pass t hs ⟨hpass, -⟩ ht
    obtain ⟨batch, u, hu, hpassed⟩ := hpass.passes
    obtain rfl := Option.some.inj (ht.symm.trans hu)
    exact hs.step hpass hpassed
  · rintro s pass t hs ⟨hpass, hold⟩ -
    set batch := s.db.findDispatchable pass.oldestFirst pass.now pass.staleBefore with hbatch
    rw [findDispatchable_eq_batch] at hbatch
    have hstart : ∀ row ∈ batch, row.stamp ∈ (db.dueRows first).map (·.stamp) := by
      intro row hrow
      rw [hbatch] at hrow
      exact hold row (OrderBy.mem_of_mem_batch hrow)
    have hnodup : ((batch.filter fun row => fails row.id).map (·.stamp)).Nodup := by
      have hall : (batch.map (·.stamp)).Nodup := by
        rw [hbatch]
        exact OrderBy.batch_map_nodup (dueRows_stamps_nodup s.db pass)
      exact hall.sublist (List.filter_sublist.map _)
    have hsub : (batch.filter fun row => fails row.id).map (·.stamp) ⊆
        ((db.dueRows first).filter fun row => fails row.id).map (·.stamp) := by
      intro x hx
      obtain ⟨row, hrow, rfl⟩ := List.mem_map.mp hx
      obtain ⟨hin, hrefused⟩ := List.mem_filter.mp hrow
      obtain ⟨r, hr, hsame⟩ := List.mem_map.mp (hstart row hin)
      have hid : r.id = row.id := congrArg Prod.fst hsame
      rw [← hsame]
      exact List.mem_map_of_mem (List.mem_filter.mpr ⟨hr, by simpa [hid] using hrefused⟩)
    have hlost : lostPlaces fails ((db.dueRows first).map (·.stamp)) s pass t =
        batch.countP fun row => fails row.id := by
      apply List.countP_congr
      intro row hrow
      simp [hstart row hrow]
    rw [hlost]
    simpa [List.countP_eq_length_filter] using (List.subperm_of_subset hnodup hsub).length_le

end Runs

def backlogPrefix : String := "0198f3a0-0000-7000-8000-0000000000"

def backlogId (i : ℕ) : Uuid :=
  backlogPrefix ++ String.ofList [Char.ofNat (48 + i / 10), Char.ofNat (48 + i % 10)]

theorem digit_inj : ∀ a < 10, ∀ b < 10, Char.ofNat (48 + a) = Char.ofNat (48 + b) → a = b := by
  decide

theorem backlogId_inj {i j : ℕ} (hi : i < 100) (hj : j < 100) (h : backlogId i = backlogId j) :
    i = j := by
  have hchars := congrArg String.toList h
  simp only [backlogId, String.toList_append, String.toList_ofList] at hchars
  have hdigits := List.append_cancel_left hchars
  simp only [List.cons.injEq, and_true] at hdigits
  have htens := digit_inj (i / 10) (by omega) (j / 10) (by omega) hdigits.1
  have hones := digit_inj (i % 10) (by omega) (j % 10) (by omega) hdigits.2
  omega

/-- Pending rows, the oldest first. -/
def backlogRow (i : ℕ) : NotificationOutbox :=
  ⟨backlogId i, .waitlistPromotion "0198f3a0-0000-7000-8000-00000000000a", .pending, 0, 0, none,
    none, none, i⟩

theorem backlogRows_unique {n : ℕ} (hn : n ≤ 100) :
    ((List.range n).map backlogRow).Pairwise fun a b => ¬ NotificationOutbox.Clash a b := by
  apply List.pairwise_map.mpr
  apply List.pairwise_lt_range.imp_of_mem
  intro i j hi hj hlt hsame
  have hi := List.mem_range.mp hi
  have hj := List.mem_range.mp hj
  have heq := backlogId_inj (by omega) (by omega) hsame
  omega

def backlog (n : ℕ) (hn : n ≤ 100) : Database :=
  ⟨.empty, .empty, ⟨(List.range n).map backlogRow, backlogRows_unique hn⟩⟩

def refusedId (m : ℕ) (id : Uuid) : Bool := decide (id ∈ (List.range m).map backlogId)

/-- A pass that takes no time, with a queue that refuses the `m` oldest rows. -/
def backlogPass (m : ℕ) : DispatchPass where
  now := 0
  staleNow := 0
  oldestFirst := .stable _
  queueAdd id := if refusedId m id then some "connect ECONNREFUSED" else none
  clock _ := 0
  finish := 0
  message _ := "Record to update not found"

section Example

variable {n m : ℕ} {hn : n ≤ 100} {s : DispatchRun}

theorem backlog_dueRows :
    (backlog n hn).dueRows (backlogPass m) = (List.range n).map backlogRow := by
  apply List.filter_eq_self.mpr
  intro row hrow
  obtain ⟨i, -, rfl⟩ := List.mem_map.mp hrow
  rfl

/-- The passes over the backlog follow each other and find nothing new. -/
theorem backlog_undisturbed (n m : ℕ) (hn : n ≤ 100) {passes : List DispatchPass}
    (h : ∀ pass ∈ passes, pass = backlogPass m) :
    Along dispatchStep (Consecutive (refusedId m) 0) (.start (backlog n hn) 0) passes ∧
      Along dispatchStep (NothingNew (((List.range n).map backlogRow).map (·.stamp)))
        (.start (backlog n hn) 0) passes := by
  have hgood : Along dispatchStep (fun _ pass => pass = backlogPass m) (.start (backlog n hn) 0)
      passes := along_of_forall_mem fun pass hpass _ => h pass hpass
  have hboth : Along dispatchStep (fun s pass => Consecutive (refusedId m) 0 s pass ∧
      NothingNew (((List.range n).map backlogRow).map (·.stamp)) s pass)
        (.start (backlog n hn) 0) passes := by
    refine Along.mono (I := fun s => s.now = 0 ∧ s.db.outbox.rows.map (·.stamp) =
      ((List.range n).map backlogRow).map (·.stamp)) ?_ ?_ ⟨rfl, rfl⟩ hgood
    · rintro s pass ⟨hnow, hstamps⟩ rfl
      have hwindow : (0 : Time) ≤ 0 + staleEnqueuedMs := by decide
      refine ⟨⟨hnow.le, le_rfl, fun _ => ⟨le_rfl, le_rfl⟩, hwindow, ?_⟩, ?_⟩
      · intro id
        simp only [backlogPass]
        cases refusedId m id <;> rfl
      · intro row hrow
        rw [← hstamps]
        exact List.mem_map_of_mem (mem_dueRows_iff.mp hrow).1
    · rintro s pass t ⟨hnow, hstamps⟩ rfl ht
      obtain ⟨db', hok, hrows⟩ := dispatchOutbox_ok s.db (backlogPass m)
      simp only [dispatchStep, hok] at ht
      cases ht
      refine ⟨rfl, ?_⟩
      rw [← hstamps, hrows, List.map_map]
      exact List.map_congr_left fun row _ => rewrite_stamp
  exact ⟨hboth.imp fun _ _ => And.left, hboth.imp fun _ _ => And.right⟩

theorem refusedId_iff {i : ℕ} (hi : i < 100) (hm : m ≤ 100) :
    refusedId m (backlogId i) = true ↔ i < m := by
  simp only [refusedId, decide_eq_true_eq, List.mem_map, List.mem_range]
  constructor
  · rintro ⟨j, hj, hsame⟩
    rwa [← backlogId_inj (hj.trans_le hm) hi hsame]
  · exact fun him => ⟨i, him, rfl⟩

end Example

/-- Of 51 rows the queue refuses the oldest one; three passes add the others. -/
theorem dispatch_serves_backlog_fiftyOne :
    ∃ t, exec dispatchStep (.start (backlog 51 (by decide)) 0)
        [backlogPass 1, backlogPass 1, backlogPass 1] = some t ∧
      ∀ i ∈ List.range 51, i ≠ 0 → backlogId i ∈ t.added.map (·.id) := by
  have hdue : (backlog 51 (by decide)).dueRows (backlogPass 1) = (List.range 51).map backlogRow :=
    backlog_dueRows
  have hpasses : ∀ pass ∈ [backlogPass 1, backlogPass 1, backlogPass 1], pass = backlogPass 1 := by
    simp
  obtain ⟨hconsecutive, hnone⟩ := backlog_undisturbed 51 1 (by decide) hpasses
  rw [← hdue] at hnone
  have hlost := lostPlaces_tally_le hconsecutive hnone
  obtain ⟨t, hrun, hiff, -⟩ := dispatch_serves_backlog (backlog 51 (by decide)) (backlogPass 1)
    [backlogPass 1, backlogPass 1] (refusedId 1) hconsecutive
  refine ⟨t, hrun, fun i hi hne => hiff.mpr ?_ (backlogRow i) ?_ ?_⟩
  · -- one row is refused, so at most three of the 150 places are lost
    have hrefused : ((backlog 51 (by decide)).dueRows (backlogPass 1)).countP
        (fun row => refusedId 1 row.id) = 1 := by
      rw [hdue]
      rfl
    have hsound : ((backlog 51 (by decide)).dueRows (backlogPass 1)).countP
        (fun row => !refusedId 1 row.id) ≤ 51 :=
      List.countP_le_length.trans_eq (by rw [hdue]; rfl)
    rw [hrefused] at hlost
    simp only [List.length_cons, List.length_nil] at hlost ⊢
    omega
  · rw [hdue]
    exact List.mem_map_of_mem hi
  · have hsmall := List.mem_range.mp hi
    refine Bool.eq_false_iff.mpr fun h => hne ?_
    have hfirst := (refusedId_iff (m := 1) (by omega) (by decide)).mp h
    omega

/-- Fifty rows that the queue refuses stay the oldest, and the row behind them
is on no batch of the three passes. -/
theorem refused_rows_starve :
    let db := backlog 51 (by decide)
    let passes := [backlogPass 50, backlogPass 50, backlogPass 50]
    backlogRow 50 ∈ db.dueRows (backlogPass 50) ∧ refusedId 50 (backlogRow 50).id = false ∧
      ((db.dueRows (backlogPass 50)).length + 49) / 50 + 1 ≤ passes.length ∧
      Along dispatchStep (Consecutive (refusedId 50) 0) (.start db 0) passes ∧
      Along dispatchStep (NothingNew ((db.dueRows (backlogPass 50)).map (·.stamp)))
        (.start db 0) passes ∧
      ∃ t, exec dispatchStep (.start db 0) passes = some t ∧
        (backlogRow 50).id ∉ t.added.map (·.id) := by
  intro db passes
  have hdue : db.dueRows (backlogPass 50) = (List.range 51).map backlogRow := backlog_dueRows
  have hmember : backlogRow 50 ∈ db.dueRows (backlogPass 50) := by
    rw [hdue]
    exact List.mem_map_of_mem (by decide)
  have hsound : refusedId 50 (backlogRow 50).id = false :=
    Bool.eq_false_iff.mpr fun h => absurd ((refusedId_iff (by decide) (by decide)).mp h) (by decide)
  have hpasses : ∀ pass ∈ passes, pass = backlogPass 50 := by simp [passes]
  obtain ⟨hconsecutive, hnone⟩ := backlog_undisturbed 51 50 (by decide) hpasses
  rw [← hdue] at hnone
  have hmany : dispatchBatch ≤ (db.dueRows (backlogPass 50)).countP fun row =>
      refusedId 50 row.id && decide (row.createdAt < (backlogRow 50).createdAt) := by
    have hfront : ((List.range 50).map backlogRow).countP (fun row =>
        refusedId 50 row.id && decide (row.createdAt < (backlogRow 50).createdAt)) =
          ((List.range 50).map backlogRow).length := by
      apply List.countP_eq_length.mpr
      intro row hrow
      obtain ⟨i, hi, rfl⟩ := List.mem_map.mp hrow
      have hi := List.mem_range.mp hi
      have hrefused := (refusedId_iff (m := 50) (by omega) (by decide)).mpr hi
      have hbefore : (i : Time) < (50 : ℕ) := by exact_mod_cast hi
      simp only [backlogRow, hrefused, Bool.true_and]
      exact decide_eq_true hbefore
    rw [hdue, List.range_succ, List.map_append, List.countP_append, hfront]
    simp [dispatchBatch]
  refine ⟨hmember, hsound, by rw [hdue]; decide, hconsecutive, hnone, ?_⟩
  exact dispatch_starves db (backlogPass 50) [backlogPass 50, backlogPass 50] (refusedId 50) hmember
    hmany hconsecutive

end Eventify
