import Eventify.Database

/-!
# The writes of the outbox

What `dispatchOutbox`, the two marks and the purge do to the
`NotificationOutbox` table. The queue and the interleaving of these writes
belong to the worker.
-/

namespace Eventify

open Library

def staleEnqueuedMs : ℤ := 2 * 60 * 1000

def dispatchBatch : ℕ := 50

def utf16Size (c : Char) : ℕ := if c.toNat < 65536 then 1 else 2

def utf16Length (cs : List Char) : ℕ := cs.foldr (fun c n => utf16Size c + n) 0

/-- `message.slice(0, n)`, less a last character that fits only in half. -/
def sliceChars : ℕ → List Char → List Char
  | _, [] => []
  | n, c :: cs =>
      if utf16Size c ≤ n then c :: sliceChars (n - utf16Size c) cs else []

def errorText (message : String) : String := String.ofList (sliceChars 2000 message.toList)

/-- The `where` clause of `dispatchOutbox`. -/
def dueForDispatch (now staleBefore : Time) (row : NotificationOutbox) : Bool :=
  decide (row.availableAt ≤ now) &&
    (row.status == .pending ||
      (row.status == .enqueued && row.enqueuedAt.any fun at_ => decide (at_ < staleBefore)))

namespace NotificationOutbox

def enqueue (row : NotificationOutbox) (now : Time) : NotificationOutbox :=
  { row with
    status := .enqueued, enqueuedAt := some now, attempts := row.attempts + 1, lastError := none }

def recordError (row : NotificationOutbox) (message : String) : NotificationOutbox :=
  { row with lastError := some (errorText message) }

def markSent (row : NotificationOutbox) (now : Time) : NotificationOutbox :=
  { row with status := .sent, sentAt := some now, lastError := none }

def markFailed (row : NotificationOutbox) (message : String) : NotificationOutbox :=
  { row with status := .failed, lastError := some (errorText message) }

theorem enqueue_id (now : Time) (row : NotificationOutbox) : (row.enqueue now).id = row.id := rfl

theorem recordError_id (message : String) (row : NotificationOutbox) :
    (row.recordError message).id = row.id := rfl

theorem markSent_id (now : Time) (row : NotificationOutbox) : (row.markSent now).id = row.id := rfl

theorem markFailed_id (message : String) (row : NotificationOutbox) :
    (row.markFailed message).id = row.id := rfl

def Unfinished (row : NotificationOutbox) : Prop := row.status = .pending ∨ row.status = .enqueued

def Terminal (row : NotificationOutbox) : Prop := row.status = .sent ∨ row.status = .failed

theorem Unfinished.not_terminal {row : NotificationOutbox} (h : row.Unfinished) :
    ¬ row.Terminal := by
  rcases h with h | h <;> simp [Terminal, h]

end NotificationOutbox

theorem outbox_keepsKeys {f : NotificationOutbox → NotificationOutbox}
    (hf : ∀ row, (f row).id = row.id) : Table.KeepsKeys NotificationOutbox.Clash f := by
  intro a b
  simp only [NotificationOutbox.Clash, hf, and_self, iff_self]

namespace Database

def rewriteOutbox (db : Database) (p : NotificationOutbox → Bool)
    (f : NotificationOutbox → NotificationOutbox) (hf : ∀ row, (f row).id = row.id) : Database :=
  db.withOutbox (db.outbox.updateWhere p f (outbox_keepsKeys hf))

def findDispatchable (db : Database) (oldestFirst : OrderBy NotificationOutbox.createdAt)
    (now staleBefore : Time) : List NotificationOutbox :=
  (oldestFirst.sort (db.outbox.rows.filter (dueForDispatch now staleBefore))).take dispatchBatch

/-- The update of `dispatchOutbox` after `queue.add`. -/
def recordEnqueued (db : Database) (id : Uuid) (now : Time) : Except Failure Database :=
  match db.outbox.find fun row => row.id == id with
  | none => .error (.prisma "P2025")
  | some _ =>
      .ok (db.rewriteOutbox (fun row => row.id == id) (·.enqueue now)
        (NotificationOutbox.enqueue_id now))

/-- The update in the `catch` block of `dispatchOutbox`. -/
def recordError (db : Database) (id : Uuid) (message : String) : Except Failure Database :=
  match db.outbox.find fun row => row.id == id with
  | none => .error (.prisma "P2025")
  | some _ => .ok (db.rewriteOutbox (fun row => row.id == id) (·.recordError message)
      (NotificationOutbox.recordError_id message))

def markOutboxSent (db : Database) (id : Uuid) (now : Time) : Database :=
  db.rewriteOutbox (fun row => row.id == id && row.status != .sent) (·.markSent now)
    (NotificationOutbox.markSent_id now)

def markOutboxFailed (db : Database) (id : Uuid) (message : String) : Database :=
  db.rewriteOutbox (fun row => row.id == id && row.status != .sent) (·.markFailed message)
    (NotificationOutbox.markFailed_id message)

/-- `purgeDeliveredOutbox`; a row without `sentAt` is not before the cutoff. -/
def purgeDeliveredOutbox (db : Database) (cutoff : Time) : Database :=
  db.withOutbox (db.outbox.deleteWhere fun row =>
    row.status == .sent && row.sentAt.any fun at_ => decide (at_ < cutoff))

end Database

def retentionMs (days : ℕ) : ℤ := days * 86400000

theorem utf16Length_sliceChars (n : ℕ) (cs : List Char) :
    utf16Length (sliceChars n cs) ≤ n := by
  induction cs generalizing n with
  | nil => simp [sliceChars, utf16Length]
  | cons c cs ih =>
      unfold sliceChars
      split
      · next hfits =>
        have hrest := ih (n - utf16Size c)
        simp only [utf16Length, List.foldr_cons] at hrest ⊢
        omega
      · simp [utf16Length]

theorem dueForDispatch_iff {now staleBefore : Time} {row : NotificationOutbox} :
    dueForDispatch now staleBefore row = true ↔
      row.availableAt ≤ now ∧ (row.status = .pending ∨
        (row.status = .enqueued ∧ ∃ at_, row.enqueuedAt = some at_ ∧ at_ < staleBefore)) := by
  cases henqueued : row.enqueuedAt <;> simp [dueForDispatch, henqueued]

theorem unfinished_of_due {now staleBefore : Time} {row : NotificationOutbox}
    (h : dueForDispatch now staleBefore row = true) : row.Unfinished := by
  rcases (dueForDispatch_iff.mp h).2 with hpending | ⟨henqueued, -⟩
  · exact .inl hpending
  · exact .inr henqueued

namespace Database

variable {db db' : Database} {id : Uuid} {now : Time} {message : String}

theorem recordEnqueued_rows (h : db.recordEnqueued id now = .ok db') :
    db'.bookings = db.bookings ∧ db'.events = db.events ∧
      db'.outbox.rows = db.outbox.rows.map fun row =>
        if row.id == id then row.enqueue now else row := by
  unfold recordEnqueued at h
  split at h
  · simp at h
  · obtain rfl := Except.ok.inj h
    exact ⟨rfl, rfl, rfl⟩

theorem recordEnqueued_present (h : db.recordEnqueued id now = .ok db') :
    ∃ row ∈ db.outbox.rows, row.id = id ∧ row.enqueue now ∈ db'.outbox.rows := by
  obtain ⟨-, -, hrows⟩ := recordEnqueued_rows h
  unfold recordEnqueued at h
  cases hfind : db.outbox.find fun row => row.id == id with
  | none => simp [hfind] at h
  | some row =>
      have hmem := Table.mem_of_find hfind
      have hid : row.id = id := by simpa using Table.holds_of_find hfind
      refine ⟨row, hmem, hid, ?_⟩
      rw [hrows]
      exact List.mem_map.mpr ⟨row, hmem, by simp [hid]⟩

theorem recordError_rows (h : db.recordError id message = .ok db') :
    db'.bookings = db.bookings ∧ db'.events = db.events ∧
      db'.outbox.rows = db.outbox.rows.map fun row =>
        if row.id == id then row.recordError message else row := by
  unfold recordError at h
  split at h
  · simp at h
  · obtain rfl := Except.ok.inj h
    exact ⟨rfl, rfl, rfl⟩

theorem markOutboxSent_rows :
    (db.markOutboxSent id now).outbox.rows = db.outbox.rows.map fun row =>
      if row.id == id && row.status != .sent then row.markSent now else row := rfl

theorem markOutboxFailed_rows :
    (db.markOutboxFailed id message).outbox.rows = db.outbox.rows.map fun row =>
      if row.id == id && row.status != .sent then row.markFailed message else row := rfl

theorem mem_findDispatchable {oldestFirst : OrderBy NotificationOutbox.createdAt}
    {staleBefore : Time} {row : NotificationOutbox}
    (h : row ∈ db.findDispatchable oldestFirst now staleBefore) :
    row ∈ db.outbox.rows ∧ dueForDispatch now staleBefore row = true :=
  List.mem_filter.mp (oldestFirst.mem_sort.mp (List.mem_of_mem_take h))

end Database

end Eventify
