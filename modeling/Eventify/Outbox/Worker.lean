import Eventify.Bookings.Committed
import Eventify.Events.Service
import Eventify.Library.Machine
import Eventify.Outbox.Dispatch

/-!
# The outbox, the queue and the workers

Any number of worker processes dispatch the outbox into a queue that also
runs the jobs, while the API commits booking transactions and event updates.
Every await point of `dispatchOutbox` is a step of its own. The queue may
lose its content, a process may stop anywhere, and the writes of the
`completed` and `failed` handlers may come late or never.

`handled`, `created` and the `marked` ids of a pass are history: no step
reads them to decide, except that `uuid(7)` draws no outbox id twice.
-/

namespace Eventify

open Library

inductive JobState where
  | waiting
  | active
  | delayed
  | completed
  | failed
  deriving DecidableEq, Repr

/-- A job as the queue holds it; its `jobId` is the outbox row's id. -/
structure Job where
  id : Uuid
  intent : Intent
  state : JobState
  attemptsMade : ℕ
  deriving DecidableEq, Repr

def jobAttempts : ℕ := 5

structure Execution where
  id : Uuid
  intent : Intent
  returned : Bool
  deriving DecidableEq, Repr

/-- Where a dispatch pass is: before its query, before `queue.add` of the next
row, before the update that records it, or in the `catch` block. -/
inductive Phase where
  | querying (now staleBefore : Time)
  | adding (rows : List NotificationOutbox)
  | added (row : NotificationOutbox) (rest : List NotificationOutbox)
  | failed (row : NotificationOutbox) (message : String) (rest : List NotificationOutbox)
  deriving DecidableEq, Repr

def Phase.snapshot : Phase → List NotificationOutbox
  | querying _ _ => []
  | adding rows => rows
  | added row rest => row :: rest
  | failed row _ rest => row :: rest

structure Pass where
  phase : Phase
  marked : List Uuid
  dispatched : ℕ
  deriving DecidableEq, Repr

/-- A write that a `completed` or `failed` handler has under way. -/
inductive Mark where
  | sent (id : Uuid)
  | failed (id : Uuid) (message : String)
  deriving DecidableEq, Repr

def Mark.id : Mark → Uuid
  | sent id => id
  | failed id _ => id

def Mark.write (now : Time) (db : Database) : Mark → Database
  | sent id => db.markOutboxSent id now
  | failed id message => db.markOutboxFailed id message

structure Backend where
  db : Database
  now : Time
  queue : List Job
  passes : ℕ → Option Pass
  executions : List Execution
  marks : List Mark
  handled : List Uuid
  created : List (Uuid × Intent)

inductive BackendAction where
  | tick (ms : ℕ)
  | transact (ctx : TxContext) (op : BookingOp)
  | updateEvent (id : Uuid) (patch : EventPatch) (actor : AuthUser) (read : EventDetail)
  | beginPass (w lapse : ℕ)
  | select (w : ℕ) (oldestFirst : OrderBy NotificationOutbox.createdAt)
  | add (w : ℕ)
  | addThrows (w : ℕ) (message : String) (landed : Bool)
  | recordEnqueued (w : ℕ) (at_ : Time)
  | recordEnqueuedThrows (w : ℕ) (message : String)
  | recordError (w : ℕ)
  | recordErrorThrows (w : ℕ)
  | endPass (w : ℕ)
  | crash (w : ℕ)
  | startJob (id : Uuid)
  | handlerReturns (i : ℕ) (ctx : TxContext)
  | handlerThrows (i : ℕ) (message : String)
  | completed (i : ℕ)
  | loseExecution (i : ℕ)
  | stalled (id : Uuid)
  | stalledOut (id : Uuid)
  | evict (id : Uuid)
  | wipeRedis
  | mark (i : ℕ) (at_ : Time)
  | loseMark (i : ℕ)
  | purge (at_ : Time)

/-- `queue.add`: a job id that the queue holds in any state is not added again. -/
def addJob (queue : List Job) (row : NotificationOutbox) : List Job :=
  if queue.any fun job => job.id == row.id then queue
  else queue ++ [⟨row.id, row.intent, .waiting, 0⟩]

def moveJob (queue : List Job) (id : Uuid) (state : JobState) (attemptsMade : ℕ) : List Job :=
  queue.map fun job => if job.id == id then { job with state, attemptsMade } else job

def findJob (queue : List Job) (id : Uuid) (states : List JobState) : Option Job :=
  queue.find? fun job => job.id == id && states.contains job.state

namespace Backend

def setPass (s : Backend) (w : ℕ) (pass : Option Pass) : Backend :=
  { s with passes := Function.update s.passes w pass }

def commit (s : Backend) (ctx : TxContext) (db : Database) : Option Backend :=
  let added := db.outbox.rows.drop s.db.outbox.rows.length
  if ctx.now ≤ s.now ∧ ∀ row ∈ added, row.id ∉ s.created.map Prod.fst then
    some { s with db, created := s.created ++ added.map fun row => (row.id, row.intent) }
  else none

/-- The processor of a job resolves: `confirmBooking` only reads the tables,
`promoteWaitlist` ends with its transaction. -/
def processJob (s : Backend) (intent : Intent) (ctx : TxContext) : Option Backend :=
  match intent with
  | .bookingConfirmation _ => some s
  | .waitlistPromotion eventId =>
      match promoteWaitlistTx ctx eventId s.db with
      | .error _ => none
      | .ok (_, db) => s.commit ctx db

/-- The queue's side of a failed attempt, with the `failed` handler. -/
def failAttempt (s : Backend) (id : Uuid) (message : String) : Backend :=
  match findJob s.queue id [.active] with
  | none => s
  | some job =>
      if jobAttempts ≤ job.attemptsMade + 1 then
        { s with
          queue := moveJob s.queue id .failed (job.attemptsMade + 1)
          marks := s.marks ++ [.failed id message] }
      else { s with queue := moveJob s.queue id .delayed (job.attemptsMade + 1) }

end Backend

def backendStep (retentionDays : ℕ) (s : Backend) : BackendAction → Option Backend
  | .tick ms => some { s with now := s.now + ms }
  | .transact ctx op =>
      match op.transaction ctx s.db with
      | .error _ => some s
      | .ok (_, db) => s.commit ctx db
  | .updateEvent id patch actor read =>
      match updateEventGuards s.now read patch actor with
      | .error _ => some s
      | .ok () =>
          match s.db.updateEvent id patch with
          | .error _ => some s
          | .ok (_, db) => some { s with db }
  | .beginPass w lapse =>
      match s.passes w with
      | some _ => none
      | none =>
          -- `new Date()` and, `lapse` later, `Date.now()`
          some { s.setPass w (some ⟨.querying s.now (s.now + lapse - staleEnqueuedMs), [], 0⟩) with
            now := s.now + lapse }
  | .select w oldestFirst =>
      match s.passes w with
      | some ⟨.querying now staleBefore, _, dispatched⟩ =>
          some (s.setPass w (some
            ⟨.adding (s.db.findDispatchable oldestFirst now staleBefore), [], dispatched⟩))
      | _ => none
  | .add w =>
      match s.passes w with
      | some ⟨.adding (row :: rest), marked, dispatched⟩ =>
          some { s.setPass w (some ⟨.added row rest, marked, dispatched⟩) with
            queue := addJob s.queue row }
      | _ => none
  | .addThrows w message landed =>
      match s.passes w with
      | some ⟨.adding (row :: rest), marked, dispatched⟩ =>
          some { s.setPass w (some ⟨.failed row message rest, marked, dispatched⟩) with
            queue := if landed then addJob s.queue row else s.queue }
      | _ => none
  | .recordEnqueued w at_ =>
      match s.passes w with
      | some ⟨.added row rest, marked, dispatched⟩ =>
          match s.db.recordEnqueued row.id at_ with
          | .error _ => none
          | .ok db =>
              if at_ ≤ s.now then
                some { s.setPass w (some ⟨.adding rest, marked, dispatched + 1⟩) with db }
              else none
      | _ => none
  | .recordEnqueuedThrows w message =>
      match s.passes w with
      | some ⟨.added row rest, marked, dispatched⟩ =>
          some (s.setPass w (some ⟨.failed row message rest, marked, dispatched⟩))
      | _ => none
  | .recordError w =>
      match s.passes w with
      | some ⟨.failed row message rest, marked, dispatched⟩ =>
          match s.db.recordError row.id message with
          | .error _ => none
          | .ok db => some { s.setPass w (some ⟨.adding rest, marked, dispatched⟩) with db }
      | _ => none
  | .recordErrorThrows w =>
      match s.passes w with
      | some ⟨.failed _ _ _, _, _⟩ => some (s.setPass w none)
      | _ => none
  | .endPass w =>
      match s.passes w with
      | some ⟨.adding [], _, _⟩ => some (s.setPass w none)
      | _ => none
  | .crash w => some (s.setPass w none)
  | .startJob id =>
      match findJob s.queue id [.waiting, .delayed] with
      | none => none
      | some job =>
          some { s with
            queue := moveJob s.queue id .active job.attemptsMade
            executions := s.executions ++ [⟨id, job.intent, false⟩] }
  | .handlerReturns i ctx =>
      match s.executions[i]? with
      | some ⟨id, intent, false⟩ =>
          (s.processJob intent ctx).map fun t =>
            { t with
              executions := s.executions.set i ⟨id, intent, true⟩, handled := id :: s.handled }
      | _ => none
  | .handlerThrows i message =>
      match s.executions[i]? with
      | some ⟨id, _, false⟩ =>
          some (Backend.failAttempt { s with executions := s.executions.eraseIdx i } id message)
      | _ => none
  | .completed i =>
      match s.executions[i]? with
      | some ⟨id, _, true⟩ =>
          match findJob s.queue id [.active] with
          | none => none
          | some job =>
              some { s with
                queue := moveJob s.queue id .completed (job.attemptsMade + 1)
                executions := s.executions.eraseIdx i
                marks := s.marks ++ [.sent id] }
      | _ => none
  | .loseExecution i => some { s with executions := s.executions.eraseIdx i }
  | .stalled id =>
      match findJob s.queue id [.active] with
      | none => none
      | some job => some { s with queue := moveJob s.queue id .waiting job.attemptsMade }
  | .stalledOut id =>
      match findJob s.queue id [.active] with
      | none => none
      | some job => some { s with queue := moveJob s.queue id .failed job.attemptsMade }
  | .evict id =>
      match findJob s.queue id [.completed, .failed] with
      | none => none
      | some _ => some { s with queue := s.queue.filter fun job => job.id != id }
  | .wipeRedis => some { s with queue := [] }
  | .mark i at_ =>
      match s.marks[i]? with
      | none => none
      | some mark =>
          if at_ ≤ s.now then
            some { s with
              db := mark.write at_ s.db
              marks := s.marks.eraseIdx i
              passes := fun w => (s.passes w).map fun pass =>
                { pass with marked := mark.id :: pass.marked } }
          else none
  | .loseMark i => some { s with marks := s.marks.eraseIdx i }
  | .purge at_ =>
      if at_ ≤ s.now then
        some { s with db := s.db.purgeDeliveredOutbox (at_ - retentionMs retentionDays) }
      else none

end Eventify
