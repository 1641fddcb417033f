import Eventify.Outbox.Worker

/-!
# What a step of the backend can do

`BackendMove` is the inversion of `backendStep`. Two relations follow from it.
`Change` is the step's effect on the tables and the histories. `Flow` is where
the ids in memory come from: a job, an execution, a snapshot or a mark never
invents one.
-/

namespace Eventify

open Library

/-- The outcomes of a step, each with what it asks of the state. -/
inductive BackendMove (retentionDays : ℕ) (s : Backend) : BackendAction → Backend → Prop
  | tick (ms : ℕ) : BackendMove retentionDays s (.tick ms) { s with now := s.now + ms }
  | refused (ctx : TxContext) (op : BookingOp) :
      BackendMove retentionDays s (.transact ctx op) s
  | committed {ctx : TxContext} {op : BookingOp} {result : OpResult} {db : Database} {t : Backend}
      (htx : op.transaction ctx s.db = .ok (result, db)) (hcommit : s.commit ctx db = some t) :
      BackendMove retentionDays s (.transact ctx op) t
  | unedited (id : Uuid) (patch : EventPatch) (actor : AuthUser) (read : EventDetail) :
      BackendMove retentionDays s (.updateEvent id patch actor read) s
  | edited {id : Uuid} {patch : EventPatch} {actor : AuthUser} {read : EventDetail}
      {updated : Event} {db : Database} (hupdate : s.db.updateEvent id patch = .ok (updated, db)) :
      BackendMove retentionDays s (.updateEvent id patch actor read) { s with db }
  | begins {w lapse : ℕ} (hpass : s.passes w = none) :
      BackendMove retentionDays s (.beginPass w lapse)
        { s.setPass w (some ⟨.querying s.now (s.now + lapse - staleEnqueuedMs), [], 0⟩) with
          now := s.now + lapse }
  | selects {w : ℕ} {oldestFirst : OrderBy NotificationOutbox.createdAt} {now staleBefore : Time}
      {marked : List Uuid} {dispatched : ℕ}
      (hpass : s.passes w = some ⟨.querying now staleBefore, marked, dispatched⟩) :
      BackendMove retentionDays s (.select w oldestFirst) (s.setPass w (some
        ⟨.adding (s.db.findDispatchable oldestFirst now staleBefore), [], dispatched⟩))
  | adds {w : ℕ} {row : NotificationOutbox} {rest : List NotificationOutbox} {marked : List Uuid}
      {dispatched : ℕ} (hpass : s.passes w = some ⟨.adding (row :: rest), marked, dispatched⟩) :
      BackendMove retentionDays s (.add w)
        { s.setPass w (some ⟨.added row rest, marked, dispatched⟩) with
          queue := addJob s.queue row }
  | addFails {w : ℕ} {message : String} {landed : Bool} {row : NotificationOutbox}
      {rest : List NotificationOutbox} {marked : List Uuid} {dispatched : ℕ}
      (hpass : s.passes w = some ⟨.adding (row :: rest), marked, dispatched⟩) :
      BackendMove retentionDays s (.addThrows w message landed)
        { s.setPass w (some ⟨.failed row message rest, marked, dispatched⟩) with
          queue := if landed then addJob s.queue row else s.queue }
  | records {w : ℕ} {at_ : Time} {row : NotificationOutbox} {rest : List NotificationOutbox}
      {marked : List Uuid} {dispatched : ℕ} {db : Database}
      (hpass : s.passes w = some ⟨.added row rest, marked, dispatched⟩)
      (hdb : s.db.recordEnqueued row.id at_ = .ok db) (hnow : at_ ≤ s.now) :
      BackendMove retentionDays s (.recordEnqueued w at_)
        { s.setPass w (some ⟨.adding rest, marked, dispatched + 1⟩) with db }
  | recordFails {w : ℕ} {message : String} {row : NotificationOutbox}
      {rest : List NotificationOutbox} {marked : List Uuid} {dispatched : ℕ}
      (hpass : s.passes w = some ⟨.added row rest, marked, dispatched⟩) :
      BackendMove retentionDays s (.recordEnqueuedThrows w message)
        (s.setPass w (some ⟨.failed row message rest, marked, dispatched⟩))
  | recordsError {w : ℕ} {row : NotificationOutbox} {message : String}
      {rest : List NotificationOutbox} {marked : List Uuid} {dispatched : ℕ} {db : Database}
      (hpass : s.passes w = some ⟨.failed row message rest, marked, dispatched⟩)
      (hdb : s.db.recordError row.id message = .ok db) :
      BackendMove retentionDays s (.recordError w)
        { s.setPass w (some ⟨.adding rest, marked, dispatched⟩) with db }
  | recordErrorFails {w : ℕ} {row : NotificationOutbox} {message : String}
      {rest : List NotificationOutbox} {marked : List Uuid} {dispatched : ℕ}
      (hpass : s.passes w = some ⟨.failed row message rest, marked, dispatched⟩) :
      BackendMove retentionDays s (.recordErrorThrows w) (s.setPass w none)
  | ends {w : ℕ} {marked : List Uuid} {dispatched : ℕ}
      (hpass : s.passes w = some ⟨.adding [], marked, dispatched⟩) :
      BackendMove retentionDays s (.endPass w) (s.setPass w none)
  | crashes (w : ℕ) : BackendMove retentionDays s (.crash w) (s.setPass w none)
  | starts {id : Uuid} {job : Job} (hjob : findJob s.queue id [.waiting, .delayed] = some job) :
      BackendMove retentionDays s (.startJob id) { s with
        queue := moveJob s.queue id .active job.attemptsMade
        executions := s.executions ++ [⟨id, job.intent, false⟩] }
  | returns {i : ℕ} {ctx : TxContext} {id : Uuid} {intent : Intent} {u : Backend}
      (hget : s.executions[i]? = some ⟨id, intent, false⟩)
      (hjob : s.processJob intent ctx = some u) :
      BackendMove retentionDays s (.handlerReturns i ctx) { u with
        executions := s.executions.set i ⟨id, intent, true⟩, handled := id :: s.handled }
  | throws {i : ℕ} {message : String} {id : Uuid} {intent : Intent}
      (hget : s.executions[i]? = some ⟨id, intent, false⟩) :
      BackendMove retentionDays s (.handlerThrows i message)
        (Backend.failAttempt { s with executions := s.executions.eraseIdx i } id message)
  | completes {i : ℕ} {id : Uuid} {intent : Intent} {job : Job}
      (hget : s.executions[i]? = some ⟨id, intent, true⟩)
      (hjob : findJob s.queue id [.active] = some job) :
      BackendMove retentionDays s (.completed i) { s with
        queue := moveJob s.queue id .completed (job.attemptsMade + 1)
        executions := s.executions.eraseIdx i
        marks := s.marks ++ [.sent id] }
  | losesExecution (i : ℕ) : BackendMove retentionDays s (.loseExecution i)
      { s with executions := s.executions.eraseIdx i }
  | stalls {id : Uuid} {job : Job} (hjob : findJob s.queue id [.active] = some job) :
      BackendMove retentionDays s (.stalled id)
        { s with queue := moveJob s.queue id .waiting job.attemptsMade }
  | stallsOut {id : Uuid} {job : Job} (hjob : findJob s.queue id [.active] = some job) :
      BackendMove retentionDays s (.stalledOut id)
        { s with queue := moveJob s.queue id .failed job.attemptsMade }
  | evicts {id : Uuid} {job : Job}
      (hjob : findJob s.queue id [.completed, .failed] = some job) :
      BackendMove retentionDays s (.evict id)
        { s with queue := s.queue.filter fun job => job.id != id }
  | wipes : BackendMove retentionDays s .wipeRedis { s with queue := [] }
  | marks {i : ℕ} {at_ : Time} {mark : Mark} (hmark : s.marks[i]? = some mark)
      (hnow : at_ ≤ s.now) :
      BackendMove retentionDays s (.mark i at_) { s with
        db := mark.write at_ s.db
        marks := s.marks.eraseIdx i
        passes := fun w => (s.passes w).map fun pass =>
          { pass with marked := mark.id :: pass.marked } }
  | losesMark (i : ℕ) : BackendMove retentionDays s (.loseMark i)
      { s with marks := s.marks.eraseIdx i }
  | purges {at_ : Time} (hnow : at_ ≤ s.now) : BackendMove retentionDays s (.purge at_)
      { s with db := s.db.purgeDeliveredOutbox (at_ - retentionMs retentionDays) }

variable {retentionDays : ℕ} {s t : Backend} {a : BackendAction}

theorem backendStep_moves (h : backendStep retentionDays s a = some t) :
    BackendMove retentionDays s a t := by
  cases a with
  | tick ms =>
      cases h
      exact .tick ms
  | transact ctx op =>
      simp only [backendStep] at h
      split at h
      · cases h
        exact .refused ctx op
      · next result db htx => exact .committed htx h
  | updateEvent id patch actor read =>
      simp only [backendStep] at h
      split at h
      · cases h
        exact .unedited id patch actor read
      · split at h
        · cases h
          exact .unedited id patch actor read
        · next updated db hupdate =>
          cases h
          exact .edited hupdate
  | beginPass w lapse =>
      simp only [backendStep] at h
      split at h
      · cases h
      · next hpass =>
        cases h
        exact .begins hpass
  | select w oldestFirst =>
      simp only [backendStep] at h
      split at h
      · next now staleBefore marked dispatched hpass =>
        cases h
        exact .selects hpass
      · cases h
  | add w =>
      simp only [backendStep] at h
      split at h
      · next row rest marked dispatched hpass =>
        cases h
        exact .adds hpass
      · cases h
  | addThrows w message landed =>
      simp only [backendStep] at h
      split at h
      · next row rest marked dispatched hpass =>
        cases h
        exact .addFails hpass
      · cases h
  | recordEnqueued w at_ =>
      simp only [backendStep] at h
      split at h
      · next row rest marked dispatched hpass =>
        split at h
        · cases h
        · next db hdb =>
          split at h
          · next hnow =>
            cases h
            exact .records hpass hdb hnow
          · cases h
      · cases h
  | recordEnqueuedThrows w message =>
      simp only [backendStep] at h
      split at h
      · next row rest marked dispatched hpass =>
        cases h
        exact .recordFails hpass
      · cases h
  | recordError w =>
      simp only [backendStep] at h
      split at h
      · next row message rest marked dispatched hpass =>
        split at h
        · cases h
        · next db hdb =>
          cases h
          exact .recordsError hpass hdb
      · cases h
  | recordErrorThrows w =>
      simp only [backendStep] at h
      split at h
      · next row message rest marked dispatched hpass =>
        cases h
        exact .recordErrorFails hpass
      · cases h
  | endPass w =>
      simp only [backendStep] at h
      split at h
      · next marked dispatched hpass =>
        cases h
        exact .ends hpass
      · cases h
  | crash w =>
      cases h
      exact .crashes w
  | startJob id =>
      simp only [backendStep] at h
      split at h
      · cases h
      · next job hjob =>
        cases h
        exact .starts hjob
  | handlerReturns i ctx =>
      simp only [backendStep] at h
      split at h
      · next id intent hget =>
        obtain ⟨u, hjob, rfl⟩ := Option.map_eq_some_iff.mp h
        exact .returns hget hjob
      · cases h
  | handlerThrows i message =>
      simp only [backendStep] at h
      split at h
      · next id intent hget =>
        cases h
        exact .throws hget
      · cases h
  | completed i =>
      simp only [backendStep] at h
      split at h
      · next id intent hget =>
        split at h
        · cases h
        · next job hjob =>
          cases h
          exact .completes hget hjob
      · cases h
  | loseExecution i =>
      cases h
      exact .losesExecution i
  | stalled id =>
      simp only [backendStep] at h
      split at h
      · cases h
      · next job hjob =>
        cases h
        exact .stalls hjob
  | stalledOut id =>
      simp only [backendStep] at h
      split at h
      · cases h
      · next job hjob =>
        cases h
        exact .stallsOut hjob
  | evict id =>
      simp only [backendStep] at h
      split at h
      · cases h
      · next job hjob =>
        cases h
        exact .evicts hjob
  | wipeRedis =>
      cases h
      exact .wipes
  | mark i at_ =>
      simp only [backendStep] at h
      split at h
      · cases h
      · next mark hmark =>
        split at h
        · next hnow =>
          cases h
          exact .marks hmark hnow
        · cases h
  | loseMark i =>
      cases h
      exact .losesMark i
  | purge at_ =>
      simp only [backendStep] at h
      split at h
      · next hnow =>
        cases h
        exact .purges hnow
      · cases h

def Draws (s t : Backend) : Prop :=
  ∃ now ≤ s.now, ∃ added, t.db.outbox.rows = s.db.outbox.rows ++ added ∧
    t.created = s.created ++ added.map (fun row => (row.id, row.intent)) ∧
    ∀ row ∈ added, row = Database.outboxRow row.id row.intent now ∧
      row.id ∉ s.created.map Prod.fst

theorem Effect.announced {now : Time} {db db' : Database} (h : Effect now db db') :
    ∃ intents, Announced now db.outbox intents db'.outbox := by
  cases h with
  | unchanged => exact ⟨[], .none now db.outbox⟩
  | seats h => exact ⟨_, h.outbox⟩
  | queues h => exact ⟨_, h.outbox⟩
  | releases h => exact ⟨_, h.outbox⟩
  | promotes h => exact ⟨_, h.announces⟩

theorem Backend.commit_some {s t : Backend} {ctx : TxContext} {db : Database}
    (h : s.commit ctx db = some t) (heffect : Effect ctx.now s.db db) :
    t = { s with db, created := t.created } ∧ Draws s t := by
  obtain ⟨intents, added, hrows, -, hnew⟩ := heffect.announced
  have hdrop : db.outbox.rows.drop s.db.outbox.rows.length = added := by
    rw [hrows, List.drop_left]
  simp only [commit, hdrop] at h
  split at h
  · next hguard =>
    cases h
    refine ⟨rfl, ctx.now, hguard.1, added, hrows, rfl, fun row hrow => ?_⟩
    exact ⟨hnew row hrow, hguard.2 row hrow⟩
  · simp at h

theorem Backend.commit_frame {s t : Backend} {ctx : TxContext} {db : Database}
    (h : s.commit ctx db = some t) : t = { s with db, created := t.created } := by
  simp only [commit] at h
  split at h <;> cases h
  rfl

/-- A promotion that resolves has committed its transaction. -/
theorem Backend.processJob_promotes {s t : Backend} {eventId : Uuid} {ctx : TxContext}
    (h : s.processJob (.waitlistPromotion eventId) ctx = some t) :
    ∃ k, promoteWaitlistTx ctx eventId s.db = .ok (k, t.db) ∧ s.commit ctx t.db = some t := by
  simp only [processJob] at h
  split at h
  · cases h
  · next k db htx =>
    have hdb : t.db = db := by rw [commit_frame h]
    rw [hdb]
    exact ⟨k, htx, h⟩

theorem Backend.processJob_frame {s t : Backend} {intent : Intent} {ctx : TxContext}
    (h : s.processJob intent ctx = some t) : t = { s with db := t.db, created := t.created } := by
  cases intent with
  | bookingConfirmation bookingId =>
      cases h
      rfl
  | waitlistPromotion eventId =>
      obtain ⟨k, -, hcommit⟩ := processJob_promotes h
      exact commit_frame hcommit

def noted (s : Backend) : BackendAction → List Uuid
  | .mark i _ => (s.marks[i]?.map Mark.id).toList
  | _ => []

inductive Change (retentionDays : ℕ) (s : Backend) : BackendAction → Backend → Prop
  | quiet {a : BackendAction} {t : Backend} (hnoted : noted s a = []) (hdb : t.db = s.db)
      (hcreated : t.created = s.created) (hhandled : t.handled = s.handled) :
      Change retentionDays s a t
  | committed {ctx : TxContext} {op : BookingOp} {result : OpResult} {t : Backend}
      (htx : op.transaction ctx s.db = .ok (result, t.db)) (hdraws : Draws s t)
      (hhandled : t.handled = s.handled) : Change retentionDays s (.transact ctx op) t
  | edited {id : Uuid} {patch : EventPatch} {actor : AuthUser} {read : EventDetail} {t : Backend}
      (hdb : t.db = s.db.withPatch id patch) (hcreated : t.created = s.created)
      (hhandled : t.handled = s.handled) :
      Change retentionDays s (.updateEvent id patch actor read) t
  | enqueued {w : ℕ} {at_ : Time} {row : NotificationOutbox} {rest : List NotificationOutbox}
      {marked : List Uuid} {dispatched : ℕ} {t : Backend}
      (hpass : s.passes w = some ⟨.added row rest, marked, dispatched⟩)
      (hdb : s.db.recordEnqueued row.id at_ = .ok t.db) (hcreated : t.created = s.created)
      (hhandled : t.handled = s.handled) : Change retentionDays s (.recordEnqueued w at_) t
  | errored {w : ℕ} {id : Uuid} {message : String} {t : Backend}
      (hdb : s.db.recordError id message = .ok t.db) (hcreated : t.created = s.created)
      (hhandled : t.handled = s.handled) : Change retentionDays s (.recordError w) t
  | confirmed {i : ℕ} {ctx : TxContext} {id bookingId : Uuid} {t : Backend}
      (hrun : ⟨id, .bookingConfirmation bookingId, false⟩ ∈ s.executions) (hdb : t.db = s.db)
      (hcreated : t.created = s.created) (hhandled : t.handled = id :: s.handled) :
      Change retentionDays s (.handlerReturns i ctx) t
  | promoted {i : ℕ} {ctx : TxContext} {id eventId : Uuid} {k : ℕ} {t : Backend}
      (hrun : ⟨id, .waitlistPromotion eventId, false⟩ ∈ s.executions)
      (htx : promoteWaitlistTx ctx eventId s.db = .ok (k, t.db)) (hdraws : Draws s t)
      (hhandled : t.handled = id :: s.handled) : Change retentionDays s (.handlerReturns i ctx) t
  | marked {i : ℕ} {at_ : Time} {mark : Mark} {t : Backend} (hmark : s.marks[i]? = some mark)
      (hdb : t.db = mark.write at_ s.db) (hcreated : t.created = s.created)
      (hhandled : t.handled = s.handled) : Change retentionDays s (.mark i at_) t
  | purged {at_ : Time} {t : Backend} (hnow : at_ ≤ s.now)
      (hdb : t.db = s.db.purgeDeliveredOutbox (at_ - retentionMs retentionDays))
      (hcreated : t.created = s.created) (hhandled : t.handled = s.handled) :
      Change retentionDays s (.purge at_) t

theorem Backend.failAttempt_quiet (s : Backend) (id : Uuid) (message : String) :
    (s.failAttempt id message).db = s.db ∧ (s.failAttempt id message).created = s.created ∧
      (s.failAttempt id message).handled = s.handled := by
  unfold failAttempt
  split
  · exact ⟨rfl, rfl, rfl⟩
  · split <;> exact ⟨rfl, rfl, rfl⟩

theorem recordEnqueued_some {w : ℕ} {at_ : Time}
    (h : backendStep retentionDays s (.recordEnqueued w at_) = some t) :
    ∃ row rest marked dispatched, s.passes w = some ⟨.added row rest, marked, dispatched⟩ ∧
      s.db.recordEnqueued row.id at_ = .ok t.db ∧
      t = { s.setPass w (some ⟨.adding rest, marked, dispatched + 1⟩) with db := t.db } := by
  cases backendStep_moves h with
  | records hpass hdb _ => exact ⟨_, _, _, _, hpass, hdb, rfl⟩

theorem returns_change {i : ℕ} {ctx : TxContext} {id : Uuid} {intent : Intent} {u : Backend}
    (hget : s.executions[i]? = some ⟨id, intent, false⟩)
    (hjob : s.processJob intent ctx = some u) :
    Change retentionDays s (.handlerReturns i ctx) { u with
      executions := s.executions.set i ⟨id, intent, true⟩, handled := id :: s.handled } := by
  have hrun := List.mem_of_getElem? hget
  cases intent with
  | bookingConfirmation bookingId =>
      cases hjob
      exact .confirmed hrun rfl rfl rfl
  | waitlistPromotion eventId =>
      obtain ⟨k, htx, hcommit⟩ := Backend.processJob_promotes hjob
      have htransaction : (BookingOp.promoteWaitlist eventId).transaction ctx s.db =
          .ok (.promoted k, u.db) := by
        simp [BookingOp.transaction, htx, Except.map]
      obtain ⟨-, hdraws⟩ := Backend.commit_some hcommit (transaction_effect htransaction)
      exact .promoted hrun htx hdraws rfl

theorem backendStep_change (h : backendStep retentionDays s a = some t) :
    Change retentionDays s a t := by
  cases backendStep_moves h with
  | tick | refused | unedited | begins | selects | adds | addFails | recordFails
  | recordErrorFails | ends | crashes | starts | completes | losesExecution | stalls | stallsOut
  | evicts | wipes | losesMark => exact .quiet rfl rfl rfl rfl
  | @committed ctx op result db _ htx hcommit =>
      obtain ⟨ht, hdraws⟩ := Backend.commit_some hcommit (transaction_effect htx)
      have hdb : t.db = db := by rw [ht]
      have hhandled : t.handled = s.handled := by rw [ht]
      exact .committed (hdb ▸ htx) hdraws hhandled
  | edited hupdate =>
      obtain ⟨event, -, -, hdb⟩ := Database.updateEvent_ok hupdate
      exact .edited hdb rfl rfl
  | records hpass hdb _ => exact .enqueued hpass hdb rfl rfl
  | recordsError _ hdb => exact .errored hdb rfl rfl
  | returns hget hjob => exact returns_change hget hjob
  | throws hget =>
      obtain ⟨hdb, hcreated, hhandled⟩ := Backend.failAttempt_quiet
        { s with executions := s.executions.eraseIdx _ } _ _
      exact .quiet rfl hdb hcreated hhandled
  | marks hmark _ => exact .marked hmark rfl rfl rfl
  | purges hnow => exact .purged hnow rfl rfl rfl

/-- An id with its intent is in memory somewhere: in the snapshot of a pass,
in the queue, or in a running processor. -/
inductive Carried (s : Backend) : Uuid → Intent → Prop
  | held {w : ℕ} {pass : Pass} {row : NotificationOutbox} (hpass : s.passes w = some pass)
      (hrow : row ∈ pass.phase.snapshot) : Carried s row.id row.intent
  | queued {job : Job} (hjob : job ∈ s.queue) : Carried s job.id job.intent
  | running {x : Execution} (hx : x ∈ s.executions) : Carried s x.id x.intent

inductive Finished (s : Backend) : Uuid → Prop
  | returned {x : Execution} (hx : x ∈ s.executions) (hreturned : x.returned = true) :
      Finished s x.id
  | marking {id : Uuid} (hmark : .sent id ∈ s.marks) : Finished s id

/-- A pass holds what it held before, with the marks of the step noted, or
what its query has just returned. -/
def PassesFrom (s : Backend) (a : BackendAction) (passes : ℕ → Option Pass) : Prop :=
  ∀ w next, passes w = some next → ∀ row ∈ next.phase.snapshot,
    (∃ pass, s.passes w = some pass ∧ row ∈ pass.phase.snapshot ∧
      next.marked = noted s a ++ pass.marked) ∨
    (next.marked = [] ∧ row ∈ s.db.outbox.rows ∧ row.Unfinished ∧
      ∃ oldestFirst, a = .select w oldestFirst)

def QueueFrom (s : Backend) (queue : List Job) : Prop :=
  ∀ job ∈ queue, Carried s job.id job.intent

def ExecutionsFrom (s : Backend) (handled : List Uuid) (executions : List Execution) : Prop :=
  ∀ x ∈ executions, Carried s x.id x.intent ∧
    (x.returned = true → Finished s x.id ∨ x.id ∈ handled)

def MarksFrom (s : Backend) (marks : List Mark) : Prop :=
  ∀ id, .sent id ∈ marks → Finished s id

theorem PassesFrom.same (hnoted : noted s a = []) : PassesFrom s a s.passes := by
  intro w next hnext row hrow
  exact .inl ⟨next, hnext, hrow, by rw [hnoted, List.nil_append]⟩

theorem PassesFrom.set (hnoted : noted s a = []) (w : ℕ) {pass : Option Pass}
    (h : ∀ next, pass = some next → ∀ row ∈ next.phase.snapshot,
      (∃ old, s.passes w = some old ∧ row ∈ old.phase.snapshot ∧ next.marked = old.marked) ∨
      (next.marked = [] ∧ row ∈ s.db.outbox.rows ∧ row.Unfinished ∧
        ∃ oldestFirst, a = .select w oldestFirst)) :
    PassesFrom s a (Function.update s.passes w pass) := by
  intro v next hnext row hrow
  by_cases hv : v = w
  · subst hv
    simp only [hnoted, List.nil_append]
    exact h next (by simpa using hnext) row hrow
  · rw [Function.update_of_ne hv] at hnext
    exact PassesFrom.same hnoted v next hnext row hrow

theorem PassesFrom.advance (hnoted : noted s a = []) {w : ℕ} {pass next : Pass}
    (hpass : s.passes w = some pass) (hsub : next.phase.snapshot ⊆ pass.phase.snapshot)
    (hmarked : next.marked = pass.marked) :
    PassesFrom s a (Function.update s.passes w (some next)) := by
  apply PassesFrom.set hnoted
  intro _ hnext row hrow
  cases hnext
  exact .inl ⟨pass, hpass, hsub hrow, hmarked⟩

theorem PassesFrom.stop (hnoted : noted s a = []) (w : ℕ) :
    PassesFrom s a (Function.update s.passes w none) := PassesFrom.set hnoted w (by simp)

theorem QueueFrom.same (s : Backend) : QueueFrom s s.queue := fun _ hjob => .queued hjob

theorem QueueFrom.move (id : Uuid) (state : JobState) (made : ℕ) :
    QueueFrom s (moveJob s.queue id state made) := by
  intro job hjob
  obtain ⟨old, hold, rfl⟩ := List.mem_map.mp hjob
  have hcarried : Carried s old.id old.intent := .queued hold
  split <;> exact hcarried

theorem QueueFrom.add {row : NotificationOutbox} (hrow : Carried s row.id row.intent) :
    QueueFrom s (addJob s.queue row) := by
  intro job hjob
  unfold addJob at hjob
  split at hjob
  · exact .queued hjob
  · rcases List.mem_append.mp hjob with hjob | hjob
    · exact .queued hjob
    · obtain rfl := List.mem_singleton.mp hjob
      exact hrow

theorem ExecutionsFrom.same (s : Backend) (handled : List Uuid) :
    ExecutionsFrom s handled s.executions := fun _ hx =>
  ⟨.running hx, fun hreturned => .inl (.returned hx hreturned)⟩

theorem ExecutionsFrom.erase (handled : List Uuid) (i : ℕ) :
    ExecutionsFrom s handled (s.executions.eraseIdx i) := fun x hx =>
  ExecutionsFrom.same s handled x (List.mem_of_mem_eraseIdx hx)

theorem MarksFrom.same (s : Backend) : MarksFrom s s.marks := fun _ hmark => .marking hmark

structure Flow (s : Backend) (a : BackendAction) (t : Backend) : Prop where
  now : s.now ≤ t.now
  passes : PassesFrom s a t.passes
  queue : QueueFrom s t.queue
  executions : ExecutionsFrom s t.handled t.executions
  marks : MarksFrom s t.marks

theorem findJob_mem {queue : List Job} {id : Uuid} {states : List JobState} {job : Job}
    (h : findJob queue id states = some job) : job ∈ queue ∧ job.id = id := by
  have hp := List.find?_some h
  simp only [Bool.and_eq_true, beq_iff_eq] at hp
  exact ⟨List.mem_of_find?_eq_some h, hp.1⟩

theorem Flow.of_passes {passes : ℕ → Option Pass} {db : Database} {now : Time}
    {created : List (Uuid × Intent)} (hnow : s.now ≤ now) (h : PassesFrom s a passes) :
    Flow s a { s with passes, db, now, created } :=
  ⟨hnow, h, .same s, .same s _, .same s⟩

theorem Flow.of_queue {queue : List Job} (hnoted : noted s a = []) (h : QueueFrom s queue) :
    Flow s a { s with queue } :=
  ⟨le_rfl, .same hnoted, h, .same s _, .same s⟩

theorem failAttempt_flow {i : ℕ} {id : Uuid} {message : String} :
    Flow s (.handlerThrows i message)
      (Backend.failAttempt { s with executions := s.executions.eraseIdx i } id message) := by
  unfold Backend.failAttempt
  split
  · exact ⟨le_rfl, .same rfl, .same s, .erase _ i, .same s⟩
  · split
    · refine ⟨le_rfl, .same rfl, .move _ _ _, .erase _ i, ?_⟩
      intro finished hmark
      exact .marking (by simpa using hmark)
    · exact ⟨le_rfl, .same rfl, .move _ _ _, .erase _ i, .same s⟩

theorem backendStep_flow (h : backendStep retentionDays s a = some t) :
    Flow s a t := by
  cases backendStep_moves h with
  | tick ms =>
      have hnow : s.now ≤ s.now + (ms : ℤ) := Int.le_add_of_nonneg_right (by simp)
      exact .of_passes hnow (.same rfl)
  | refused | unedited | edited | purges => exact .of_passes le_rfl (.same rfl)
  | committed _ hcommit =>
      rw [Backend.commit_frame hcommit]
      exact .of_passes le_rfl (.same rfl)
  | @begins w lapse _ =>
      have hnow : s.now ≤ s.now + (lapse : ℤ) := Int.le_add_of_nonneg_right (by simp)
      refine .of_passes hnow (.set rfl w ?_)
      intro pass hpass row hrow
      cases hpass
      simp [Phase.snapshot] at hrow
  | @selects w oldestFirst _ _ _ _ _ =>
      refine .of_passes le_rfl (.set rfl w ?_)
      intro pass hpass row hrow
      cases hpass
      obtain ⟨hstored, hdue⟩ := Database.mem_findDispatchable hrow
      exact .inr ⟨rfl, hstored, unfinished_of_due hdue, oldestFirst, rfl⟩
  | @adds w row rest _ _ hpass =>
      have hrow : Carried s row.id row.intent := .held hpass (by simp [Phase.snapshot])
      exact ⟨le_rfl, .advance rfl hpass (by simp [Phase.snapshot]) rfl, .add hrow, .same s _,
        .same s⟩
  | @addFails w message landed row rest _ _ hpass =>
      have hrow : Carried s row.id row.intent := .held hpass (by simp [Phase.snapshot])
      refine ⟨le_rfl, .advance rfl hpass (by simp [Phase.snapshot]) rfl, ?_, .same s _, .same s⟩
      cases landed with
      | true => exact .add hrow
      | false => exact .same s
  | records hpass | recordFails hpass | recordsError hpass =>
      exact .of_passes le_rfl (.advance rfl hpass (by simp [Phase.snapshot]) rfl)
  | recordErrorFails | ends | crashes => exact .of_passes le_rfl (.stop rfl _)
  | @starts id job hjob =>
      refine ⟨le_rfl, .same rfl, .move _ _ _, ?_, .same s⟩
      intro x hx
      rcases List.mem_append.mp hx with hx | hx
      · exact ExecutionsFrom.same s _ x hx
      · obtain rfl := List.mem_singleton.mp hx
        obtain ⟨hmem, rfl⟩ := findJob_mem hjob
        exact ⟨.queued hmem, by simp⟩
  | @returns i ctx id intent u hget hjob =>
      have hrun : Carried s id intent := .running (List.mem_of_getElem? hget)
      rw [Backend.processJob_frame hjob]
      refine ⟨le_rfl, .same rfl, .same s, ?_, .same s⟩
      intro x hx
      rcases List.mem_or_eq_of_mem_set hx with hold | rfl
      · exact ExecutionsFrom.same s _ x hold
      · exact ⟨hrun, fun _ => .inr (by simp)⟩
  | throws => exact failAttempt_flow
  | @completes i id _ _ hget =>
      refine ⟨le_rfl, .same rfl, .move _ _ _, .erase _ i, ?_⟩
      intro finished hmark
      rcases List.mem_append.mp hmark with hmark | hmark
      · exact .marking hmark
      · obtain rfl : finished = id := by simpa using hmark
        exact .returned (List.mem_of_getElem? hget) rfl
  | losesExecution i => exact ⟨le_rfl, .same rfl, .same s, .erase _ i, .same s⟩
  | stalls | stallsOut => exact .of_queue rfl (.move _ _ _)
  | evicts => exact .of_queue rfl fun job hjob => .queued (List.mem_of_mem_filter hjob)
  | wipes => exact .of_queue rfl (by simp [QueueFrom])
  | @marks i at_ mark hget _ =>
      refine ⟨le_rfl, ?_, .same s, .same s _, ?_⟩
      · intro w next hnext row hrow
        obtain ⟨pass, hpass, rfl⟩ := Option.map_eq_some_iff.mp hnext
        exact .inl ⟨pass, hpass, hrow, by simp [noted, hget]⟩
      · intro finished hmark
        exact .marking (List.mem_of_mem_eraseIdx hmark)
  | losesMark i =>
      exact ⟨le_rfl, .same rfl, .same s, .same s _, fun _ hmark =>
        .marking (List.mem_of_mem_eraseIdx hmark)⟩

end Eventify
