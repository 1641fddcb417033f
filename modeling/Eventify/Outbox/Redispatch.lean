import Eventify.Outbox.Delivery

/-!
# When a re-dispatch is effective

The row's id is the job's id, so `queue.add` does nothing while the queue
still holds the job that failed. A pass then counts a row for which no job
will run. The invariant follows the job from `queue.add` to the count.
-/

namespace Eventify

open Library

variable {retentionDays : ℕ} {s t : Backend} {a : BackendAction}

def JobState.Runnable (state : JobState) : Prop :=
  state = .waiting ∨ state = .delayed ∨ state = .active

def HoldsRunnable (queue : List Job) (id : Uuid) : Prop :=
  ∃ job ∈ queue, job.id = id ∧ job.state.Runnable

/-- Whichever row a pass counts next, the queue then holds a job that will run
for it, unless its handler has completed. -/
def CountsEffectively (retentionDays : ℕ) (s : Backend) : Prop :=
  ∀ w at_ t row rest marked dispatched,
    s.passes w = some ⟨.added row rest, marked, dispatched⟩ → row.id ∉ s.handled →
      backendStep retentionDays s (.recordEnqueued w at_) = some t → HoldsRunnable t.queue row.id

/-- The step takes the job from the runnable ones while its handler has not
completed. -/
def Backend.Fails (s : Backend) : BackendAction → Uuid → Prop
  | .handlerThrows i _, id => ∃ intent job, s.executions[i]? = some ⟨id, intent, false⟩ ∧
      findJob s.queue id [.active] = some job ∧ jobAttempts ≤ job.attemptsMade + 1
  | .stalledOut failing, id => failing = id ∧ ∃ job, findJob s.queue id [.active] = some job
  | .wipeRedis, _ => True
  | _, _ => False

/-- No pass adds a row whose failed job the queue still holds, and none loses
the job of a row between adding and counting it; completed handlers aside. -/
def AddsToFreeKeys (s : Backend) (a : BackendAction) : Prop :=
  (∀ w row rest marked dispatched, a = .add w →
    s.passes w = some ⟨.adding (row :: rest), marked, dispatched⟩ → row.id ∉ s.handled →
      ∀ job ∈ s.queue, job.id = row.id → job.state ≠ .failed) ∧
  ∀ w row rest marked dispatched, s.passes w = some ⟨.added row rest, marked, dispatched⟩ →
    row.id ∉ s.handled → ¬ s.Fails a row.id

inductive QueueChange (s : Backend) (a : BackendAction) (queue : List Job) : Prop
  | kept (hqueue : queue = s.queue)
  | added {row : NotificationOutbox} (hqueue : queue = addJob s.queue row)
  | moved {id : Uuid} {state : JobState} {made : ℕ} (hstate : state.Runnable)
      (hqueue : queue = moveJob s.queue id state made)
  | completed {id : Uuid} {made : ℕ} (hfinished : Finished s id)
      (hqueue : queue = moveJob s.queue id .completed made)
  | failed {id : Uuid} {made : ℕ} (hfails : s.Fails a id)
      (hqueue : queue = moveJob s.queue id .failed made)
  | evicted {id : Uuid} {job : Job} (hjob : findJob s.queue id [.completed, .failed] = some job)
      (hqueue : queue = s.queue.filter fun job => job.id != id)
  | wiped (ha : a = .wipeRedis) (hqueue : queue = [])

theorem findJob_state {queue : List Job} {id : Uuid} {states : List JobState} {job : Job}
    (h : findJob queue id states = some job) : job.state ∈ states := by
  have hp := List.find?_some h
  simp only [Bool.and_eq_true, List.contains_iff_mem] at hp
  exact hp.2

theorem throws_queue {i : ℕ} {message : String} {id : Uuid} {intent : Intent}
    (hget : s.executions[i]? = some ⟨id, intent, false⟩) :
    QueueChange s (.handlerThrows i message)
      (Backend.failAttempt { s with executions := s.executions.eraseIdx i } id message).queue := by
  unfold Backend.failAttempt
  split
  · exact .kept rfl
  · next job hjob =>
    split
    · next hlast =>
      have hfails : s.Fails (.handlerThrows i message) id := ⟨intent, job, hget, hjob, hlast⟩
      exact .failed hfails rfl
    · exact .moved (.inr (.inl rfl)) rfl

theorem backendStep_queue (h : backendStep retentionDays s a = some t) :
    QueueChange s a t.queue := by
  cases backendStep_moves h with
  | tick | refused | unedited | edited | begins | selects | records | recordFails | recordsError
  | recordErrorFails | ends | crashes | losesExecution | marks | losesMark | purges =>
      exact .kept rfl
  | committed _ hcommit =>
      rw [Backend.commit_frame hcommit]
      exact .kept rfl
  | adds => exact .added rfl
  | @addFails _ _ landed =>
      cases landed with
      | true => exact .added rfl
      | false => exact .kept rfl
  | starts => exact .moved (.inr (.inr rfl)) rfl
  | returns _ hjob =>
      rw [Backend.processJob_frame hjob]
      exact .kept rfl
  | throws hget => exact throws_queue hget
  | completes hget => exact .completed (.returned (List.mem_of_getElem? hget) rfl) rfl
  | stalls => exact .moved (.inl rfl) rfl
  | @stallsOut id job hjob =>
      have hfails : s.Fails (.stalledOut id) id := ⟨rfl, job, hjob⟩
      exact .failed hfails rfl
  | evicts hjob => exact .evicted hjob rfl
  | wipes => exact .wiped rfl rfl

/-- A pass that has added a row had added it before, or adds it in this step. -/
def AddedFrom (s : Backend) (a : BackendAction) (passes : ℕ → Option Pass) (queue : List Job) :
    Prop :=
  ∀ w row rest marked dispatched, passes w = some ⟨.added row rest, marked, dispatched⟩ →
    (∃ marked, s.passes w = some ⟨.added row rest, marked, dispatched⟩) ∨
    (a = .add w ∧ s.passes w = some ⟨.adding (row :: rest), marked, dispatched⟩ ∧
      queue = addJob s.queue row)

theorem AddedFrom.same (queue : List Job) : AddedFrom s a s.passes queue := by
  intro w row rest marked dispatched hpass
  exact .inl ⟨marked, hpass⟩

theorem AddedFrom.set {w : ℕ} {pass : Option Pass} {queue : List Job}
    (hpass : ∀ row rest marked dispatched, pass ≠ some ⟨.added row rest, marked, dispatched⟩) :
    AddedFrom s a (Function.update s.passes w pass) queue := by
  intro v row rest marked dispatched hv
  by_cases hvw : v = w
  · subst hvw
    rw [Function.update_self] at hv
    exact (hpass row rest marked dispatched hv).elim
  · rw [Function.update_of_ne hvw] at hv
    exact .inl ⟨marked, hv⟩

theorem backendStep_added (h : backendStep retentionDays s a = some t) :
    AddedFrom s a t.passes t.queue := by
  cases backendStep_moves h with
  | tick | refused | unedited | edited | starts | completes | losesExecution | stalls | stallsOut
  | evicts | wipes | losesMark | purges => exact .same _
  | committed _ hcommit =>
      rw [Backend.commit_frame hcommit]
      exact .same _
  | begins | selects | addFails | records | recordFails | recordsError | recordErrorFails | ends
  | crashes =>
      apply AddedFrom.set
      simp
  | @adds w row rest marked dispatched hpass =>
      intro v read others ids count hv
      by_cases hvw : v = w
      · subst hvw
        simp only [Backend.setPass, Function.update_self] at hv
        cases hv
        exact .inr ⟨rfl, hpass, rfl⟩
      · simp only [Backend.setPass, Function.update_of_ne hvw] at hv
        exact .inl ⟨ids, hv⟩
  | returns _ hjob =>
      rw [Backend.processJob_frame hjob]
      exact .same _
  | throws =>
      unfold Backend.failAttempt
      split
      · exact .same _
      · split
        · exact .same _
        · exact .same _
  | marks =>
      intro w row rest marked dispatched hw
      obtain ⟨⟨phase, ids, count⟩, hpass, hmarked⟩ := Option.map_eq_some_iff.mp hw
      cases hmarked
      exact .inl ⟨ids, hpass⟩

/-- The queue holds one job an id, completed ones only for completed handlers,
and the rows that a pass still has to handle are stored. -/
structure JobsInv (s : Backend) : Prop extends Known s where
  distinct : (s.queue.map Job.id).Nodup
  completed : ∀ job ∈ s.queue, job.state = .completed → job.id ∈ s.handled
  stored : ∀ w pass, s.passes w = some pass → ∀ row ∈ pass.phase.snapshot, row.id ∉ s.handled →
    ∃ stored ∈ s.db.outbox.rows, stored.id = row.id

theorem JobsInv.start (db : Database) (now : Time) : JobsInv (.start db now) := by
  refine ⟨Known.start db now, List.nodup_nil, ?_, ?_⟩
  · intro job hjob
    cases hjob
  · intro w pass hpass
    cases hpass

theorem moveJob_ids (queue : List Job) (id : Uuid) (state : JobState) (made : ℕ) :
    (moveJob queue id state made).map Job.id = queue.map Job.id := by
  simp only [moveJob, List.map_map]
  apply List.map_congr_left
  intro job _
  simp only [Function.comp_apply]
  split <;> rfl

theorem mem_moveJob {queue : List Job} {id : Uuid} {state : JobState} {made : ℕ} {job : Job}
    (h : job ∈ moveJob queue id state made) :
    (job.id = id ∧ job.state = state) ∨ (job.id ≠ id ∧ job ∈ queue) := by
  obtain ⟨old, hold, rfl⟩ := List.mem_map.mp h
  by_cases hid : old.id = id
  · exact .inl (by simp [hid])
  · exact .inr (by simp [hid, hold])

theorem QueueChange.distinct {queue : List Job} (h : QueueChange s a queue)
    (hs : (s.queue.map Job.id).Nodup) : (queue.map Job.id).Nodup := by
  cases h with
  | kept hqueue => rwa [hqueue]
  | @added row hqueue =>
      rw [hqueue, addJob]
      split
      · exact hs
      · next hnew =>
        simp only [List.any_eq_true, beq_iff_eq, not_exists, not_and] at hnew
        rw [List.map_append, List.nodup_append']
        refine ⟨hs, by simp, ?_⟩
        intro id hid hrow
        obtain ⟨job, hjob, rfl⟩ := List.mem_map.mp hid
        exact hnew job hjob (by simpa using hrow)
  | moved _ hqueue | completed _ hqueue | failed _ hqueue => rwa [hqueue, moveJob_ids]
  | evicted _ hqueue =>
      rw [hqueue]
      exact hs.sublist (List.filter_sublist.map Job.id)
  | wiped _ hqueue => simp [hqueue]

theorem QueueChange.completed_handled {queue : List Job} {handled : List Uuid}
    (h : QueueChange s a queue) (hs : JobsInv s) (hgrow : ∀ id ∈ s.handled, id ∈ handled) :
    ∀ job ∈ queue, job.state = .completed → job.id ∈ handled := by
  intro job hjob hstate
  have hold : job ∈ s.queue → job.id ∈ handled :=
    fun hjob => hgrow _ (hs.completed job hjob hstate)
  cases h with
  | kept hqueue => exact hold (hqueue ▸ hjob)
  | added hqueue =>
      rw [hqueue, addJob] at hjob
      split at hjob
      · exact hold hjob
      · rcases List.mem_append.mp hjob with hjob | hjob
        · exact hold hjob
        · rw [List.mem_singleton.mp hjob] at hstate
          cases hstate
  | @moved _ _ _ hrunnable hqueue =>
      rcases mem_moveJob (hqueue ▸ hjob) with ⟨-, hmoved⟩ | ⟨-, hjob⟩
      · rw [← hmoved, hstate] at hrunnable
        simp [JobState.Runnable] at hrunnable
      · exact hold hjob
  | completed hfinished hqueue =>
      rcases mem_moveJob (hqueue ▸ hjob) with ⟨hid, -⟩ | ⟨-, hjob⟩
      · exact hid ▸ hgrow _ (hs.finished _ hfinished)
      · exact hold hjob
  | failed _ hqueue =>
      rcases mem_moveJob (hqueue ▸ hjob) with ⟨-, hmoved⟩ | ⟨-, hjob⟩
      · cases hmoved.symm.trans hstate
      · exact hold hjob
  | evicted _ hqueue => exact hold (List.mem_of_mem_filter (hqueue ▸ hjob))
  | wiped _ hqueue =>
      rw [hqueue] at hjob
      cases hjob

/-- Only a purge removes a row, and only a sent one. -/
theorem Change.kept_unhandled (h : Change retentionDays s a t) (hs : Known s)
    {row : NotificationOutbox} (hrow : row ∈ s.db.outbox.rows) (hid : row.id ∉ s.handled) :
    ∃ stored ∈ t.db.outbox.rows, stored.id = row.id := by
  rcases h.rows.fate hrow with ⟨row', hrow', hsame⟩ | ⟨at_, -, hstatus, -⟩
  · refine ⟨row', hrow', ?_⟩
    rcases hsame with rfl | hwrite
    · rfl
    · exact hwrite.keys.1
  · exact (hid (hs.sent row hrow hstatus)).elim

theorem JobsInv.step (hs : JobsInv s) (h : backendStep retentionDays s a = some t) :
    JobsInv t := by
  have hchange := backendStep_change h
  have hqueue := backendStep_queue h
  refine ⟨hs.toKnown.step h, hqueue.distinct hs.distinct,
    hqueue.completed_handled hs hchange.handled_grows, ?_⟩
  intro w pass hpass row hrow hnew
  have hid : row.id ∉ s.handled := fun hold => hnew (hchange.handled_grows _ hold)
  rcases (backendStep_flow h).passes w pass hpass row hrow with
    ⟨old, hold, hheld, -⟩ | ⟨-, hread, -⟩
  · obtain ⟨stored, hstored, hkey⟩ := hs.stored w old hold row hheld hid
    rw [← hkey] at hid ⊢
    exact hchange.kept_unhandled hs.toKnown hstored hid
  · exact hchange.kept_unhandled hs.toKnown hread hid

theorem JobsInv.job_unique (hs : JobsInv s) {job other : Job} (hjob : job ∈ s.queue)
    (hother : other ∈ s.queue) (hid : job.id = other.id) : job = other :=
  List.inj_on_of_nodup_map hs.distinct hjob hother hid

theorem holdsRunnable_moveJob {queue : List Job} {id moved : Uuid} {state : JobState} {made : ℕ}
    (h : HoldsRunnable queue id) (hstate : moved = id → state.Runnable) :
    HoldsRunnable (moveJob queue moved state made) id := by
  obtain ⟨job, hjob, hid, hrunnable⟩ := h
  refine ⟨_, List.mem_map.mpr ⟨job, hjob, rfl⟩, ?_, ?_⟩
  · split <;> exact hid
  · split
    · next heq => exact hstate ((beq_iff_eq.mp heq).symm.trans hid)
    · exact hrunnable

/-- A job that will run stays in the queue as one until it fails for good, is
lost with the queue, or its handler completes. -/
theorem QueueChange.runnable {queue : List Job} {id : Uuid} (h : QueueChange s a queue)
    (hs : JobsInv s) (hnew : id ∉ s.handled) (hfails : ¬ s.Fails a id)
    (hjob : HoldsRunnable s.queue id) : HoldsRunnable queue id := by
  cases h with
  | kept hqueue => rwa [hqueue]
  | added hqueue =>
      obtain ⟨job, hmem, hrest⟩ := hjob
      rw [hqueue, addJob]
      split
      · exact ⟨job, hmem, hrest⟩
      · exact ⟨job, List.mem_append_left _ hmem, hrest⟩
  | moved hstate hqueue => exact hqueue ▸ holdsRunnable_moveJob hjob fun _ => hstate
  | completed hfinished hqueue =>
      apply hqueue ▸ holdsRunnable_moveJob hjob
      intro hid
      exact (hnew (hid ▸ hs.finished _ hfinished)).elim
  | failed hfailed hqueue =>
      apply hqueue ▸ holdsRunnable_moveJob hjob
      intro hid
      exact (hfails (hid ▸ hfailed)).elim
  | @evicted gone old hold hqueue =>
      obtain ⟨job, hmem, hid, hrunnable⟩ := hjob
      obtain ⟨holdmem, holdid⟩ := findJob_mem hold
      refine ⟨job, hqueue ▸ List.mem_filter.mpr ⟨hmem, ?_⟩, hid, hrunnable⟩
      have hne : job.id ≠ gone := by
        rintro rfl
        obtain rfl := hs.job_unique hmem holdmem holdid.symm
        have hstate := findJob_state hold
        rcases hrunnable with hrun | hrun | hrun <;> simp [hrun] at hstate
      simpa using hne
  | wiped ha => exact (hfails (ha ▸ trivial)).elim

theorem addJob_runnable {row : NotificationOutbox} (hs : JobsInv s) (hnew : row.id ∉ s.handled)
    (hfree : ∀ job ∈ s.queue, job.id = row.id → job.state ≠ .failed) :
    HoldsRunnable (addJob s.queue row) row.id := by
  unfold addJob
  split
  · next hheld =>
    obtain ⟨job, hjob, hid⟩ := List.any_eq_true.mp hheld
    have hid : job.id = row.id := beq_iff_eq.mp hid
    have hfailed := hfree job hjob hid
    have hcompleted : job.state ≠ .completed := fun h => hnew (hid ▸ hs.completed job hjob h)
    refine ⟨job, hjob, hid, ?_⟩
    cases hstate : job.state <;> simp_all [JobState.Runnable]
  · exact ⟨_, List.mem_append_right _ List.mem_cons_self, rfl, .inl rfl⟩

/-- Every row that a pass has added and not counted yet has a job that will
run, or a completed handler. -/
structure RedispatchInv (s : Backend) : Prop extends JobsInv s where
  effective : ∀ w row rest marked dispatched,
    s.passes w = some ⟨.added row rest, marked, dispatched⟩ → row.id ∉ s.handled →
      HoldsRunnable s.queue row.id

theorem RedispatchInv.start (db : Database) (now : Time) : RedispatchInv (.start db now) := by
  refine ⟨JobsInv.start db now, ?_⟩
  intro w row rest marked dispatched hpass
  cases hpass

theorem RedispatchInv.step (hs : RedispatchInv s) (hgood : AddsToFreeKeys s a)
    (h : backendStep retentionDays s a = some t) : RedispatchInv t := by
  refine ⟨hs.toJobsInv.step h, ?_⟩
  intro w row rest marked dispatched hpass hnew
  have hid : row.id ∉ s.handled := fun hold => hnew ((backendStep_change h).handled_grows _ hold)
  rcases backendStep_added h w row rest marked dispatched hpass with
    ⟨ids, hadded⟩ | ⟨ha, hadding, hqueue⟩
  · have hjob := hs.effective w row rest ids dispatched hadded hid
    have hfails := hgood.2 w row rest ids dispatched hadded hid
    exact (backendStep_queue h).runnable hs.toJobsInv hid hfails hjob
  · rw [hqueue]
    exact addJob_runnable hs.toJobsInv hid (hgood.1 w row rest marked dispatched ha hadding hid)

theorem RedispatchInv.countsEffectively (hs : RedispatchInv s) :
    CountsEffectively retentionDays s := by
  intro w at_ t row rest marked dispatched hpass hnew h
  obtain ⟨row', rest', marked', dispatched', -, -, ht⟩ := recordEnqueued_some h
  have hqueue : t.queue = s.queue := by rw [ht]; rfl
  rw [hqueue]
  exact hs.effective w row rest marked dispatched hpass hnew

/-- The count of an unhandled row is not refused: its row is still stored. -/
theorem recordEnqueued_enabled (retentionDays : ℕ) (hs : JobsInv s) {w : ℕ}
    {row : NotificationOutbox} {rest : List NotificationOutbox} {marked : List Uuid}
    {dispatched : ℕ}
    (hpass : s.passes w = some ⟨.added row rest, marked, dispatched⟩) (hnew : row.id ∉ s.handled) :
    ∃ t, backendStep retentionDays s (.recordEnqueued w s.now) = some t ∧ t.queue = s.queue := by
  obtain ⟨stored, hstored, hid⟩ := hs.stored w _ hpass row (by simp [Phase.snapshot]) hnew
  obtain ⟨db, hdb⟩ : ∃ db, s.db.recordEnqueued row.id s.now = .ok db := by
    unfold Database.recordEnqueued
    split
    · next hnone =>
      have habsent := List.find?_eq_none.mp hnone stored hstored
      simp [hid] at habsent
    · exact ⟨_, rfl⟩
  exact ⟨{ s.setPass w (some ⟨.adding rest, marked, dispatched + 1⟩) with db },
    by simp [backendStep, hpass, hdb], rfl⟩

theorem CountsEffectively.holds (h : CountsEffectively retentionDays s) (hs : JobsInv s) {w : ℕ}
    {row : NotificationOutbox} {rest : List NotificationOutbox} {marked : List Uuid}
    {dispatched : ℕ} (hpass : s.passes w = some ⟨.added row rest, marked, dispatched⟩)
    (hnew : row.id ∉ s.handled) : HoldsRunnable s.queue row.id := by
  obtain ⟨t, ht, hqueue⟩ := recordEnqueued_enabled retentionDays hs hpass hnew
  exact hqueue ▸ h w s.now t row rest marked dispatched hpass hnew ht

theorem not_holdsRunnable_failed {queue : List Job} {id : Uuid} {made : ℕ} :
    ¬ HoldsRunnable (moveJob queue id .failed made) id := by
  rintro ⟨job, hjob, hid, hrunnable⟩
  rcases mem_moveJob hjob with ⟨-, hstate⟩ | ⟨hne, -⟩
  · rw [hstate] at hrunnable
    simp [JobState.Runnable] at hrunnable
  · exact hne hid

theorem Backend.Fails.step (retentionDays : ℕ) {id : Uuid} (h : s.Fails a id) :
    ∃ t, backendStep retentionDays s a = some t ∧ t.passes = s.passes ∧ t.handled = s.handled ∧
      ¬ HoldsRunnable t.queue id := by
  cases a with
  | handlerThrows i message =>
      obtain ⟨intent, job, hget, hjob, hlast⟩ := h
      refine ⟨{ s with
          executions := s.executions.eraseIdx i
          queue := moveJob s.queue id .failed (job.attemptsMade + 1)
          marks := s.marks ++ [.failed id message] }, ?_, rfl, rfl, not_holdsRunnable_failed⟩
      simp [backendStep, hget, Backend.failAttempt, hjob, hlast]
  | stalledOut failing =>
      obtain ⟨rfl, job, hjob⟩ := h
      refine ⟨{ s with queue := moveJob s.queue failing .failed job.attemptsMade }, ?_, rfl, rfl,
        not_holdsRunnable_failed⟩
      simp [backendStep, hjob]
  | wipeRedis =>
      refine ⟨{ s with queue := [] }, rfl, rfl, rfl, ?_⟩
      rintro ⟨job, hjob, -⟩
      cases hjob
  | _ => exact h.elim

theorem addsToFreeKeys_of_counts (hs : JobsInv s)
    (h : ∀ t, backendStep retentionDays s a = some t → CountsEffectively retentionDays t) :
    AddsToFreeKeys s a := by
  constructor
  · rintro w row rest marked dispatched rfl hpass hnew job hjob hid hfailed
    have ht : backendStep retentionDays s (.add w) =
        some { s.setPass w (some ⟨.added row rest, marked, dispatched⟩) with
          queue := addJob s.queue row } := by
      simp only [backendStep, hpass]
    have hheld := (h _ ht).holds (hs.step ht) (Function.update_self w _ s.passes) hnew
    have hnoop : addJob s.queue row = s.queue := by
      have hany : (s.queue.any fun job => job.id == row.id) = true :=
        List.any_eq_true.mpr ⟨job, hjob, beq_iff_eq.mpr hid⟩
      simp [addJob, hany]
    obtain ⟨other, hother, hoid, hrunnable⟩ := hnoop ▸ hheld
    obtain rfl := hs.job_unique hjob hother (hid.trans hoid.symm)
    simp [hfailed, JobState.Runnable] at hrunnable
  · intro w row rest marked dispatched hpass hnew hfails
    obtain ⟨t, ht, hpasses, hhandled, hgone⟩ := hfails.step retentionDays
    exact hgone ((h t ht).holds (hs.step ht) (hpasses ▸ hpass) (hhandled ▸ hnew))

/-- In every state of a run each count leaves a job that will run in exactly
the runs that add no row whose failed job is still held, and lose no job
between adding and counting its row. -/
theorem redispatch_effective_iff (retentionDays : ℕ) (db : Database) (now : Time)
    (acts : List BackendAction) :
    Along (backendStep retentionDays)
        (fun s a => ∀ t, backendStep retentionDays s a = some t → CountsEffectively retentionDays t)
        (.start db now) acts ↔
      Along (backendStep retentionDays) AddsToFreeKeys (.start db now) acts := by
  refine along_iff ?_ (fun _ _ _ hs hgood h => hs.step hgood h) (RedispatchInv.start db now) acts
  intro s a hs
  constructor
  · intro h
    exact addsToFreeKeys_of_counts hs.toJobsInv h
  · intro hgood t ht
    exact (hs.step hgood ht).countsEffectively

/-- The last attempt fails, the mark is lost, and the row goes stale. -/
def exhaustedRun : List BackendAction :=
  [.transact (drawing 0 "a") (.createBooking ⟨"ann", .attendee⟩ "e"), .beginPass 0 0,
    .select 0 (OrderBy.stable _), .add 0, .recordEnqueued 0 0, .endPass 0] ++
  (List.replicate jobAttempts [.startJob "a-1", .handlerThrows 0 "timeout"]).flatten ++
  [.loseMark 0, .tick 120001, .beginPass 0 0, .select 0 (OrderBy.stable _), .add 0]

theorem failed_job_not_added_again :
    ∃ s t, exec (backendStep 7) (.start soloDatabase 0) exhaustedRun = some s ∧
      backendStep 7 s (.recordEnqueued 0 120001) = some t ∧
      t.passes 0 = some ⟨.adding [], [], 1⟩ ∧ t.handled = [] ∧
      t.queue.map (fun job => (job.id, job.state)) = [("a-1", .failed)] ∧
      ¬ CountsEffectively 7 s := by
  obtain ⟨s, t, row, hs, ht, hpass, hid, hnew, hcount, hhandled, hqueue⟩ : ∃ s t row,
      exec (backendStep 7) (.start soloDatabase 0) exhaustedRun = some s ∧
      backendStep 7 s (.recordEnqueued 0 120001) = some t ∧
      s.passes 0 = some ⟨.added row [], [], 0⟩ ∧ row.id = "a-1" ∧ s.handled = [] ∧
      t.passes 0 = some ⟨.adding [], [], 1⟩ ∧ t.handled = [] ∧
      t.queue.map (fun job => (job.id, job.state)) = [("a-1", .failed)] :=
    ⟨_, _, _, rfl, rfl, rfl, rfl, rfl, rfl, rfl, rfl⟩
  refine ⟨s, t, hs, ht, hcount, hhandled, hqueue, ?_⟩
  intro heffective
  obtain ⟨job, hjob, -, hrunnable⟩ := heffective 0 120001 t row [] [] 0 hpass (by simp [hnew]) ht
  have hstate : (job.id, job.state) ∈ [("a-1", JobState.failed)] :=
    hqueue ▸ List.mem_map.mpr ⟨job, hjob, rfl⟩
  rcases hrunnable with hrun | hrun | hrun <;> simp [hrun] at hstate

end Eventify
