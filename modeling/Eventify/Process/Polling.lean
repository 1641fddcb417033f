import Eventify.Library.Shutdown
import Eventify.Outbox.Polling

/-!
# The poll loop of a worker process

`tick`, `scheduleNextPoll` and `shutdown` of the worker as one machine over a
clock. `dispatchOutbox` is under way from its call to the step that settles it,
and a timer may fire late. The loop is the poll timer and the callback that
sets it again, so a stop that clears the timer ends the loop only where no
callback awaits its tick.
-/

namespace Eventify

open Library

/-- The handlers through which a process is told to stop. -/
inductive StopTrigger where
  | sigterm
  | sigint
  | unhandledRejection
  | uncaughtException
  deriving DecidableEq, Repr

/-- Who awaits a `tick`. -/
inductive TickCaller where
  | startup
  | callback
  deriving DecidableEq, Repr

/-- `currentPollMs` has no value before the first ticks of the process are over. -/
structure Poller where
  dispatching : Bool
  dispatches : List TickCaller
  initialDispatched : Option (Option ℕ)
  currentPollMs : Option ℤ
  pollTimer : Option ℤ
  deriving DecidableEq, Repr

inductive PollAction where
  | dispatchSettles (i : ℕ) (outcome : Except Failure ℕ)
  | boots
  | fires

namespace Poller

/-- The module has called its first `tick`. -/
def start : Poller := ⟨true, [.startup], none, none, none⟩

def scheduleNextPoll (p : Poller) (now currentPollMs : ℤ) : Poller :=
  { p with currentPollMs := some currentPollMs, pollTimer := some (now + currentPollMs) }

/-- What the caller of a `tick` does with its value. -/
def resume (config : PollConfig ℤ) (now : ℤ) (p : Poller) (dispatched : Option ℕ) :
    TickCaller → Option Poller
  | .startup => some { p with initialDispatched := some dispatched }
  | .callback => p.currentPollMs.map fun currentMs =>
      p.scheduleNextPoll now (nextOutboxPollDelay config currentMs dispatched)

def tick (config : PollConfig ℤ) (now : ℤ) (p : Poller) (caller : TickCaller) : Option Poller :=
  if p.dispatching then p.resume config now none caller
  else some { p with dispatching := true, dispatches := p.dispatches ++ [caller] }

/-- The handlers are installed after the first call of `scheduleNextPoll`. -/
def listens (p : Poller) : Bool := p.currentPollMs.isSome

def takeDown (p : Poller) : Poller := { p with pollTimer := none }

end Poller

def pollStep (config : PollConfig ℤ) (now : ℤ) (p : Poller) : PollAction → Option Poller
  | .dispatchSettles i outcome =>
      match p.dispatches[i]? with
      | none => none
      | some caller =>
          { p with dispatching := false, dispatches := p.dispatches.eraseIdx i }.resume config now
            (Tick.dispatched ⟨false, outcome⟩) caller
  | .boots =>
      match p.initialDispatched, p.currentPollMs with
      | some dispatched, none =>
          some (p.scheduleNextPoll now (nextOutboxPollDelay config config.baseMs dispatched))
      | _, _ => none
  | .fires =>
      match p.pollTimer with
      | some due =>
          if due ≤ now then { p with pollTimer := none }.tick config now .callback else none
      | none => none

/-- `worker.close`, `queue.close` and the settled connections. -/
def workerPlan (shutdownGraceMs : ℤ) : StopPlan StopTrigger Poller where
  graceMs := shutdownGraceMs
  parts := [⟨.stuck, fun _ => true⟩, ⟨.stuck, fun _ => true⟩, ⟨.passedOver, fun _ => true⟩]
  exitCode _ := 0

abbrev WorkerProcess := Stoppable StopTrigger Poller

abbrev WorkerAction := StopAction StopTrigger PollAction

def workerStep (config : PollConfig ℤ) (shutdownGraceMs : ℤ) :
    WorkerProcess → WorkerAction → Option WorkerProcess :=
  stopStep (workerPlan shutdownGraceMs) (pollStep config) Poller.listens Poller.takeDown

def WorkerProcess.start (now : ℤ) : WorkerProcess := ⟨now, .running, .start⟩

/-- The outcome of a pass that the action settles. -/
def WorkerAction.tick : WorkerAction → Option Tick
  | .work (.dispatchSettles _ outcome) => some ⟨false, outcome⟩
  | _ => none

/-- The ticks whose passes have settled, the first of the process among them. -/
def settledTicks (acts : List WorkerAction) : List Tick := acts.filterMap WorkerAction.tick

theorem settledTicks_append (acts : List WorkerAction) (a : WorkerAction) :
    settledTicks (acts ++ [a]) = settledTicks acts ++ a.tick.toList := by
  cases htick : a.tick <;> simp [settledTicks, List.filterMap_append, htick]

theorem settledTicks_append_of_none {a : WorkerAction} (h : a.tick = none)
    (acts : List WorkerAction) : settledTicks (acts ++ [a]) = settledTicks acts := by
  rw [settledTicks_append, h, Option.toList_none, List.append_nil]

section Loop

variable {config : PollConfig ℤ} {shutdownGraceMs : ℤ} {s s' : WorkerProcess} {a : WorkerAction}
variable {acts : List WorkerAction} {ticks : List Tick} {p p' : Poller} {now : ℤ}

/-- Where the loop is after the ticks that have settled: at most one pass is
under way, and the flag says whether one is. -/
inductive PollPhase (config : PollConfig ℤ) : List Tick → Poller → Prop
  | starting : PollPhase config [] .start
  | started (first : Tick) : PollPhase config [first] ⟨false, [], some first.dispatched, none, none⟩
  | waiting (first : Tick) (ticks : List Tick) (pollTimer : Option ℤ) : PollPhase config
      (first :: ticks)
      ⟨false, [], some first.dispatched, some (currentPollMs config first ticks), pollTimer⟩
  | polling (first : Tick) (ticks : List Tick) : PollPhase config (first :: ticks)
      ⟨true, [.callback], some first.dispatched, some (currentPollMs config first ticks), none⟩

/-- What a step of the loop does from each of its phases. -/
inductive PollMove (config : PollConfig ℤ) (now : ℤ) :
    List Tick → Poller → PollAction → Poller → Prop
  | startupSettles (outcome : Except Failure ℕ) : PollMove config now [] .start
      (.dispatchSettles 0 outcome)
      ⟨false, [], some (Tick.dispatched ⟨false, outcome⟩), none, none⟩
  | boots (first : Tick) : PollMove config now [first]
      ⟨false, [], some first.dispatched, none, none⟩ .boots
      (Poller.scheduleNextPoll ⟨false, [], some first.dispatched, none, none⟩ now
        (currentPollMs config first []))
  | fires (first : Tick) (ticks : List Tick) (due : ℤ) (hdue : due ≤ now) :
      PollMove config now (first :: ticks)
        ⟨false, [], some first.dispatched, some (currentPollMs config first ticks), some due⟩ .fires
        ⟨true, [.callback], some first.dispatched, some (currentPollMs config first ticks), none⟩
  | callbackSettles (first : Tick) (ticks : List Tick) (outcome : Except Failure ℕ) :
      PollMove config now (first :: ticks)
        ⟨true, [.callback], some first.dispatched, some (currentPollMs config first ticks), none⟩
        (.dispatchSettles 0 outcome)
        (Poller.scheduleNextPoll
          ⟨false, [], some first.dispatched, some (currentPollMs config first ticks), none⟩ now
          (currentPollMs config first (ticks ++ [⟨false, outcome⟩])))

theorem PollPhase.move (hp : PollPhase config ticks p) {b : PollAction}
    (h : pollStep config now p b = some p') : PollMove config now ticks p b p' := by
  cases b with
  | dispatchSettles i outcome =>
      cases hp with
      | starting =>
          cases i with
          | zero =>
              obtain rfl := Option.some.inj h
              exact .startupSettles outcome
          | succ i => cases h
      | started | waiting => cases h
      | polling first ticks =>
          cases i with
          | zero =>
              obtain rfl := Option.some.inj h
              have hmove : PollMove config now _ _ _ _ := .callbackSettles first ticks outcome
              rw [currentPollMs_append] at hmove
              exact hmove
          | succ i => cases h
  | boots =>
      cases hp with
      | started first =>
          obtain rfl := Option.some.inj h
          exact .boots first
      | starting | waiting | polling => cases h
  | fires =>
      cases hp with
      | waiting first ticks pollTimer =>
          cases pollTimer with
          | none => cases h
          | some due =>
              simp only [pollStep] at h
              split at h
              · next hdue =>
                  obtain rfl := Option.some.inj h
                  exact .fires first ticks due hdue
              · cases h
      | starting | started | polling => cases h

theorem PollMove.phase {b : PollAction} (h : PollMove config now ticks p b p') :
    PollPhase config (ticks ++ (WorkerAction.tick (.work b)).toList) p' := by
  cases h with
  | startupSettles outcome => exact .started ⟨false, outcome⟩
  | boots first => exact .waiting first [] (some (now + currentPollMs config first []))
  | fires first ticks => simpa [WorkerAction.tick] using .polling first ticks
  | callbackSettles first ticks outcome => exact .waiting first (ticks ++ [⟨false, outcome⟩]) _

/-- A move that leaves the timer set has just set it. -/
theorem PollMove.due_eq {b : PollAction} (h : PollMove config now ticks p b p') {due pollMs : ℤ}
    (hdue : p'.pollTimer = some due) (hms : p'.currentPollMs = some pollMs) :
    due = now + pollMs := by
  cases h with
  | startupSettles | fires => cases hdue
  | boots | callbackSettles =>
      obtain rfl := Option.some.inj hdue
      obtain rfl := Option.some.inj hms
      rfl

theorem PollMove.armed {b : PollAction} (h : PollMove config now ticks p b p')
    (hms : p'.currentPollMs.isSome) : p'.pollTimer.isSome ∨ p'.dispatches ≠ [] := by
  cases h with
  | startupSettles => cases hms
  | boots | callbackSettles => exact .inl rfl
  | fires => exact .inr nofun

theorem PollPhase.takeDown (h : PollPhase config ticks p) :
    PollPhase config ticks p.takeDown := by
  cases h with
  | starting => exact .starting
  | started first => exact .started first
  | waiting first ticks => exact .waiting first ticks none
  | polling first ticks => exact .polling first ticks

theorem PollPhase.dispatches_length (h : PollPhase config ticks p) : p.dispatches.length ≤ 1 := by
  cases h with
  | starting | polling => exact le_rfl
  | started | waiting => exact Nat.zero_le 1

theorem PollPhase.dispatches_eq (h : PollPhase config ticks p) (hms : p.currentPollMs.isSome)
    (hpass : p.dispatches ≠ []) : p.dispatches = [.callback] := by
  cases h with
  | starting => cases hms
  | started | waiting => exact absurd rfl hpass
  | polling => rfl

/-- The timer fires where no pass is under way. -/
theorem PollPhase.fires (h : PollPhase config ticks s.rest)
    (hstep : workerStep config shutdownGraceMs s (.work .fires) = some s') :
    ∃ due pollMs, s.rest.dispatching = false ∧ s.rest.dispatches = [] ∧
      s.rest.pollTimer = some due ∧ s.rest.currentPollMs = some pollMs ∧ due ≤ s.now := by
  cases stopStep_rest hstep with
  | worked hexit hwork =>
      have hmove := h.move hwork
      generalize s.rest = p at hmove
      cases hmove with
      | fires first ticks due hdue => exact ⟨due, _, rfl, rfl, rfl, rfl, hdue⟩
  | unmoved _ hnot => exact absurd rfl (hnot .fires)

/-- A pass settled at this time of the run. -/
def SettledAt (config : PollConfig ℤ) (shutdownGraceMs : ℤ) (start : WorkerProcess)
    (acts : List WorkerAction) (time : ℤ) : Prop :=
  ∃ before i outcome after u, acts = before ++ .work (.dispatchSettles i outcome) :: after ∧
    exec (workerStep config shutdownGraceMs) start before = some u ∧ u.now = time

theorem SettledAt.of_append {start : WorkerProcess} {time : ℤ}
    (h : SettledAt config shutdownGraceMs start (acts ++ [a]) time)
    (hrun : exec (workerStep config shutdownGraceMs) start acts = some s) :
    SettledAt config shutdownGraceMs start acts time ∨ a.tick.isSome ∧ s.now = time := by
  obtain ⟨before, i, outcome, after, u, happend, hu, htime⟩ := h
  rcases List.eq_nil_or_concat after with rfl | ⟨after, last, rfl⟩
  · obtain ⟨rfl, hlast⟩ := List.append_inj' happend rfl
    obtain rfl := (List.cons.inj hlast).1
    obtain rfl := Option.some.inj (hrun.symm.trans hu)
    exact .inr ⟨rfl, htime⟩
  · rw [List.concat_eq_append, ← List.cons_append, ← List.append_assoc] at happend
    obtain ⟨rfl, -⟩ := List.append_inj' happend rfl
    exact .inl ⟨before, i, outcome, after, u, rfl, hu, htime⟩

/-- What holds of the loop after a run. -/
structure Polled (config : PollConfig ℤ) (shutdownGraceMs : ℤ) (start : WorkerProcess)
    (acts : List WorkerAction) (s : WorkerProcess) : Prop where
  phase : PollPhase config (settledTicks acts) s.rest
  armed : s.stop = .running → s.rest.currentPollMs.isSome →
    s.rest.pollTimer.isSome ∨ s.rest.dispatches ≠ []
  settled : ∀ time, SettledAt config shutdownGraceMs start acts time → time ≤ s.now
  waits : ∀ due pollMs, s.rest.pollTimer = some due → s.rest.currentPollMs = some pollMs →
    ∀ time, SettledAt config shutdownGraceMs start acts time → time + pollMs ≤ due

theorem Polled.step {start : WorkerProcess} (hs : Polled config shutdownGraceMs start acts s)
    (hrun : exec (workerStep config shutdownGraceMs) start acts = some s)
    (h : workerStep config shutdownGraceMs s a = some s') :
    Polled config shutdownGraceMs start (acts ++ [a]) s' := by
  have hnow := stopStep_now h
  have hsettled : ∀ time, SettledAt config shutdownGraceMs start (acts ++ [a]) time →
      time ≤ s.now := by
    intro time htime
    rcases htime.of_append hrun with hold | ⟨-, rfl⟩
    · exact hs.settled time hold
    · exact le_rfl
  cases stopStep_rest h with
  | @worked b rest hexit hwork =>
      have hmove := hs.phase.move hwork
      refine ⟨?_, fun _ => hmove.armed, hsettled, ?_⟩
      · rw [settledTicks_append]
        exact hmove.phase
      · intro due pollMs hdue hms time htime
        rw [hmove.due_eq hdue hms]
        exact Int.add_le_add_right (hsettled time htime) pollMs
  | @takenDown t stop hrunning hstopped hlistens =>
      refine ⟨?_, fun hstop => absurd hstop hstopped, hsettled, nofun⟩
      rw [settledTicks_append_of_none rfl]
      exact hs.phase.takeDown
  | unmoved hrest hwork hstop =>
      have htick : a.tick = none := by
        cases a with
        | work b => exact absurd rfl (hwork b)
        | wait | trigger | settle | force => rfl
      refine ⟨?_, fun hrunning => ?_, fun time htime => (hsettled time htime).trans hnow, ?_⟩
      · rw [settledTicks_append_of_none htick, hrest]
        exact hs.phase
      · rw [hrest]
        exact hs.armed (hstop hrunning)
      · rw [hrest]
        intro due pollMs hdue hms time htime
        rcases htime.of_append hrun with hold | ⟨hsome, -⟩
        · exact hs.waits due pollMs hdue hms time hold
        · simp [htick] at hsome

theorem polled_run {start : WorkerProcess} (hstart : start.rest = .start)
    (hrun : exec (workerStep config shutdownGraceMs) start acts = some s) :
    Polled config shutdownGraceMs start acts s := by
  refine exec_trace (I := Polled config shutdownGraceMs start) ?_ ?_ hrun
  · refine ⟨hstart ▸ .starting, fun _ => ?_, ?_, ?_⟩
    · simp [hstart, Poller.start]
    · rintro time ⟨before, i, outcome, after, u, happend, -⟩
      simp at happend
    · simp [hstart, Poller.start]
  · exact fun _ _ _ _ hbefore hu hstep => hu.step hbefore hstep

/-- In every run of a worker its passes do not overlap and no tick is skipped,
the delay in force is that of the idle streak of the passes so far, each pass
of the loop waits it out from the end of the pass before, and the loop goes on
until the process is told to stop. -/
theorem passes_do_not_overlap (config : PollConfig ℤ) (shutdownGraceMs : ℤ)
    (hbase : 1 ≤ config.baseMs) (now : ℤ) {acts : List WorkerAction} {s : WorkerProcess}
    (hrun : exec (workerStep config shutdownGraceMs) (.start now) acts = some s) :
    s.rest.dispatches.length ≤ 1 ∧
      (∀ pollMs, s.rest.currentPollMs = some pollMs →
        pollMs = min (max config.baseMs config.maxIdleMs)
          (config.baseMs * 2 ^ idleStreak (settledTicks acts))) ∧
      (s.stop = .running → s.rest.currentPollMs.isSome →
        s.rest.pollTimer.isSome ∨ s.rest.dispatches = [.callback]) ∧
      ∀ pre post u, acts = pre ++ .work .fires :: post →
        exec (workerStep config shutdownGraceMs) (.start now) pre = some u →
        u.rest.dispatching = false ∧ u.rest.dispatches = [] ∧
          ∀ time, SettledAt config shutdownGraceMs (.start now) pre time →
            time + min (max config.baseMs config.maxIdleMs)
              (config.baseMs * 2 ^ idleStreak (settledTicks pre)) ≤ u.now := by
  have hdelay : ∀ {acts : List WorkerAction} {s : WorkerProcess},
      exec (workerStep config shutdownGraceMs) (.start now) acts = some s → ∀ pollMs,
        s.rest.currentPollMs = some pollMs → pollMs = min (max config.baseMs config.maxIdleMs)
          (config.baseMs * 2 ^ idleStreak (settledTicks acts)) := by
    intro acts s hrun pollMs hms
    have hphase := (polled_run rfl hrun).phase
    generalize settledTicks acts = ticks, s.rest = p at hphase hms
    cases hphase with
    | starting | started => cases hms
    | waiting first ticks | polling first ticks =>
        obtain rfl := Option.some.inj hms
        exact currentPollMs_eq hbase first ticks
  have hs := polled_run rfl hrun
  refine ⟨hs.phase.dispatches_length, hdelay hrun, fun hrunning hms => ?_, ?_⟩
  · rcases hs.armed hrunning hms with htimer | hpass
    · exact .inl htimer
    · exact .inr (hs.phase.dispatches_eq hms hpass)
  · rintro pre post u rfl hu
    obtain ⟨u', hu', hafter⟩ := exec_append_iff.mp hrun
    obtain rfl := Option.some.inj (hu.symm.trans hu')
    obtain ⟨v, hfires, -⟩ := exec_cons_iff.mp hafter
    have hbefore := polled_run rfl hu
    obtain ⟨due, pollMs, hflag, hpasses, htimer, hms, hdue⟩ := hbefore.phase.fires hfires
    refine ⟨hflag, hpasses, fun time htime => ?_⟩
    rw [← hdelay hu pollMs hms]
    exact (hbefore.waits due pollMs htimer hms time htime).trans hdue

/-- A pass of the first tick that finds nothing, a pass of the loop that fails
and, while it is under way, a signal. -/
theorem passes_do_not_overlap_stopped : ∃ s,
    exec (workerStep ⟨2000, 15000⟩ 10000) (WorkerProcess.start 0)
      [.work (.dispatchSettles 0 (.ok 0)), .wait 100, .work .boots, .wait 4000, .work .fires,
        .trigger .sigterm, .wait 50,
        .work (.dispatchSettles 0 (.error (.client ⟨some "P1001", none, none⟩)))] = some s ∧
    s.rest.dispatches.length ≤ 1 ∧ s.rest.currentPollMs = some 2000 := by
  obtain ⟨s, hrun, hms⟩ : ∃ s,
      exec (workerStep ⟨2000, 15000⟩ 10000) (WorkerProcess.start 0)
        [.work (.dispatchSettles 0 (.ok 0)), .wait 100, .work .boots, .wait 4000, .work .fires,
          .trigger .sigterm, .wait 50,
          .work (.dispatchSettles 0 (.error (.client ⟨some "P1001", none, none⟩)))] = some s ∧
      s.rest.currentPollMs = some 2000 := ⟨_, rfl, rfl⟩
  exact ⟨s, hrun, (passes_do_not_overlap ⟨2000, 15000⟩ 10000 (by decide) 0 hrun).1, hms⟩

/-- The loop has come to its end. -/
def Poller.Over (p : Poller) : Prop :=
  p.currentPollMs.isSome ∧ p.dispatches = [] ∧ p.pollTimer = none

theorem Poller.Over.pollStep_eq (h : p.Over) (b : PollAction) :
    pollStep config now p b = none := by
  obtain ⟨hms, hpasses, htimer⟩ := h
  cases b with
  | dispatchSettles i outcome => simp [pollStep, hpasses]
  | boots =>
      obtain ⟨pollMs, hms⟩ := Option.isSome_iff_exists.mp hms
      simp [pollStep, hms]
  | fires => simp [pollStep, htimer]

theorem Poller.Over.step (hs : s.rest.Over)
    (h : workerStep config shutdownGraceMs s a = some s') : s'.rest.Over := by
  cases stopStep_rest h with
  | @worked b rest hexit hwork =>
      rw [hs.pollStep_eq b] at hwork
      cases hwork
  | takenDown => exact ⟨hs.1, hs.2.1, rfl⟩
  | unmoved hrest => exact hrest ▸ hs

theorem closingCode_worker {oks : List Bool} {code : ℕ}
    (h : closingCode (workerPlan shutdownGraceMs).parts oks 0 = some code) :
    code = 0 ∧ ∃ quit, oks = [true, true, quit] := by
  obtain ⟨afterWorker, rfl, hworker⟩ := exists_of_closingCode_stuck h
  obtain ⟨afterQueue, rfl, hqueue⟩ := exists_of_closingCode_stuck hworker
  obtain ⟨quit, afterQuit, rfl, hquit⟩ := exists_of_closingCode_passedOver hqueue
  obtain ⟨rfl, rfl⟩ := eq_of_closingCode_nil hquit
  exact ⟨rfl, quit, rfl⟩

/-- A worker that stops exits with `0` once its worker and its queue have
closed, or else with `1` when its grace period is over and not before; where its
timer is on time it does not outlive the grace period. A first trigger that
comes while no pass is under way ends the poll loop for good. -/
theorem worker_stops (config : PollConfig ℤ) {shutdownGraceMs : ℤ} (hgrace : 0 ≤ shutdownGraceMs)
    (now : ℤ) {acts : List WorkerAction} {s : WorkerProcess}
    (hrun : exec (workerStep config shutdownGraceMs) (WorkerProcess.start now) acts = some s) :
    (∀ t since at_ code, s.stop = .exited t since at_ code →
      FirstTrigger (workerStep config shutdownGraceMs) (WorkerProcess.start now) acts t since ∧
        (code = 0 ∧ (∃ quit, settles acts = [true, true, quit]) ∨
          code = 1 ∧ since + shutdownGraceMs ≤ at_)) ∧
      (Along (workerStep config shutdownGraceMs) (OnTime (workerPlan shutdownGraceMs))
        (WorkerProcess.start now) acts → s.stop.Prompt (workerPlan shutdownGraceMs) s.now) ∧
      ∀ pre t post u, acts = pre ++ .trigger t :: post →
        exec (workerStep config shutdownGraceMs) (WorkerProcess.start now) pre = some u →
        u.stop = .running → u.rest.dispatches = [] → ∀ b, .work b ∉ post := by
  refine ⟨fun t since at_ code hexit => ?_, fun hontime => exec_prompt hgrace rfl hontime hrun, ?_⟩
  · obtain ⟨hfirst, hforced | hclosed⟩ := exec_exited rfl hrun hexit
    · exact ⟨hfirst, .inr hforced⟩
    · exact ⟨hfirst, .inl (closingCode_worker hclosed)⟩
  · rintro pre t post u rfl hu hrunning hpasses b hmem
    obtain ⟨u', hu', hafter⟩ := exec_append_iff.mp hrun
    obtain rfl := Option.some.inj (hu.symm.trans hu')
    obtain ⟨v, hv, hpost⟩ := exec_cons_iff.mp hafter
    have hover : v.rest.Over := by
      obtain ⟨hlistens, hrest⟩ := stopStep_trigger hrunning hv
      exact hrest ▸ ⟨hlistens, hpasses, rfl⟩
    obtain ⟨mid, last, rfl⟩ := List.append_of_mem hmem
    obtain ⟨w, hw, hlast⟩ := exec_append_iff.mp hpost
    obtain ⟨x, hx, -⟩ := exec_cons_iff.mp hlast
    have hstill : w.rest.Over :=
      exec_invariant (I := fun w => w.rest.Over) (fun _ _ _ hw hstep => hw.step hstep) hover hw
    cases stopStep_rest hx with
    | worked _ hwork =>
        rw [hstill.pollStep_eq b] at hwork
        cases hwork
    | unmoved _ hwork => exact hwork b rfl

/-- A worker told to stop between two passes; its queue does not close. -/
theorem worker_stops_forced : ∃ s,
    exec (workerStep ⟨2000, 15000⟩ 10000) (WorkerProcess.start 0)
      [.work (.dispatchSettles 0 (.ok 3)), .work .boots, .wait 700, .trigger .sigterm,
        .settle true, .settle false, .trigger .unhandledRejection, .wait 10000, .force] = some s ∧
    s.stop = .exited .sigterm 700 10700 1 ∧ s.stop.Prompt (workerPlan 10000) s.now := by
  obtain ⟨s, hrun, hexit⟩ : ∃ s,
      exec (workerStep ⟨2000, 15000⟩ 10000) (WorkerProcess.start 0)
        [.work (.dispatchSettles 0 (.ok 3)), .work .boots, .wait 700, .trigger .sigterm,
          .settle true, .settle false, .trigger .unhandledRejection, .wait 10000, .force] = some s ∧
      s.stop = .exited .sigterm 700 10700 1 := ⟨_, rfl, rfl⟩
  exact ⟨s, hrun, hexit, (worker_stops ⟨2000, 15000⟩ (by decide) 0 hrun).2.1 (by decide)⟩

end Loop

end Eventify
