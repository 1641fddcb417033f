import Eventify.Process.MigrationBackoff
import Eventify.Process.Serving

/-!
# The start of the API process

`start-production.mjs` applies the migrations, again and again with a growing
delay, and then runs the API as its child, whose signals and exit it passes on.
-/

namespace Eventify

open Library

inductive OsSignal where
  | sigterm
  | sigint
  | other (name : String)
  deriving DecidableEq, Repr

/-- The two signals that are passed on to the API. -/
def OsSignal.trigger : OsSignal → Option StopTrigger
  | .sigterm => some .sigterm
  | .sigint => some .sigint
  | .other _ => none

/-- The `code` and `signal` of an `exit` event, of which one is `null`. -/
inductive ProcessExit where
  | code (code : ℕ)
  | signal (signal : OsSignal)
  deriving DecidableEq, Repr

structure MigrationRun where
  startedAt : ℤ
  endedAt : ℤ
  exit : ProcessExit
  deriving DecidableEq, Repr

/-- What the API process was when it ended: `none` while it was being loaded, with
no handlers yet. -/
abbrev ServerEnd := Option ServerProcess

inductive LaunchEnd where
  | migrationsFailed
  | spawnFailed
  | killed (signal : OsSignal)
  | serverEnded (exit : ProcessExit) (server : ServerEnd)

/-- How the start script itself ends. A signal of the API that has a handler here
does not end it, and nothing else is left to do. -/
def LaunchEnd.exit : LaunchEnd → ProcessExit
  | .migrationsFailed | .spawnFailed => .code 1
  | .killed signal => .signal signal
  | .serverEnded (.code code) _ => .code code
  | .serverEnded (.signal signal) _ =>
      if signal.trigger.isSome then .code 0 else .signal signal

inductive LaunchStage where
  | migrating (attempt : ℕ) (since : ℤ)
  | sleeping (attempt : ℕ) (due : ℤ)
  | loading
  | serving (server : ServerProcess)
  | ended (cause : LaunchEnd)

/-- `runs` is history. -/
structure Launch where
  now : ℤ
  stage : LaunchStage
  runs : List MigrationRun

inductive LaunchAction where
  | wait (ms : ℕ)
  | migrationEnds (exit : ProcessExit) (random : JsNumber)
  | wakes
  | spawnFails
  | loaded
  | serverDies (exit : ProcessExit)
  | server (a : ServerAction)
  | exits
  | signalled (signal : OsSignal)

namespace Launch

/-- The head of the loop. -/
def loop (config : MigrationConfig) (s : Launch) (attempt : ℕ) : Launch :=
  if config.maxAttempts.atLeast attempt then { s with stage := .migrating attempt s.now }
  else { s with stage := .ended .migrationsFailed }

def start (config : MigrationConfig) (now : ℤ) : Launch :=
  loop config ⟨now, .ended .migrationsFailed, []⟩ 1

end Launch

def launchStep (config : MigrationConfig) (shutdownGraceMs : ℤ) (s : Launch) :
    LaunchAction → Option Launch
  | .wait ms =>
      match s.stage with
      | .ended _ => none
      | .serving server =>
          (serverStep shutdownGraceMs server (.wait ms)).map fun server =>
            { s with now := s.now + ms, stage := .serving server }
      | _ => some { s with now := s.now + ms }
  | .migrationEnds exit random =>
      match s.stage with
      | .migrating attempt since =>
          let run : MigrationRun := ⟨since, s.now, exit⟩
          let s := { s with runs := s.runs ++ [run] }
          if exit = .code 0 then some { s with stage := .loading }
          else if config.maxAttempts.above attempt then
            let delayMs := timeoutMs (migrationRetryDelay config attempt random)
            some { s with stage := .sleeping attempt (s.now + delayMs) }
          else some (s.loop config (attempt + 1))
      | _ => none
  | .wakes =>
      match s.stage with
      | .sleeping attempt due =>
          if due ≤ s.now then some (s.loop config (attempt + 1)) else none
      | _ => none
  | .spawnFails =>
      match s.stage with
      | .loading => some { s with stage := .ended .spawnFailed }
      | _ => none
  | .loaded =>
      match s.stage with
      | .loading => some { s with stage := .serving (.start s.now) }
      | _ => none
  | .serverDies exit =>
      match s.stage, exit with
      | .loading, exit => some { s with stage := .ended (.serverEnded exit none) }
      -- with its handlers the API ends by its own `exit` or by another signal
      | .serving server, .signal signal =>
          if signal.trigger = none then
            some { s with stage := .ended (.serverEnded exit (some server)) }
          else none
      | _, _ => none
  | .server a =>
      match s.stage, a with
      | .serving _, .wait _ => none
      | .serving server, a =>
          (serverStep shutdownGraceMs server a).map fun server =>
            { s with stage := .serving server }
      | _, _ => none
  | .exits =>
      match s.stage with
      | .serving server =>
          match server.stop with
          | .exited _ _ _ code =>
              some { s with stage := .ended (.serverEnded (.code code) (some server)) }
          | _ => none
      | _ => none
  | .signalled signal =>
      match s.stage with
      | .ended _ => none
      | .migrating _ _ | .sleeping _ _ => some { s with stage := .ended (.killed signal) }
      | .loading =>
          if signal.trigger.isSome then
            some { s with stage := .ended (.serverEnded (.signal signal) none) }
          else some { s with stage := .ended (.killed signal) }
      | .serving server =>
          match signal.trigger with
          | none => some { s with stage := .ended (.killed signal) }
          | some t =>
              match server.stop with
              | .exited _ _ _ _ => some s
              | _ => (serverStep shutdownGraceMs server (.trigger t)).map fun server =>
                  { s with stage := .serving server }

section Runs

variable {config : MigrationConfig} {shutdownGraceMs : ℤ} {s s' : Launch} {a : LaunchAction}
variable {runs : List MigrationRun} {run : MigrationRun}

def Failed (runs : List MigrationRun) : Prop := ∀ run ∈ runs, run.exit ≠ .code 0

/-- The last migration went through, the ones before it failed. -/
def Succeeded (runs : List MigrationRun) : Prop :=
  ∃ failed last, runs = failed ++ [last] ∧ Failed failed ∧ last.exit = .code 0

/-- A server process that runs of the API lead to. -/
def Reached (shutdownGraceMs : ℤ) (server : ServerProcess) : Prop :=
  ∃ now acts, exec (serverStep shutdownGraceMs) (ServerProcess.start now) acts = some server

/-- The delay after the attempt has gone by between the two runs. -/
def Waited (config : MigrationConfig) (attempt : ℕ) (run : MigrationRun) (startedAt : ℤ) : Prop :=
  ∃ random, run.endedAt + timeoutMs (migrationRetryDelay config attempt random) ≤ startedAt

/-- What the API process was when the start script saw it end. -/
def Ended (shutdownGraceMs : ℤ) : ProcessExit → ServerEnd → Prop
  | _, none => True
  | .code code, some server => Reached shutdownGraceMs server ∧
      ∃ t since at_, server.stop = .exited t since at_ code
  | .signal signal, some _ => signal.trigger = none

def StageHolds (config : MigrationConfig) (shutdownGraceMs : ℤ) (runs : List MigrationRun) :
    LaunchStage → Prop
  | .migrating attempt since => Failed runs ∧ attempt = runs.length + 1 ∧
      config.maxAttempts.atLeast attempt ∧
      ∀ last ∈ runs.getLast?, Waited config runs.length last since
  | .sleeping attempt due => Failed runs ∧ attempt = runs.length ∧
      ∀ last ∈ runs.getLast?, Waited config runs.length last due
  | .loading => Succeeded runs
  | .serving server => Succeeded runs ∧ Reached shutdownGraceMs server
  | .ended .migrationsFailed => Failed runs ∧ config.maxAttempts.atLeast (runs.length + 1) = false
  | .ended .spawnFailed => Succeeded runs
  | .ended (.killed _) => Failed runs ∨ Succeeded runs
  | .ended (.serverEnded exit server) => Succeeded runs ∧ Ended shutdownGraceMs exit server

/-- What holds of the migrations that have been run. -/
structure Migrations (config : MigrationConfig) (runs : List MigrationRun) : Prop where
  allowed : runs ≠ [] → config.maxAttempts.atLeast runs.length
  spaced : ∀ i earlier later, runs[i]? = some earlier → runs[i + 1]? = some later →
    Waited config (i + 1) earlier later.startedAt

theorem Migrations.append (hs : Migrations config runs)
    (hleast : config.maxAttempts.atLeast (runs.length + 1))
    (hwaited : ∀ last ∈ runs.getLast?, Waited config runs.length last run.startedAt) :
    Migrations config (runs ++ [run]) := by
  refine ⟨fun _ => by simpa using hleast, fun i earlier later hearlier hlater => ?_⟩
  obtain ⟨hbound, -⟩ := List.getElem?_eq_some_iff.mp hlater
  rw [List.length_append, List.length_singleton] at hbound
  rw [List.getElem?_append_left (by omega)] at hearlier
  rcases Nat.lt_or_ge (i + 1) runs.length with hold | hnew
  · rw [List.getElem?_append_left hold] at hlater
    exact hs.spaced i earlier later hearlier hlater
  · have hlength : runs.length = i + 1 := by omega
    rw [List.getElem?_append_right hnew, hlength, Nat.sub_self] at hlater
    obtain rfl := Option.some.inj hlater
    rw [← hlength]
    refine hwaited earlier ?_
    rw [List.getLast?_eq_getElem?, hlength]
    exact hearlier

/-- What holds after a run of the start script. -/
structure Launching (config : MigrationConfig) (shutdownGraceMs : ℤ) (s : Launch) : Prop where
  migrations : Migrations config s.runs
  stage : StageHolds config shutdownGraceMs s.runs s.stage

theorem atLeast_succ_of_not_above {n : JsNumber} {count : ℕ} (h : n.above count = false) :
    n.atLeast (count + 1) = false := by
  cases n with
  | finite value =>
      simp only [JsNumber.above, JsNumber.atLeast, decide_eq_false_iff_not, not_lt, not_le,
        Nat.cast_add, Nat.cast_one] at h ⊢
      linarith
  | infinity => cases h
  | negInfinity | nan => rfl

/-- The head of the loop, behind failed attempts. -/
theorem Launching.loop (hs : Migrations config s.runs) (hfailed : Failed s.runs)
    (hwaited : ∀ last ∈ s.runs.getLast?, Waited config s.runs.length last s.now) :
    Launching config shutdownGraceMs (s.loop config (s.runs.length + 1)) := by
  rw [Launch.loop]
  split
  · next hleast => exact ⟨hs, hfailed, rfl, hleast, hwaited⟩
  · next hleast => exact ⟨hs, hfailed, by simpa using hleast⟩

theorem Reached.step {server server' : ServerProcess} (h : Reached shutdownGraceMs server)
    {a : ServerAction} (hstep : serverStep shutdownGraceMs server a = some server') :
    Reached shutdownGraceMs server' := by
  obtain ⟨now, acts, hrun⟩ := h
  refine ⟨now, acts ++ [a], exec_append_iff.mpr ⟨server, hrun, ?_⟩⟩
  rw [exec_singleton, hstep]

/-- A migration ends, and with it an attempt. -/
theorem Launching.migrated (hs : Launching config shutdownGraceMs s) {attempt : ℕ} {since : ℤ}
    (hstage : s.stage = .migrating attempt since) {exit : ProcessExit} {random : JsNumber}
    (h : launchStep config shutdownGraceMs s (.migrationEnds exit random) = some s') :
    Launching config shutdownGraceMs s' := by
  have hholds := hs.stage
  rw [hstage] at hholds
  obtain ⟨hfailed, rfl, hleast, hwaited⟩ := hholds
  simp only [launchStep, hstage] at h
  have hruns : Migrations config (s.runs ++ [⟨since, s.now, exit⟩]) :=
    hs.migrations.append hleast hwaited
  split at h
  · next hcode =>
      obtain rfl := Option.some.inj h
      exact ⟨hruns, s.runs, _, rfl, hfailed, hcode⟩
  · next hcode =>
      have hfailed' : Failed (s.runs ++ [⟨since, s.now, exit⟩]) := by
        intro run hrun
        rcases List.mem_append.mp hrun with hold | hnew
        · exact hfailed run hold
        · obtain rfl := List.mem_singleton.mp hnew
          exact hcode
      split at h
      · obtain rfl := Option.some.inj h
        refine ⟨hruns, hfailed', by simp, fun last hlast => ?_⟩
        obtain rfl : ⟨since, s.now, exit⟩ = last := by simpa using hlast
        exact ⟨random, by simp⟩
      · next habove =>
          obtain rfl := Option.some.inj h
          have hend := atLeast_succ_of_not_above (Bool.not_eq_true _ ▸ habove)
          rw [Launch.loop, if_neg (by simpa using hend)]
          exact ⟨hruns, hfailed', by simpa using hend⟩

theorem Waited.mono {attempt : ℕ} {earlier later : ℤ} (h : Waited config attempt run earlier)
    (hle : earlier ≤ later) : Waited config attempt run later := by
  obtain ⟨random, hwait⟩ := h
  exact ⟨random, hwait.trans hle⟩

/-- The steps of the start script once the migrations are through. -/
theorem Launching.served (hs : Launching config shutdownGraceMs s) {server : ServerProcess}
    (hstage : s.stage = .serving server) (h : launchStep config shutdownGraceMs s a = some s') :
    Launching config shutdownGraceMs s' := by
  have hholds := hs.stage
  rw [hstage] at hholds
  obtain ⟨hsucceeded, hreached⟩ := hholds
  have hstep : ∀ {act : ServerAction} {now : ℤ}, (serverStep shutdownGraceMs server act).map
      (fun server => ({ s with now, stage := .serving server } : Launch)) = some s' →
      Launching config shutdownGraceMs s' := by
    intro act now hmap
    obtain ⟨server', hserver, rfl⟩ := Option.map_eq_some_iff.mp hmap
    exact ⟨hs.migrations, hsucceeded, hreached.step hserver⟩
  cases a with
  | wait ms =>
      simp only [launchStep, hstage] at h
      exact hstep h
  | migrationEnds | wakes | spawnFails | loaded => simp [launchStep, hstage] at h
  | serverDies exit =>
      cases exit with
      | code code => simp [launchStep, hstage] at h
      | signal signal =>
          simp only [launchStep, hstage] at h
          split at h
          · next hother =>
              obtain rfl := Option.some.inj h
              exact ⟨hs.migrations, hsucceeded, hother⟩
          · cases h
  | server act =>
      simp only [launchStep, hstage] at h
      cases act with
      | wait => cases h
      | work | trigger | settle | force => exact hstep h
  | exits =>
      simp only [launchStep, hstage] at h
      split at h
      · next t since at_ code hexit =>
          obtain rfl := Option.some.inj h
          exact ⟨hs.migrations, hsucceeded, hreached, t, since, at_, hexit⟩
      · cases h
  | signalled signal =>
      simp only [launchStep, hstage] at h
      split at h
      · obtain rfl := Option.some.inj h
        exact ⟨hs.migrations, .inr hsucceeded⟩
      · split at h
        · obtain rfl := Option.some.inj h
          exact hs
        · exact hstep h

theorem Launching.step (hs : Launching config shutdownGraceMs s)
    (h : launchStep config shutdownGraceMs s a = some s') :
    Launching config shutdownGraceMs s' := by
  have hholds := hs.stage
  cases hstage : s.stage with
  | serving server => exact hs.served hstage h
  | ended cause => cases a <;> simp [launchStep, hstage] at h
  | migrating attempt since =>
      rw [hstage] at hholds
      cases a with
      | migrationEnds exit random => exact hs.migrated hstage h
      | wait ms =>
          simp only [launchStep, hstage] at h
          obtain rfl := Option.some.inj h
          exact ⟨hs.migrations, hholds⟩
      | signalled signal =>
          simp only [launchStep, hstage] at h
          obtain rfl := Option.some.inj h
          exact ⟨hs.migrations, .inl hholds.1⟩
      | wakes | spawnFails | loaded | serverDies | server | exits => simp [launchStep, hstage] at h
  | sleeping attempt due =>
      rw [hstage] at hholds
      obtain ⟨hfailed, rfl, hwaited⟩ := hholds
      cases a with
      | wakes =>
          simp only [launchStep, hstage] at h
          split at h
          · next hdue =>
              obtain rfl := Option.some.inj h
              exact .loop hs.migrations hfailed fun last hlast => (hwaited last hlast).mono hdue
          · cases h
      | wait ms =>
          simp only [launchStep, hstage] at h
          obtain rfl := Option.some.inj h
          exact ⟨hs.migrations, hfailed, rfl, hwaited⟩
      | signalled signal =>
          simp only [launchStep, hstage] at h
          obtain rfl := Option.some.inj h
          exact ⟨hs.migrations, .inl hfailed⟩
      | migrationEnds | spawnFails | loaded | serverDies | server | exits =>
          simp [launchStep, hstage] at h
  | loading =>
      rw [hstage] at hholds
      cases a with
      | wait ms =>
          simp only [launchStep, hstage] at h
          obtain rfl := Option.some.inj h
          exact ⟨hs.migrations, hholds⟩
      | spawnFails =>
          simp only [launchStep, hstage] at h
          obtain rfl := Option.some.inj h
          exact ⟨hs.migrations, hholds⟩
      | loaded =>
          simp only [launchStep, hstage] at h
          obtain rfl := Option.some.inj h
          exact ⟨hs.migrations, hholds, s.now, [], rfl⟩
      | serverDies exit =>
          simp only [launchStep, hstage] at h
          obtain rfl := Option.some.inj h
          exact ⟨hs.migrations, hholds, by cases exit <;> trivial⟩
      | signalled signal =>
          simp only [launchStep, hstage] at h
          split at h
          · obtain rfl := Option.some.inj h
            exact ⟨hs.migrations, hholds, trivial⟩
          · obtain rfl := Option.some.inj h
            exact ⟨hs.migrations, .inr hholds⟩
      | migrationEnds | wakes | server | exits => simp [launchStep, hstage] at h

theorem launching_run {now : ℤ} {acts : List LaunchAction}
    (hrun : exec (launchStep config shutdownGraceMs) (.start config now) acts = some s) :
    Launching config shutdownGraceMs s := by
  refine exec_invariant (fun _ _ _ hu hstep => hu.step hstep) ?_ hrun
  exact .loop ⟨fun h => absurd rfl h, by simp⟩ (by simp [Failed]) (by simp)

theorem Succeeded.retried (h : Failed runs ∨ Succeeded runs) {i : ℕ} (hi : runs[i]? = some run)
    (hnext : i + 1 < runs.length) : run.exit ≠ .code 0 := by
  rcases h with hfailed | ⟨failed, last, rfl, hfailed, -⟩
  · exact hfailed run (List.mem_of_getElem? hi)
  · rw [List.length_append, List.length_singleton] at hnext
    rw [List.getElem?_append_left (by omega)] at hi
    exact hfailed run (List.mem_of_getElem? hi)

theorem Launching.failed_or_succeeded (hs : Launching config shutdownGraceMs s) :
    Failed s.runs ∨ Succeeded s.runs := by
  have hholds := hs.stage
  cases hstage : s.stage with
  | migrating | sleeping =>
      rw [hstage] at hholds
      exact .inl hholds.1
  | loading =>
      rw [hstage] at hholds
      exact .inr hholds
  | serving =>
      rw [hstage] at hholds
      exact .inr hholds.1
  | ended cause =>
      rw [hstage] at hholds
      cases cause with
      | migrationsFailed => exact .inl hholds.1
      | spawnFailed => exact .inr hholds
      | killed => exact hholds
      | serverEnded => exact .inr hholds.1

theorem le_timeoutMs {ms : ℤ} (h : ms ≤ 2147483647) : ms ≤ timeoutMs ms := by
  rw [timeoutMs]
  split
  · exact le_rfl
  · omega

/-- Where a timer can take the longest delay, a retry waits for the shortest one. -/
theorem Waited.le {attempt : ℕ} {startedAt : ℤ} (h : Waited config attempt run startedAt)
    (hmax : config.longestDelay attempt ≤ 2147483647) :
    run.endedAt + config.shortestDelay attempt ≤ startedAt := by
  obtain ⟨random, hwait⟩ := h
  obtain ⟨hlow, hhigh⟩ := migrationRetryDelay_bounds config attempt random
  have htimeout := le_timeoutMs (hhigh.trans hmax)
  omega

/-- The start of the API, whatever becomes of its migrations, signals and
processes: attempts are limited, one follows another only when that failed and
its delay is over, the API is started only once a migration has gone through,
and the script gives up only with its attempts used up. It exits with `0` only
where the API did, having closed by a signal with no connection left, or where
the API was gone before it had handlers. -/
theorem launch_serves_after_migrations (config : MigrationConfig) (shutdownGraceMs now : ℤ)
    {acts : List LaunchAction} {s : Launch}
    (hrun : exec (launchStep config shutdownGraceMs) (.start config now) acts = some s) :
    (s.runs ≠ [] → config.maxAttempts.atLeast s.runs.length) ∧
      (∀ i run next, s.runs[i]? = some run → s.runs[i + 1]? = some next →
        run.exit ≠ .code 0 ∧ (config.longestDelay (i + 1) ≤ 2147483647 →
          run.endedAt + config.shortestDelay (i + 1) ≤ next.startedAt)) ∧
      (s.stage = .ended .migrationsFailed → (∀ run ∈ s.runs, run.exit ≠ .code 0) ∧
        config.maxAttempts.atLeast (s.runs.length + 1) = false) ∧
      (∀ server, s.stage = .serving server →
        ∃ last, s.runs.getLast? = some last ∧ last.exit = .code 0) ∧
      ∀ cause, s.stage = .ended cause → cause.exit = .code 0 →
        (∃ last, s.runs.getLast? = some last ∧ last.exit = .code 0) ∧
          ∃ exit server, cause = .serverEnded exit server ∧ ∀ running, server = some running →
            running.rest = ⟨.closed, []⟩ ∧ ∃ t since at_,
              running.stop = .exited t since at_ 0 ∧ (t = .sigterm ∨ t = .sigint) := by
  have hs := launching_run hrun
  have hlast : Succeeded s.runs → ∃ last, s.runs.getLast? = some last ∧ last.exit = .code 0 := by
    rintro ⟨failed, last, hruns, -, hcode⟩
    exact ⟨last, by rw [hruns, List.getLast?_concat], hcode⟩
  refine ⟨hs.migrations.allowed, fun i run next hi hnext => ?_, fun hstage => ?_,
    fun server hstage => ?_, fun cause hstage hzero => ?_⟩
  · obtain ⟨hbound, -⟩ := List.getElem?_eq_some_iff.mp hnext
    exact ⟨Succeeded.retried hs.failed_or_succeeded hi hbound,
      (hs.migrations.spaced i run next hi hnext).le⟩
  · have hholds := hs.stage
    rw [hstage] at hholds
    exact hholds
  · have hholds := hs.stage
    rw [hstage] at hholds
    exact hlast hholds.1
  · have hholds := hs.stage
    rw [hstage] at hholds
    cases cause with
    | migrationsFailed | spawnFailed | killed => cases hzero
    | serverEnded exit server =>
        refine ⟨hlast hholds.1, exit, server, rfl, ?_⟩
        rintro running rfl
        cases exit with
        | signal signal =>
            have hother : signal.trigger = none := hholds.2
            simp [LaunchEnd.exit, hother] at hzero
        | code code =>
            obtain rfl : code = 0 := by simpa [LaunchEnd.exit] using hzero
            obtain ⟨⟨start, acts, hreached⟩, t, since, at_, hexit⟩ := hholds.2
            obtain ⟨-, ⟨-, hcode, hdrained⟩ | ⟨-, hcode⟩ | ⟨hcode, -⟩⟩ :=
              server_exited hreached hexit
            · refine ⟨hdrained, t, since, at_, hexit, ?_⟩
              cases t with
              | sigterm => exact .inl rfl
              | sigint => exact .inr rfl
              | unhandledRejection | uncaughtException => cases hcode
            · cases hcode
            · cases hcode

def quarterJitter : MigrationConfig :=
  ⟨.finite 6, .finite 5000, .finite 30000, .finite (1 / 4)⟩

/-- A migration that fails once, and a signal while the API has a request and a
connection that has sent none; it drains both. -/
def launchedRun : List LaunchAction :=
  [.wait 900, .migrationEnds (.code 1) (.finite 0), .wait 3750, .wakes, .wait 700,
    .migrationEnds (.code 0) (.finite (1 / 2)), .loaded, .server (.work .listens),
    .server (.work .connects), .server (.work .connects), .server (.work (.requests 0)),
    .wait 60000, .signalled .sigterm, .wait 20, .server (.work (.responds 0)),
    .server (.work (.ends 0)), .wait 5000, .server (.work (.ends 0)),
    .server (.settle true), .server (.settle true), .exits]

theorem launch_serves_after_migrations_drained : ∃ s,
    exec (launchStep quarterJitter 10000) (.start quarterJitter 0) launchedRun = some s ∧
    s.runs.map (·.startedAt) = [0, 4650] ∧
    (s.runs ≠ [] → quarterJitter.maxAttempts.atLeast s.runs.length) := by
  have hruns : (exec (launchStep quarterJitter 10000) (.start quarterJitter 0) launchedRun).map
      (fun s => s.runs.map (·.startedAt)) = some [0, 4650] := by decide +kernel
  obtain ⟨s, hrun, hstarts⟩ := Option.map_eq_some_iff.mp hruns
  exact ⟨s, hrun, hstarts, (launch_serves_after_migrations quarterJitter 10000 0 hrun).1⟩

end Runs

end Eventify
