import Eventify.Library.Renewal
import Eventify.Outbox.Mail
import Eventify.Process.Polling

/-!
# Readiness and the heartbeats of the workers

Workers write one Redis key with a time to live, again and again; `/ready` reads
it next to its probes of the database and of Redis, each of them in a race with
a timer. A command of a worker waits for its connection, so a beat lands late,
or more than once where its reply is lost, or fails. All clocks are one here.
-/

namespace Eventify

open Library

structure HeartbeatConfig where
  ttlSeconds : ℕ
  ttl_ge : 10 ≤ ttlSeconds
  ttl_le : ttlSeconds ≤ 300

namespace HeartbeatConfig

def ttlMs (config : HeartbeatConfig) : ℤ := config.ttlSeconds * 1000

def heartbeatEveryMs (config : HeartbeatConfig) : ℤ := max 5000 (config.ttlMs / 3)

end HeartbeatConfig

/-- The timer is set once the first ticks of the process are over. -/
inductive HeartStage where
  | booting
  | beating (due : ℤ)
  | stopped
  deriving DecidableEq, Repr

def HeartStage.due : HeartStage → Option ℤ
  | .beating due => some due
  | .booting | .stopped => none

/-- `sent` are the writes without a reply, by the time of the call, the oldest
first; `failed` are the warnings since the last write that was carried out. -/
structure Heart where
  stage : HeartStage
  sent : List ℤ
  failed : ℕ
  deriving DecidableEq, Repr

namespace Heart

variable (config : HeartbeatConfig) (now : ℤ) (heart : Heart)

/-- The process calls `heartbeat` for the first time. -/
def start : Heart := ⟨.booting, [now], 0⟩

def boot : Option Heart :=
  match heart.stage, heart.sent with
  | .booting, [] => some { heart with stage := .beating (now + config.heartbeatEveryMs) }
  | _, _ => none

def beat : Option Heart :=
  match heart.stage with
  | .beating due =>
      if due ≤ now then
        some { heart with
          stage := .beating (now + config.heartbeatEveryMs), sent := heart.sent ++ [now] }
      else none
  | .booting | .stopped => none

/-- A write whose reply is lost is sent again, and those after it with it. -/
def land (i : ℕ) (replied : Bool) : Option (ℤ × Heart) :=
  (heart.sent[i]?).map fun calledAt => (calledAt,
    { heart with sent := if replied then heart.sent.eraseIdx i else heart.sent, failed := 0 })

def fail : Option Heart :=
  match heart.sent with
  | _ :: rest => some { heart with sent := rest, failed := heart.failed + 1 }
  | [] => none

/-- `shutdown` clears the timer; a process that is killed has none. -/
def stop : Heart := { heart with stage := .stopped }

end Heart

inductive Probe where
  | database
  | redis
  | worker
  deriving DecidableEq, Repr

/-- What the probes of a request found where they were carried out, and what its
races came to. -/
structure ReadyCall where
  since : ℤ
  executed : Probe → Option Bool
  settled : Probe → Option Bool

structure Readiness where
  status : ℕ
  database : Bool
  redis : Bool
  worker : Bool
  deriving DecidableEq, Repr

/-- The delay of the timer that a probe races with. -/
def probeTimeoutMs : ℤ := 2500

namespace ReadyCall

variable (call : ReadyCall) (p : Probe) (ok : Bool)

def start (now : ℤ) : ReadyCall := ⟨now, fun _ => none, fun _ => none⟩

/-- A command whose reply is lost is carried out again. -/
def execute : Option ReadyCall :=
  match call.settled p with
  | none => some { call with executed := Function.update call.executed p (some ok) }
  | some _ => none

/-- The first to settle a race decides it. -/
def settle : Option ReadyCall :=
  match call.settled p with
  | none => some { call with settled := Function.update call.settled p (some ok) }
  | some _ => none

def response : Option Readiness :=
  match call.settled .database, call.settled .redis, call.settled .worker with
  | some database, some redis, some worker =>
      some ⟨if database && redis then 200 else 503, database, redis, worker⟩
  | _, _, _ => none

end ReadyCall

structure Cluster where
  now : ℤ
  databaseUp : Bool
  redisUp : Bool
  heartbeat : Option (String × ℤ)
  workers : ℕ → Option Heart
  calls : ℕ → Option ReadyCall

/-- `forgets` is Redis losing the key before its time, as by a restart. -/
inductive ClusterAction where
  | wait (ms : ℕ)
  | database (up : Bool)
  | redis (up : Bool)
  | forgets
  | starts (w : ℕ)
  | boots (w : ℕ)
  | beats (w : ℕ)
  | lands (w i : ℕ) (replied : Bool)
  | fails (w : ℕ)
  | stops (w : ℕ)
  | asks (r : ℕ)
  | executes (r : ℕ) (p : Probe)
  | replies (r : ℕ) (p : Probe)
  | rejects (r : ℕ) (p : Probe)
  | expires (r : ℕ) (p : Probe)
  deriving DecidableEq, Repr

namespace Cluster

def start (now : ℤ) : Cluster := ⟨now, true, true, none, fun _ => none, fun _ => none⟩

def withWorker (s : Cluster) (w : ℕ) (heart : Heart) : Cluster :=
  { s with workers := Function.update s.workers w (some heart) }

def withCall (s : Cluster) (r : ℕ) (call : ReadyCall) : Cluster :=
  { s with calls := Function.update s.calls r (some call) }

/-- The key is gone at the instant of its expiry, where Redis may keep it for that
millisecond. -/
def getHeartbeat (s : Cluster) : Option String :=
  match s.heartbeat with
  | some (text, expiresAt) => if s.now < expiresAt then some text else none
  | none => none

def workerHeartbeatHealth (s : Cluster) : Bool := s.getHeartbeat.any (· != "")

/-- `SELECT 1`, `PING` or the read of the key, where it can be carried out. -/
def probe (s : Cluster) : Probe → Option Bool
  | .database => if s.databaseUp then some true else none
  | .redis => if s.redisUp then some true else none
  | .worker => if s.redisUp then some s.workerHeartbeatHealth else none

def writeWorkerHeartbeat (s : Cluster) (config : HeartbeatConfig) (calledAt : ℤ) : Cluster :=
  { s with heartbeat := some (toISOString calledAt, s.now + config.ttlMs) }

end Cluster

def clusterStep (config : HeartbeatConfig) (s : Cluster) : ClusterAction → Option Cluster
  | .wait ms => some { s with now := s.now + ms }
  | .database up => some { s with databaseUp := up }
  | .redis up => some { s with redisUp := up }
  | .forgets => some { s with heartbeat := none }
  | .starts w =>
      match s.workers w with
      | none => some (s.withWorker w (.start s.now))
      | some _ => none
  | .boots w => ((s.workers w).bind (·.boot config s.now)).map (s.withWorker w)
  | .beats w => ((s.workers w).bind (·.beat config s.now)).map (s.withWorker w)
  | .lands w i replied =>
      if s.redisUp then
        ((s.workers w).bind (·.land i replied)).map fun (calledAt, heart) =>
          (s.writeWorkerHeartbeat config calledAt).withWorker w heart
      else none
  | .fails w => ((s.workers w).bind (·.fail)).map (s.withWorker w)
  | .stops w => (s.workers w).map fun heart => s.withWorker w heart.stop
  | .asks r =>
      match s.calls r with
      | none => some (s.withCall r (.start s.now))
      | some _ => none
  | .executes r p =>
      match s.calls r, s.probe p with
      | some call, some ok => (call.execute p ok).map (s.withCall r)
      | _, _ => none
  | .replies r p =>
      (s.calls r).bind fun call =>
        ((call.executed p).bind (call.settle p)).map (s.withCall r)
  | .rejects r p => ((s.calls r).bind (·.settle p false)).map (s.withCall r)
  | .expires r p =>
      (s.calls r).bind fun call =>
        if call.since + probeTimeoutMs ≤ s.now then (call.settle p false).map (s.withCall r)
        else none

section Steps

variable {config : HeartbeatConfig} {s s' : Cluster} {a : ClusterAction}

/-- What a step does, and what it needs. -/
inductive ClusterMove (config : HeartbeatConfig) (s : Cluster) : ClusterAction → Cluster → Prop
  | waited (ms : ℕ) : ClusterMove config s (.wait ms) { s with now := s.now + ms }
  | database (up : Bool) : ClusterMove config s (.database up) { s with databaseUp := up }
  | redis (up : Bool) : ClusterMove config s (.redis up) { s with redisUp := up }
  | forgot : ClusterMove config s .forgets { s with heartbeat := none }
  | started (w : ℕ) (hfree : s.workers w = none) :
      ClusterMove config s (.starts w) (s.withWorker w (.start s.now))
  | booted (w : ℕ) (heart : Heart) (hheart : s.workers w = some heart)
      (hbooting : heart.stage = .booting) (hsent : heart.sent = []) :
      ClusterMove config s (.boots w) (s.withWorker w
        { heart with stage := .beating (s.now + config.heartbeatEveryMs) })
  | beat (w : ℕ) (heart : Heart) (hheart : s.workers w = some heart)
      (hbeating : heart.stage.due.isSome) : ClusterMove config s (.beats w) (s.withWorker w
        { heart with
          stage := .beating (s.now + config.heartbeatEveryMs), sent := heart.sent ++ [s.now] })
  | landed (w i : ℕ) (replied : Bool) (heart : Heart) (calledAt : ℤ) (sent : List ℤ)
      (hheart : s.workers w = some heart) (hcalled : calledAt ∈ heart.sent)
      (hsent : sent ⊆ heart.sent) : ClusterMove config s (.lands w i replied)
        ((s.writeWorkerHeartbeat config calledAt).withWorker w { heart with sent, failed := 0 })
  | failed (w : ℕ) (heart : Heart) (calledAt : ℤ) (rest : List ℤ)
      (hheart : s.workers w = some heart) (hsent : heart.sent = calledAt :: rest) :
      ClusterMove config s (.fails w)
        (s.withWorker w { heart with sent := rest, failed := heart.failed + 1 })
  | stopped (w : ℕ) (heart : Heart) (hheart : s.workers w = some heart) :
      ClusterMove config s (.stops w) (s.withWorker w heart.stop)
  | asked (r : ℕ) (hfree : s.calls r = none) :
      ClusterMove config s (.asks r) (s.withCall r (.start s.now))
  | executed (r : ℕ) (p : Probe) (call : ReadyCall) (ok : Bool) (hcall : s.calls r = some call)
      (hopen : call.settled p = none) (hprobe : s.probe p = some ok) :
      ClusterMove config s (.executes r p)
        (s.withCall r { call with executed := Function.update call.executed p (some ok) })
  | settled {a : ClusterAction} (r : ℕ) (p : Probe) (call : ReadyCall) (ok : Bool)
      (hcall : s.calls r = some call) (hopen : call.settled p = none)
      (hwhy : a = .replies r p ∧ call.executed p = some ok ∨
        ok = false ∧ (a = .rejects r p ∨
          a = .expires r p ∧ call.since + probeTimeoutMs ≤ s.now)) :
      ClusterMove config s a
        (s.withCall r { call with settled := Function.update call.settled p (some ok) })

theorem ReadyCall.settle_eq_some {call call' : ReadyCall} {p : Probe} {ok : Bool}
    (h : call.settle p ok = some call') : call.settled p = none ∧
      call' = { call with settled := Function.update call.settled p (some ok) } := by
  simp only [settle] at h
  split at h
  · next hopen => exact ⟨hopen, (Option.some.inj h).symm⟩
  · cases h

theorem clusterStep_moves (h : clusterStep config s a = some s') : ClusterMove config s a s' := by
  cases a with
  | wait ms =>
      obtain rfl := Option.some.inj h
      exact .waited ms
  | database up =>
      obtain rfl := Option.some.inj h
      exact .database up
  | redis up =>
      obtain rfl := Option.some.inj h
      exact .redis up
  | forgets =>
      obtain rfl := Option.some.inj h
      exact .forgot
  | starts w =>
      simp only [clusterStep] at h
      split at h
      · next hfree =>
          obtain rfl := Option.some.inj h
          exact .started w hfree
      · cases h
  | boots w =>
      obtain ⟨heart', hboot, rfl⟩ := Option.map_eq_some_iff.mp h
      obtain ⟨heart, hheart, hboot⟩ := Option.bind_eq_some_iff.mp hboot
      simp only [Heart.boot] at hboot
      split at hboot
      · next hbooting hsent =>
          obtain rfl := Option.some.inj hboot
          exact .booted w heart hheart hbooting hsent
      · cases hboot
  | beats w =>
      obtain ⟨heart', hbeat, rfl⟩ := Option.map_eq_some_iff.mp h
      obtain ⟨heart, hheart, hbeat⟩ := Option.bind_eq_some_iff.mp hbeat
      simp only [Heart.beat] at hbeat
      split at hbeat
      · next due hstage =>
          split at hbeat
          · obtain rfl := Option.some.inj hbeat
            exact .beat w heart hheart (by rw [hstage]; rfl)
          · cases hbeat
      · cases hbeat
      · cases hbeat
  | lands w i replied =>
      simp only [clusterStep] at h
      split at h
      · obtain ⟨⟨calledAt, heart'⟩, hland, rfl⟩ := Option.map_eq_some_iff.mp h
        obtain ⟨heart, hheart, hland⟩ := Option.bind_eq_some_iff.mp hland
        obtain ⟨calledAt', hcalled, hland⟩ := Option.map_eq_some_iff.mp hland
        obtain ⟨rfl, rfl⟩ := Prod.mk.inj hland
        refine .landed w i replied heart calledAt' _ hheart (List.mem_of_getElem? hcalled) ?_
        cases replied with
        | true => exact List.eraseIdx_subset
        | false => exact List.Subset.refl _
      · cases h
  | fails w =>
      obtain ⟨heart', hfail, rfl⟩ := Option.map_eq_some_iff.mp h
      obtain ⟨heart, hheart, hfail⟩ := Option.bind_eq_some_iff.mp hfail
      simp only [Heart.fail] at hfail
      split at hfail
      · next calledAt rest hsent =>
          obtain rfl := Option.some.inj hfail
          exact .failed w heart calledAt rest hheart hsent
      · cases hfail
  | stops w =>
      obtain ⟨heart, hheart, rfl⟩ := Option.map_eq_some_iff.mp h
      exact .stopped w heart hheart
  | asks r =>
      simp only [clusterStep] at h
      split at h
      · next hfree =>
          obtain rfl := Option.some.inj h
          exact .asked r hfree
      · cases h
  | executes r p =>
      simp only [clusterStep] at h
      split at h
      · next call ok hcall hprobe =>
          obtain ⟨call', hexecute, rfl⟩ := Option.map_eq_some_iff.mp h
          simp only [ReadyCall.execute] at hexecute
          split at hexecute
          · next hopen =>
              obtain rfl := Option.some.inj hexecute
              exact .executed r p call ok hcall hopen hprobe
          · cases hexecute
      · cases h
  | replies r p =>
      obtain ⟨call, hcall, h⟩ := Option.bind_eq_some_iff.mp h
      obtain ⟨call', hsettle, rfl⟩ := Option.map_eq_some_iff.mp h
      obtain ⟨ok, hexecuted, hsettle⟩ := Option.bind_eq_some_iff.mp hsettle
      obtain ⟨hopen, rfl⟩ := ReadyCall.settle_eq_some hsettle
      exact .settled r p call ok hcall hopen (.inl ⟨rfl, hexecuted⟩)
  | rejects r p =>
      obtain ⟨call', hsettle, rfl⟩ := Option.map_eq_some_iff.mp h
      obtain ⟨call, hcall, hsettle⟩ := Option.bind_eq_some_iff.mp hsettle
      obtain ⟨hopen, rfl⟩ := ReadyCall.settle_eq_some hsettle
      exact .settled r p call false hcall hopen (.inr ⟨rfl, .inl rfl⟩)
  | expires r p =>
      obtain ⟨call, hcall, h⟩ := Option.bind_eq_some_iff.mp h
      split at h
      · next hdue =>
          obtain ⟨call', hsettle, rfl⟩ := Option.map_eq_some_iff.mp h
          obtain ⟨hopen, rfl⟩ := ReadyCall.settle_eq_some hsettle
          exact .settled r p call false hcall hopen (.inr ⟨rfl, .inr ⟨rfl, hdue⟩⟩)
      · cases h

end Steps

section Recent

variable {config : HeartbeatConfig} {start s s' : Cluster} {a : ClusterAction}
variable {acts : List ClusterAction} {r w : ℕ} {p : Probe} {since calledAt landedAt : ℤ} {ok : Bool}

theorem exec_now_le (h : exec (clusterStep config) s acts = some s') : s.now ≤ s'.now := by
  refine exec_relation (I := fun _ => True) (R := fun s t => s.now ≤ t.now) (fun _ => le_rfl)
    (fun _ _ _ => le_trans) (fun _ _ _ _ _ => trivial) (fun s a t _ hstep => ?_) trivial h
  cases clusterStep_moves hstep with
  | waited ms => exact Int.le_add_of_nonneg_right (Int.natCast_nonneg ms)
  | database | redis | forgot | started | booted | beat | landed | failed | stopped | asked
    | executed | settled => exact le_rfl

/-- A beat that the worker has called for and Redis has carried out. -/
def Beat (config : HeartbeatConfig) (start : Cluster) (acts : List ClusterAction) (w : ℕ)
    (calledAt landedAt : ℤ) : Prop :=
  Happened (clusterStep config) start acts
      (fun u a => (a = .starts w ∨ a = .beats w) ∧ u.now = calledAt) ∧
    Happened (clusterStep config) start acts
      (fun u a => (∃ i replied, a = .lands w i replied) ∧ u.now = landedAt)

/-- The probe was carried out, at some time from `since` on, with this outcome. -/
def Probed (config : HeartbeatConfig) (start : Cluster) (acts : List ClusterAction) (r : ℕ)
    (p : Probe) (since : ℤ) (ok : Bool) : Prop :=
  Happened (clusterStep config) start acts
    fun u a => a = .executes r p ∧ since ≤ u.now ∧ u.probe p = some ok

/-- The probe failed, or its timer was the first. -/
def GivenUp (config : HeartbeatConfig) (start : Cluster) (acts : List ClusterAction) (r : ℕ)
    (p : Probe) (since : ℤ) : Prop :=
  Happened (clusterStep config) start acts
    fun u a => a = .rejects r p ∨ a = .expires r p ∧ since + probeTimeoutMs ≤ u.now

/-- What is behind the state of a request. -/
structure ReadyCall.Told (config : HeartbeatConfig) (start : Cluster) (acts : List ClusterAction)
    (now : ℤ) (r : ℕ) (call : ReadyCall) : Prop where
  since_le : call.since ≤ now
  executed : ∀ p ok, call.executed p = some ok → Probed config start acts r p call.since ok
  settled : ∀ p ok, call.settled p = some ok → Probed config start acts r p call.since ok ∨
    ok = false ∧ GivenUp config start acts r p call.since

/-- What is behind the state after a run. -/
structure Told (config : HeartbeatConfig) (start : Cluster) (acts : List ClusterAction)
    (s : Cluster) : Prop where
  sent : ∀ w heart, s.workers w = some heart → ∀ calledAt ∈ heart.sent, calledAt ≤ s.now ∧
    Happened (clusterStep config) start acts
      (fun u a => (a = .starts w ∨ a = .beats w) ∧ u.now = calledAt)
  due : ∀ w heart, s.workers w = some heart → ∀ due, heart.stage.due = some due →
    due ≤ s.now + config.heartbeatEveryMs
  heartbeat : ∀ text expiresAt, s.heartbeat = some (text, expiresAt) → ∃ w calledAt landedAt,
    Beat config start acts w calledAt landedAt ∧ calledAt ≤ landedAt ∧ landedAt ≤ s.now ∧
      text = toISOString calledAt ∧ expiresAt = landedAt + config.ttlMs
  calls : ∀ r call, s.calls r = some call → call.Told config start acts s.now r

theorem ReadyCall.Told.append {now later : ℤ} {call : ReadyCall}
    (h : call.Told config start acts now r) (hlater : now ≤ later) (more : List ClusterAction) :
    call.Told config start (acts ++ more) later r := by
  refine ⟨h.since_le.trans hlater, fun p ok hok => (h.executed p ok hok).append more, ?_⟩
  intro p ok hok
  rcases h.settled p ok hok with hprobed | ⟨rfl, hup⟩
  · exact .inl (hprobed.append more)
  · exact .inr ⟨rfl, hup.append more⟩

/-- What a step leaves alone keeps what is behind it. -/
theorem Told.append (h : Told config start acts s) {now : ℤ} (hnow : s.now ≤ now)
    (up redisUp : Bool) (more : List ClusterAction) :
    Told config start (acts ++ more)
      { s with now := now, databaseUp := up, redisUp := redisUp } := by
  refine ⟨fun w heart hheart calledAt hsent => ?_, fun w heart hheart due hdue => ?_,
    fun text expiresAt hkey => ?_, ?_⟩
  · obtain ⟨hle, hcalled⟩ := h.sent w heart hheart calledAt hsent
    exact ⟨hle.trans hnow, hcalled.append more⟩
  · exact (h.due w heart hheart due hdue).trans (Int.add_le_add_right hnow _)
  · obtain ⟨w, calledAt, landedAt, ⟨hcalled, hlanded⟩, hle, hlanded_le, hkept⟩ :=
      h.heartbeat text expiresAt hkey
    exact ⟨w, calledAt, landedAt, ⟨hcalled.append more, hlanded.append more⟩, hle,
      hlanded_le.trans hnow, hkept⟩
  · exact fun r call hcall => (h.calls r call hcall).append hnow more

theorem Told.withWorker (h : Told config start acts s) {heart : Heart}
    (hheart : ∀ calledAt ∈ heart.sent, calledAt ≤ s.now ∧
      Happened (clusterStep config) start acts
        (fun u a => (a = .starts w ∨ a = .beats w) ∧ u.now = calledAt))
    (hdue : ∀ due, heart.stage.due = some due → due ≤ s.now + config.heartbeatEveryMs) :
    Told config start acts (s.withWorker w heart) := by
  refine ⟨fun v other hother => ?_, fun v other hother => ?_, h.heartbeat, h.calls⟩
  all_goals
    by_cases hv : v = w
    · subst hv
      obtain rfl : heart = other := by simpa [Cluster.withWorker] using hother
      assumption
    · have hold : s.workers v = some other := by simpa [Cluster.withWorker, hv] using hother
      first | exact h.sent v other hold | exact h.due v other hold

theorem Told.withCall (h : Told config start acts s) {call : ReadyCall}
    (hcall : call.Told config start acts s.now r) :
    Told config start acts (s.withCall r call) := by
  refine ⟨h.sent, h.due, h.heartbeat, fun q other hother => ?_⟩
  by_cases hq : q = r
  · subst hq
    obtain rfl : call = other := by simpa [Cluster.withCall] using hother
    exact hcall
  · exact h.calls q other (by simpa [Cluster.withCall, hq] using hother)

theorem ReadyCall.Told.withExecuted {now : ℤ} {call : ReadyCall}
    (h : call.Told config start acts now r) (hprobed : Probed config start acts r p call.since ok) :
    ReadyCall.Told config start acts now r
      { call with executed := Function.update call.executed p (some ok) } := by
  refine ⟨h.since_le, fun q ok' hok => ?_, h.settled⟩
  by_cases hq : q = p
  · subst hq
    obtain rfl : ok = ok' := by simpa using hok
    exact hprobed
  · exact h.executed q ok' (by simpa [hq] using hok)

theorem ReadyCall.Told.withSettled {now : ℤ} {call : ReadyCall}
    (h : call.Told config start acts now r)
    (hsettled : Probed config start acts r p call.since ok ∨
      ok = false ∧ GivenUp config start acts r p call.since) :
    ReadyCall.Told config start acts now r
      { call with settled := Function.update call.settled p (some ok) } := by
  refine ⟨h.since_le, h.executed, fun q ok' hok => ?_⟩
  by_cases hq : q = p
  · subst hq
    obtain rfl : ok = ok' := by simpa using hok
    exact hsettled
  · exact h.settled q ok' (by simpa [hq] using hok)

theorem Told.step (hs : Told config start acts s)
    (hrun : exec (clusterStep config) start acts = some s)
    (h : clusterStep config s a = some s') : Told config start (acts ++ [a]) s' := by
  have hkept : Told config start (acts ++ [a]) s := hs.append le_rfl s.databaseUp s.redisUp [a]
  cases clusterStep_moves h with
  | waited ms => exact hs.append (Int.le_add_of_nonneg_right (Int.natCast_nonneg ms)) _ _ _
  | database up => exact hs.append le_rfl up s.redisUp _
  | redis up => exact hs.append le_rfl s.databaseUp up _
  | forgot => exact ⟨hkept.sent, hkept.due, nofun, hkept.calls⟩
  | started w hfree =>
      refine hkept.withWorker (fun calledAt hsent => ?_) nofun
      obtain rfl := List.mem_singleton.mp hsent
      exact ⟨le_rfl, .of_last hrun ⟨.inl rfl, rfl⟩⟩
  | booted w heart hheart =>
      exact hkept.withWorker (hkept.sent w heart hheart) fun _ hdue => (Option.some.inj hdue).ge
  | beat w heart hheart =>
      refine hkept.withWorker (fun calledAt hsent => ?_) fun _ hdue => (Option.some.inj hdue).ge
      rcases List.mem_append.mp hsent with hold | hnew
      · exact hkept.sent w heart hheart calledAt hold
      · obtain rfl := List.mem_singleton.mp hnew
        exact ⟨le_rfl, .of_last hrun ⟨.inr rfl, rfl⟩⟩
  | landed w i replied heart calledAt sent hheart hcalled hsent =>
      obtain ⟨hle, hsentAt⟩ := hkept.sent w heart hheart calledAt hcalled
      have hwritten : Told config start (acts ++ [.lands w i replied])
          (s.writeWorkerHeartbeat config calledAt) := by
        refine ⟨hkept.sent, hkept.due, fun text expiresAt hkey => ?_, hkept.calls⟩
        obtain ⟨rfl, rfl⟩ := Prod.mk.inj (Option.some.inj hkey)
        exact ⟨w, calledAt, s.now, ⟨hsentAt, .of_last hrun ⟨⟨i, replied, rfl⟩, rfl⟩⟩, hle, le_rfl,
          rfl, rfl⟩
      exact hwritten.withWorker (fun later hlater => hkept.sent w heart hheart later (hsent hlater))
        (hkept.due w heart hheart)
  | failed w heart calledAt rest hheart hsent =>
      refine hkept.withWorker (fun later hlater => ?_) (hkept.due w heart hheart)
      exact hkept.sent w heart hheart later (by rw [hsent]; exact List.mem_cons_of_mem _ hlater)
  | stopped w heart hheart => exact hkept.withWorker (hkept.sent w heart hheart) nofun
  | asked r hfree => exact hkept.withCall ⟨le_rfl, nofun, nofun⟩
  | executed r p call ok hcall hopen hprobe =>
      have hcalled := hkept.calls r call hcall
      exact hkept.withCall (hcalled.withExecuted (.of_last hrun ⟨rfl, hcalled.since_le, hprobe⟩))
  | settled r p call ok hcall hopen hwhy =>
      have hcalled := hkept.calls r call hcall
      refine hkept.withCall (hcalled.withSettled ?_)
      rcases hwhy with ⟨-, hexecuted⟩ | ⟨rfl, hgave⟩
      · exact .inl (hcalled.executed p ok hexecuted)
      · exact .inr ⟨rfl, .of_last hrun hgave⟩

theorem told_run {now : ℤ} (hrun : exec (clusterStep config) (.start now) acts = some s) :
    Told config (.start now) acts s := by
  refine exec_trace (I := Told config (.start now)) ?_ ?_ hrun
  · exact ⟨fun _ _ h => (by cases h), fun _ _ h => (by cases h), fun _ _ h => (by cases h),
      fun _ _ h => (by cases h)⟩
  · exact fun _ _ _ _ hbefore hu hstep => hu.step hbefore hstep

theorem Cluster.health_of_probe (h : s.probe .worker = some ok) : s.workerHeartbeatHealth = ok := by
  simp only [probe] at h
  split at h
  · exact Option.some.inj h
  · cases h

def defaultHeartbeat : HeartbeatConfig := ⟨45, by decide, by decide⟩

end Recent

section Running

variable {config : HeartbeatConfig} {pace : Pace} {start s s' : Cluster} {a : ClusterAction}
variable {acts : List ClusterAction} {w : ℕ} {since : ℤ}

/-- The worker goes on, its timer and its writes keep the pace, and Redis keeps the key. -/
def KeepsBeating (pace : Pace) (w : ℕ) (s : Cluster) : ClusterAction → Prop
  | .wait ms => ∀ heart ∈ s.workers w,
      (∀ calledAt ∈ heart.sent, s.now + ms ≤ calledAt + pace.delay) ∧
        ∀ due ∈ heart.stage.due, s.now + ms ≤ due + pace.late
  | .fails v => v = w → ∀ heart ∈ s.workers w, heart.failed + 1 ≤ pace.misses
  | .stops v => v ≠ w
  | .forgets => False
  | _ => True

instance KeepsBeating.decidable (pace : Pace) (w : ℕ) (s : Cluster) :
    ∀ a : ClusterAction, Decidable (KeepsBeating pace w s a)
  | .wait ms => inferInstanceAs (Decidable (∀ heart ∈ s.workers w,
      (∀ calledAt ∈ heart.sent, s.now + ms ≤ calledAt + pace.delay) ∧
        ∀ due ∈ heart.stage.due, s.now + ms ≤ due + pace.late))
  | .fails v => inferInstanceAs (Decidable (v = w → ∀ heart ∈ s.workers w,
      heart.failed + 1 ≤ pace.misses))
  | .stops v => inferInstanceAs (Decidable (v ≠ w))
  | .forgets => .isFalse id
  | .database _ | .redis _ | .starts _ | .boots _ | .beats _ | .lands _ _ _ | .asks _
  | .executes _ _ | .replies _ _ | .rejects _ _ | .expires _ _ => .isTrue trivial

/-- The key lives at least until then. -/
def Cluster.KeyUntil (s : Cluster) (time : ℤ) : Prop :=
  ∃ text expiresAt, s.heartbeat = some (text, expiresAt) ∧ text ≠ "" ∧ time ≤ expiresAt

/-- The worker beats, and its beats go back to `since` or to one that keeps the key. -/
structure BeatsSince (config : HeartbeatConfig) (pace : Pace) (w : ℕ) (since : ℤ) (s : Cluster)
    (heart : Heart) (due base : ℤ) (failed : ℕ) : Prop where
  heart_eq : s.workers w = some heart
  beating : heart.stage = .beating due
  failed_le : failed ≤ heart.failed
  renewing : Renewing pace base failed due heart.sent s.now
  sent_le : ∀ calledAt ∈ heart.sent, calledAt ≤ s.now
  due_le : due ≤ s.now + config.heartbeatEveryMs
  kept : base ≤ since ∨ s.KeyUntil (base + config.ttlMs)

theorem toISOString_ne (time : ℤ) : toISOString time ≠ "" := by
  intro h
  have hlength := congrArg String.length h
  simp [toISOString] at hlength

theorem Cluster.health_of_keyUntil {time : ℤ} (h : s.KeyUntil time) (htime : s.now < time) :
    s.workerHeartbeatHealth = true := by
  obtain ⟨text, expiresAt, hkey, htext, hle⟩ := h
  simp [workerHeartbeatHealth, getHeartbeat, hkey, htime.trans_le hle, htext]

namespace BeatsSince

variable {heart : Heart} {due base : ℤ} {failed : ℕ}

theorem frame (hs : BeatsSince config pace w since s heart due base failed)
    (hworker : s'.workers w = s.workers w) (hnow : s'.now = s.now)
    (hkey : s'.heartbeat = s.heartbeat) :
    BeatsSince config pace w since s' heart due base failed := by
  refine ⟨hworker.trans hs.heart_eq, hs.beating, hs.failed_le, ?_, ?_, ?_, ?_⟩
  · exact hnow ▸ hs.renewing
  · exact hnow ▸ hs.sent_le
  · exact hnow ▸ hs.due_le
  · simpa only [Cluster.KeyUntil, hkey] using hs.kept

theorem withWorker (hs : BeatsSince config pace w since s heart due base failed) {v : ℕ}
    (hv : v ≠ w) (other : Heart) :
    BeatsSince config pace w since (s.withWorker v other) heart due base failed :=
  hs.frame (Function.update_of_ne hv.symm _ _) rfl rfl

theorem lands (hevery : pace.every = config.heartbeatEveryMs)
    (hs : BeatsSince config pace w since s heart due base failed) (calledAt : ℤ) {sent : List ℤ}
    (hsent : sent ⊆ heart.sent) :
    BeatsSince config pace w since
      ((s.writeWorkerHeartbeat config calledAt).withWorker w { heart with sent, failed := 0 })
      { heart with sent, failed := 0 } due s.now 0 := by
  have hle : ∀ time ∈ sent, time ≤ s.now := fun time htime => hs.sent_le time (hsent htime)
  refine ⟨Function.update_self _ _ _, hs.beating, le_rfl, .start ?_ hle, hle, hs.due_le, .inr ?_⟩
  · exact hevery ▸ hs.due_le
  · exact ⟨_, _, rfl, toISOString_ne calledAt, le_rfl⟩

theorem beat (hevery : pace.every = config.heartbeatEveryMs)
    (hs : BeatsSince config pace w since s heart due base failed) :
    BeatsSince config pace w since (s.withWorker w
      { heart with
        stage := .beating (s.now + config.heartbeatEveryMs), sent := heart.sent ++ [s.now] })
      { heart with
        stage := .beating (s.now + config.heartbeatEveryMs), sent := heart.sent ++ [s.now] }
      (s.now + config.heartbeatEveryMs) base failed := by
  refine ⟨Function.update_self _ _ _, rfl, hs.failed_le, ?_, fun calledAt hcalled => ?_, le_rfl,
    hs.kept⟩
  · exact hevery ▸ hs.renewing.fire
  · rcases List.mem_append.mp hcalled with hold | hnew
    · exact hs.sent_le calledAt hold
    · exact (List.mem_singleton.mp hnew).le

/-- Each step of a run that keeps the pace keeps the beats going. -/
theorem step (hevery : pace.every = config.heartbeatEveryMs)
    (hs : BeatsSince config pace w since s heart due base failed) (hgood : KeepsBeating pace w s a)
    (h : clusterStep config s a = some s') :
    ∃ heart' due' base' failed', BeatsSince config pace w since s' heart' due' base' failed' := by
  cases clusterStep_moves h with
  | waited ms =>
      obtain ⟨hsettles, hfires⟩ := hgood heart hs.heart_eq
      have hlater : s.now ≤ s.now + ms := Int.le_add_of_nonneg_right (Int.natCast_nonneg ms)
      refine ⟨heart, due, base, failed, hs.heart_eq, hs.beating, hs.failed_le, ?_,
        fun calledAt hcalled => (hs.sent_le calledAt hcalled).trans hlater,
        hs.due_le.trans (Int.add_le_add_right hlater _), hs.kept⟩
      exact hs.renewing.wait hlater hsettles (hfires due (by rw [hs.beating]; rfl))
  | database | redis | asked | executed | settled => exact ⟨_, _, _, _, hs.frame rfl rfl rfl⟩
  | forgot => exact hgood.elim
  | started v hfree =>
      have hv : v ≠ w := by
        rintro rfl
        cases hfree.symm.trans hs.heart_eq
      exact ⟨_, _, _, _, hs.withWorker hv _⟩
  | booted v other hother hbooting =>
      have hv : v ≠ w := by
        rintro rfl
        obtain rfl := Option.some.inj (hother.symm.trans hs.heart_eq)
        cases hbooting.symm.trans hs.beating
      exact ⟨_, _, _, _, hs.withWorker hv _⟩
  | beat v other hother =>
      by_cases hv : v = w
      · subst hv
        obtain rfl := Option.some.inj (hother.symm.trans hs.heart_eq)
        exact ⟨_, _, _, _, hs.beat hevery⟩
      · exact ⟨_, _, _, _, hs.withWorker hv _⟩
  | landed v i replied other calledAt sent hother hcalled hsent =>
      by_cases hv : v = w
      · subst hv
        obtain rfl := Option.some.inj (hother.symm.trans hs.heart_eq)
        exact ⟨_, _, _, _, hs.lands hevery calledAt hsent⟩
      · have hwritten : BeatsSince config pace w since (s.writeWorkerHeartbeat config calledAt)
            heart due base failed := by
          refine ⟨hs.heart_eq, hs.beating, hs.failed_le, hs.renewing, hs.sent_le, hs.due_le, ?_⟩
          refine hs.kept.imp id fun _ => ⟨_, _, rfl, toISOString_ne calledAt, ?_⟩
          exact Int.add_le_add_right hs.renewing.base_le _
        exact ⟨_, _, _, _, hwritten.withWorker hv _⟩
  | failed v other calledAt rest hother hsent =>
      by_cases hv : v = w
      · subst hv
        obtain rfl := Option.some.inj (hother.symm.trans hs.heart_eq)
        have hmisses := (Nat.succ_le_succ hs.failed_le).trans (hgood rfl other hother)
        have hrenewing := hs.renewing
        rw [hsent] at hrenewing
        refine ⟨_, due, base, failed + 1, Function.update_self _ _ _, hs.beating,
          Nat.succ_le_succ hs.failed_le, hrenewing.fail hmisses, ?_, hs.due_le, hs.kept⟩
        exact fun later hlater =>
          hs.sent_le later (by rw [hsent]; exact List.mem_cons_of_mem calledAt hlater)
      · exact ⟨_, _, _, _, hs.withWorker hv _⟩
  | stopped v => exact ⟨_, _, _, _, hs.withWorker hgood _⟩

end BeatsSince

/-- While a worker beats at a pace that fits the time to live, the key is there
from one gap on after any point in time. -/
theorem health_of_keepsBeating {heart : Heart} {due : ℤ}
    (hevery : pace.every = config.heartbeatEveryMs) (hgap : pace.gap < config.ttlMs)
    (hsent : ∀ calledAt ∈ heart.sent, calledAt ≤ start.now)
    (hdue : due ≤ start.now + config.heartbeatEveryMs) (hworker : start.workers w = some heart)
    (hbeating : heart.stage = .beating due)
    (hpaced : Along (clusterStep config) (KeepsBeating pace w) start acts)
    (hrun : exec (clusterStep config) start acts = some s) (hlater : start.now + pace.gap < s.now) :
    s.workerHeartbeatHealth = true := by
  have hstart : ∃ heart due base failed,
      BeatsSince config pace w start.now start heart due base failed :=
    ⟨heart, due, start.now, 0, hworker, hbeating, Nat.zero_le _, .start (hevery ▸ hdue) hsent,
      hsent, hdue, .inl le_rfl⟩
  obtain ⟨heart', due', base, failed, hs⟩ := exec_invariant_along
    (I := fun s => ∃ heart due base failed,
      BeatsSince config pace w start.now s heart due base failed)
    (fun s a t hs hgood hstep => by
      obtain ⟨heart, due, base, failed, hs⟩ := hs
      exact hs.step hevery hgood hstep) hstart hpaced hrun
  have hnow := hs.renewing.now_le
  rcases hs.kept with hold | hkey
  · omega
  · exact s.health_of_keyUntil hkey (by omega)

/-- A worker whose timer and writes keep a pace that fits the time to live is
reported by every request that comes a gap after it was known to beat, or after
Redis lost the key, unless the read of the key fails or takes too long. -/
theorem running_worker_is_reported (config : HeartbeatConfig) (pace : Pace)
    (hevery : pace.every = config.heartbeatEveryMs) (hgap : pace.gap < config.ttlMs) (now : ℤ)
    {before acts : List ClusterAction} {u s : Cluster} {w : ℕ} {heart : Heart} {due : ℤ}
    (hbefore : exec (clusterStep config) (.start now) before = some u)
    (hworker : u.workers w = some heart) (hbeating : heart.stage = .beating due)
    (hpaced : Along (clusterStep config) (KeepsBeating pace w) u acts)
    (hrun : exec (clusterStep config) u acts = some s) :
    (u.now + pace.gap < s.now → s.workerHeartbeatHealth = true) ∧
      ∀ r call, s.calls r = some call → u.now + pace.gap < call.since →
        call.settled .worker = some false →
        GivenUp config (.start now) (before ++ acts) r .worker call.since := by
  have htold := told_run hbefore
  have hsent := fun calledAt hcalled => (htold.sent w heart hworker calledAt hcalled).1
  have hdue := htold.due w heart hworker due (by rw [hbeating]; rfl)
  refine ⟨health_of_keepsBeating hevery hgap hsent hdue hworker hbeating hpaced hrun, ?_⟩
  intro r call hcall hsince hfalse
  have hall := told_run (exec_append_iff.mpr ⟨u, hbefore, hrun⟩)
  rcases (hall.calls r call hcall).settled .worker false hfalse with hprobed | ⟨-, hgave⟩
  · have hgap_nonneg : 0 ≤ pace.gap := by
      have hstart : Renewing pace u.now 0 due heart.sent u.now := .start (hevery ▸ hdue) hsent
      have hnow := hstart.now_le
      omega
    rcases hprobed.of_append hbefore with ⟨pre, a, post, v, rfl, hv, -, hle, -⟩ | hlate
    · obtain ⟨v', hv', hafter⟩ := exec_append_iff.mp hbefore
      obtain rfl := Option.some.inj (hv.symm.trans hv')
      have hnow := exec_now_le hafter
      omega
    · obtain ⟨mid, a, post, v, rfl, hv, -, hle, hprobe⟩ := hlate
      have hhealth := health_of_keepsBeating hevery hgap hsent hdue hworker hbeating
        (along_append_iff.mp hpaced).1 hv (by omega)
      cases (Cluster.health_of_probe hprobe).symm.trans hhealth
  · exact hgave

/-- A timer up to one second late, writes that take up to two, every other one in vain. -/
def roughPace : Pace := ⟨15000, 1000, 2000, 1, by decide, by decide, by decide⟩

/-- Redis has lost the key; of the next two beats the first fails, and the reply
to the second is lost. -/
def recoveryRun : List ClusterAction :=
  [.wait 11000, .beats 0, .fails 0, .wait 15500, .beats 0, .redis false, .wait 1900, .redis true,
    .lands 0 0 false, .lands 0 0 true, .wait 6000, .asks 3, .executes 3 .worker, .replies 3 .worker]

theorem running_worker_is_reported_restart : ∃ u s call,
    exec (clusterStep defaultHeartbeat) (.start 0)
      [.starts 0, .wait 40, .lands 0 0 true, .boots 0, .wait 5000, .forgets] = some u ∧
    exec (clusterStep defaultHeartbeat) u recoveryRun = some s ∧ s.calls 3 = some call ∧
    call.settled .worker = some true ∧ s.workerHeartbeatHealth = true := by
  obtain ⟨u, s, call, hbefore, hworker, hrun, hcall, htrue, hlater, hpaced⟩ : ∃ u s call,
      exec (clusterStep defaultHeartbeat) (.start 0)
        [.starts 0, .wait 40, .lands 0 0 true, .boots 0, .wait 5000, .forgets] = some u ∧
      u.workers 0 = some ⟨.beating 15040, [], 0⟩ ∧
      exec (clusterStep defaultHeartbeat) u recoveryRun = some s ∧ s.calls 3 = some call ∧
      call.settled .worker = some true ∧ u.now + roughPace.gap < s.now ∧
      Along (clusterStep defaultHeartbeat) (KeepsBeating roughPace 0) u recoveryRun :=
    ⟨_, _, _, rfl, rfl, rfl, rfl, rfl, by decide, by decide⟩
  exact ⟨u, s, call, hbefore, hrun, hcall, htrue, (running_worker_is_reported defaultHeartbeat
    roughPace (by decide) (by decide) 0 hbefore hworker rfl hpaced hrun).1 hlater⟩

end Running

end Eventify
