import Eventify.Auth.Login

/-!
# The lockout under the login service

Every run of the service in which Redis carries out its commands is, seen from
the throttle, a run of the machine of the lockout: the keys are the same, and
so are the calls that have not left the lockout yet.
-/

namespace Eventify

open Library

/-- Where a call stands for the lockout, `none` once its keys are cleared. -/
def AttemptStage.lockout : AttemptStage → Option LoginStage
  | .entered => some .entered
  | .allowed | .found _ => some .allowed
  | .refused => some (.verified false)
  | .accepted _ => some (.verified true)
  | .cleared _ | .rehashed _ => none

def Attempt.lockoutCall (attempt : Attempt) : Option LoginCall :=
  attempt.stage.lockout.map fun stage => ⟨attempt.email, stage⟩

structure LoginSystem.SameKeys (s t : LoginSystem) : Prop where
  now : s.now = t.now
  failures : s.failures = t.failures
  locks : s.locks = t.locks

structure LoginService.Follows (s : LoginService) (t : LoginSystem) : Prop where
  keys : s.throttle.SameKeys t
  calls : t.calls = s.attempts.filterMap Attempt.lockoutCall

/-- Redis carries out the command of the step. -/
def RedisAnswers (a : ServiceAction) : Prop := ∀ i turn, a = .proceed i turn → turn.redis = true

namespace LoginSystem.SameKeys

variable {s t : LoginSystem}

theorem assertLoginAllowed (h : s.SameKeys t) (env : LoginEnv) (email : String) :
    s.assertLoginAllowed env email = t.assertLoginAllowed env email := by
  simp only [LoginSystem.assertLoginAllowed, h.locks, h.now]

theorem recordLoginFailure (h : s.SameKeys t) (env : LoginEnv) (email : String) :
    (s.recordLoginFailure env email).SameKeys (t.recordLoginFailure env email) := by
  obtain ⟨hnow, hfailures, hlocks⟩ := h
  simp only [LoginSystem.recordLoginFailure, hnow, hfailures, hlocks]
  cases t.failures (env.accountKey email) <;> dsimp only <;> split <;> exact ⟨rfl, rfl, rfl⟩

theorem clearLoginFailures (h : s.SameKeys t) (env : LoginEnv) (email : String) :
    (s.clearLoginFailures env email).SameKeys (t.clearLoginFailures env email) := by
  obtain ⟨hnow, hfailures, hlocks⟩ := h
  simp only [LoginSystem.clearLoginFailures, hfailures, hlocks]
  exact ⟨hnow, rfl, rfl⟩

theorem tick (h : s.SameKeys t) (ms : ℕ) : (s.tick ms).SameKeys (t.tick ms) := by
  obtain ⟨hnow, hfailures, hlocks⟩ := h
  simp only [LoginSystem.tick, hnow, hfailures, hlocks]
  exact ⟨rfl, rfl, rfl⟩

theorem finish (h : s.SameKeys t) (i : ℕ) (call : LoginCall) (result : Except Failure Unit) :
    s.SameKeys (t.finish i call result) := ⟨h.now, h.failures, h.locks⟩

theorem setStage (h : s.SameKeys t) (i : ℕ) (call : LoginCall) (stage : LoginStage) :
    s.SameKeys (t.setStage i call stage) := ⟨h.now, h.failures, h.locks⟩

theorem trans {u : LoginSystem} (h : s.SameKeys t) (h' : t.SameKeys u) : s.SameKeys u :=
  ⟨h.now.trans h'.now, h.failures.trans h'.failures, h.locks.trans h'.locks⟩

end LoginSystem.SameKeys

section Simulation

variable {env : LoginEnv} {passwords : PasswordEnv} {hash : String → String}
variable {s s' : LoginService} {t : LoginSystem} {a : ServiceAction} {attempt : Attempt}

/-- The place that a call has in the lockout, and how it moves and leaves there. -/
theorem LoginService.Follows.slot (h : s.Follows t) {i : ℕ}
    (hattempt : s.attempts[i]? = some attempt) {stage : LoginStage}
    (hstage : attempt.stage.lockout = some stage) :
    ∃ j, t.calls[j]? = some ⟨attempt.email, stage⟩ ∧
      (∀ next shown, next.lockout = some shown →
        t.calls.set j ⟨attempt.email, shown⟩ =
          (s.setStage i attempt next).attempts.filterMap Attempt.lockoutCall) ∧
      (∀ next, next.lockout = none → t.calls.eraseIdx j =
        (s.setStage i attempt next).attempts.filterMap Attempt.lockoutCall) ∧
      t.calls.eraseIdx j = (s.attempts.eraseIdx i).filterMap Attempt.lockoutCall := by
  have hshown : attempt.lockoutCall = some ⟨attempt.email, stage⟩ := by
    rw [Attempt.lockoutCall, hstage]
    rfl
  obtain ⟨j, hj, hset, hgone, herase⟩ := filterMap_slot Attempt.lockoutCall hattempt hshown
  rw [← h.calls] at hj hset hgone herase
  refine ⟨j, hj, fun next shown hnext => ?_, fun next hnext => ?_, herase.symm⟩
  · exact (hset _ _ (by simp [Attempt.lockoutCall, hnext])).symm
  · exact (hgone _ (by simp [Attempt.lockoutCall, hnext])).symm

theorem verifyPassword_follows (h : s.Follows t) {i : ℕ} {email password : String}
    {user : Option User} (hattempt : s.attempts[i]? = some ⟨email, password, .found user⟩)
    (valid : Bool) {stage : AttemptStage} (hstage : stage.lockout = some (.verified valid)) :
    ∃ acts t', exec (loginStep env) t acts = some t' ∧
      (s.setStage i ⟨email, password, .found user⟩ stage).Follows t' := by
  obtain ⟨j, hj, hset, -, -⟩ := h.slot hattempt rfl
  obtain ⟨t', ht', hkeys, hcalls⟩ : ∃ t', loginStep env t (.verifyPassword j valid) = some t' ∧
      t.SameKeys t' ∧ t'.calls = t.calls.set j ⟨email, .verified valid⟩ := by
    simp only [loginStep, hj]
    exact ⟨_, rfl, ⟨rfl, rfl, rfl⟩, rfl⟩
  refine ⟨[.verifyPassword j valid], t', by rw [exec_singleton, ht'], h.keys.trans hkeys, ?_⟩
  rw [hcalls]
  exact hset stage _ hstage

/-- A step of a call in sight of the lockout is one step of it, or none. -/
theorem proceed_follows (h : s.Follows t) {i : ℕ} (hattempt : s.attempts[i]? = some attempt)
    {turn : Turn} (hredis : turn.redis = true) :
    ∃ acts t', exec (loginStep env) t acts = some t' ∧
      (s.proceed env passwords hash i attempt turn).Follows t' := by
  obtain ⟨email, password, stage⟩ := attempt
  cases stage with
  | entered =>
      obtain ⟨j, hj, hset, -, herase⟩ := h.slot hattempt rfl
      simp only [LoginService.proceed, hredis, if_true, h.keys.assertLoginAllowed]
      cases hallowed : t.assertLoginAllowed env email with
      | error failure =>
          dsimp only
          refine ⟨[.assertLoginAllowed j], _, ?_, h.keys.finish j ⟨email, .entered⟩
            (.error failure), herase⟩
          simp only [exec_singleton, loginStep, hj, hallowed]
      | ok =>
          dsimp only
          refine ⟨[.assertLoginAllowed j], _, ?_, h.keys.setStage j ⟨email, .entered⟩ .allowed,
            hset .allowed _ rfl⟩
          simp only [exec_singleton, loginStep, hj, hallowed]
  | allowed =>
      obtain ⟨j, hj, hset, -, herase⟩ := h.slot hattempt rfl
      simp only [LoginService.proceed]
      cases turn.outage with
      | some outage =>
          dsimp only
          refine ⟨[.findUserThrows j (.client outage.error)], _, ?_,
            h.keys.finish j ⟨email, .allowed⟩ (.error (.client outage.error)), herase⟩
          simp only [exec_singleton, loginStep, hj]
      | none =>
          dsimp only
          obtain ⟨hlength, hcall⟩ := List.getElem?_eq_some_iff.mp hj
          have hself : t.calls.set j ⟨email, .allowed⟩ = t.calls := by
            rw [← hcall, List.set_getElem_self]
          exact ⟨[], t, rfl, h.keys, hself.symm.trans (hset (.found _) _ rfl)⟩
  | found user =>
      simp only [LoginService.proceed]
      split
      · exact verifyPassword_follows h hattempt true rfl
      · exact verifyPassword_follows h hattempt false rfl
  | refused =>
      obtain ⟨j, hj, -, -, herase⟩ := h.slot hattempt rfl
      simp only [LoginService.proceed, hredis, if_true]
      have hkeys := (h.keys.finish j ⟨email, .verified false⟩
        (.error LoginSystem.invalidCredentials)).recordLoginFailure env email
      refine ⟨[.recordLoginFailure j], _, ?_, hkeys, ?_⟩
      · simp only [exec_singleton, loginStep, hj]
      · rw [recordLoginFailure_calls]
        exact herase
  | accepted user =>
      obtain ⟨j, hj, -, hgone, -⟩ := h.slot hattempt rfl
      simp only [LoginService.proceed, hredis, if_true]
      have hkeys := (h.keys.finish j ⟨email, .verified true⟩ (.ok ())).clearLoginFailures env email
      refine ⟨[.clearLoginFailures j], _, ?_, hkeys, hgone (.cleared user) rfl⟩
      simp only [exec_singleton, loginStep, hj]
  | cleared user =>
      obtain ⟨hset, herase⟩ := filterMap_unseen Attempt.lockoutCall hattempt rfl
      rw [← h.calls] at hset herase
      simp only [LoginService.proceed]
      refine ⟨[], t, rfl, ?_⟩
      split
      · split
        · exact ⟨h.keys, herase.symm⟩
        · exact ⟨h.keys, (hset ⟨email, password, .rehashed user⟩ rfl).symm⟩
      · exact ⟨h.keys, (hset ⟨email, password, .rehashed user⟩ rfl).symm⟩
  | rehashed user =>
      obtain ⟨-, herase⟩ := filterMap_unseen Attempt.lockoutCall hattempt rfl
      rw [← h.calls] at herase
      exact ⟨[], t, rfl, h.keys, herase.symm⟩

theorem serviceStep_follows (h : s.Follows t) (hredis : RedisAnswers a)
    (hstep : serviceStep env passwords hash s a = some s') :
    ∃ acts t', exec (loginStep env) t acts = some t' ∧ s'.Follows t' := by
  cases a with
  | tick ms =>
      cases hstep
      refine ⟨[.tick ms], t.tick ms, ?_, h.keys.tick ms, h.calls⟩
      rw [exec_singleton, loginStep]
  | login email password =>
      cases hstep
      refine ⟨[.login email], { t with calls := t.calls ++ [⟨env.toLowerCase email, .entered⟩] },
        by rw [exec_singleton, loginStep], ⟨h.keys.now, h.keys.failures, h.keys.locks⟩, ?_⟩
      rw [List.filterMap_append, ← h.calls]
      rfl
  | proceed i turn =>
      simp only [serviceStep] at hstep
      split at hstep
      · next attempt hattempt =>
        cases hstep
        exact proceed_follows h hattempt (hredis i turn rfl)
      · cases hstep

/-- The keys of the throttle in a run of the service are those of a run of the
lockout. -/
theorem service_follows_lockout {throttle : LoginSystem} {accounts : AccountStore}
    {acts : List ServiceAction} (hcalls : throttle.calls = [])
    (hredis : ∀ a ∈ acts, RedisAnswers a)
    (hrun : exec (serviceStep env passwords hash) (.start throttle accounts) acts = some s) :
    ∃ acts' t, exec (loginStep env) throttle acts' = some t ∧ s.Follows t := by
  have hstart : (LoginService.start throttle accounts).Follows throttle :=
    ⟨⟨rfl, rfl, rfl⟩, hcalls⟩
  exact exec_simulation (fun _ _ _ _ hR ha hstep => serviceStep_follows hR ha hstep) hstart
    (along_of_forall_mem fun a ha _ => hredis a ha) hrun

end Simulation

end Eventify
