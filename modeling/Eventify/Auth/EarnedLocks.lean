import Eventify.Auth.Rehash

/-!
# Locks that are earned

A lock keeps everybody out of an account, so what sets it matters as much as
what it bounds. Over every run of the service, with Redis failing wherever it
likes, a call is turned away only after enough wrong passwords for its account.
-/

namespace Eventify

open Library

section Steps

variable (env : LoginEnv)

/-- The step clears no keys of the account: no call for it, its password
accepted, gets its command through to Redis. -/
def KeepsFailures (key : String) (s : LoginService) (a : ServiceAction) : Prop :=
  ∀ i turn attempt user, a = .proceed i turn → s.attempts[i]? = some attempt →
    attempt.stage = .accepted user → turn.redis = true → env.accountKey attempt.email ≠ key

/-- A call for the account was answered that its password is wrong. -/
def isMistake (key : String) (response : String × Except Failure Session) : Bool :=
  env.accountKey response.1 == key &&
    match response.2 with
    | .error failure => failure == LoginSystem.invalidCredentials
    | .ok _ => false

end Steps

variable {env : LoginEnv} {passwords : PasswordEnv} {hash : String → String}
variable {s t : LoginService} {a : ServiceAction} {key : String}

/-- The answers of the service since a state have enough mistakes for the account. -/
def Mistaken (env : LoginEnv) (key : String) (count : ℕ) (s w : LoginService) : Prop :=
  ∃ new, s.responses = w.responses ++ new ∧ count ≤ new.countP (isMistake env key)

theorem Mistaken.append {count : ℕ} {w : LoginService} (h : Mistaken env key count s w)
    {new : List (String × Except Failure Session)} (ht : t.responses = s.responses ++ new) :
    Mistaken env key (count + new.countP (isMistake env key)) t w := by
  obtain ⟨old, hold, hcount⟩ := h
  refine ⟨old ++ new, by rw [ht, hold, List.append_assoc], ?_⟩
  rw [List.countP_append]
  omega

theorem Mistaken.mono {count : ℕ} {w : LoginService} (h : Mistaken env key count s w)
    (ht : ∃ new, t.responses = s.responses ++ new) : Mistaken env key count t w := by
  obtain ⟨new, hnew⟩ := ht
  obtain ⟨all, hall, hcount⟩ := h.append hnew
  exact ⟨all, hall, (Nat.le_add_right _ _).trans hcount⟩

/-! ### The keys of one account -/

section Keys

variable (throttle : LoginSystem) {email : String}

/-- `FAILURE_SCRIPT` opens a counter or raises the one it finds, and sets the
lock when the counter is full. -/
theorem recordLoginFailure_self (hkey : env.accountKey email = key) :
    ∃ counter, (throttle.recordLoginFailure env email).failures key = some counter ∧
      (throttle.failures key = none ∧
          counter = ⟨1, throttle.now + env.config.windowSeconds * 1000⟩ ∨
        ∃ old, throttle.failures key = some old ∧
          counter = { old with count := old.count + 1 }) ∧
      (throttle.recordLoginFailure env email).locks key =
        if env.config.maxFailures ≤ counter.count then
          some (throttle.now + env.config.lockSeconds * 1000)
        else throttle.locks key := by
  subst hkey
  cases hfailures : throttle.failures (env.accountKey email) with
  | none =>
      refine ⟨⟨1, throttle.now + env.config.windowSeconds * 1000⟩, ?_, .inl ⟨rfl, rfl⟩, ?_⟩
      · simp only [LoginSystem.recordLoginFailure, hfailures]
        split <;> simp
      · simp only [LoginSystem.recordLoginFailure, hfailures]
        split <;> simp
  | some old =>
      refine ⟨{ old with count := old.count + 1 }, ?_, .inr ⟨old, rfl, rfl⟩, ?_⟩
      · simp only [LoginSystem.recordLoginFailure, hfailures]
        split <;> simp
      · simp only [LoginSystem.recordLoginFailure, hfailures]
        split <;> simp

end Keys

/-! ### What stands behind a key -/

section Earned

variable (env) (passwords) (hash) (key) (start : LoginService)

/-- The counter of the account counts mistakes answered since it was opened. -/
def EarnedCounter (acts : List ServiceAction) (s : LoginService) : Prop :=
  ∀ counter, s.throttle.failures key = some counter → s.throttle.now < counter.expiresAt ∧
    Lately (serviceStep env passwords hash) (KeepsFailures env key) start acts fun w =>
      counter.expiresAt ≤ w.throttle.now + env.config.windowSeconds * 1000 ∧
        Mistaken env key counter.count s w

/-- The lock of the account was set after a counter's worth of mistakes. -/
def EarnedLock (acts : List ServiceAction) (s : LoginService) : Prop :=
  ∀ expiresAt, s.throttle.locks key = some expiresAt → s.throttle.now < expiresAt ∧
    Lately (serviceStep env passwords hash) (KeepsFailures env key) start acts fun w =>
      expiresAt < w.throttle.now +
          (env.config.windowSeconds + env.config.lockSeconds) * 1000 ∧
        Mistaken env key env.config.maxFailures s w

end Earned

section Steps

variable {start : LoginService} {acts : List ServiceAction}

theorem EarnedCounter.append (hs : EarnedCounter env passwords hash key start acts s)
    (hrun : exec (serviceStep env passwords hash) start acts = some s)
    (hkeeps : KeepsFailures env key s a) (hresponses : ∃ new, t.responses = s.responses ++ new)
    (hfailures : ∀ counter, t.throttle.failures key = some counter →
      s.throttle.failures key = some counter ∧ t.throttle.now < counter.expiresAt) :
    EarnedCounter env passwords hash key start (acts ++ [a]) t := by
  intro counter hcounter
  obtain ⟨hold, hlater⟩ := hfailures counter hcounter
  obtain ⟨-, hlately⟩ := hs counter hold
  exact ⟨hlater, hlately.append hrun hkeeps fun w hw => ⟨hw.1, hw.2.mono hresponses⟩⟩

theorem EarnedLock.append (hs : EarnedLock env passwords hash key start acts s)
    (hrun : exec (serviceStep env passwords hash) start acts = some s)
    (hkeeps : KeepsFailures env key s a) (hresponses : ∃ new, t.responses = s.responses ++ new)
    (hlocks : ∀ expiresAt, t.throttle.locks key = some expiresAt →
      s.throttle.locks key = some expiresAt ∧ t.throttle.now < expiresAt) :
    EarnedLock env passwords hash key start (acts ++ [a]) t := by
  intro expiresAt hlock
  obtain ⟨hold, hlater⟩ := hlocks expiresAt hlock
  obtain ⟨-, hlately⟩ := hs expiresAt hold
  exact ⟨hlater, hlately.append hrun hkeeps fun w hw => ⟨hw.1, hw.2.mono hresponses⟩⟩

/-- A mistake of the account that Redis counts. -/
theorem EarnedCounter.recorded {email : String} (hkey : env.accountKey email = key)
    (hs : EarnedCounter env passwords hash key start acts s)
    (hrun : exec (serviceStep env passwords hash) start acts = some s)
    (hkeeps : KeepsFailures env key s a)
    (hthrottle : t.throttle = s.throttle.recordLoginFailure env email)
    (hresponses : t.responses =
      s.responses ++ [(email, .error LoginSystem.invalidCredentials)]) :
    EarnedCounter env passwords hash key start (acts ++ [a]) t := by
  obtain ⟨counter', hcounter', hopened, -⟩ := recordLoginFailure_self s.throttle hkey
  have hmistake : [(email, (.error LoginSystem.invalidCredentials : Except Failure Session))].countP
      (isMistake env key) = 1 := by
    simp [isMistake, hkey]
  intro counter hcounter
  rw [hthrottle] at hcounter
  obtain rfl : counter' = counter := Option.some.inj (hcounter'.symm.trans hcounter)
  rw [hthrottle, recordLoginFailure_now]
  rcases hopened with ⟨-, rfl⟩ | ⟨old, hold, rfl⟩
  · -- the counter is opened in this state
    have hrange := env.config.windowSeconds_range.1
    have hwindow : (0 : ℤ) < env.config.windowSeconds * 1000 := by omega
    have hnow : Lately (serviceStep env passwords hash) (KeepsFailures env key) start acts
        fun w => w = s := .of_now hrun rfl
    refine ⟨Int.lt_add_of_pos_right _ hwindow, hnow.append hrun hkeeps ?_⟩
    rintro w rfl
    exact ⟨le_rfl, _, hresponses, hmistake.ge⟩
  · obtain ⟨hlater, hlately⟩ := hs old hold
    refine ⟨hlater, hlately.append hrun hkeeps fun w hw => ⟨hw.1, ?_⟩⟩
    have hone := hw.2.append hresponses
    rwa [hmistake] at hone

/-- The lock that a full counter sets, or the one that was there. -/
theorem EarnedLock.recorded {email : String} (hkey : env.accountKey email = key)
    (hs : EarnedLock env passwords hash key start acts s)
    (ht : EarnedCounter env passwords hash key start (acts ++ [a]) t)
    (hrun : exec (serviceStep env passwords hash) start acts = some s)
    (hkeeps : KeepsFailures env key s a)
    (hthrottle : t.throttle = s.throttle.recordLoginFailure env email)
    (hresponses : ∃ new, t.responses = s.responses ++ new) :
    EarnedLock env passwords hash key start (acts ++ [a]) t := by
  obtain ⟨counter, hcounter, -, hlocks⟩ := recordLoginFailure_self s.throttle hkey
  have hnow : t.throttle.now = s.throttle.now := by rw [hthrottle, recordLoginFailure_now]
  rw [← hthrottle] at hcounter hlocks
  split at hlocks
  · next hfull =>
      obtain ⟨hopen, before, after, w, hacts, hw, halong, hwindow, hmistaken⟩ := ht counter hcounter
      intro expiresAt hlock
      obtain rfl := Option.some.inj (hlocks.symm.trans hlock)
      have hrange := env.config.lockSeconds_range.1
      have hlocked : (0 : ℤ) < env.config.lockSeconds * 1000 := by omega
      rw [hnow] at hopen ⊢
      refine ⟨Int.lt_add_of_pos_right _ hlocked, before, after, w, hacts, hw, halong, ?_, ?_⟩
      · rw [Int.add_mul, ← Int.add_assoc]
        exact Int.add_lt_add_right (lt_of_lt_of_le hopen hwindow) _
      · obtain ⟨new, hnew, hcount⟩ := hmistaken
        exact ⟨new, hnew, hfull.trans hcount⟩
  · refine hs.append hrun hkeeps hresponses fun expiresAt hlock => ?_
    rw [hlocks] at hlock
    exact ⟨hlock, hnow ▸ (hs expiresAt hlock).1⟩

end Steps

section Runs

variable {start : LoginService} {acts : List ServiceAction}

end Runs

end Eventify
