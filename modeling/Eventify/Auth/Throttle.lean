import Eventify.Domain
import Eventify.Library.Machine

/-!
# The lockout of an account

`assertLoginAllowed`, the password verification and `recordLoginFailure` are
steps of their own, so calls that have passed the check are not counted yet
when the next one passes it. The Redis keys of an account are its failure
counter and its lock, found by the hash of its email.
-/

namespace Eventify

open Library

structure LoginConfig where
  maxFailures : ℕ
  windowSeconds : ℕ
  lockSeconds : ℕ
  maxFailures_range : 1 ≤ maxFailures ∧ maxFailures ≤ 100
  windowSeconds_range : 1 ≤ windowSeconds ∧ windowSeconds ≤ 86400
  lockSeconds_range : 1 ≤ lockSeconds ∧ lockSeconds ≤ 86400

def defaultLoginConfig : LoginConfig where
  maxFailures := 5
  windowSeconds := 900
  lockSeconds := 300
  maxFailures_range := by decide
  windowSeconds_range := by decide
  lockSeconds_range := by decide

/-- The string functions of the service, and what `TTL` answers for a key that
lives for so many more milliseconds. -/
structure LoginEnv where
  toLowerCase : String → String
  trim : String → String
  sha256 : String → String
  ttl : Time → ℤ
  config : LoginConfig

def LoginEnv.accountKey (env : LoginEnv) (email : String) : String :=
  env.sha256 (env.toLowerCase (env.trim email))

structure FailureCounter where
  count : ℕ
  expiresAt : Time
  deriving DecidableEq, Repr

inductive LoginStage where
  | entered
  | allowed
  | verified (valid : Bool)
  deriving DecidableEq, Repr

/-- A call of `login`, with the email it has lower-cased. -/
structure LoginCall where
  email : String
  stage : LoginStage
  deriving DecidableEq, Repr

/-- `evaluated` and `settled` are history: the verifications since the last
window of the account ended, and whether its lock has been set or a login has
succeeded since. -/
structure LoginSystem where
  now : Time
  failures : String → Option FailureCounter
  locks : String → Option Time
  calls : List LoginCall
  answers : List (String × Except Failure Unit)
  evaluated : String → ℕ
  settled : String → Bool

inductive LoginAction where
  | tick (ms : ℕ)
  | login (email : String)
  | assertLoginAllowed (i : ℕ)
  | verifyPassword (i : ℕ) (valid : Bool)
  | recordLoginFailure (i : ℕ)
  | clearLoginFailures (i : ℕ)
  | findUserThrows (i : ℕ) (failure : Failure)

namespace LoginSystem

def start (now : Time) : LoginSystem where
  now := now
  failures := fun _ => none
  locks := fun _ => none
  calls := []
  answers := []
  evaluated := fun _ => 0
  settled := fun _ => false

def tooManyAttempts : Failure := .status 429 "Too many login attempts. Try again later."

def invalidCredentials : Failure := .status 401 "Invalid email or password"

def assertLoginAllowed (s : LoginSystem) (env : LoginEnv) (email : String) : Except Failure Unit :=
  match s.locks (env.accountKey email) with
  | none => .ok ()
  | some expiresAt => if env.ttl (expiresAt - s.now) > 0 then .error tooManyAttempts else .ok ()

/-- `FAILURE_SCRIPT`: `INCR` keeps the expiry of a counter that it finds. -/
def recordLoginFailure (s : LoginSystem) (env : LoginEnv) (email : String) : LoginSystem :=
  let key := env.accountKey email
  let counter := match s.failures key with
    | none => ⟨1, s.now + env.config.windowSeconds * 1000⟩
    | some counter => { counter with count := counter.count + 1 }
  let counted := { s with failures := Function.update s.failures key (some counter) }
  if env.config.maxFailures ≤ counter.count then
    { counted with
      locks := Function.update s.locks key (some (s.now + env.config.lockSeconds * 1000))
      settled := Function.update s.settled key true }
  else counted

def clearLoginFailures (s : LoginSystem) (env : LoginEnv) (email : String) : LoginSystem :=
  let key := env.accountKey email
  { s with
    failures := Function.update s.failures key none
    locks := Function.update s.locks key none
    evaluated := Function.update s.evaluated key 0
    settled := Function.update s.settled key false }

/-- Time passes, and Redis drops the keys that have expired. -/
def tick (s : LoginSystem) (ms : ℕ) : LoginSystem :=
  let now := s.now + ms
  let ended := fun key => (s.failures key).any fun counter => decide (counter.expiresAt ≤ now)
  { s with
    now
    failures := fun key => if ended key then none else s.failures key
    locks := fun key => (s.locks key).filter fun expiresAt => decide (now < expiresAt)
    evaluated := fun key => if ended key then 0 else s.evaluated key
    settled := fun key => if ended key then false else s.settled key }

def setStage (s : LoginSystem) (i : ℕ) (call : LoginCall) (stage : LoginStage) : LoginSystem :=
  { s with calls := s.calls.set i { call with stage } }

def finish (s : LoginSystem) (i : ℕ) (call : LoginCall) (result : Except Failure Unit) :
    LoginSystem :=
  { s with calls := s.calls.eraseIdx i, answers := s.answers ++ [(call.email, result)] }

end LoginSystem

def loginStep (env : LoginEnv) (s : LoginSystem) : LoginAction → Option LoginSystem
  | .tick ms => some (s.tick ms)
  | .login email => some { s with calls := s.calls ++ [⟨env.toLowerCase email, .entered⟩] }
  | .assertLoginAllowed i =>
      match s.calls[i]? with
      | some ⟨email, .entered⟩ =>
          match s.assertLoginAllowed env email with
          | .error failure => some (s.finish i ⟨email, .entered⟩ (.error failure))
          | .ok () => some (s.setStage i ⟨email, .entered⟩ .allowed)
      | _ => none
  | .verifyPassword i valid =>
      match s.calls[i]? with
      | some ⟨email, .allowed⟩ =>
          let key := env.accountKey email
          some { s.setStage i ⟨email, .allowed⟩ (.verified valid) with
            evaluated := Function.update s.evaluated key (s.evaluated key + 1)
            settled := Function.update s.settled key (s.settled key || valid) }
      | _ => none
  | .recordLoginFailure i =>
      match s.calls[i]? with
      | some ⟨email, .verified false⟩ =>
          some ((s.finish i ⟨email, .verified false⟩
            (.error LoginSystem.invalidCredentials)).recordLoginFailure env email)
      | _ => none
  | .clearLoginFailures i =>
      match s.calls[i]? with
      | some ⟨email, .verified true⟩ =>
          some ((s.finish i ⟨email, .verified true⟩ (.ok ())).clearLoginFailures env email)
      | _ => none
  | .findUserThrows i failure =>
      match s.calls[i]? with
      | some ⟨email, .allowed⟩ => some (s.finish i ⟨email, .allowed⟩ (.error failure))
      | _ => none

/-- One account: its lock, the failures recorded, the calls that are past the
check, and those that have failed the verification and are not recorded yet. -/
structure Account where
  locked : Bool
  recorded : ℕ
  allowed : ℕ
  unrecorded : ℕ
  evaluated : ℕ
  settled : Bool

/-- The steps of an account whose calls pass the check in turn. -/
inductive AccountStep (max : ℕ) (x : Account) : Account → Prop
  | stays : AccountStep max x x
  | lapses {locked : Bool} (hlock : locked = true → x.locked = true) :
      AccountStep max x { x with locked }
  | expires {locked : Bool} (hlock : locked = true → x.locked = true) :
      AccountStep max x { x with locked, recorded := 0, evaluated := 0, settled := false }
  | passes (hlock : x.locked = false)
      (hturn : x.allowed + x.unrecorded = 0 ∨ x.recorded + x.allowed + x.unrecorded < max) :
      AccountStep max x { x with allowed := x.allowed + 1 }
  | mistakes {allowed : ℕ} (h : x.allowed = allowed + 1) :
      AccountStep max x
        { x with allowed, unrecorded := x.unrecorded + 1, evaluated := x.evaluated + 1 }
  | succeeds {allowed : ℕ} (h : x.allowed = allowed + 1) :
      AccountStep max x { x with allowed, evaluated := x.evaluated + 1, settled := true }
  | fails {unrecorded : ℕ} (h : x.unrecorded = unrecorded + 1) (hbelow : x.recorded + 1 < max) :
      AccountStep max x { x with unrecorded, recorded := x.recorded + 1 }
  | locks {unrecorded : ℕ} (h : x.unrecorded = unrecorded + 1) (hreached : max ≤ x.recorded + 1) :
      AccountStep max x
        { x with unrecorded, recorded := x.recorded + 1, locked := true, settled := true }
  | clears :
      AccountStep max x { x with recorded := 0, locked := false, evaluated := 0, settled := false }
  | leaves {allowed : ℕ} (h : x.allowed = allowed + 1) : AccountStep max x { x with allowed }

/-- A lock finds no call past the check, and the failures recorded and still
to come fit under the bound or are those of one call. -/
structure Account.Paced (max : ℕ) (x : Account) : Prop where
  locked : x.locked = true → x.allowed + x.unrecorded = 0
  room : x.allowed + x.unrecorded ≤ 1 ∨ x.recorded + x.allowed + x.unrecorded ≤ max
  counted : x.settled = false → x.evaluated ≤ x.recorded + x.unrecorded
  below : x.settled = false → x.recorded < max

theorem Account.Paced.step {max : ℕ} (hmax : 1 ≤ max) {x y : Account} (hx : x.Paced max)
    (h : AccountStep max x y) : y.Paced max := by
  obtain ⟨hlocked, hroom, hcounted, hbelow⟩ := hx
  cases h with
  | stays => exact ⟨hlocked, hroom, hcounted, hbelow⟩
  | lapses hlock => exact ⟨fun h => hlocked (hlock h), hroom, hcounted, hbelow⟩
  | expires hlock =>
      refine ⟨fun h => hlocked (hlock h), ?_, fun _ => Nat.zero_le _, fun _ => hmax⟩
      dsimp only
      omega
  | passes hlock hturn =>
      refine ⟨fun h => ?_, ?_, hcounted, hbelow⟩
      · simp [hlock] at h
      · dsimp only
        omega
  | mistakes h =>
      refine ⟨fun hlock => ?_, ?_, fun hopen => ?_, hbelow⟩
      · have := hlocked hlock
        omega
      · dsimp only
        omega
      · have := hcounted hopen
        dsimp only
        omega
  | succeeds h =>
      refine ⟨fun hlock => ?_, ?_, fun hopen => ?_, fun hopen => ?_⟩
      · have := hlocked hlock
        omega
      · dsimp only
        omega
      · cases hopen
      · cases hopen
  | fails h hless =>
      refine ⟨fun hlock => ?_, ?_, fun hopen => ?_, fun _ => hless⟩
      · have := hlocked hlock
        omega
      · dsimp only
        omega
      · have := hcounted hopen
        dsimp only
        omega
  | locks h hreached =>
      refine ⟨fun _ => ?_, ?_, fun hopen => ?_, fun hopen => ?_⟩
      · dsimp only
        omega
      · dsimp only
        omega
      · cases hopen
      · cases hopen
  | clears =>
      refine ⟨fun hlock => ?_, ?_, fun _ => Nat.zero_le _, fun _ => hmax⟩
      · cases hlock
      · dsimp only
        omega
  | leaves h =>
      refine ⟨fun hlock => ?_, ?_, hcounted, hbelow⟩
      · have := hlocked hlock
        omega
      · dsimp only
        omega

def LoginEnv.isAllowed (env : LoginEnv) (key : String) (call : LoginCall) : Bool :=
  env.accountKey call.email == key && call.stage == .allowed

def LoginEnv.isMistaken (env : LoginEnv) (key : String) (call : LoginCall) : Bool :=
  env.accountKey call.email == key && call.stage == .verified false

def LoginSystem.account (s : LoginSystem) (env : LoginEnv) (key : String) : Account where
  locked := (s.locks key).isSome
  recorded := ((s.failures key).map FailureCounter.count).getD 0
  allowed := s.calls.countP (env.isAllowed key)
  unrecorded := s.calls.countP (env.isMistaken key)
  evaluated := s.evaluated key
  settled := s.settled key

/-- A call passes the check only when the lock is gone and either no other call
of the account is past it, or the failures recorded and to come leave room. -/
def PassesInTurn (env : LoginEnv) (s : LoginSystem) (a : LoginAction) : Prop :=
  ∀ i email, a = .assertLoginAllowed i → s.calls[i]? = some ⟨email, .entered⟩ →
    s.assertLoginAllowed env email = .ok () →
      let account := s.account env (env.accountKey email)
      account.locked = false ∧
        (account.allowed + account.unrecorded = 0 ∨
          account.recorded + account.allowed + account.unrecorded < env.config.maxFailures)

instance PassesInTurn.decidable (env : LoginEnv) (s : LoginSystem) :
    ∀ a, Decidable (PassesInTurn env s a)
  | .assertLoginAllowed i =>
      let account := fun email => s.account env (env.accountKey email)
      decidable_of_iff (∀ call ∈ s.calls[i]?, call.stage = .entered →
          (s.assertLoginAllowed env call.email).isOk → (account call.email).locked = false ∧
            ((account call.email).allowed + (account call.email).unrecorded = 0 ∨
              (account call.email).recorded + (account call.email).allowed +
                (account call.email).unrecorded < env.config.maxFailures)) <| by
        constructor
        · rintro h _ email ⟨⟩ hcall hok
          exact h ⟨email, .entered⟩ hcall rfl (by rw [hok]; rfl)
        · rintro h ⟨email, stage⟩ hcall rfl hok
          refine h i email rfl hcall ?_
          cases hresult : s.assertLoginAllowed env email with
          | error failure => simp [hresult, Except.isOk, Except.toBool] at hok
          | ok => rfl
  | .tick _ | .login _ | .verifyPassword _ _ | .recordLoginFailure _ | .clearLoginFailures _
  | .findUserThrows _ _ => .isTrue nofun

/-- A password is verified only while the lock of the account is gone, and at
most `maxFailures` times before the lock has been set. -/
def BoundsGuessing (env : LoginEnv) (s : LoginSystem) (a : LoginAction) : Prop :=
  ∀ i valid email t, a = .verifyPassword i valid → s.calls[i]? = some ⟨email, .allowed⟩ →
    loginStep env s a = some t →
      let key := env.accountKey email
      s.locks key = none ∧ (s.settled key = false → t.evaluated key ≤ env.config.maxFailures)

variable {env : LoginEnv} {s t : LoginSystem} {a : LoginAction}

theorem account_tick (s : LoginSystem) (ms : ℕ) (key : String) :
    AccountStep env.config.maxFailures (s.account env key) ((s.tick ms).account env key) := by
  have hlock : ((s.tick ms).locks key).isSome = true → (s.locks key).isSome = true := by
    intro h
    cases hlocks : s.locks key with
    | none => simp [LoginSystem.tick, hlocks] at h
    | some expiresAt => rfl
  by_cases hended : ((s.failures key).any fun counter =>
      decide (counter.expiresAt ≤ s.now + ms)) = true
  · have haccount : (s.tick ms).account env key = { s.account env key with
        locked := ((s.tick ms).locks key).isSome
        recorded := 0, evaluated := 0, settled := false } := by
      simp [LoginSystem.account, LoginSystem.tick, hended]
    rw [haccount]
    exact .expires hlock
  · have haccount : (s.tick ms).account env key = { s.account env key with
        locked := ((s.tick ms).locks key).isSome } := by
      simp [LoginSystem.account, LoginSystem.tick, hended]
    rw [haccount]
    exact .lapses hlock

/-- The counts of an account without the call, and what the call adds. -/
theorem account_counts (env : LoginEnv) {i : ℕ} {email : String} {stage : LoginStage}
    (hcall : s.calls[i]? = some ⟨email, stage⟩) (key : String) :
    (s.account env key).allowed = (s.calls.eraseIdx i).countP (env.isAllowed key) +
      (if env.accountKey email = key ∧ stage = .allowed then 1 else 0) ∧
    (s.account env key).unrecorded = (s.calls.eraseIdx i).countP (env.isMistaken key) +
      (if env.accountKey email = key ∧ stage = .verified false then 1 else 0) := by
  simp only [LoginSystem.account, countP_eraseIdx hcall]
  simp [LoginEnv.isAllowed, LoginEnv.isMistaken]

theorem account_setStage (env : LoginEnv) {i : ℕ} {email : String} {old : LoginStage}
    (hcall : s.calls[i]? = some ⟨email, old⟩) (stage : LoginStage) (key : String) :
    (s.setStage i ⟨email, old⟩ stage).account env key = { s.account env key with
      allowed := (s.calls.eraseIdx i).countP (env.isAllowed key) +
        (if env.accountKey email = key ∧ stage = .allowed then 1 else 0)
      unrecorded := (s.calls.eraseIdx i).countP (env.isMistaken key) +
        (if env.accountKey email = key ∧ stage = .verified false then 1 else 0) } := by
  simp only [LoginSystem.account, LoginSystem.setStage, countP_set hcall]
  simp [LoginEnv.isAllowed, LoginEnv.isMistaken]

theorem account_finish (i : ℕ) (call : LoginCall) (result : Except Failure Unit) (key : String) :
    (s.finish i call result).account env key = { s.account env key with
      allowed := (s.calls.eraseIdx i).countP (env.isAllowed key)
      unrecorded := (s.calls.eraseIdx i).countP (env.isMistaken key) } := rfl

section OtherAccounts

variable {i : ℕ} {email key : String} {stage : LoginStage}

/-- A call counts for its own account only. -/
theorem account_counts_of_ne (hcall : s.calls[i]? = some ⟨email, stage⟩)
    (hkey : env.accountKey email ≠ key) :
    (s.account env key).allowed = (s.calls.eraseIdx i).countP (env.isAllowed key) ∧
      (s.account env key).unrecorded = (s.calls.eraseIdx i).countP (env.isMistaken key) := by
  have hcounts := account_counts env hcall key
  simpa only [hkey, false_and, if_false, Nat.add_zero] using hcounts

theorem account_setStage_of_ne (hcall : s.calls[i]? = some ⟨email, stage⟩)
    (hkey : env.accountKey email ≠ key) (next : LoginStage) :
    (s.setStage i ⟨email, stage⟩ next).account env key = s.account env key := by
  obtain ⟨hallowed, hmistaken⟩ := account_counts_of_ne hcall hkey
  rw [account_setStage env hcall]
  simp only [hkey, false_and, if_false, Nat.add_zero, ← hallowed, ← hmistaken]

theorem account_finish_of_ne (hcall : s.calls[i]? = some ⟨email, stage⟩)
    (hkey : env.accountKey email ≠ key) (result : Except Failure Unit) :
    (s.finish i ⟨email, stage⟩ result).account env key = s.account env key := by
  obtain ⟨hallowed, hmistaken⟩ := account_counts_of_ne hcall hkey
  rw [account_finish, ← hallowed, ← hmistaken]

end OtherAccounts

theorem account_assertLoginAllowed {i : ℕ} (hgood : PassesInTurn env s (.assertLoginAllowed i))
    (h : loginStep env s (.assertLoginAllowed i) = some t) (key : String) :
    AccountStep env.config.maxFailures (s.account env key) (t.account env key) := by
  simp only [loginStep] at h
  split at h
  · next email hcall =>
    obtain ⟨hallowed, hmistaken⟩ := account_counts env hcall key
    simp only [reduceCtorEq, and_false, if_false, Nat.add_zero] at hallowed hmistaken
    split at h
    · cases h
      rw [account_finish, ← hallowed, ← hmistaken]
      exact .stays
    · next hok =>
      cases h
      obtain ⟨hlock, hturn⟩ := hgood i email rfl hcall hok
      by_cases hkey : env.accountKey email = key
      · subst hkey
        rw [account_setStage env hcall, ← hallowed, ← hmistaken]
        simpa using AccountStep.passes hlock hturn
      · rw [account_setStage_of_ne hcall hkey]
        exact .stays
  · cases h

theorem account_verifyPassword {i : ℕ} {valid : Bool}
    (h : loginStep env s (.verifyPassword i valid) = some t) (key : String) :
    AccountStep env.config.maxFailures (s.account env key) (t.account env key) := by
  simp only [loginStep] at h
  split at h
  · next email hcall =>
    cases h
    change AccountStep _ _ { (s.setStage i ⟨email, .allowed⟩ (.verified valid)).account env key with
      evaluated := Function.update s.evaluated (env.accountKey email)
        (s.evaluated (env.accountKey email) + 1) key
      settled := Function.update s.settled (env.accountKey email)
        (s.settled (env.accountKey email) || valid) key }
    by_cases hkey : env.accountKey email = key
    · subst hkey
      obtain ⟨hallowed, hmistaken⟩ := account_counts env hcall (env.accountKey email)
      simp only [reduceCtorEq, and_self, and_false, if_false, if_true, Nat.add_zero]
        at hallowed hmistaken
      rw [account_setStage env hcall]
      simp only [Function.update_self, reduceCtorEq, and_false, if_false, Nat.add_zero]
      cases valid with
      | true =>
          simp only [Bool.or_true, LoginStage.verified.injEq, Bool.true_eq_false, and_false,
            if_false, Nat.add_zero, ← hmistaken]
          exact .succeeds hallowed
      | false =>
          simp only [Bool.or_false, and_self, if_true, ← hmistaken]
          exact .mistakes hallowed
    · rw [account_setStage_of_ne hcall hkey, Function.update_of_ne (Ne.symm hkey),
        Function.update_of_ne (Ne.symm hkey)]
      exact .stays
  · cases h

theorem recordLoginFailure_account (s : LoginSystem) (email : String) :
    (s.recordLoginFailure env email).account env (env.accountKey email) =
      let x := s.account env (env.accountKey email)
      if env.config.maxFailures ≤ x.recorded + 1 then
        { x with recorded := x.recorded + 1, locked := true, settled := true }
      else { x with recorded := x.recorded + 1 } := by
  cases hfound : s.failures (env.accountKey email) with
  | none =>
      simp only [LoginSystem.recordLoginFailure, hfound, LoginSystem.account, Option.map_none,
        Option.getD_none, Nat.zero_add]
      split <;> simp
  | some counter =>
      simp only [LoginSystem.recordLoginFailure, hfound, LoginSystem.account, Option.map_some,
        Option.getD_some]
      split <;> simp

theorem recordLoginFailure_account_of_ne (s : LoginSystem) {email key : String}
    (hkey : env.accountKey email ≠ key) :
    (s.recordLoginFailure env email).account env key = s.account env key := by
  cases hfound : s.failures (env.accountKey email) <;>
    simp only [LoginSystem.recordLoginFailure, hfound] <;>
    split <;> simp [LoginSystem.account, Ne.symm hkey]

theorem clearLoginFailures_account (s : LoginSystem) (email : String) :
    (s.clearLoginFailures env email).account env (env.accountKey email) =
      { s.account env (env.accountKey email) with
        recorded := 0, locked := false, evaluated := 0, settled := false } := by
  simp [LoginSystem.clearLoginFailures, LoginSystem.account]

theorem clearLoginFailures_account_of_ne (s : LoginSystem) {email key : String}
    (hkey : env.accountKey email ≠ key) :
    (s.clearLoginFailures env email).account env key = s.account env key := by
  simp [LoginSystem.clearLoginFailures, LoginSystem.account, Ne.symm hkey]

theorem account_recordLoginFailure {i : ℕ}
    (h : loginStep env s (.recordLoginFailure i) = some t) (key : String) :
    AccountStep env.config.maxFailures (s.account env key) (t.account env key) := by
  simp only [loginStep] at h
  split at h
  · next email hcall =>
    cases h
    by_cases hkey : env.accountKey email = key
    · subst hkey
      obtain ⟨hallowed, hmistaken⟩ := account_counts env hcall (env.accountKey email)
      simp only [reduceCtorEq, and_self, and_false, if_false, if_true, Nat.add_zero]
        at hallowed hmistaken
      rw [recordLoginFailure_account, account_finish, ← hallowed]
      dsimp only
      split
      · next hreached => exact .locks hmistaken hreached
      · next hbelow => exact .fails hmistaken (not_le.mp hbelow)
    · rw [recordLoginFailure_account_of_ne _ hkey, account_finish_of_ne hcall hkey]
      exact .stays
  · cases h

theorem account_clearLoginFailures {i : ℕ}
    (h : loginStep env s (.clearLoginFailures i) = some t) (key : String) :
    AccountStep env.config.maxFailures (s.account env key) (t.account env key) := by
  simp only [loginStep] at h
  split at h
  · next email hcall =>
    cases h
    by_cases hkey : env.accountKey email = key
    · subst hkey
      obtain ⟨hallowed, hmistaken⟩ := account_counts env hcall (env.accountKey email)
      simp only [reduceCtorEq, LoginStage.verified.injEq, Bool.true_eq_false, and_false, if_false,
        Nat.add_zero] at hallowed hmistaken
      rw [clearLoginFailures_account, account_finish, ← hallowed, ← hmistaken]
      exact .clears
    · rw [clearLoginFailures_account_of_ne _ hkey, account_finish_of_ne hcall hkey]
      exact .stays
  · cases h

theorem account_findUserThrows {i : ℕ} {failure : Failure}
    (h : loginStep env s (.findUserThrows i failure) = some t) (key : String) :
    AccountStep env.config.maxFailures (s.account env key) (t.account env key) := by
  simp only [loginStep] at h
  split at h
  · next email hcall =>
    cases h
    by_cases hkey : env.accountKey email = key
    · subst hkey
      obtain ⟨hallowed, hmistaken⟩ := account_counts env hcall (env.accountKey email)
      simp only [reduceCtorEq, and_self, and_false, if_false, if_true, Nat.add_zero]
        at hallowed hmistaken
      rw [account_finish, ← hmistaken]
      exact .leaves hallowed
    · rw [account_finish_of_ne hcall hkey]
      exact .stays
  · cases h

/-- Every account takes a step of its own, or none, when a call passes the
check only in turn. -/
theorem loginStep_account (hgood : PassesInTurn env s a) (h : loginStep env s a = some t)
    (key : String) :
    AccountStep env.config.maxFailures (s.account env key) (t.account env key) := by
  cases a with
  | tick ms =>
      cases h
      exact account_tick s ms key
  | login email =>
      cases h
      have haccount : LoginSystem.account
          { s with calls := s.calls ++ [⟨env.toLowerCase email, .entered⟩] } env key =
            s.account env key := by
        simp [LoginSystem.account, LoginEnv.isAllowed, LoginEnv.isMistaken]
      rw [haccount]
      exact .stays
  | assertLoginAllowed i => exact account_assertLoginAllowed hgood h key
  | verifyPassword i valid => exact account_verifyPassword h key
  | recordLoginFailure i => exact account_recordLoginFailure h key
  | clearLoginFailures i => exact account_clearLoginFailures h key
  | findUserThrows i failure => exact account_findUserThrows h key

theorem Account.Paced.start (env : LoginEnv) (now : Time) (key : String) :
    ((LoginSystem.start now).account env key).Paced env.config.maxFailures := by
  refine ⟨fun _ => rfl, .inl (Nat.zero_le _), fun _ => le_rfl, fun _ => ?_⟩
  exact env.config.maxFailures_range.1

theorem boundsGuessing_of_paced
    (hs : ∀ key, (s.account env key).Paced env.config.maxFailures) (a : LoginAction) :
    BoundsGuessing env s a := by
  rintro i valid email t rfl hcall h
  obtain ⟨hlocked, hroom, hcounted, hbelow⟩ := hs (env.accountKey email)
  obtain ⟨hallowed, -⟩ := account_counts env hcall (env.accountKey email)
  rw [if_pos ⟨rfl, rfl⟩] at hallowed
  constructor
  · cases hlock : s.locks (env.accountKey email) with
    | none => rfl
    | some expiresAt =>
        have hempty := hlocked (by simp [LoginSystem.account, hlock])
        omega
  · intro hopen
    have hevaluated : t.evaluated (env.accountKey email) =
        (s.account env (env.accountKey email)).evaluated + 1 := by
      simp only [loginStep, hcall] at h
      cases h
      exact Function.update_self _ _ _
    have hcount := hcounted hopen
    have hless := hbelow hopen
    omega

def LoginEnv.mayFail (env : LoginEnv) (key : String) (call : LoginCall) : Bool :=
  env.isAllowed key call || env.isMistaken key call

theorem countP_mayFail (env : LoginEnv) (key : String) (calls : List LoginCall) :
    calls.countP (env.mayFail key) =
      calls.countP (env.isAllowed key) + calls.countP (env.isMistaken key) := by
  induction calls with
  | nil => rfl
  | cons call calls ih =>
      simp only [List.countP_cons, ih]
      have honce : ¬ (env.isAllowed key call = true ∧ env.isMistaken key call = true) := by
        simp only [LoginEnv.isAllowed, LoginEnv.isMistaken, Bool.and_eq_true, beq_iff_eq]
        rintro ⟨⟨-, h⟩, -, h'⟩
        cases h.symm.trans h'
      cases hallowed : env.isAllowed key call <;> cases hmistaken : env.isMistaken key call <;>
        simp_all [LoginEnv.mayFail] <;> omega

theorem recordLoginFailure_calls (s : LoginSystem) (email : String) :
    (s.recordLoginFailure env email).calls = s.calls := by
  simp only [LoginSystem.recordLoginFailure]
  cases hfound : s.failures (env.accountKey email) <;> simp only <;> split <;> rfl

theorem fail_and_record_mistaken (env : LoginEnv) {i : ℕ} {email : String}
    (hcall : s.calls[i]? = some ⟨email, .verified false⟩) :
    ∃ u, loginStep env s (.recordLoginFailure i) = some u ∧ u.calls = s.calls.eraseIdx i ∧
      (u.account env (env.accountKey email)).recorded =
        (s.account env (env.accountKey email)).recorded + 1 ∧
      (env.config.maxFailures ≤ (u.account env (env.accountKey email)).recorded →
        (u.account env (env.accountKey email)).locked = true) := by
  have hstep : loginStep env s (.recordLoginFailure i) = some ((s.finish i ⟨email, .verified false⟩
      (.error LoginSystem.invalidCredentials)).recordLoginFailure env email) := by
    simp only [loginStep, hcall]
  refine ⟨_, hstep, recordLoginFailure_calls _ _, ?_⟩
  rw [recordLoginFailure_account]
  dsimp only
  split
  · exact ⟨rfl, fun _ => rfl⟩
  · next hbelow => exact ⟨rfl, fun hreached => (hbelow hreached).elim⟩

/-- A call past the check may fail and be recorded, whatever the others do. -/
theorem fail_and_record (env : LoginEnv) {i : ℕ} {email : String} {stage : LoginStage}
    (hcall : s.calls[i]? = some ⟨email, stage⟩)
    (hstage : stage = .allowed ∨ stage = .verified false) :
    ∃ acts u, exec (loginStep env) s acts = some u ∧ u.calls = s.calls.eraseIdx i ∧
      (u.account env (env.accountKey email)).recorded =
        (s.account env (env.accountKey email)).recorded + 1 ∧
      (env.config.maxFailures ≤ (u.account env (env.accountKey email)).recorded →
        (u.account env (env.accountKey email)).locked = true) := by
  rcases hstage with rfl | rfl
  · obtain ⟨t, ht, hcalls, hrecorded⟩ : ∃ t, loginStep env s (.verifyPassword i false) = some t ∧
        t.calls = s.calls.set i ⟨email, .verified false⟩ ∧
        (t.account env (env.accountKey email)).recorded =
          (s.account env (env.accountKey email)).recorded := by
      simp only [loginStep, hcall]
      exact ⟨_, rfl, rfl, rfl⟩
    obtain ⟨hi, -⟩ := List.getElem?_eq_some_iff.mp hcall
    have hcall' : t.calls[i]? = some ⟨email, .verified false⟩ := by
      rw [hcalls, List.getElem?_set_self hi]
    obtain ⟨u, hu, hcallsu, hrecordedu, hlocked⟩ := fail_and_record_mistaken env hcall'
    refine ⟨[.verifyPassword i false, .recordLoginFailure i], u, ?_, ?_, ?_, hlocked⟩
    · exact exec_cons_iff.mpr ⟨t, ht, by simpa using hu⟩
    · rw [hcallsu, hcalls, List.eraseIdx_set_eq]
    · rw [hrecordedu, hrecorded]
  · obtain ⟨u, hu, hrest⟩ := fail_and_record_mistaken env hcall
    exact ⟨[.recordLoginFailure i], u, by simpa using hu, hrest⟩

theorem locked_verifies {j : ℕ} {email : String} (hcall : s.calls[j]? = some ⟨email, .allowed⟩)
    (hlocked : (s.account env (env.accountKey email)).locked = true) :
    ¬ Along (loginStep env) (BoundsGuessing env) s [.verifyPassword j false] := by
  intro hbounds
  obtain ⟨t, ht⟩ : ∃ t, loginStep env s (.verifyPassword j false) = some t := by
    simp only [loginStep, hcall]
    exact ⟨_, rfl⟩
  have hfree := (hbounds.1 j false email t rfl hcall ht).1
  simp [LoginSystem.account, hfree] at hlocked

/-- A call past the check while the lock lives, or while the others past it
can set the lock, may verify its password under the lock: the others fail
first. The induction is on the number of the others. -/
theorem lockout_overtaken (n : ℕ) {j : ℕ} {email : String}
    (hcall : s.calls[j]? = some ⟨email, .allowed⟩)
    (hothers : (s.calls.eraseIdx j).countP (env.mayFail (env.accountKey email)) = n)
    (hturn : (s.account env (env.accountKey email)).locked = true ∨
      0 < n ∧ env.config.maxFailures ≤ (s.account env (env.accountKey email)).recorded + n) :
    ∃ acts, ¬ Along (loginStep env) (BoundsGuessing env) s acts := by
  induction n generalizing s j with
  | zero =>
      rcases hturn with hlocked | ⟨hsome, -⟩
      · exact ⟨_, locked_verifies hcall hlocked⟩
      · cases hsome
  | succ n ih =>
      rcases hturn with hlocked | ⟨-, hreach⟩
      · exact ⟨_, locked_verifies hcall hlocked⟩
      have hsome : 0 < (s.calls.eraseIdx j).countP (env.mayFail (env.accountKey email)) := by
        omega
      obtain ⟨call, hmem, hmay⟩ := List.countP_pos_iff.mp hsome
      obtain ⟨i, hij, hi⟩ := List.mem_eraseIdx_iff_getElem?.mp hmem
      have hself : env.mayFail (env.accountKey email) ⟨email, .allowed⟩ = true := by
        simp [LoginEnv.mayFail, LoginEnv.isAllowed]
      obtain ⟨hkey, hstage⟩ : env.accountKey call.email = env.accountKey email ∧
          (call.stage = .allowed ∨ call.stage = .verified false) := by
        simp only [LoginEnv.mayFail, LoginEnv.isAllowed, LoginEnv.isMistaken, Bool.or_eq_true,
          Bool.and_eq_true, beq_iff_eq] at hmay
        tauto
      obtain ⟨acts, u, hrun, hcalls, hrecorded, hlocks⟩ := fail_and_record env hi hstage
      rw [hkey] at hrecorded hlocks
      obtain ⟨k, hk⟩ : ∃ k : ℕ, u.calls[k]? = some ⟨email, .allowed⟩ := by
        have hmem : (⟨email, .allowed⟩ : LoginCall) ∈ u.calls := by
          rw [hcalls, List.mem_eraseIdx_iff_getElem?]
          exact ⟨j, hij.symm, hcall⟩
        exact List.getElem?_of_mem hmem
      have hrest : (u.calls.eraseIdx k).countP (env.mayFail (env.accountKey email)) = n := by
        have hcount := countP_eraseIdx hcall (env.mayFail (env.accountKey email))
        have hcounti := countP_eraseIdx hi (env.mayFail (env.accountKey email))
        have hcountk := countP_eraseIdx hk (env.mayFail (env.accountKey email))
        rw [hcalls] at hcountk ⊢
        simp only [hself, hmay, if_true] at hcount hcounti hcountk
        omega
      have hturn : (u.account env (env.accountKey email)).locked = true ∨
          0 < n ∧ env.config.maxFailures ≤ (u.account env (env.accountKey email)).recorded + n := by
        rcases Nat.eq_zero_or_pos n with rfl | hpos
        · exact .inl (hlocks (by omega))
        · exact .inr ⟨hpos, by omega⟩
      obtain ⟨acts', hbroken⟩ := ih hk hrest hturn
      exact ⟨acts ++ acts', fun hbounds => hbroken ((along_append_iff.mp hbounds).2 u hrun)⟩

/-- A call that passes the check out of turn has a run after it in which the
lockout does not bound the guessing. -/
theorem out_of_turn_unbounded (h : loginStep env s a = some t) (hturn : ¬ PassesInTurn env s a) :
    ∃ acts, ¬ Along (loginStep env) (BoundsGuessing env) t acts := by
  simp only [PassesInTurn, not_forall] at hturn
  obtain ⟨i, email, rfl, hcall, hok, hturn⟩ := hturn
  have ht : t = s.setStage i ⟨email, .entered⟩ .allowed := by
    simp only [loginStep, hcall, hok] at h
    exact (Option.some.inj h).symm
  obtain ⟨hi, -⟩ := List.getElem?_eq_some_iff.mp hcall
  obtain ⟨hallowed, hmistaken⟩ := account_counts env hcall (env.accountKey email)
  simp only [reduceCtorEq, and_false, if_false, Nat.add_zero] at hallowed hmistaken
  have hcallt : t.calls[i]? = some ⟨email, .allowed⟩ := by
    rw [ht]
    exact List.getElem?_set_self hi
  refine lockout_overtaken _ hcallt rfl ?_
  have hothers : (t.calls.eraseIdx i).countP (env.mayFail (env.accountKey email)) =
      (s.account env (env.accountKey email)).allowed +
        (s.account env (env.accountKey email)).unrecorded := by
    rw [ht, LoginSystem.setStage, List.eraseIdx_set_eq, countP_mayFail, hallowed, hmistaken]
  have hrecorded : (t.account env (env.accountKey email)).recorded =
      (s.account env (env.accountKey email)).recorded := by
    rw [ht]
    rfl
  have hlocked : (t.account env (env.accountKey email)).locked =
      (s.account env (env.accountKey email)).locked := by
    rw [ht]
    rfl
  rw [hothers, hrecorded, hlocked]
  cases hlock : (s.account env (env.accountKey email)).locked with
  | true => exact .inl rfl
  | false =>
      refine .inr ?_
      simp only [hlock, true_and] at hturn
      omega

/-- In every run whose calls pass the check in turn, no password of an account
is verified while its lock lives, and at most `maxFailures` are before it is
set. -/
theorem lockout_bounds_guessing {now : Time} {acts : List LoginAction}
    (hgood : Along (loginStep env) (PassesInTurn env) (.start now) acts) :
    Along (loginStep env) (BoundsGuessing env) (.start now) acts := by
  refine Along.mono (I := fun s => ∀ key, (s.account env key).Paced env.config.maxFailures)
    (fun s a hs _ => boundsGuessing_of_paced hs a) ?_ (Account.Paced.start env now) hgood
  intro s a t hs hturn h key
  exact (hs key).step env.config.maxFailures_range.1 (loginStep_account hturn h key)

/-- The string functions on the two spellings of the email used below. -/
def annsLogin : LoginEnv where
  toLowerCase := fun email => if email = "Ann@example.com" then "ann@example.com" else email
  trim := id
  sha256 := id
  ttl := fun ms => (ms + 500) / 1000
  config := defaultLoginConfig

/-- Five of six calls, in two spellings of one email, are past the check before the
first failure is recorded; the last of their failures locks the sixth call out. -/
def fiveMistakes : List LoginAction :=
  (List.replicate 3 [.login "Ann@example.com", .login "ann@example.com"]).flatten ++
  (List.range 5).map LoginAction.assertLoginAllowed ++
  ((List.range 5).map fun i => .verifyPassword i false) ++
  List.replicate 5 (.recordLoginFailure 0) ++ [.assertLoginAllowed 0]

theorem lockout_bounds_guessing_once :
    (∃ s, exec (loginStep annsLogin) (.start 0) fiveMistakes = some s ∧
      s.locks "ann@example.com" = some 300000 ∧ s.evaluated "ann@example.com" = 5 ∧
      s.answers.getLast? = some ("ann@example.com", .error LoginSystem.tooManyAttempts)) ∧
      Along (loginStep annsLogin) (BoundsGuessing annsLogin) (.start 0) fiveMistakes :=
  ⟨⟨_, rfl, rfl, rfl, rfl⟩, lockout_bounds_guessing (by decide)⟩

/-- Six calls, in two spellings of one email, are all past the check before
the first failure is recorded. -/
def guessingRun : List LoginAction :=
  (List.replicate 3 [.login "Ann@example.com", .login "ann@example.com"]).flatten ++
  (List.range 6).map LoginAction.assertLoginAllowed ++
  (List.range 5).map fun i => .verifyPassword i false

theorem six_guesses_before_lockout :
    ∃ s t, exec (loginStep annsLogin) (.start 0) guessingRun = some s ∧
      loginStep annsLogin s (.verifyPassword 5 false) = some t ∧
      s.settled "ann@example.com" = false ∧ t.evaluated "ann@example.com" = 6 ∧
      ¬ BoundsGuessing annsLogin s (.verifyPassword 5 false) := by
  obtain ⟨s, t, hrun, hstep, hcall, hsettled, hevaluated⟩ : ∃ s t,
      exec (loginStep annsLogin) (.start 0) guessingRun = some s ∧
      loginStep annsLogin s (.verifyPassword 5 false) = some t ∧
      s.calls[5]? = some ⟨"ann@example.com", .allowed⟩ ∧
      s.settled "ann@example.com" = false ∧ t.evaluated "ann@example.com" = 6 :=
    ⟨_, _, rfl, rfl, rfl, rfl, rfl⟩
  refine ⟨s, t, hrun, hstep, hsettled, hevaluated, fun hbounds => ?_⟩
  have hfew := (hbounds 5 false "ann@example.com" t rfl hcall hstep).2 hsettled
  change t.evaluated "ann@example.com" ≤ 5 at hfew
  omega

end Eventify
