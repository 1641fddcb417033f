import Eventify.Auth.Accounts
import Eventify.Auth.Throttle

/-!
# Logging in

Any number of `login` calls at once, each from one `await` to the next, over
the `User` and `RefreshToken` tables and the Redis keys of the throttle. The
email of a call is the one that `login` has lower-cased.
-/

namespace Eventify

open Library

inductive AttemptStage where
  | entered
  | allowed
  | found (user : Option User)
  | refused
  | accepted (user : User)
  | cleared (user : User)
  | rehashed (user : User)
  deriving DecidableEq, Repr

structure Attempt where
  email : String
  password : String
  stage : AttemptStage
  deriving DecidableEq, Repr

/-- The calls that `throttle` has of its own play no part. -/
structure LoginService where
  throttle : LoginSystem
  accounts : AccountStore
  attempts : List Attempt
  responses : List (String × Except Failure Session)

/-- What a call meets on its way to the next `await`: whether Redis carries out
its command, an error of the database or the hashing, and what it draws. -/
structure Turn where
  redis : Bool
  outage : Option Outage
  salt : String
  draw : TokenDraw
  deriving DecidableEq, Repr

inductive ServiceAction where
  | tick (ms : ℕ)
  | login (email password : String)
  | proceed (i : ℕ) (turn : Turn)
  deriving DecidableEq, Repr

namespace LoginService

def start (throttle : LoginSystem) (accounts : AccountStore) : LoginService where
  throttle := throttle
  accounts := accounts
  attempts := []
  responses := []

def setStage (s : LoginService) (i : ℕ) (attempt : Attempt) (stage : AttemptStage) :
    LoginService :=
  { s with attempts := s.attempts.set i { attempt with stage } }

def finish (s : LoginService) (i : ℕ) (attempt : Attempt) (result : Except Failure Session) :
    LoginService :=
  { s with
    attempts := s.attempts.eraseIdx i
    responses := s.responses ++ [(attempt.email, result)] }

def withUsers (s : LoginService) (users : UserTable) : LoginService :=
  { s with accounts := { s.accounts with users } }

def withThrottle (s : LoginService) (throttle : LoginSystem) : LoginService := { s with throttle }

def withTokens (s : LoginService) (tokens : TokenStore) : LoginService :=
  { s with accounts := { s.accounts with tokens } }

variable (env : LoginEnv) (passwords : PasswordEnv) (hash : String → String)

/-- `login` of one call. A throttle command that Redis fails to carry out is
logged and passed over. -/
def proceed (s : LoginService) (i : ℕ) (attempt : Attempt) (turn : Turn) : LoginService :=
  match attempt.stage with
  | .entered =>
      match if turn.redis then s.throttle.assertLoginAllowed env attempt.email else .ok () with
      | .error failure => s.finish i attempt (.error failure)
      | .ok () => s.setStage i attempt .allowed
  | .allowed =>
      match turn.outage with
      | some outage => s.finish i attempt (.error (.client outage.error))
      | none => s.setStage i attempt (.found (s.accounts.users.findUserByEmail attempt.email))
  | .found user =>
      let passwordHash := match user with
        | some user => user.passwordHash
        | none => passwords.getDummyPasswordHash
      let valid := passwords.verifyPassword attempt.password passwordHash
      match user, valid with
      | some user, true => s.setStage i attempt (.accepted user)
      | _, _ => s.setStage i attempt .refused
  | .refused =>
      (s.withThrottle (if turn.redis then s.throttle.recordLoginFailure env attempt.email
        else s.throttle)).finish i attempt (.error LoginSystem.invalidCredentials)
  | .accepted user =>
      (s.withThrottle (if turn.redis then s.throttle.clearLoginFailures env attempt.email
        else s.throttle)).setStage i attempt (.cleared user)
  | .cleared user =>
      if passwords.needsPasswordRehash user.passwordHash then
        match Outage.strike turn.outage s.accounts.users (s.accounts.users.updatePasswordHash
          user.id (passwords.argon2Hash attempt.password turn.salt)) with
        | (.error failure, users) => (s.withUsers users).finish i attempt (.error failure)
        | (.ok (), users) => (s.withUsers users).setStage i attempt (.rehashed user)
      else s.setStage i attempt (.rehashed user)
  | .rehashed user =>
      match Outage.strike turn.outage s.accounts.tokens
        (issueSession hash s.throttle.now turn.draw user s.accounts.tokens) with
      | (result, tokens) => (s.withTokens tokens).finish i attempt result

end LoginService

def serviceStep (env : LoginEnv) (passwords : PasswordEnv) (hash : String → String)
    (s : LoginService) : ServiceAction → Option LoginService
  | .tick ms => some { s with throttle := s.throttle.tick ms }
  | .login email password =>
      some { s with attempts := s.attempts ++ [⟨env.toLowerCase email, password, .entered⟩] }
  | .proceed i turn =>
      match s.attempts[i]? with
      | some attempt => some (s.proceed env passwords hash i attempt turn)
      | none => none

/-- The password verifies against the hash that the account has. -/
def UserTable.Verifies (users : UserTable) (passwords : PasswordEnv) (email password : String) :
    Prop :=
  ∃ user, users.findUserByEmail email = some user ∧
    passwords.verifyPassword password user.passwordHash = true

/-- What clients see of a run, and the keys that it leaves in Redis. -/
def LoginService.observed (s : LoginService) :
    List (String × Except Failure Session) × LoginSystem :=
  (s.responses, s.throttle)

section Hiding

/-- A call that has looked up the account has found nobody. -/
def Attempt.hide (email : String) (attempt : Attempt) : Attempt :=
  match attempt.stage with
  | .found _ => if attempt.email = email then { attempt with stage := .found none } else attempt
  | _ => attempt

def UserTable.without (users : UserTable) (email : String) : UserTable :=
  users.deleteWhere fun user => user.email == email

/-- The service as it were without the account. -/
def LoginService.hide (email : String) (s : LoginService) : LoginService :=
  { s.withUsers (s.accounts.users.without email) with
    attempts := s.attempts.map (Attempt.hide email) }

/-- The row that a call has read for its email. -/
def AttemptStage.user : AttemptStage → Option User
  | .found user => user
  | .accepted user | .cleared user | .rehashed user => some user
  | _ => none

/-- A call for the account, stored as `stored`, fails the verification; any
other call has not read a row with the id of the account. -/
structure Attempt.Unopened (passwords : PasswordEnv) (email : String) (stored : Option User)
    (users : UserTable) (attempt : Attempt) : Prop where
  wrong : attempt.email = email → ∀ user, stored = some user →
    passwords.verifyPassword attempt.password user.passwordHash = false
  own : attempt.email = email → ∀ user, attempt.stage.user = some user →
    attempt.stage = .found stored
  other : attempt.email ≠ email → ∀ user, attempt.stage.user = some user →
    ∀ row ∈ users.rows, row.id = user.id → row.email ≠ email

structure LoginService.Unopened (passwords : PasswordEnv) (email : String) (stored : Option User)
    (s : LoginService) : Prop where
  found : s.accounts.users.findUserByEmail email = stored
  attempts : ∀ attempt ∈ s.attempts, attempt.Unopened passwords email stored s.accounts.users

variable {env : LoginEnv} {passwords : PasswordEnv} {hash : String → String} {email : String}
variable {stored : Option User} {s t : LoginService} {users : UserTable} {attempt : Attempt}

@[simp] theorem Attempt.hide_email : (attempt.hide email).email = attempt.email := by
  unfold hide
  split
  · split <;> rfl
  · rfl

@[simp] theorem Attempt.hide_password : (attempt.hide email).password = attempt.password := by
  unfold hide
  split
  · split <;> rfl
  · rfl

@[simp] theorem hide_throttle : (s.hide email).throttle = s.throttle := rfl

@[simp] theorem hide_users :
    (s.hide email).accounts.users = s.accounts.users.without email := rfl

@[simp] theorem hide_tokens : (s.hide email).accounts.tokens = s.accounts.tokens := rfl

theorem hide_setStage (i : ℕ) (attempt : Attempt) {stage stage' : AttemptStage}
    (h : Attempt.hide email { attempt with stage } = { attempt with stage := stage' }) :
    (s.setStage i attempt stage).hide email =
      (s.hide email).setStage i (attempt.hide email) stage' := by
  simp [LoginService.hide, LoginService.setStage, LoginService.withUsers, List.map_set, h]

theorem hide_finish (i : ℕ) (result : Except Failure Session) :
    (s.finish i attempt result).hide email =
      (s.hide email).finish i (attempt.hide email) result := by
  simp [LoginService.hide, LoginService.finish, LoginService.withUsers, List.eraseIdx_map]

theorem hide_withThrottle (throttle : LoginSystem) :
    (s.withThrottle throttle).hide email = (s.hide email).withThrottle throttle := rfl

theorem hide_withTokens (tokens : TokenStore) :
    (s.withTokens tokens).hide email = (s.hide email).withTokens tokens := rfl

theorem hide_withUsers (users : UserTable) :
    (s.withUsers users).hide email = (s.hide email).withUsers (users.without email) := rfl

theorem findUserByEmail_without_self :
    (users.without email).findUserByEmail email = none := by
  simp [UserTable.findUserByEmail, UserTable.without, Table.find]

theorem findUserByEmail_without {other : String} (h : other ≠ email) :
    (users.without email).findUserByEmail other = users.findUserByEmail other := by
  apply Table.find_deleteWhere
  intro user huser
  simp only [beq_iff_eq] at huser
  simpa [huser] using h

theorem updatePasswordHash_without {id : Uuid} (passwordHash : String)
    (h : ∀ row ∈ users.rows, row.id = id → row.email ≠ email) :
    (users.without email).updatePasswordHash id passwordHash =
      ((users.updatePasswordHash id passwordHash).1,
        (users.updatePasswordHash id passwordHash).2.without email) := by
  have hfind : (users.without email).find (fun user => user.id == id) =
      users.find fun user => user.id == id := by
    apply Table.find_deleteWhere_of_mem
    intro row hrow hid
    simpa using h row hrow (by simpa using hid)
  simp only [UserTable.updatePasswordHash, hfind]
  split
  · rfl
  · simp only [UserTable.without]
    rw [Table.updateWhere_deleteWhere]
    exact fun _ => rfl

/-- A call that has passed the verification is for another account. -/
theorem Attempt.Unopened.passed (h : attempt.Unopened passwords email stored users) {user : User}
    (huser : attempt.stage.user = some user) (hstage : ∀ user, attempt.stage ≠ .found user) :
    attempt.email ≠ email :=
  fun hemail => hstage _ (h.own hemail user huser)

theorem Attempt.Unopened.moves (h : attempt.Unopened passwords email stored users)
    (hne : attempt.email ≠ email) {stage : AttemptStage}
    (hsame : stage.user = attempt.stage.user) :
    Attempt.Unopened passwords email stored users { attempt with stage } :=
  ⟨h.wrong, fun hemail => (hne hemail).elim, fun hne user huser => h.other hne user (hsame ▸ huser)⟩

theorem hide_of_not_found (hstage : ∀ user, attempt.stage ≠ .found user) :
    attempt.hide email = attempt := by
  unfold Attempt.hide
  split
  · next user hfound => exact (hstage user hfound).elim
  · rfl

theorem hide_found_self (password : String) (user : Option User) :
    Attempt.hide email ⟨email, password, .found user⟩ = ⟨email, password, .found none⟩ :=
  if_pos rfl

theorem hide_found_of_ne {called : String} (hcalled : called ≠ email) (password : String)
    (user : Option User) :
    Attempt.hide email ⟨called, password, .found user⟩ = ⟨called, password, .found user⟩ :=
  if_neg hcalled

/-- Hiding the account and then going on is going on and then hiding it. -/
theorem hide_proceed (i : ℕ) (turn : Turn)
    (h : attempt.Unopened passwords email stored s.accounts.users) :
    (s.hide email).proceed env passwords hash i (attempt.hide email) turn =
      (s.proceed env passwords hash i attempt turn).hide email := by
  obtain ⟨called, password, stage⟩ := attempt
  cases stage with
  | entered =>
      rw [hide_of_not_found (by simp)]
      simp only [LoginService.proceed, hide_throttle]
      split
      · rw [hide_finish, hide_of_not_found (by simp)]
      · rw [hide_setStage i _ rfl, hide_of_not_found (by simp)]
  | allowed =>
      rw [hide_of_not_found (by simp)]
      simp only [LoginService.proceed]
      cases turn.outage with
      | some outage =>
          dsimp only
          rw [hide_finish, hide_of_not_found (by simp)]
      | none =>
          dsimp only
          by_cases hcalled : called = email
          · subst hcalled
            rw [hide_setStage i ⟨called, password, .allowed⟩ (hide_found_self _ _),
              hide_of_not_found (by simp), hide_users, findUserByEmail_without_self]
          · rw [hide_setStage i ⟨called, password, .allowed⟩ (hide_found_of_ne hcalled _ _),
              hide_of_not_found (by simp), hide_users, findUserByEmail_without hcalled]
  | found user =>
      by_cases hcalled : called = email
      · subst hcalled
        have hrefused : s.proceed env passwords hash i ⟨called, password, .found user⟩ turn =
            s.setStage i ⟨called, password, .found user⟩ .refused := by
          cases user with
          | none => simp only [LoginService.proceed]
          | some user =>
              cases h.own rfl user rfl
              simp only [LoginService.proceed, h.wrong rfl user rfl]
        rw [hrefused, hide_setStage i _ rfl, hide_found_self]
        simp only [LoginService.proceed]
      · rw [hide_found_of_ne hcalled]
        simp only [LoginService.proceed]
        split
        · rw [hide_setStage i _ rfl, hide_found_of_ne hcalled]
        · rw [hide_setStage i _ rfl, hide_found_of_ne hcalled]
  | refused =>
      rw [hide_of_not_found (by simp)]
      simp only [LoginService.proceed, hide_throttle]
      rw [hide_finish, hide_withThrottle, hide_of_not_found (by simp)]
  | accepted user =>
      rw [hide_of_not_found (by simp)]
      simp only [LoginService.proceed, hide_throttle]
      rw [hide_setStage i _ rfl, hide_withThrottle, hide_of_not_found (by simp)]
  | cleared user =>
      have hother := h.other (h.passed rfl (by simp)) user rfl
      rw [hide_of_not_found (by simp)]
      simp only [LoginService.proceed, hide_users]
      split
      · rw [updatePasswordHash_without _ hother,
          Outage.strike_map turn.outage (fun users : UserTable => users.without email)]
        rcases Outage.strike turn.outage s.accounts.users (s.accounts.users.updatePasswordHash
          user.id (passwords.argon2Hash password turn.salt)) with ⟨failure | _, users⟩
        · rw [hide_finish, hide_withUsers, hide_of_not_found (by simp)]
        · rw [hide_setStage i _ rfl, hide_withUsers, hide_of_not_found (by simp)]
      · rw [hide_setStage i _ rfl, hide_of_not_found (by simp)]
  | rehashed user =>
      rw [hide_of_not_found (by simp)]
      simp only [LoginService.proceed, hide_throttle, hide_tokens]
      rw [hide_finish, hide_withTokens, hide_of_not_found (by simp)]

theorem LoginService.Unopened.setStage (h : s.Unopened passwords email stored) (i : ℕ)
    {stage : AttemptStage}
    (hnew : Attempt.Unopened passwords email stored s.accounts.users { attempt with stage }) :
    (s.setStage i attempt stage).Unopened passwords email stored := by
  refine ⟨h.found, fun other hother => ?_⟩
  rcases List.mem_or_eq_of_mem_set hother with hmem | rfl
  · exact h.attempts other hmem
  · exact hnew

theorem LoginService.Unopened.finish (h : s.Unopened passwords email stored) (i : ℕ)
    (attempt : Attempt) (result : Except Failure Session) :
    (s.finish i attempt result).Unopened passwords email stored :=
  ⟨h.found, fun other hother => h.attempts other (List.mem_of_mem_eraseIdx hother)⟩

theorem LoginService.Unopened.withThrottle (h : s.Unopened passwords email stored)
    (throttle : LoginSystem) : (s.withThrottle throttle).Unopened passwords email stored :=
  ⟨h.found, h.attempts⟩

theorem LoginService.Unopened.withTokens (h : s.Unopened passwords email stored)
    (tokens : TokenStore) : (s.withTokens tokens).Unopened passwords email stored :=
  ⟨h.found, h.attempts⟩

theorem LoginService.Unopened.withUsers (h : s.Unopened passwords email stored)
    (hfound : users.findUserByEmail email = s.accounts.users.findUserByEmail email)
    (hrows : ∀ row ∈ users.rows, ∃ old ∈ s.accounts.users.rows,
      old.id = row.id ∧ old.email = row.email) :
    (s.withUsers users).Unopened passwords email stored := by
  refine ⟨hfound.trans h.found, fun attempt hattempt => ?_⟩
  obtain ⟨hwrong, hown, hother⟩ := h.attempts attempt hattempt
  refine ⟨hwrong, hown, fun hne user huser row hrow hid => ?_⟩
  obtain ⟨old, hold, holdid, holdemail⟩ := hrows row hrow
  exact holdemail ▸ hother hne user huser old hold (holdid.trans hid)

theorem updatePasswordHash_rows (id : Uuid) (passwordHash : String) :
    ∀ row ∈ (users.updatePasswordHash id passwordHash).2.rows, ∃ old ∈ users.rows,
      old.id = row.id ∧ old.email = row.email := by
  intro row hrow
  simp only [UserTable.updatePasswordHash] at hrow
  split at hrow
  · exact ⟨row, hrow, rfl, rfl⟩
  · obtain ⟨old, hold, rfl⟩ := List.mem_map.mp hrow
    refine ⟨old, hold, ?_⟩
    split <;> exact ⟨rfl, rfl⟩

theorem findUserByEmail_updatePasswordHash {id : Uuid} (passwordHash : String)
    (h : ∀ row ∈ users.rows, row.id = id → row.email ≠ email) :
    (users.updatePasswordHash id passwordHash).2.findUserByEmail email =
      users.findUserByEmail email := by
  simp only [UserTable.updatePasswordHash]
  split
  · rfl
  · dsimp only [UserTable.findUserByEmail]
    rw [Table.find_updateWhere users _ _ (·.rehash passwordHash) _ fun _ => rfl]
    cases hfind : users.find fun user => user.email == email with
    | none => rfl
    | some row =>
        obtain ⟨hrow, hemail⟩ := (Table.find_eq_some_iff (user_selects_email email)).mp hfind
        have hid : ¬ row.id = id := fun hid => h row hrow hid (by simpa using hemail)
        simp [hid]

theorem LoginService.Unopened.updatePasswordHash (h : s.Unopened passwords email stored)
    (outage : Option Outage) {id : Uuid} (passwordHash : String)
    (hother : ∀ row ∈ s.accounts.users.rows, row.id = id → row.email ≠ email) :
    (s.withUsers (Outage.strike outage s.accounts.users
      (s.accounts.users.updatePasswordHash id passwordHash)).2).Unopened
        passwords email stored := by
  rcases Outage.strike_state outage s.accounts.users
    (s.accounts.users.updatePasswordHash id passwordHash) with hsame | hsame
  · rw [hsame]
    exact h.withUsers rfl fun row hrow => ⟨row, hrow, rfl, rfl⟩
  · rw [hsame]
    exact h.withUsers (findUserByEmail_updatePasswordHash _ hother) (updatePasswordHash_rows _ _)

theorem LoginService.Unopened.proceed (h : s.Unopened passwords email stored) (i : ℕ) (turn : Turn)
    (hmem : attempt ∈ s.attempts) :
    (s.proceed env passwords hash i attempt turn).Unopened passwords email stored := by
  obtain ⟨called, password, stage⟩ := attempt
  have hattempt := h.attempts _ hmem
  have hwrong := hattempt.wrong
  cases stage with
  | entered =>
      simp only [LoginService.proceed]
      split
      · exact h.finish i _ _
      · exact h.setStage i ⟨hwrong, fun _ _ => nofun, fun _ _ => nofun⟩
  | allowed =>
      simp only [LoginService.proceed]
      split
      · exact h.finish i _ _
      · refine h.setStage i ⟨hwrong, ?_, ?_⟩
        · rintro rfl user -
          rw [h.found]
        · intro hne user huser row hrow hid
          obtain ⟨hmem, hcalled⟩ := (Table.find_eq_some_iff (user_selects_email called)).mp huser
          rw [user_id_inj hrow hmem hid, eq_of_beq hcalled]
          exact hne
  | found user =>
      simp only [LoginService.proceed]
      split
      · next user hvalid =>
        have hne : called ≠ email := by
          intro hcalled
          cases hattempt.own hcalled user rfl
          simp [hwrong hcalled user rfl] at hvalid
        exact h.setStage i (hattempt.moves hne rfl)
      · exact h.setStage i ⟨hwrong, fun _ _ => nofun, fun _ _ => nofun⟩
  | refused =>
      simp only [LoginService.proceed]
      exact (h.withThrottle _).finish i _ _
  | accepted user =>
      simp only [LoginService.proceed]
      exact (h.withThrottle _).setStage i (hattempt.moves (hattempt.passed rfl (by simp)) rfl)
  | cleared user =>
      have hne : called ≠ email := hattempt.passed rfl (by simp)
      simp only [LoginService.proceed]
      split
      · have husers := h.updatePasswordHash turn.outage
          (passwords.argon2Hash password turn.salt) (hattempt.other hne user rfl)
        generalize Outage.strike turn.outage s.accounts.users (s.accounts.users.updatePasswordHash
          user.id (passwords.argon2Hash password turn.salt)) = answer at husers ⊢
        obtain ⟨failure | _, users⟩ := answer
        · exact husers.finish i _ _
        · exact husers.setStage i ((husers.attempts _ hmem).moves hne rfl)
      · exact h.setStage i (hattempt.moves hne rfl)
  | rehashed user =>
      simp only [LoginService.proceed]
      exact (h.withTokens _).finish i _ _

/-- An action that starts no call for the account with its password. -/
def WrongFor (env : LoginEnv) (passwords : PasswordEnv) (email : String) (stored : Option User)
    (a : ServiceAction) : Prop :=
  ∀ called password user, a = .login called password → env.toLowerCase called = email →
    stored = some user → passwords.verifyPassword password user.passwordHash = false

theorem serviceStep_unopened {a : ServiceAction} (h : s.Unopened passwords email stored)
    (hwrong : WrongFor env passwords email stored a)
    (hstep : serviceStep env passwords hash s a = some t) :
    t.Unopened passwords email stored := by
  cases a with
  | tick ms =>
      cases hstep
      exact h.withThrottle _
  | login called password =>
      cases hstep
      refine ⟨h.found, fun attempt hattempt => ?_⟩
      rcases List.mem_append.mp hattempt with hold | hnew
      · exact h.attempts attempt hold
      · obtain rfl := List.mem_singleton.mp hnew
        exact ⟨fun hemail user => hwrong called password user rfl hemail, fun _ _ => nofun,
          fun _ _ => nofun⟩
  | proceed i turn =>
      simp only [serviceStep] at hstep
      split at hstep
      · next attempt hattempt =>
        cases hstep
        exact h.proceed i turn (List.mem_of_getElem? hattempt)
      · cases hstep

theorem serviceStep_hide {a : ServiceAction} (h : s.Unopened passwords email stored) :
    serviceStep env passwords hash (s.hide email) a =
      (serviceStep env passwords hash s a).map (LoginService.hide email) := by
  cases a with
  | tick ms => rfl
  | login called password =>
      simp [serviceStep, LoginService.hide, LoginService.withUsers, Attempt.hide]
  | proceed i turn =>
      have hcall : (s.hide email).attempts[i]? = (s.attempts[i]?).map (Attempt.hide email) :=
        List.getElem?_map
      simp only [serviceStep, hcall]
      cases hattempt : s.attempts[i]? with
      | none => rfl
      | some attempt =>
          have hmem := List.mem_of_getElem? hattempt
          exact congrArg some (hide_proceed i turn (h.attempts attempt hmem))

/-- Every run in which the account is never opened looks as if it did not exist. -/
theorem exec_hide {acts : List ServiceAction} (h : s.Unopened passwords email stored)
    (hwrong : ∀ a ∈ acts, WrongFor env passwords email stored a) :
    exec (serviceStep env passwords hash) (s.hide email) acts =
      (exec (serviceStep env passwords hash) s acts).map (LoginService.hide email) :=
  exec_map (I := fun s => s.Unopened passwords email stored) _
    (fun _ _ _ hs ha hstep => serviceStep_unopened hs ha hstep)
    (fun _ _ hs _ => serviceStep_hide hs) h
    (along_of_forall_mem fun a ha _ => hwrong a ha)

theorem observed_without (throttle : LoginSystem) (tokens : TokenStore) {acts : List ServiceAction}
    (hwrong : ∀ called password, .login called password ∈ acts → env.toLowerCase called = email →
      ¬ users.Verifies passwords email password) :
    (exec (serviceStep env passwords hash) (.start throttle ⟨users, tokens⟩) acts).map
        LoginService.observed =
      (exec (serviceStep env passwords hash) (.start throttle ⟨users.without email, tokens⟩)
        acts).map LoginService.observed := by
  have hstart : (LoginService.start throttle ⟨users, tokens⟩).Unopened passwords email
      (users.findUserByEmail email) := ⟨rfl, fun _ => nofun⟩
  have hnever : ∀ a ∈ acts, WrongFor env passwords email (users.findUserByEmail email) a := by
    rintro _ hmem called password user rfl hcalled hfound
    have hnot := hwrong called password hmem hcalled
    cases hvalid : passwords.verifyPassword password user.passwordHash with
    | false => rfl
    | true => exact (hnot ⟨user, hfound, hvalid⟩).elim
  have hhide : (LoginService.start throttle ⟨users, tokens⟩).hide email =
      .start throttle ⟨users.without email, tokens⟩ := rfl
  rw [← hhide, exec_hide hstart hnever, Option.map_map]
  rfl

end Hiding

/-- Two tables that agree on every account but `email`, and a run in which no
call for it has a password of the account: the responses and the throttle are
the same, after every step. -/
theorem login_hides_account (env : LoginEnv) (passwords : PasswordEnv) (hash : String → String)
    (email : String) (throttle : LoginSystem) {users users' : UserTable} (tokens : TokenStore)
    (acts : List ServiceAction) (hothers : users.without email = users'.without email)
    (hwrong : ∀ called password, .login called password ∈ acts → env.toLowerCase called = email →
      ¬ users.Verifies passwords email password ∧ ¬ users'.Verifies passwords email password) :
    (exec (serviceStep env passwords hash) (.start throttle ⟨users, tokens⟩) acts).map
        LoginService.observed =
      (exec (serviceStep env passwords hash) (.start throttle ⟨users', tokens⟩) acts).map
        LoginService.observed := by
  calc
    _ = (exec (serviceStep env passwords hash) (.start throttle ⟨users.without email, tokens⟩)
          acts).map LoginService.observed :=
      observed_without throttle tokens fun called password hmem hcalled =>
        (hwrong called password hmem hcalled).1
    _ = (exec (serviceStep env passwords hash) (.start throttle ⟨users'.without email, tokens⟩)
          acts).map LoginService.observed := by rw [hothers]
    _ = _ :=
      (observed_without throttle tokens fun called password hmem hcalled =>
        (hwrong called password hmem hcalled).2).symm

/-- One failure locks the account. -/
def strictLogin : LoginEnv where
  toLowerCase := annsLogin.toLowerCase
  trim := id
  sha256 := id
  ttl := annsLogin.ttl
  config := { defaultLoginConfig with maxFailures := 1, maxFailures_range := by decide }

def bob : User := ⟨"bob", "bob@example.com", "$argon2id$salt$hunter2", "Bob", .organizer, 0⟩

def ann : User := ⟨"ann", "ann@example.com", "$argon2id$salt$secret", "Ann", .attendee, 0⟩

def bobsTable : UserTable := ⟨[bob], by decide⟩

def bobsAndAnnsTable : UserTable := ⟨[ann, bob], by decide⟩

/-- The first call in progress goes on, undisturbed. -/
def goesOn : ServiceAction := .proceed 0 ⟨true, none, "pepper", ⟨"1", "a"⟩⟩

/-- The password of the dummy hash for Ann, another guess, and Bob. -/
def guessingService : List ServiceAction :=
  [.login "Ann@example.com" "Eventify dummy credential for timing equalization only"] ++
    List.replicate 4 goesOn ++
    [.tick 1000, .login "ann@example.com" "guess", goesOn, .login "bob@example.com" "hunter2"] ++
    List.replicate 6 goesOn

theorem login_hides_ann :
    (exec (serviceStep strictLogin clearPasswords id) (.start (.start 0) ⟨bobsTable, .empty⟩)
        guessingService).map (fun s => s.responses) =
      some [("ann@example.com", .error LoginSystem.invalidCredentials),
        ("ann@example.com", .error LoginSystem.tooManyAttempts),
        ("bob@example.com", .ok ⟨bob.toPublicUser, ⟨"bob", .organizer⟩, "a"⟩)] ∧
    (exec (serviceStep strictLogin clearPasswords id) (.start (.start 0) ⟨bobsTable, .empty⟩)
        guessingService).map LoginService.observed =
      (exec (serviceStep strictLogin clearPasswords id)
        (.start (.start 0) ⟨bobsAndAnnsTable, .empty⟩) guessingService).map
          LoginService.observed := by
  refine ⟨rfl, login_hides_account _ _ _ "ann@example.com" _ _ _ (Table.ext_rows rfl) ?_⟩
  intro called password hmem hcalled
  have hpassword : clearPasswords.verifyPassword password ann.passwordHash = false := by
    simp only [guessingService, goesOn, List.replicate, List.cons_append, List.nil_append,
      List.mem_cons, List.not_mem_nil, or_false, reduceCtorEq, false_or,
      ServiceAction.login.injEq] at hmem
    rcases hmem with ⟨rfl, rfl⟩ | ⟨rfl, rfl⟩ | ⟨rfl, rfl⟩
    · rfl
    · rfl
    · exact absurd hcalled (by decide)
  constructor
  · rintro ⟨user, hfound, -⟩
    cases hfound
  · rintro ⟨user, hfound, hvalid⟩
    cases hfound
    rw [hpassword] at hvalid
    cases hvalid

end Eventify
