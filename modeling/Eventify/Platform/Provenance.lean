import Eventify.Platform.Requests

/-!
# Where access tokens come from

Every token that a client has been answered goes back to a sign-in in which the
password of its account was given: directly, or by a chain of refreshes. The
account is a stored one, and no account gains a role.
-/

namespace Eventify

open Library

/-- There is an account with the id and the role. -/
def UserTable.Has (users : UserTable) (claims : AuthUser) : Prop :=
  ∃ row ∈ users.rows, row.claims = claims

/-- The password verified against the stored hash, or became it. -/
def SignIn.Genuine (passwords : PasswordEnv) (signIn : SignIn) : Prop :=
  passwords.verifyPassword signIn.password signIn.stored = true ∨
    ∃ salt, signIn.stored = passwords.argon2Hash signIn.password salt

/-- The session of the refresh token began with a sign-in of the user. -/
def Platform.SignedIn (s : Platform) (refreshToken user : Uuid) : Prop :=
  ∃ signIn ∈ s.signIns, signIn.refreshToken = s.sessions refreshToken ∧ signIn.user = user

inductive UsersMove (users : UserTable) : UserTable → Prop
  | kept : UsersMove users users
  | rehashed {id : Uuid} {passwordHash : String} :
      UsersMove users (users.updatePasswordHash id passwordHash).2
  | created {user : User} {users' : UserTable} (hrole : user.role = .attendee)
      (hinsert : users.insert user = some users') : UsersMove users users'

/-- All that a step can do to refresh tokens and to what is on record of them. -/
inductive SessionsMove (passwords : PasswordEnv) (hash : String → String) (s t : Platform) : Prop
  | kept (htokens : t.tokens = s.tokens) (hsessions : t.sessions = s.sessions)
      (hsignIns : t.signIns = s.signIns) (hissued : t.issued = s.issued)
  | revoked {p : RefreshToken → Bool} {now : Time} (htokens : t.tokens = s.tokens.revokeWhere p now)
      (hsessions : t.sessions = s.sessions) (hsignIns : t.signIns = s.signIns)
      (hissued : t.issued = s.issued)
  | signedIn {draw : TokenDraw} {user : User} {password stored : String}
      (huser : t.users.Has user.claims)
      (hgenuine : SignIn.Genuine passwords ⟨draw.id, user.id, password, stored⟩)
      (hinsert : s.tokens.insert (newToken hash s.now draw user.id) = some t.tokens)
      (hsessions : t.sessions = s.sessions)
      (hsignIns : t.signIns = ⟨draw.id, user.id, password, stored⟩ :: s.signIns)
      (hissued : t.issued = s.issued ∨ t.issued = ⟨user.claims, s.now, draw.id⟩ :: s.issued)
  | rotated {draw : TokenDraw} {current : RefreshToken} {u : TokenStore}
      (hcurrent : current ∈ s.tokens.rows) (hlive : current.revokedAt = none)
      (hinsert : s.tokens.insert (newToken hash s.now draw current.userId) = some u)
      (htokens : t.tokens =
        u.updateWhere (fun token => token.id == current.id) _ (replace_keepsKeys s.now draw.id))
      (hsessions : t.sessions = Function.update s.sessions draw.id (s.sessions current.id))
      (hsignIns : t.signIns = s.signIns)
      (hissued : t.issued = s.issued ∨ ∃ user ∈ s.users.rows, user.id = current.userId ∧
        t.issued = ⟨user.claims, s.now, draw.id⟩ :: s.issued)

/-- The row that a call has read is that of an account, and the one that it has
verified took its password. -/
structure Attempt.Reads (passwords : PasswordEnv) (users : UserTable) (attempt : Attempt) :
    Prop where
  has : ∀ user, attempt.stage.user = some user → users.Has user.claims
  verified : ∀ user, attempt.stage.verified = some user →
    passwords.verifyPassword attempt.password user.passwordHash = true

variable {env : LoginEnv} {passwords : PasswordEnv} {hash : String → String} {jose : Jose}
variable {ids : UuidOps} {parseDate : String → Option Time}
variable {s t : Platform} {a : PlatformAction} {users users' : UserTable} {attempt : Attempt}

theorem UsersMove.has (h : UsersMove users users') {claims : AuthUser} (hhas : users.Has claims) :
    users'.Has claims := by
  obtain ⟨row, hrow, rfl⟩ := hhas
  cases h with
  | kept => exact ⟨row, hrow, rfl⟩
  | @rehashed id passwordHash =>
      refine ⟨if row.id = id then row.rehash passwordHash else row, ?_, ?_⟩
      · rw [updatePasswordHash_users]
        exact List.mem_map.mpr ⟨row, hrow, rfl⟩
      · split <;> rfl
  | created _ hinsert =>
      refine ⟨row, ?_, rfl⟩
      rw [Table.insert_rows hinsert]
      exact List.mem_append_left _ hrow

/-- No step gives an account a role that it did not have, and who signs up is an
attendee. -/
theorem UsersMove.role (h : UsersMove users users') {row : User} (hrow : row ∈ users'.rows)
    (hrole : row.role ≠ .attendee) : users.Has row.claims := by
  cases h with
  | kept => exact ⟨row, hrow, rfl⟩
  | rehashed =>
      rw [updatePasswordHash_users] at hrow
      obtain ⟨old, hold, rfl⟩ := List.mem_map.mp hrow
      refine ⟨old, hold, ?_⟩
      split <;> rfl
  | created hattendee hinsert =>
      rw [Table.insert_rows hinsert] at hrow
      rcases List.mem_append.mp hrow with hold | hnew
      · exact ⟨row, hold, rfl⟩
      · rw [List.mem_singleton.mp hnew] at hrole
        exact (hrole hattendee).elim

theorem Attempt.Reads.keep (h : attempt.Reads passwords users) (hmove : UsersMove users users') :
    attempt.Reads passwords users' :=
  ⟨fun user huser => hmove.has (h.has user huser), h.verified⟩

theorem Attempt.Reads.moves (h : attempt.Reads passwords users) {stage : AttemptStage}
    (hmoves : attempt.Moves passwords users stage) :
    Attempt.Reads passwords users { attempt with stage } := by
  cases hmoves with
  | allowed => exact ⟨nofun, nofun⟩
  | refused => exact ⟨nofun, nofun⟩
  | found =>
      refine ⟨fun user huser => ⟨user, ?_, rfl⟩, nofun⟩
      exact ((Table.find_eq_some_iff (user_selects_email attempt.email)).mp huser).1
  | @accepted user hstage hvalid =>
      refine ⟨?_, ?_⟩
      · rintro _ ⟨⟩
        exact h.has user (by simp [hstage, AttemptStage.user])
      · rintro _ ⟨⟩
        exact hvalid
  | @cleared user hstage =>
      refine ⟨?_, ?_⟩
      · rintro _ ⟨⟩
        exact h.has user (by simp [hstage, AttemptStage.user])
      · rintro _ ⟨⟩
        exact h.verified user (by simp [hstage, AttemptStage.verified])
  | @kept user hstage =>
      refine ⟨?_, ?_⟩
      · rintro _ ⟨⟩
        exact h.has user (by simp [hstage, AttemptStage.user])
      · rintro _ ⟨⟩
        exact h.verified user (by simp [hstage, AttemptStage.verified])

/-- What `issueSession` comes to under an outage: nothing written and nothing
answered, or the token written and the session answered or lost. -/
theorem strike_issueSession {now : Time} {draw : TokenDraw} {user : User} {outage : Option Outage}
    {tokens tokens' : TokenStore} {result : Except Failure Session}
    (h : Outage.strike outage tokens (issueSession hash now draw user tokens) =
      (result, tokens')) :
    (tokens' = tokens ∧ ∃ failure, result = .error failure) ∨
      (tokens.insert (newToken hash now draw user.id) = some tokens' ∧
        ((∃ failure, result = .error failure) ∨
          result = .ok ⟨user.toPublicUser, user.claims, draw.raw⟩)) := by
  by_cases hclash : ∃ token ∈ tokens.rows, token.id = draw.id ∨ token.tokenHash = hash draw.raw
  · rw [issueSession_of_clash now user hclash] at h
    left
    cases outage with
    | none =>
        obtain ⟨rfl, rfl⟩ := Prod.mk.inj h
        exact ⟨rfl, _, rfl⟩
    | some outage =>
        obtain ⟨rfl, rfl⟩ := Prod.mk.inj h
        exact ⟨ite_self _, _, rfl⟩
  · push Not at hclash
    obtain ⟨inserted, hinsert, hissue⟩ := issueSession_of_free now user hclash
    rw [hissue] at h
    cases outage with
    | none =>
        obtain ⟨rfl, rfl⟩ := Prod.mk.inj h
        exact .inr ⟨hinsert, .inr rfl⟩
    | some outage =>
        obtain ⟨rfl, rfl⟩ := Prod.mk.inj h
        cases hlanded : outage.landed with
        | false => exact .inl ⟨by simp, _, rfl⟩
        | true =>
            refine .inr ⟨?_, .inl ⟨_, rfl⟩⟩
            rw [if_pos rfl]
            exact hinsert

/-- The user is written, and then at most the token beside the answer. -/
def SignupWrites (passwords : PasswordEnv) (hash : String → String) (input : SignupInput)
    (call : SignupCall) (before after : AccountStore) (answer : Except Failure Session) : Prop :=
  ∃ user : User, user.id = call.id ∧ user.role = .attendee ∧
    user.passwordHash = passwords.argon2Hash input.password call.salt ∧
    before.users.insert user = some after.users ∧
    ((after.tokens = before.tokens ∧ ∃ failure, answer = .error failure) ∨
      (before.tokens.insert (newToken hash call.issuedAt call.token user.id) = some after.tokens ∧
        ((∃ failure, answer = .error failure) ∨
          answer = .ok ⟨user.toPublicUser, user.claims, call.token.raw⟩)))

theorem signupSteps_cases {toLowerCase : String → String} {input : SignupInput} {call : SignupCall}
    {before after : AccountStore} {answer : Except Failure Session}
    (h : signupSteps toLowerCase hash passwords input call before = (answer, after)) :
    (after = before ∧ ∃ failure, answer = .error failure) ∨
      SignupWrites passwords hash input call before after answer := by
  by_cases hcreates : call.CreatesUser (toLowerCase input.email) before
  · obtain ⟨users, hinsert, hcreate⟩ := createUser_of_free call.createdAt
      (passwords.argon2Hash input.password call.salt) input.name hcreates.free
    right
    simp only [signupSteps, hcreates.hashing, hcreate] at h
    cases hcreation : call.creation with
    | some outage =>
        simp only [hcreation, Outage.strike, hcreates.landed outage hcreation, if_true] at h
        obtain ⟨rfl, rfl⟩ := Prod.mk.inj h
        exact ⟨_, rfl, rfl, rfl, hinsert, .inl ⟨rfl, _, rfl⟩⟩
    | none =>
        simp only [hcreation, Outage.strike] at h
        split at h
        · obtain ⟨rfl, rfl⟩ := Prod.mk.inj h
          exact ⟨_, rfl, rfl, rfl, hinsert, .inl ⟨rfl, _, rfl⟩⟩
        · obtain ⟨hanswer, rfl⟩ := Prod.mk.inj h
          exact ⟨_, rfl, rfl, rfl, hinsert, strike_issueSession (Prod.ext hanswer rfl)⟩
  · obtain ⟨error, hsteps, -⟩ := signupSteps_of_not_creates hash passwords hcreates
    rw [hsteps] at h
    obtain ⟨rfl, rfl⟩ := Prod.mk.inj h
    exact .inl ⟨rfl, _, rfl⟩

/-- All that `signup` can do: nothing, or write the user, and then at most the
token. -/
theorem signup_cases {toLowerCase : String → String} {input : SignupInput} {call : SignupCall}
    {before after : AccountStore} {answer : Except Failure Session}
    (h : signup toLowerCase hash passwords input call before = (answer, after)) :
    (after = before ∧ ∃ failure, answer = .error failure) ∨
      SignupWrites passwords hash input call before after answer := by
  cases hsteps : signupSteps toLowerCase hash passwords input call before with
  | mk result store =>
      have hcases := signupSteps_cases hsteps
      cases result with
      | ok session =>
          simp only [signup, hsteps] at h
          obtain ⟨rfl, rfl⟩ := Prod.mk.inj h
          exact hcases
      | error failure =>
          rw [signup_of_throws hsteps] at h
          obtain ⟨rfl, rfl⟩ := Prod.mk.inj h
          rcases hcases with ⟨rfl, -⟩ | ⟨user, hid, hrole, hhash, hinsert, hkept | ⟨htoken, -⟩⟩
          · exact .inl ⟨rfl, _, rfl⟩
          · exact .inr ⟨user, hid, hrole, hhash, hinsert, .inl ⟨hkept.1, _, rfl⟩⟩
          · exact .inr ⟨user, hid, hrole, hhash, hinsert, .inr ⟨htoken, .inl ⟨_, rfl⟩⟩⟩

/-- What every step does to the accounts, the sessions and the calls of `login`. -/
structure PlatformMove (passwords : PasswordEnv) (hash : String → String) (s t : Platform) :
    Prop where
  users : UsersMove s.users t.users
  sessions : SessionsMove passwords hash s t
  reads : ∀ attempt ∈ t.service.attempts, attempt.Reads passwords t.users
  now : s.now ≤ t.now

section Records

variable {x : SignIn} {now : Time} {draw : TokenDraw} {userId : Uuid}

theorem signIn_kept : s.signIn s.tokens x = s := by
  unfold Platform.signIn
  split
  next hnew => cases hfind : s.tokens.findToken x.refreshToken <;> simp [hfind] at hnew
  · rfl

theorem signIn_new {before : TokenStore}
    (hinsert : before.insert (newToken hash now draw userId) = some s.tokens)
    (hid : x.refreshToken = draw.id) :
    s.signIn before x = { s with signIns := x :: s.signIns } := by
  have hnone : before.findToken draw.id = none :=
    Table.find_none_of_insert hinsert (token_selects_id draw.id) (by simp [newToken])
  have hsome : s.tokens.findToken draw.id = some (newToken hash now draw userId) := by
    refine TokenStore.findToken_eq_some_iff.mpr ⟨?_, rfl⟩
    rw [Table.insert_rows hinsert]
    exact List.mem_append_right _ List.mem_cons_self
  rw [Platform.signIn, hid, hnone, hsome]
  rfl

end Records

theorem reads_setStage (hreads : ∀ attempt ∈ s.service.attempts, attempt.Reads passwords s.users)
    {i : ℕ} {stage : AttemptStage}
    (hnew : Attempt.Reads passwords s.users { attempt with stage }) :
    ∀ other ∈ (s.service.setStage i attempt stage).attempts, other.Reads passwords s.users := by
  intro other hother
  rcases List.mem_or_eq_of_mem_set hother with hmem | rfl
  · exact hreads other hmem
  · exact hnew

theorem reads_eraseIdx (hreads : ∀ attempt ∈ s.service.attempts, attempt.Reads passwords s.users)
    (i : ℕ) : ∀ other ∈ s.service.attempts.eraseIdx i, other.Reads passwords s.users :=
  fun other hother => hreads other (List.mem_of_mem_eraseIdx hother)

/-- A step of the service that writes no token. -/
theorem PlatformMove.quiet {service : LoginService}
    (husers : UsersMove s.users service.accounts.users)
    (htokens : service.accounts.tokens = s.tokens)
    (hattempts : ∀ attempt ∈ service.attempts, attempt.Reads passwords service.accounts.users)
    (hnow : s.now ≤ service.throttle.now) :
    PlatformMove passwords hash s { s with service } :=
  ⟨husers, .kept htokens rfl rfl rfl, hattempts, hnow⟩

theorem proceed_quiet {i : ℕ} {turn : Turn} {service : LoginService}
    (hattempt : s.service.attempts[i]? = some attempt)
    (hstage : ∀ user, attempt.stage ≠ .rehashed user)
    (hservice : serviceStep env passwords hash s.service (.proceed i turn) = some service)
    (h : platformStep env passwords hash jose ids parseDate s (.service (.proceed i turn)) =
      some t) : t = { s with service } := by
  obtain ⟨email, password, stage⟩ := attempt
  simp only [platformStep, hservice, Option.map_some, hattempt] at h
  split at h
  next user hsame =>
    cases hsame
    exact (hstage user rfl).elim
  · exact (Option.some.inj h).symm

theorem answeredUser_finish {service : LoginService} (i : ℕ) (result : Except Failure Session) :
    (service.finish i attempt result).answeredUser = result.toOption.map Session.accessToken := by
  unfold LoginService.answeredUser LoginService.finish
  rw [List.getLast?_concat]
  cases result <;> rfl

/-- The last step of a login puts its sign-in on record, and the access token
when it answers. -/
theorem PlatformMove.issued (hreads : ∀ attempt ∈ s.service.attempts,
      attempt.Reads passwords s.users) {i : ℕ} {draw : TokenDraw} {user : User}
    {outage : Option Outage} {tokens : TokenStore} {result : Except Failure Session}
    (hattempt : attempt ∈ s.service.attempts) (hstage : attempt.stage = .rehashed user)
    (hstrike : Outage.strike outage s.tokens (issueSession hash s.now draw user s.tokens) =
      (result, tokens)) :
    PlatformMove passwords hash s
      ((({ s with service := (s.service.withTokens tokens).finish i attempt result }).signIn
        s.tokens ⟨draw.id, user.id, attempt.password, user.passwordHash⟩).issue draw.id
          (result.toOption.map Session.accessToken)) := by
  have hread := hreads attempt hattempt
  have huser := hread.has user (by simp only [hstage, AttemptStage.user])
  have hvalid := hread.verified user (by simp only [hstage, AttemptStage.verified])
  rcases strike_issueSession hstrike with ⟨rfl, failure, rfl⟩ | ⟨hinsert, hresult⟩
  · rw [show s.service.withTokens s.tokens = s.service from rfl]
    have hkept : ({ s with service := s.service.finish i attempt (.error failure) }).signIn s.tokens
        ⟨draw.id, user.id, attempt.password, user.passwordHash⟩ =
          { s with service := s.service.finish i attempt (.error failure) } := signIn_kept
    rw [hkept]
    exact .quiet .kept rfl (reads_eraseIdx hreads i) le_rfl
  · set next : Platform :=
      { s with service := (s.service.withTokens tokens).finish i attempt result }
    have hnew : next.signIn s.tokens ⟨draw.id, user.id, attempt.password, user.passwordHash⟩ =
        { next with signIns :=
          ⟨draw.id, user.id, attempt.password, user.passwordHash⟩ :: next.signIns } :=
      signIn_new hinsert rfl
    rw [hnew]
    have hothers := reads_eraseIdx hreads i
    have hsessions : ∀ claims, claims = none ∨ claims = some user.claims →
        PlatformMove passwords hash s (Platform.issue { next with signIns :=
          ⟨draw.id, user.id, attempt.password, user.passwordHash⟩ :: next.signIns }
            draw.id claims) := by
      rintro claims (rfl | rfl)
      · exact ⟨.kept, .signedIn huser (.inl hvalid) hinsert rfl rfl (.inl rfl), hothers, le_rfl⟩
      · exact ⟨.kept, .signedIn huser (.inl hvalid) hinsert rfl rfl (.inr rfl), hothers, le_rfl⟩
    rcases hresult with ⟨failure, rfl⟩ | rfl
    · exact hsessions _ (.inl rfl)
    · exact hsessions _ (.inr rfl)

theorem service_moves (hreads : ∀ attempt ∈ s.service.attempts, attempt.Reads passwords s.users)
    {act : ServiceAction}
    (h : platformStep env passwords hash jose ids parseDate s (.service act) = some t) :
    PlatformMove passwords hash s t := by
  obtain ⟨service, hservice, ht⟩ := Option.map_eq_some_iff.mp h
  cases serviceStep_moves hservice with
  | @ticked ms =>
      obtain rfl := ht
      refine .quiet .kept rfl hreads ?_
      exact Int.le_add_of_nonneg_right (Int.natCast_nonneg ms)
  | called =>
      obtain rfl := ht
      refine .quiet .kept rfl (fun attempt hattempt => ?_) le_rfl
      rcases List.mem_append.mp hattempt with hold | hnew
      · exact hreads attempt hold
      · rw [List.mem_singleton.mp hnew]
        exact ⟨nofun, nofun⟩
  | moved hattempt hnow hmoves =>
      obtain rfl := proceed_quiet hattempt (by cases hmoves <;> simp [*]) hservice h
      have hmem := List.mem_of_getElem? hattempt
      exact .quiet .kept rfl (reads_setStage hreads ((hreads _ hmem).moves hmoves)) hnow.ge
  | failed hattempt hnow hstage =>
      obtain rfl := proceed_quiet hattempt hstage hservice h
      exact .quiet .kept rfl (reads_eraseIdx hreads _) hnow.ge
  | @rehashed i turn attempt user users hattempt hstage hupdate =>
      obtain rfl := proceed_quiet hattempt (by simp [hstage]) hservice h
      have husers : UsersMove s.users users := by
        have hmove : UsersMove s.users (s.users.updatePasswordHash user.id
          (passwords.argon2Hash attempt.password turn.salt)).2 := .rehashed
        rwa [show s.users.updatePasswordHash user.id
          (passwords.argon2Hash attempt.password turn.salt) = (.ok (), users) from hupdate] at hmove
      have hread := hreads _ (List.mem_of_getElem? hattempt)
      refine .quiet husers rfl (fun other hother => ?_) le_rfl
      rcases List.mem_or_eq_of_mem_set hother with hmem | rfl
      · exact (hreads other hmem).keep husers
      · refine Attempt.Reads.keep ⟨?_, ?_⟩ husers
        · rintro _ ⟨⟩
          exact hread.has user (by simp only [hstage, AttemptStage.user])
        · rintro _ ⟨⟩
          exact hread.verified user (by simp only [hstage, AttemptStage.verified])
  | @unrehashed i turn attempt user users failure hattempt hstage husers =>
      obtain rfl := proceed_quiet hattempt (by simp [hstage]) hservice h
      have hmove : UsersMove s.users users := by
        rcases husers with rfl | rfl
        · exact .kept
        · exact .rehashed
      refine .quiet hmove rfl (fun other hother => ?_) le_rfl
      exact (hreads other (List.mem_of_mem_eraseIdx hother)).keep hmove
  | @issued i turn attempt user tokens result hattempt hstage hstrike =>
      obtain ⟨email, password, stage⟩ := attempt
      obtain rfl : stage = .rehashed user := hstage
      simp only [hattempt] at ht
      rw [← ht, answeredUser_finish]
      exact .issued hreads (List.mem_of_getElem? hattempt) rfl hstrike

theorem signup_moves (hreads : ∀ attempt ∈ s.service.attempts, attempt.Reads passwords s.users)
    {input : SignupInput} {call : SignupCall}
    (h : platformStep env passwords hash jose ids parseDate s (.signup input call) = some t) :
    PlatformMove passwords hash s t := by
  simp only [platformStep] at h
  split at h
  next hclock =>
    obtain rfl := Option.some.inj h
    cases hsignup : signup env.toLowerCase hash passwords input call s.service.accounts with
    | mk answer accounts =>
    dsimp only
    rcases signup_cases hsignup with ⟨rfl, failure, rfl⟩ |
      ⟨user, hid, hrole, hhash, hinsert, ⟨htokens, failure, rfl⟩ | ⟨htoken, hanswer⟩⟩
    · -- nothing has been written
      have hkept : (s.withAccounts s.service.accounts).signIn s.tokens ⟨call.token.id, call.id,
          input.password, passwords.argon2Hash input.password call.salt⟩ = s := signIn_kept
      rw [hkept]
      exact ⟨.kept, .kept rfl rfl rfl rfl, hreads, le_rfl⟩
    · -- the user, but no token
      have hmove : UsersMove s.users accounts.users := .created hrole hinsert
      have hkept : (s.withAccounts accounts).signIn s.tokens ⟨call.token.id, call.id,
          input.password, passwords.argon2Hash input.password call.salt⟩ =
            s.withAccounts accounts := by
        rw [show s.tokens = (s.withAccounts accounts).tokens from htokens.symm]
        exact signIn_kept
      rw [hkept]
      exact ⟨hmove, .kept htokens rfl rfl rfl,
        fun attempt hattempt => (hreads attempt hattempt).keep hmove, le_rfl⟩
    · have hmove : UsersMove s.users accounts.users := .created hrole hinsert
      have huser : accounts.users.Has user.claims := by
        refine ⟨user, ?_, rfl⟩
        rw [Table.insert_rows hinsert]
        exact List.mem_append_right _ List.mem_cons_self
      have hgenuine : SignIn.Genuine passwords
          ⟨call.token.id, user.id, input.password, user.passwordHash⟩ := .inr ⟨call.salt, hhash⟩
      rw [hclock.2] at htoken
      rw [← hid, ← hhash]
      have hnew : (s.withAccounts accounts).signIn s.tokens
          ⟨call.token.id, user.id, input.password, user.passwordHash⟩ =
            { s.withAccounts accounts with signIns :=
              ⟨call.token.id, user.id, input.password, user.passwordHash⟩ :: s.signIns } :=
        signIn_new htoken rfl
      rw [hnew]
      have hothers : ∀ attempt ∈ s.service.attempts, attempt.Reads passwords accounts.users :=
        fun attempt hattempt => (hreads attempt hattempt).keep hmove
      rcases hanswer with ⟨failure, rfl⟩ | rfl
      · exact ⟨hmove, .signedIn huser hgenuine htoken rfl rfl (.inl rfl), hothers, le_rfl⟩
      · exact ⟨hmove, .signedIn huser hgenuine htoken rfl rfl (.inr rfl), hothers, le_rfl⟩
  · simp at h

/-- A refresh answers for the user of the token that it found. -/
theorem refresh_sub {now : Time} {draw : TokenDraw} {raw : String} {pair : TokenPair}
    {store store' : TokenStore} {current : RefreshToken}
    (h : refresh hash now draw (some raw) store = (.ok pair, store'))
    (hfind : store.findByHash (hash raw) = some current) : pair.sub = current.userId := by
  unfold refresh at h
  dsimp only at h
  split at h
  · simp at h
  · split at h
    · simp at h
    · simp at h
    next userId found htx =>
      obtain rfl := Except.ok.inj (Prod.mk.inj h).1
      simp only [refreshTx, hfind] at htx
      split at htx
      · simp at htx
      · split at htx
        · simp at htx
        · split at htx
          · simp at htx
          next u hcreate =>
            obtain ⟨v, -, hsame⟩ := map_ok htx
            exact (Option.some.inj (Prod.mk.inj hsame).1).symm

theorem refresh_moves (hreads : ∀ attempt ∈ s.service.attempts, attempt.Reads passwords s.users)
    (draw : TokenDraw) (rawToken : Option String) (answered : Bool) :
    PlatformMove passwords hash s (s.refresh hash draw rawToken answered) := by
  cases hrefresh : refresh hash s.now draw rawToken s.tokens with
  | mk result tokens =>
  cases result with
  | error failure =>
      have hsame : s.refresh hash draw rawToken answered = s.withTokens tokens := by
        simp only [Platform.refresh, hrefresh]
      rw [hsame]
      rcases refresh_error hrefresh with rfl | ⟨p, rfl⟩
      · exact ⟨.kept, .kept rfl rfl rfl rfl, hreads, le_rfl⟩
      · exact ⟨.kept, .revoked rfl rfl rfl rfl, hreads, le_rfl⟩
  | ok pair =>
      obtain ⟨raw, current, u, rfl, hfind, hlive, hinsert, rfl⟩ := refresh_ok hrefresh
      have hcurrent := (TokenStore.findByHash_eq_some_iff.mp hfind).1
      have hclaims : ∃ claims, (if answered then
            (s.users.find fun user => user.id == pair.sub).map User.claims else none) = claims ∧
          (claims = none ∨ ∃ user ∈ s.users.rows, user.id = current.userId ∧
            claims = some user.claims) := by
        refine ⟨_, rfl, ?_⟩
        cases answered with
        | false => exact .inl rfl
        | true =>
            cases hrow : s.users.find fun user => user.id == pair.sub with
            | none => exact .inl rfl
            | some user =>
                have hid := Table.holds_of_find hrow
                rw [refresh_sub hrefresh hfind] at hid
                exact .inr ⟨user, Table.mem_of_find hrow, by simpa using hid, rfl⟩
      obtain ⟨claims, hsame, hclaims⟩ := hclaims
      simp only [Platform.refresh, hrefresh, Option.bind_some, hfind, hsame]
      rcases hclaims with rfl | ⟨user, huser, hid, rfl⟩
      · exact ⟨.kept, .rotated hcurrent hlive hinsert rfl rfl rfl (.inl rfl), hreads, le_rfl⟩
      · exact ⟨.kept, .rotated hcurrent hlive hinsert rfl rfl rfl (.inr ⟨user, huser, hid, rfl⟩),
          hreads, le_rfl⟩

theorem platformStep_moves
    (hreads : ∀ attempt ∈ s.service.attempts, attempt.Reads passwords s.users)
    (h : platformStep env passwords hash jose ids parseDate s a = some t) :
    PlatformMove passwords hash s t := by
  have hapart : ∀ u : Platform, u.service = s.service → u.sessions = s.sessions →
      u.signIns = s.signIns → u.issued = s.issued → PlatformMove passwords hash s u := by
    intro u hservice hsessions hsignIns hissued
    have htokens : u.tokens = s.tokens := congrArg (fun v => v.accounts.tokens) hservice
    have husers : u.users = s.users := congrArg (fun v => v.accounts.users) hservice
    refine ⟨husers ▸ .kept, .kept htokens hsessions hsignIns hissued, ?_, ?_⟩
    · rw [hservice, husers]
      exact hreads
    · exact (congrArg (fun v => v.throttle.now) hservice).ge
  cases a with
  | service act => exact service_moves hreads h
  | signup input call => exact signup_moves hreads h
  | refresh draw rawToken answered =>
      obtain rfl := Option.some.inj h
      exact refresh_moves hreads draw rawToken answered
  | logout rawToken =>
      obtain rfl := Option.some.inj h
      cases rawToken with
      | none => exact ⟨.kept, .kept rfl rfl rfl rfl, hreads, le_rfl⟩
      | some raw =>
          by_cases hraw : raw = ""
          · refine ⟨.kept, .kept ?_ rfl rfl rfl, hreads, le_rfl⟩
            exact if_pos hraw
          · have hrevoked : logout hash s.now (some raw) s.tokens =
                s.tokens.revokeWhere (fun token => token.tokenHash == hash raw) s.now :=
              if_neg hraw
            exact ⟨.kept, .revoked hrevoked rfl rfl rfl, hreads, le_rfl⟩
  | arrive r header request =>
      simp only [platformStep] at h
      split at h
      · simp at h
      · obtain rfl := Option.some.inj h
        unfold Platform.arrive
        split
        · exact hapart s rfl rfl rfl rfl
        · exact hapart _ rfl rfl rfl rfl
  | perform r draw =>
      simp only [platformStep] at h
      split at h
      · split at h
        · simp at h
        · obtain ⟨api, -, rfl⟩ := Option.map_eq_some_iff.mp h
          exact hapart _ rfl rfl rfl rfl
      · simp at h
  | api act =>
      simp only [platformStep] at h
      split at h
      · obtain ⟨api, -, rfl⟩ := Option.map_eq_some_iff.mp h
        exact hapart _ rfl rfl rfl rfl
      · simp at h

/-- The records of a state that was reached from the accounts at first. -/
structure Vouched (passwords : PasswordEnv) (first : UserTable) (s : Platform) : Prop where
  roles : ∀ row ∈ s.users.rows, row.role ≠ .attendee → first.Has row.claims
  reads : ∀ attempt ∈ s.service.attempts, attempt.Reads passwords s.users
  signIns : ∀ signIn ∈ s.signIns, signIn.Genuine passwords
  unused : ∀ id, (∀ token ∈ s.tokens.rows, token.id ≠ id) → s.sessions id = id
  tokens : ∀ token ∈ s.tokens.rows, s.SignedIn token.id token.userId
  issued : ∀ x ∈ s.issued, s.users.Has x.user ∧ s.SignedIn x.refreshToken x.user.sub ∧
    x.issuedAt ≤ s.now ∧ ∃ token ∈ s.tokens.rows, token.id = x.refreshToken

section Steps

theorem newToken_free {now : Time} {draw : TokenDraw} {userId : Uuid} {store store' : TokenStore}
    (h : store.insert (newToken hash now draw userId) = some store') :
    ∀ token ∈ store.rows, token.id ≠ draw.id :=
  fun token htoken hid => (Table.insert_eq_some_iff.mp h).1 token htoken (.inl hid)

theorem mem_rotated {now : Time} {draw : TokenDraw} {current : RefreshToken}
    {store u : TokenStore} (hcurrent : current ∈ store.rows)
    (hinsert : store.insert (newToken hash now draw current.userId) = some u) :
    newToken hash now draw current.userId ∈ (u.updateWhere (fun token => token.id == current.id) _
      (replace_keepsKeys now draw.id)).rows := by
  refine List.mem_map.mpr ⟨newToken hash now draw current.userId, ?_, ?_⟩
  · rw [Table.insert_rows hinsert]
    exact List.mem_append_right _ List.mem_cons_self
  · have hother : (newToken hash now draw current.userId).id ≠ current.id :=
      (newToken_free hinsert current hcurrent).symm
    exact if_neg (by simpa using hother)

/-- A refresh token keeps its id, its user and its session. -/
theorem SessionsMove.kept_token (h : SessionsMove passwords hash s t) {token : RefreshToken}
    (htoken : token ∈ s.tokens.rows) :
    (∃ token' ∈ t.tokens.rows, token'.id = token.id ∧ token'.userId = token.userId) ∧
      t.sessions token.id = s.sessions token.id := by
  cases h with
  | kept htokens hsessions => exact ⟨⟨token, htokens ▸ htoken, rfl, rfl⟩, by rw [hsessions]⟩
  | @revoked p now htokens hsessions =>
      refine ⟨⟨token.revokeIf p now, ?_, by simp, by simp⟩, by rw [hsessions]⟩
      rw [htokens]
      exact List.mem_map.mpr ⟨token, htoken, rfl⟩
  | signedIn _ _ hinsert hsessions =>
      refine ⟨⟨token, ?_, rfl, rfl⟩, by rw [hsessions]⟩
      rw [Table.insert_rows hinsert]
      exact List.mem_append_left _ htoken
  | @rotated draw current u _ _ hinsert htokens hsessions =>
      constructor
      · refine ⟨if token.id == current.id then token.replace s.now draw.id else token, ?_, ?_⟩
        · rw [htokens]
          refine List.mem_map.mpr ⟨token, ?_, rfl⟩
          rw [Table.insert_rows hinsert]
          exact List.mem_append_left _ htoken
        · split <;> exact ⟨rfl, rfl⟩
      · rw [hsessions, Function.update_of_ne (newToken_free hinsert token htoken)]

theorem SessionsMove.unused (h : SessionsMove passwords hash s t) {id : Uuid}
    (hfree : ∀ token ∈ t.tokens.rows, token.id ≠ id) : t.sessions id = s.sessions id := by
  cases h with
  | kept _ hsessions => rw [hsessions]
  | revoked _ hsessions => rw [hsessions]
  | signedIn _ _ _ hsessions => rw [hsessions]
  | rotated hcurrent _ hinsert htokens hsessions =>
      have hid := hfree _ (htokens ▸ mem_rotated hcurrent hinsert)
      exact (congrFun hsessions id).trans (Function.update_of_ne (Ne.symm hid) _ _)

theorem SessionsMove.signIns_subset (h : SessionsMove passwords hash s t) {x : SignIn}
    (hx : x ∈ s.signIns) : x ∈ t.signIns := by
  cases h with
  | kept _ _ hsignIns => rwa [hsignIns]
  | revoked _ _ hsignIns => rwa [hsignIns]
  | signedIn _ _ _ _ hsignIns => exact hsignIns ▸ List.mem_cons_of_mem _ hx
  | rotated _ _ _ _ _ hsignIns => rwa [hsignIns]

theorem SessionsMove.kept_signedIn (h : SessionsMove passwords hash s t) {token : RefreshToken}
    (htoken : token ∈ s.tokens.rows) {user : Uuid} (hsigned : s.SignedIn token.id user) :
    t.SignedIn token.id user := by
  obtain ⟨x, hx, hsession, huser⟩ := hsigned
  exact ⟨x, h.signIns_subset hx, hsession.trans (h.kept_token htoken).2.symm, huser⟩

/-- A new token is that of a sign-in, or carries on the session that it renews. -/
theorem Vouched.new_token {first : UserTable} (hs : Vouched passwords first s)
    (h : SessionsMove passwords hash s t) {token : RefreshToken} (htoken : token ∈ t.tokens.rows) :
    (∃ old ∈ s.tokens.rows, old.id = token.id ∧ old.userId = token.userId) ∨
      t.SignedIn token.id token.userId := by
  cases h with
  | kept htokens => exact .inl ⟨token, htokens ▸ htoken, rfl, rfl⟩
  | @revoked p now htokens =>
      rw [htokens] at htoken
      obtain ⟨old, hold, rfl⟩ := List.mem_map.mp htoken
      exact .inl ⟨old, hold, (old.revokeIf_id p now).symm, (old.revokeIf_userId p now).symm⟩
  | @signedIn draw user password stored _ _ hinsert hsessions hsignIns =>
      rw [Table.insert_rows hinsert] at htoken
      rcases List.mem_append.mp htoken with hold | hnew
      · exact .inl ⟨token, hold, rfl, rfl⟩
      · obtain rfl := List.mem_singleton.mp hnew
        refine .inr ⟨_, hsignIns ▸ List.mem_cons_self, ?_, rfl⟩
        rw [hsessions]
        exact (hs.unused _ (newToken_free hinsert)).symm
  | @rotated draw current u hcurrent hlive hinsert htokens hsessions hsignIns =>
      rw [htokens] at htoken
      obtain ⟨old, hold, rfl⟩ := List.mem_map.mp htoken
      rw [Table.insert_rows hinsert] at hold
      rcases List.mem_append.mp hold with hold | hnew
      · left
        refine ⟨old, hold, ?_⟩
        split <;> exact ⟨rfl, rfl⟩
      · right
        obtain rfl := List.mem_singleton.mp hnew
        obtain ⟨x, hx, hsession, huser⟩ := hs.tokens current hcurrent
        have hother : (newToken hash s.now draw current.userId).id ≠ current.id :=
          (newToken_free hinsert current hcurrent).symm
        rw [if_neg (by simpa using hother)]
        refine ⟨x, hsignIns ▸ hx, ?_, huser⟩
        rw [hsession, hsessions]
        exact (Function.update_self draw.id (s.sessions current.id) s.sessions).symm

/-- An access token is answered beside a refresh token of the same user. -/
theorem SessionsMove.new_issued (h : SessionsMove passwords hash s t)
    (husers : ∀ claims, s.users.Has claims → t.users.Has claims) {x : IssuedToken}
    (hx : x ∈ t.issued) :
    x ∈ s.issued ∨ (t.users.Has x.user ∧ x.issuedAt = s.now ∧
      (∀ token ∈ s.tokens.rows, token.id ≠ x.refreshToken) ∧
      ∃ token ∈ t.tokens.rows, token.id = x.refreshToken ∧ token.userId = x.user.sub ∧
        token.revokedAt = none) := by
  cases h with
  | kept _ _ _ hissued => exact .inl (hissued ▸ hx)
  | revoked _ _ _ hissued => exact .inl (hissued ▸ hx)
  | @signedIn draw user password stored huser _ hinsert _ _ hissued =>
      rcases hissued with hissued | hissued
      · exact .inl (hissued ▸ hx)
      · rw [hissued] at hx
        rcases List.mem_cons.mp hx with rfl | hold
        · refine .inr ⟨huser, rfl, newToken_free hinsert, newToken hash s.now draw user.id, ?_,
            rfl, rfl, rfl⟩
          rw [Table.insert_rows hinsert]
          exact List.mem_append_right _ List.mem_cons_self
        · exact .inl hold
  | @rotated draw current u hcurrent hlive hinsert htokens _ _ hissued =>
      rcases hissued with hissued | ⟨user, huser, hid, hissued⟩
      · exact .inl (hissued ▸ hx)
      · rw [hissued] at hx
        rcases List.mem_cons.mp hx with rfl | hold
        · exact .inr ⟨husers _ ⟨user, huser, rfl⟩, rfl, newToken_free hinsert,
            newToken hash s.now draw current.userId, htokens ▸ mem_rotated hcurrent hinsert, rfl,
            hid.symm, rfl⟩
        · exact .inl hold

theorem Vouched.step {first : UserTable} (hs : Vouched passwords first s)
    (h : platformStep env passwords hash jose ids parseDate s a = some t) :
    Vouched passwords first t := by
  obtain ⟨husers, hmove, hreads, hnow⟩ := platformStep_moves hs.reads h
  have htokens : ∀ token ∈ t.tokens.rows, t.SignedIn token.id token.userId := by
    intro token htoken
    rcases hs.new_token hmove htoken with ⟨old, hold, hid, huser⟩ | hnew
    · rw [← hid, ← huser]
      exact hmove.kept_signedIn hold (hs.tokens old hold)
    · exact hnew
  refine ⟨?_, hreads, ?_, ?_, htokens, ?_⟩
  · intro row hrow hrole
    obtain ⟨old, hold, hclaims⟩ := husers.role hrow hrole
    rw [← hclaims]
    refine hs.roles old hold fun hattendee => hrole ?_
    exact (congrArg AuthUser.role hclaims).symm.trans hattendee
  · intro x hx
    cases hmove with
    | kept _ _ hsignIns => exact hs.signIns x (hsignIns ▸ hx)
    | revoked _ _ hsignIns => exact hs.signIns x (hsignIns ▸ hx)
    | rotated _ _ _ _ _ hsignIns => exact hs.signIns x (hsignIns ▸ hx)
    | signedIn _ hgenuine _ _ hsignIns =>
        rw [hsignIns] at hx
        rcases List.mem_cons.mp hx with rfl | hold
        · exact hgenuine
        · exact hs.signIns x hold
  · intro id hfree
    rw [hmove.unused hfree]
    refine hs.unused id fun token htoken hid => ?_
    obtain ⟨⟨token', htoken', hid', -⟩, -⟩ := hmove.kept_token htoken
    exact hfree token' htoken' (hid'.trans hid)
  · intro x hx
    rcases hmove.new_issued (fun _ => husers.has) hx with
      hold | ⟨hhas, hat, -, token, htoken, hid, huser, -⟩
    · obtain ⟨hhas, hsigned, hat, token, htoken, hid⟩ := hs.issued x hold
      obtain ⟨⟨token', htoken', hid', -⟩, -⟩ := hmove.kept_token htoken
      refine ⟨husers.has hhas, ?_, hat.trans hnow, token', htoken', hid'.trans hid⟩
      rw [← hid] at hsigned ⊢
      exact hmove.kept_signedIn htoken hsigned
    · refine ⟨hhas, ?_, hat ▸ hnow, token, htoken, hid⟩
      rw [← hid, ← huser]
      exact htokens token htoken

end Steps

theorem Vouched.start (throttle : LoginSystem) (users : UserTable) (db : Database) :
    Vouched passwords users (.start throttle users db) := by
  refine ⟨fun row hrow _ => ⟨row, hrow, rfl⟩, ?_, ?_, fun _ _ => rfl, ?_, ?_⟩
  all_goals
    intro x hx
    cases hx

theorem Vouched.run {throttle : LoginSystem} {db : Database} {acts : List PlatformAction}
    (hrun : exec (platformStep env passwords hash jose ids parseDate) (.start throttle users db)
      acts = some s) : Vouched passwords users s :=
  exec_invariant (fun _ _ _ hs hstep => Vouched.step hs hstep) (.start throttle users db) hrun

/-- Every access token that was ever answered is one of a stored account with
the role that it has, which only the accounts from the start may have beyond an
attendee's, and its session began with a sign-in of that account in which the
password was given. -/
theorem issued_tokens_vouched {throttle : LoginSystem} {db : Database} {acts : List PlatformAction}
    (hrun : exec (platformStep env passwords hash jose ids parseDate) (.start throttle users db)
      acts = some s) :
    ∀ x ∈ s.issued, s.users.Has x.user ∧ (x.user.role = .attendee ∨ users.Has x.user) ∧
      ∃ signIn ∈ s.signIns, signIn.refreshToken = s.sessions x.refreshToken ∧
        signIn.user = x.user.sub ∧ signIn.Genuine passwords := by
  intro x hx
  have hvouched := Vouched.run hrun
  obtain ⟨⟨row, hrow, hclaims⟩, ⟨signIn, hsignIn, hsession, huser⟩, -, -⟩ := hvouched.issued x hx
  refine ⟨⟨row, hrow, hclaims⟩, ?_, signIn, hsignIn, hsession, huser,
    hvouched.signIns signIn hsignIn⟩
  by_cases hrole : x.user.role = .attendee
  · exact .inl hrole
  · rw [← hclaims] at hrole ⊢
    exact .inr (hvouched.roles row hrow hrole)

/-- The organizer of the hall. -/
def olga : User :=
  ⟨"organizer", "olga@example.com", "$argon2id$secret", "Olga", .organizer, 0⟩

def olgasTable : UserTable := ⟨[olga], by decide⟩

def olgaLogsIn : List PlatformAction :=
  .service (.login "olga@example.com" "secret") :: List.replicate 6 (.service goesOn)

def olgasPlatform : Platform := .start (.start 0) olgasTable hallDatabase

theorem issued_tokens_vouched_olga :
    ∃ s, exec (platformStep strictLogin saltless id unsigned storedSpelling fun _ => none)
        olgasPlatform olgaLogsIn = some s ∧ s.issued = [⟨olga.claims, 0, "1"⟩] ∧
      olgasTable.Has olga.claims ∧ ∃ signIn ∈ s.signIns, signIn.refreshToken = s.sessions "1" ∧
        signIn.user = olga.id ∧ signIn.Genuine saltless := by
  obtain ⟨s, hrun, hissued⟩ : ∃ s,
      exec (platformStep strictLogin saltless id unsigned storedSpelling fun _ => none)
        olgasPlatform olgaLogsIn = some s ∧ s.issued = [⟨olga.claims, 0, "1"⟩] := ⟨_, rfl, rfl⟩
  obtain ⟨-, hrole, hsignIn⟩ :=
    issued_tokens_vouched hrun ⟨olga.claims, 0, "1"⟩ (by rw [hissued]; exact List.mem_cons_self)
  exact ⟨s, hrun, hissued, hrole.resolve_left (by decide), hsignIn⟩

end Eventify
