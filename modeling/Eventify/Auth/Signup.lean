import Eventify.Auth.Accounts
import Eventify.Auth.Logout

/-!
# Signing up

`signup` hashes the password, writes the user, signs the access token and
writes the refresh token, with no transaction around the two writes. Each of
the four may throw, a write also after it has taken effect.
-/

namespace Eventify

open Library

structure SignupInput where
  email : String
  password : String
  name : String
  deriving DecidableEq, Repr

/-- What a call of `signup` draws, and which of its steps throw. -/
structure SignupCall where
  createdAt : Time
  issuedAt : Time
  id : Uuid
  salt : String
  token : TokenDraw
  hashing : Option ClientError
  creation : Option Outage
  signing : Option ClientError
  issuing : Option Outage
  deriving DecidableEq, Repr

def isUniqueViolation : Failure → Bool
  | .client error => error.code == some "P2002"
  | .http _ => false

def accountExists : Failure := .status 409 "Account already exists"

section Service

variable (toLowerCase hash : String → String) (env : PasswordEnv)

/-- The body of the `try` block. -/
def signupSteps (input : SignupInput) (call : SignupCall) (s : AccountStore) :
    Except Failure Session × AccountStore :=
  match call.hashing with
  | some error => (.error (.client error), s)
  | none =>
      let passwordHash := env.argon2Hash input.password call.salt
      match Outage.strike call.creation s.users (s.users.createUser call.id call.createdAt
        (toLowerCase input.email) passwordHash input.name) with
      | (.error failure, users) => (.error failure, { s with users })
      | (.ok user, users) =>
          match call.signing with
          | some error => (.error (.client error), { s with users })
          | none =>
              match Outage.strike call.issuing s.tokens
                (issueSession hash call.issuedAt call.token user s.tokens) with
              | (answer, tokens) => (answer, ⟨users, tokens⟩)

def signup (input : SignupInput) (call : SignupCall) (s : AccountStore) :
    Except Failure Session × AccountStore :=
  match signupSteps toLowerCase hash env input call s with
  | (.ok session, s) => (.ok session, s)
  | (.error failure, s) =>
      (.error (if isUniqueViolation failure then accountExists else failure), s)

end Service

def AccountStore.EmailTaken (s : AccountStore) (email : String) : Prop :=
  s.users.findUserByEmail email ≠ none

/-- The session is of the user with the email, its access token names them, and
its refresh token is theirs, in force and not revoked. -/
def AccountStore.Honours (hash : String → String) (s : AccountStore) (now : Time) (email : String)
    (session : Session) : Prop :=
  ∃ user token, s.users.findUserByEmail email = some user ∧ session.user = user.toPublicUser ∧
    session.accessToken = ⟨user.id, user.role⟩ ∧
    s.tokens.findByHash (hash session.refreshToken) = some token ∧ token.userId = user.id ∧
    now < token.expiresAt ∧ token.revokedAt = none

/-- No step throws, and what the call draws is new. -/
structure SignupCall.Undisturbed (hash : String → String) (s : AccountStore) (call : SignupCall) :
    Prop where
  hashing : call.hashing = none
  creation : call.creation = none
  signing : call.signing = none
  issuing : call.issuing = none
  id : ∀ user ∈ s.users.rows, user.id ≠ call.id
  token : call.token.Fresh hash s.tokens

/-- The user row is written. -/
structure SignupCall.CreatesUser (email : String) (s : AccountStore) (call : SignupCall) :
    Prop where
  hashing : call.hashing = none
  free : ∀ user ∈ s.users.rows, user.id ≠ call.id ∧ user.email ≠ email
  landed : ∀ outage, call.creation = some outage → outage.landed = true

/-- Nothing fails from the writing of the user row on. -/
structure SignupCall.Completes (hash : String → String) (s : AccountStore) (call : SignupCall) :
    Prop where
  creation : call.creation = none
  signing : call.signing = none
  issuing : call.issuing = none
  free : ∀ token ∈ s.tokens.rows, token.id ≠ call.token.id ∧ token.tokenHash ≠ hash call.token.raw

/-- The hashing or the creation of the user throws `P2002`. -/
def SignupCall.ViolatesUnique (email : String) (s : AccountStore) (call : SignupCall) : Prop :=
  match call.hashing, call.creation with
  | some error, _ => error.code = some "P2002"
  | none, some outage => outage.error.code = some "P2002"
  | none, none => ∃ user ∈ s.users.rows, user.id = call.id ∨ user.email = email

structure SignupAtomic (toLowerCase hash : String → String) (env : PasswordEnv)
    (input : SignupInput) (call : SignupCall) (s : AccountStore) : Prop where
  returns : ∀ session, (signup toLowerCase hash env input call s).1 = .ok session →
    (signup toLowerCase hash env input call s).2.Honours hash call.issuedAt
      (toLowerCase input.email) session
  unchanged : ∀ failure, (signup toLowerCase hash env input call s).1 = .error failure →
    (signup toLowerCase hash env input call s).2 = s
  conflict : ∀ message,
    (signup toLowerCase hash env input call s).1 = .error (.status 409 message) →
      s.EmailTaken (toLowerCase input.email)
  retry : ∀ failure, (signup toLowerCase hash env input call s).1 = .error failure →
    ¬ s.EmailTaken (toLowerCase input.email) → ∀ again : SignupCall,
      again.Undisturbed hash (signup toLowerCase hash env input call s).2 →
        ∃ session, (signup toLowerCase hash env input again
          (signup toLowerCase hash env input call s).2).1 = .ok session

/-- A call that writes the user row completes, and one that meets a unique
violation before has found the email in the table. -/
structure SignupUndivided (hash : String → String) (email : String) (call : SignupCall)
    (s : AccountStore) : Prop where
  completes : call.CreatesUser email s → call.Completes hash s
  conflicts : call.ViolatesUnique email s → s.EmailTaken email

section Outcomes

variable {toLowerCase hash : String → String} {env : PasswordEnv} {input : SignupInput}
variable {call : SignupCall} {s : AccountStore}

theorem not_emailTaken_iff {email : String} :
    ¬ s.EmailTaken email ↔ ∀ user ∈ s.users.rows, user.email ≠ email := by
  simp [AccountStore.EmailTaken, UserTable.findUserByEmail, Table.find, List.find?_eq_none]

theorem isUniqueViolation_client (error : ClientError) :
    isUniqueViolation (.client error) = true ↔ error.code = some "P2002" := by
  simp [isUniqueViolation]

/-- What `signup` answers when its body throws. -/
theorem signup_of_throws {failure : Failure} {t : AccountStore}
    (h : signupSteps toLowerCase hash env input call s = (.error failure, t)) :
    signup toLowerCase hash env input call s =
      (.error (if isUniqueViolation failure then accountExists else failure), t) := by
  simp only [signup, h]

/-- A call that does not write the user row throws, and leaves the tables. -/
theorem signupSteps_of_not_creates (hash : String → String) (env : PasswordEnv)
    (h : ¬ call.CreatesUser (toLowerCase input.email) s) :
    ∃ error : ClientError,
      signupSteps toLowerCase hash env input call s = (.error (.client error), s) ∧
      (error.code = some "P2002" ↔ call.ViolatesUnique (toLowerCase input.email) s) := by
  cases hhashing : call.hashing with
  | some error =>
      refine ⟨error, ?_, ?_⟩
      · simp only [signupSteps, hhashing]
      · simp only [SignupCall.ViolatesUnique, hhashing]
  | none =>
      by_cases hclash : ∃ user ∈ s.users.rows,
          user.id = call.id ∨ user.email = toLowerCase input.email
      · cases hcreation : call.creation with
        | none =>
            refine ⟨⟨some "P2002", none, none⟩, ?_, ?_⟩
            · simp only [signupSteps, hhashing, hcreation, Outage.strike,
                createUser_of_clash _ _ _ hclash]
              rfl
            · simp only [SignupCall.ViolatesUnique, hhashing, hcreation]
              exact iff_of_true trivial hclash
        | some outage =>
            refine ⟨outage.error, ?_, ?_⟩
            · simp only [signupSteps, hhashing, hcreation, Outage.strike,
                createUser_of_clash _ _ _ hclash, ite_self]
            · simp only [SignupCall.ViolatesUnique, hhashing, hcreation]
      · have hfree : ∀ user ∈ s.users.rows,
            user.id ≠ call.id ∧ user.email ≠ toLowerCase input.email := by
          simpa only [not_exists, not_and, not_or] using hclash
        cases hcreation : call.creation with
        | none => exact (h ⟨hhashing, hfree, by simp [hcreation]⟩).elim
        | some outage =>
            have hlost : outage.landed = false := by
              by_contra hlanded
              refine h ⟨hhashing, hfree, fun other hother => ?_⟩
              cases hcreation.symm.trans hother
              simpa using hlanded
            refine ⟨outage.error, ?_, ?_⟩
            · simp only [signupSteps, hhashing, hcreation, Outage.strike, hlost]
              rfl
            · simp only [SignupCall.ViolatesUnique, hhashing, hcreation]

/-- Once the user row is written it stays, whatever fails after it. -/
theorem signupSteps_of_creates (env : PasswordEnv)
    (h : call.CreatesUser (toLowerCase input.email) s)
    (hfails : ¬ call.Completes hash s) :
    ∃ failure t, signupSteps toLowerCase hash env input call s = (.error failure, t) ∧
      t.EmailTaken (toLowerCase input.email) := by
  obtain ⟨users, hinsert, hcreate⟩ := createUser_of_free call.createdAt
    (env.argon2Hash input.password call.salt) input.name h.free
  have htaken (tokens : TokenStore) :
      (⟨users, tokens⟩ : AccountStore).EmailTaken (toLowerCase input.email) := by
    simp only [AccountStore.EmailTaken, UserTable.findUserByEmail, Table.find_insert hinsert]
    simp
  cases hcreation : call.creation with
  | some outage =>
      have hlanded := h.landed outage hcreation
      refine ⟨.client outage.error, ⟨users, s.tokens⟩, ?_, htaken _⟩
      simp only [signupSteps, h.hashing, hcreation, Outage.strike, hcreate, hlanded, if_true]
  | none =>
      cases hsigning : call.signing with
      | some error =>
          refine ⟨.client error, ⟨users, s.tokens⟩, ?_, htaken _⟩
          simp only [signupSteps, h.hashing, hcreation, Outage.strike, hcreate, hsigning]
      | none =>
          cases hissuing : call.issuing with
          | some outage =>
              obtain ⟨tokens, hsteps⟩ : ∃ tokens, signupSteps toLowerCase hash env input call s =
                  (.error (.client outage.error), ⟨users, tokens⟩) := by
                simp only [signupSteps, h.hashing, hcreation, Outage.strike, hcreate, hsigning,
                  hissuing]
                exact ⟨_, rfl⟩
              exact ⟨_, _, hsteps, htaken tokens⟩
          | none =>
              have hclash : ∃ token ∈ s.tokens.rows,
                  token.id = call.token.id ∨ token.tokenHash = hash call.token.raw := by
                by_contra hfree
                refine hfails ⟨hcreation, hsigning, hissuing, ?_⟩
                simpa only [not_exists, not_and, not_or] using hfree
              refine ⟨.prisma "P2002", ⟨users, s.tokens⟩, ?_, htaken _⟩
              simp only [signupSteps, h.hashing, hcreation, Outage.strike, hcreate, hsigning,
                hissuing, issueSession_of_clash _ _ hclash]

theorem signup_of_completes (env : PasswordEnv)
    (h : call.CreatesUser (toLowerCase input.email) s)
    (hcompletes : call.Completes hash s) :
    ∃ session t, signup toLowerCase hash env input call s = (.ok session, t) ∧
      t.Honours hash call.issuedAt (toLowerCase input.email) session := by
  obtain ⟨users, hinsert, hcreate⟩ := createUser_of_free call.createdAt
    (env.argon2Hash input.password call.salt) input.name h.free
  set user : User := ⟨call.id, toLowerCase input.email, env.argon2Hash input.password call.salt,
    input.name, .attendee, call.createdAt⟩
  obtain ⟨tokens, hissued, hissue⟩ := issueSession_of_free call.issuedAt user hcompletes.free
  set token : RefreshToken := ⟨call.token.id, hash call.token.raw, user.id,
    call.issuedAt + refreshTtlMs, none, none⟩
  refine ⟨⟨user.toPublicUser, ⟨user.id, user.role⟩, call.token.raw⟩, ⟨users, tokens⟩, ?_,
    user, token, ?_, rfl, rfl, ?_, rfl, ?_, rfl⟩
  · simp only [signup, signupSteps, h.hashing, hcompletes.creation, hcompletes.signing,
      hcompletes.issuing, Outage.strike, hcreate, hissue]
  · have hnone : s.users.find (fun user => user.email == toLowerCase input.email) = none :=
      Table.find_none_of_insert hinsert (user_selects_email _) (by simp [user])
    simp [UserTable.findUserByEmail, Table.find_insert hinsert, hnone, user]
  · have hnone : s.tokens.find (fun token => token.tokenHash == hash call.token.raw) = none :=
      Table.find_none_of_insert hissued (token_selects_hash _) (by simp [token])
    simp [TokenStore.findByHash, Table.find_insert hissued, hnone, token]
  · have hpositive : 0 < refreshTtlMs := by decide
    exact Int.lt_add_of_pos_right _ hpositive

/-- The call after a failed one that has left the email free. -/
theorem signup_of_undisturbed (hfree : ¬ s.EmailTaken (toLowerCase input.email))
    (h : call.Undisturbed hash s) :
    ∃ session, (signup toLowerCase hash env input call s).1 = .ok session := by
  have hcreates : call.CreatesUser (toLowerCase input.email) s := by
    refine ⟨h.hashing, fun user hmem => ?_, by simp [h.creation]⟩
    exact ⟨h.id user hmem, not_emailTaken_iff.mp hfree user hmem⟩
  have hcompletes : call.Completes hash s := ⟨h.creation, h.signing, h.issuing, h.token.2⟩
  obtain ⟨session, t, hsignup, -⟩ := signup_of_completes env hcreates hcompletes
  exact ⟨session, by rw [hsignup]⟩

/-- Who has got an error once the user row was written can never sign up. -/
theorem signup_of_emailTaken (htaken : s.EmailTaken (toLowerCase input.email)) :
    ∃ failure, signup toLowerCase hash env input call s = (.error failure, s) := by
  have hnot : ¬ call.CreatesUser (toLowerCase input.email) s := by
    intro hcreates
    refine not_emailTaken_iff.mpr (fun user hmem => ?_) htaken
    exact (hcreates.free user hmem).2
  obtain ⟨error, hsteps, -⟩ := signupSteps_of_not_creates hash env hnot
  exact ⟨_, signup_of_throws hsteps⟩

/-- A session that the tables honour can be refreshed. -/
theorem AccountStore.Honours.refresh {now : Time} {email : String} {session : Session}
    (h : s.Honours hash now email session) (hraw : session.refreshToken ≠ "") {draw : TokenDraw}
    (hfresh : draw.Fresh hash s.tokens) :
    (Eventify.refresh hash now draw (some session.refreshToken) s.tokens).1 =
      .ok ⟨session.accessToken.sub, draw.raw⟩ := by
  obtain ⟨user, token, -, -, haccess, hfound, huser, hexpires, hrevoked⟩ := h
  obtain ⟨htoken, hhash⟩ := TokenStore.findByHash_eq_some_iff.mp hfound
  have hlive : ¬ Spent now token := by
    rintro (hspent | hexpired)
    · simp [hrevoked] at hspent
    · exact hexpires.not_ge hexpired
  rw [refresh_live htoken hhash.symm hraw hlive hfresh.2, huser, haccess]

theorem signup_atomic_of_completes (env : PasswordEnv)
    (h : call.CreatesUser (toLowerCase input.email) s) (hcompletes : call.Completes hash s) :
    SignupAtomic toLowerCase hash env input call s := by
  obtain ⟨session, t, hsignup, hhonours⟩ := signup_of_completes env h hcompletes
  refine ⟨?_, ?_, ?_, ?_⟩
  · rw [hsignup]
    rintro _ ⟨⟩
    exact hhonours
  · rw [hsignup]
    rintro _ ⟨⟩
  · rw [hsignup]
    rintro _ ⟨⟩
  · rw [hsignup]
    rintro _ ⟨⟩

theorem not_signup_atomic_of_fails (env : PasswordEnv)
    (h : call.CreatesUser (toLowerCase input.email) s) (hfails : ¬ call.Completes hash s) :
    ¬ SignupAtomic toLowerCase hash env input call s := by
  intro hatomic
  obtain ⟨failure, t, hsteps, htaken⟩ := signupSteps_of_creates env h hfails
  have hsignup := signup_of_throws hsteps
  have hsame : (signup toLowerCase hash env input call s).2 = s :=
    hatomic.unchanged _ (by rw [hsignup])
  rw [hsignup] at hsame
  have hfree : ¬ s.EmailTaken (toLowerCase input.email) :=
    not_emailTaken_iff.mpr fun user hmem => (h.free user hmem).2
  exact hfree (hsame ▸ htaken)

/-- Before the user row is written only the answer can be wrong. -/
theorem signup_atomic_iff_of_not_creates (env : PasswordEnv)
    (h : ¬ call.CreatesUser (toLowerCase input.email) s) :
    SignupAtomic toLowerCase hash env input call s ↔
      (call.ViolatesUnique (toLowerCase input.email) s →
        s.EmailTaken (toLowerCase input.email)) := by
  obtain ⟨error, hsteps, hviolates⟩ := signupSteps_of_not_creates hash env h
  have hsignup := signup_of_throws hsteps
  constructor
  · intro hatomic hunique
    refine hatomic.conflict "Account already exists" ?_
    rw [hsignup, if_pos ((isUniqueViolation_client error).mpr (hviolates.mpr hunique))]
    rfl
  · intro hconflicts
    refine ⟨?_, ?_, ?_, ?_⟩
    · rw [hsignup]
      rintro _ ⟨⟩
    · rw [hsignup]
      exact fun _ _ => rfl
    · rw [hsignup]
      intro message hanswer
      by_cases hunique : isUniqueViolation (.client error) = true
      · exact hconflicts (hviolates.mp ((isUniqueViolation_client error).mp hunique))
      · rw [if_neg hunique] at hanswer
        cases hanswer
    · rw [hsignup]
      exact fun _ _ hfree again hagain => signup_of_undisturbed hfree hagain

theorem SignupCall.Completes.not_violatesUnique {email : String}
    (hcompletes : call.Completes hash s) (h : call.CreatesUser email s) :
    ¬ call.ViolatesUnique email s := by
  intro hviolates
  simp only [SignupCall.ViolatesUnique, h.hashing, hcompletes.creation] at hviolates
  obtain ⟨user, hmem, hid | hemail⟩ := hviolates
  · exact (h.free user hmem).1 hid
  · exact (h.free user hmem).2 hemail

end Outcomes

/-- Signing up is atomic when, and only when, no step fails from the writing of
the user row on, and a unique violation before it is one of the email. -/
theorem signup_atomic_iff (toLowerCase hash : String → String) (env : PasswordEnv)
    (input : SignupInput) (call : SignupCall) (s : AccountStore) :
    SignupAtomic toLowerCase hash env input call s ↔
      SignupUndivided hash (toLowerCase input.email) call s := by
  by_cases hcreates : call.CreatesUser (toLowerCase input.email) s
  · by_cases hcompletes : call.Completes hash s
    · apply iff_of_true (signup_atomic_of_completes env hcreates hcompletes)
      exact ⟨fun _ => hcompletes, fun h => (hcompletes.not_violatesUnique hcreates h).elim⟩
    · apply iff_of_false (not_signup_atomic_of_fails env hcreates hcompletes)
      exact fun hundivided => hcompletes (hundivided.completes hcreates)
  · rw [signup_atomic_iff_of_not_creates env hcreates]
    constructor
    · exact fun hconflicts => ⟨fun h => (hcreates h).elim, hconflicts⟩
    · exact fun hundivided => hundivided.conflicts

def annsSignup : SignupInput := ⟨"ann@example.com", "correct horse battery staple", "Ann"⟩

/-- The database cannot be reached when the refresh token is to be written. -/
def cutOffSignup : SignupCall where
  createdAt := 0
  issuedAt := 0
  id := "ann"
  salt := "salt"
  token := ⟨"1", "a"⟩
  hashing := none
  creation := none
  signing := none
  issuing := some ⟨⟨some "P1001", none, none⟩, false⟩

/-- The user row of the failed call stays, and the next call is a conflict. -/
theorem signup_leaves_account :
    ∃ t, signup id id clearPasswords annsSignup cutOffSignup ⟨.empty, .empty⟩ =
        (.error (.prisma "P1001"), t) ∧
      t.EmailTaken "ann@example.com" ∧
      (signup id id clearPasswords annsSignup
        { cutOffSignup with id := "ann2", token := ⟨"2", "b"⟩, issuing := none } t).1 =
          .error accountExists ∧
      ¬ SignupAtomic id id clearPasswords annsSignup cutOffSignup ⟨.empty, .empty⟩ := by
  refine ⟨_, rfl, ?_, rfl, ?_⟩
  · intro h
    cases h
  · intro hatomic
    have hsame := hatomic.unchanged _ rfl
    cases congrArg (fun s => s.users.rows) hsame

end Eventify
