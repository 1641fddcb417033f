import Eventify.Auth.Login

/-!
# Stored hashes over runs of the service

A login that succeeds replaces a hash that needs it. What a step of the service
does to the accounts is said once; that a new hash lets in no password that the
one from the start refused follows for whole runs, whatever logins overlap.
-/

namespace Eventify

open Library

/-- From one `await` of `login` to the next, where no statement writes. -/
inductive Attempt.Moves (passwords : PasswordEnv) (users : UserTable) (attempt : Attempt) :
    AttemptStage → Prop
  | allowed (h : attempt.stage = .entered) : Moves passwords users attempt .allowed
  | found (h : attempt.stage = .allowed) :
      Moves passwords users attempt (.found (users.findUserByEmail attempt.email))
  | refused {user : Option User} (h : attempt.stage = .found user) :
      Moves passwords users attempt .refused
  | accepted {user : User} (h : attempt.stage = .found (some user))
      (hvalid : passwords.verifyPassword attempt.password user.passwordHash = true) :
      Moves passwords users attempt (.accepted user)
  | cleared {user : User} (h : attempt.stage = .accepted user) :
      Moves passwords users attempt (.cleared user)
  | kept {user : User} (h : attempt.stage = .cleared user)
      (hfresh : passwords.needsPasswordRehash user.passwordHash = false) :
      Moves passwords users attempt (.rehashed user)

/-- All that a step can do to the calls and the accounts. -/
inductive ServiceMove (passwords : PasswordEnv) (hash : String → String) (s : LoginService) :
    ServiceAction → LoginService → Prop
  | ticked {ms : ℕ} :
      ServiceMove passwords hash s (.tick ms) (s.withThrottle (s.throttle.tick ms))
  | called {given email password : String} : ServiceMove passwords hash s (.login given password)
      { s with attempts := s.attempts ++ [⟨email, password, .entered⟩] }
  | moved {i : ℕ} {turn : Turn} {attempt : Attempt} {stage : AttemptStage} {throttle : LoginSystem}
      (hattempt : s.attempts[i]? = some attempt) (hnow : throttle.now = s.throttle.now)
      (hmoves : attempt.Moves passwords s.accounts.users stage) :
      ServiceMove passwords hash s (.proceed i turn)
        ((s.withThrottle throttle).setStage i attempt stage)
  | failed {i : ℕ} {turn : Turn} {attempt : Attempt} {failure : Failure} {throttle : LoginSystem}
      (hattempt : s.attempts[i]? = some attempt) (hnow : throttle.now = s.throttle.now)
      (hstage : ∀ user, attempt.stage ≠ .rehashed user) :
      ServiceMove passwords hash s (.proceed i turn)
        ((s.withThrottle throttle).finish i attempt (.error failure))
  | rehashed {i : ℕ} {turn : Turn} {attempt : Attempt} {user : User} {users : UserTable}
      (hattempt : s.attempts[i]? = some attempt) (hstage : attempt.stage = .cleared user)
      (hupdate : s.accounts.users.updatePasswordHash user.id
        (passwords.argon2Hash attempt.password turn.salt) = (.ok (), users)) :
      ServiceMove passwords hash s (.proceed i turn)
        ((s.withUsers users).setStage i attempt (.rehashed user))
  | unrehashed {i : ℕ} {turn : Turn} {attempt : Attempt} {user : User} {users : UserTable}
      {failure : Failure} (hattempt : s.attempts[i]? = some attempt)
      (hstage : attempt.stage = .cleared user)
      (husers : users = s.accounts.users ∨ users = (s.accounts.users.updatePasswordHash user.id
        (passwords.argon2Hash attempt.password turn.salt)).2) :
      ServiceMove passwords hash s (.proceed i turn)
        ((s.withUsers users).finish i attempt (.error failure))
  | issued {i : ℕ} {turn : Turn} {attempt : Attempt} {user : User} {tokens : TokenStore}
      {result : Except Failure Session} (hattempt : s.attempts[i]? = some attempt)
      (hstage : attempt.stage = .rehashed user)
      (hstrike : Outage.strike turn.outage s.accounts.tokens
        (issueSession hash s.throttle.now turn.draw user s.accounts.tokens) = (result, tokens)) :
      ServiceMove passwords hash s (.proceed i turn) ((s.withTokens tokens).finish i attempt result)

/-- What the three functions of argon2 do for the options of the service. -/
structure PasswordEnv.Lawful (passwords : PasswordEnv) : Prop where
  format : ∀ password salt,
    "$argon2id$".toList.isPrefixOf (passwords.argon2Hash password salt).toList = true
  verifies : ∀ password salt other,
    passwords.argon2Verify (passwords.argon2Hash password salt) other = .ok (other == password)
  current : ∀ password salt,
    passwords.argon2NeedsRehash (passwords.argon2Hash password salt) = .ok false

/-- What may stand in the place of a stored hash: itself, or the hash of a
password that it accepts. -/
def PasswordEnv.Replaces (passwords : PasswordEnv) (stored new : String) : Prop :=
  new = stored ∨ ∃ password salt, new = passwords.argon2Hash password salt ∧
    passwords.verifyPassword password stored = true

/-- The row that a call has verified its password against. -/
def AttemptStage.verified : AttemptStage → Option User
  | .accepted user | .cleared user | .rehashed user => some user
  | _ => none

/-- The row that a call has read is one of the first rows under a hash that may
stand there; where the row has another by now, that is up to date. -/
structure Attempt.Backed (passwords : PasswordEnv) (first users : UserTable) (attempt : Attempt) :
    Prop where
  read : ∀ user, attempt.stage.user = some user → ∃ old ∈ first.rows,
    user = old.rehash user.passwordHash ∧ passwords.Replaces old.passwordHash user.passwordHash
  verified : ∀ user, attempt.stage.verified = some user →
    passwords.verifyPassword attempt.password user.passwordHash = true
  changed : ∀ user, attempt.stage.user = some user → ∀ row ∈ users.rows, row.id = user.id →
    row.passwordHash = user.passwordHash ∨
      passwords.needsPasswordRehash row.passwordHash = false
  rehashed : ∀ user, attempt.stage = .rehashed user → ∀ row ∈ users.rows, row.id = user.id →
    passwords.needsPasswordRehash row.passwordHash = false

/-- Every account is the one it was at first, under a hash that may stand there,
and whoever has been answered with a session has a hash that is up to date. -/
structure LoginService.Upgraded (passwords : PasswordEnv) (first : UserTable) (s : LoginService) :
    Prop where
  rows : ∃ stored : User → String,
    s.accounts.users.rows = first.rows.map (fun old => old.rehash (stored old)) ∧
      ∀ old ∈ first.rows, passwords.Replaces old.passwordHash (stored old)
  attempts : ∀ attempt ∈ s.attempts, attempt.Backed passwords first s.accounts.users
  responses : ∀ email session, (email, .ok session) ∈ s.responses →
    ∀ row ∈ s.accounts.users.rows, row.id = session.user.id →
      passwords.needsPasswordRehash row.passwordHash = false

variable {env : LoginEnv} {passwords : PasswordEnv} {hash : String → String}
variable {s t : LoginService} {a : ServiceAction} {users : UserTable}

@[simp] theorem recordLoginFailure_now (throttle : LoginSystem) (email : String) :
    (throttle.recordLoginFailure env email).now = throttle.now := by
  unfold LoginSystem.recordLoginFailure
  dsimp only
  split <;> split <;> rfl

theorem serviceStep_moves (h : serviceStep env passwords hash s a = some t) :
    ServiceMove passwords hash s a t := by
  cases a with
  | tick ms =>
      cases h
      exact .ticked
  | login email password =>
      cases h
      exact .called
  | proceed i turn =>
      simp only [serviceStep] at h
      split at h
      next attempt hattempt =>
        cases h
        unfold LoginService.proceed
        split
        next hstage =>
          split
          · exact .failed hattempt rfl (by simp [hstage])
          · exact .moved hattempt rfl (.allowed hstage)
        next hstage =>
          split
          · exact .failed hattempt rfl (by simp [hstage])
          · exact .moved hattempt rfl (.found hstage)
        next user hstage =>
          simp only
          split
          next user hvalid => exact .moved hattempt rfl (.accepted hstage hvalid)
          · exact .moved hattempt rfl (.refused hstage)
        next hstage => exact .failed hattempt (by split <;> simp) (by simp [hstage])
        next user hstage => exact .moved hattempt (by split <;> rfl) (.cleared hstage)
        next user hstage =>
          split
          · split
            next failure users hstrike =>
              refine .unrehashed hattempt hstage ?_
              have hstate := Outage.strike_state turn.outage s.accounts.users
                (s.accounts.users.updatePasswordHash user.id
                  (passwords.argon2Hash attempt.password turn.salt))
              rwa [hstrike] at hstate
            next users hstrike =>
              refine .rehashed hattempt hstage ?_
              cases houtage : turn.outage with
              | none => simpa [Outage.strike, houtage] using hstrike
              | some outage => simp [Outage.strike, houtage] at hstrike
          next hfresh =>
            exact .moved hattempt rfl (.kept hstage (Bool.eq_false_iff.mpr hfresh))
        next user hstage => exact .issued hattempt hstage rfl
      · simp at h

section Hashes

variable (hlaws : passwords.Lawful)

include hlaws

theorem verifyPassword_argon2Hash (password salt other : String) :
    passwords.verifyPassword other (passwords.argon2Hash password salt) = (other == password) := by
  have hprefix :
      "$argon2".toList.isPrefixOf (passwords.argon2Hash password salt).toList = true := by
    rw [List.isPrefixOf_iff_prefix]
    exact (List.prefix_append "$argon2".toList "id$".toList).trans
      (List.isPrefixOf_iff_prefix.mp (hlaws.format password salt))
  simp only [PasswordEnv.verifyPassword, hprefix, hlaws.verifies, if_true]

theorem needsPasswordRehash_argon2Hash (password salt : String) :
    passwords.needsPasswordRehash (passwords.argon2Hash password salt) = false := by
  simp only [PasswordEnv.needsPasswordRehash, hlaws.format, hlaws.current, if_true]

/-- A hash in the place of another accepts no password that the other refused. -/
theorem PasswordEnv.Replaces.accepts {stored new password : String}
    (h : passwords.Replaces stored new) (hvalid : passwords.verifyPassword password new = true) :
    passwords.verifyPassword password stored = true := by
  rcases h with rfl | ⟨first, salt, rfl, hfirst⟩
  · exact hvalid
  · rw [verifyPassword_argon2Hash hlaws] at hvalid
    rwa [eq_of_beq hvalid]

theorem PasswordEnv.Replaces.renew {stored new password : String}
    (h : passwords.Replaces stored new) (hvalid : passwords.verifyPassword password new = true)
    (salt : String) : passwords.Replaces stored (passwords.argon2Hash password salt) :=
  .inr ⟨password, salt, rfl, h.accepts hlaws hvalid⟩

end Hashes

theorem updatePasswordHash_users (users : UserTable) (id : Uuid) (passwordHash : String) :
    (users.updatePasswordHash id passwordHash).2.rows =
      users.rows.map fun user => if user.id = id then user.rehash passwordHash else user := by
  unfold UserTable.updatePasswordHash
  split
  next hnone =>
    have hother : ∀ user ∈ users.rows, ¬ user.id = id := by
      simpa [Table.find, List.find?_eq_none] using hnone
    symm
    calc
      _ = users.rows.map fun user => user :=
        List.map_congr_left fun user huser => if_neg (hother user huser)
      _ = users.rows := List.map_id' _
  · simp

theorem mem_updatePasswordHash {id : Uuid} {passwordHash : String} {row : User}
    (h : row ∈ (users.updatePasswordHash id passwordHash).2.rows) :
    (row.id = id ∧ row.passwordHash = passwordHash) ∨ row ∈ users.rows := by
  rw [updatePasswordHash_users] at h
  obtain ⟨user, huser, rfl⟩ := List.mem_map.mp h
  split
  next hid => exact .inl ⟨hid, rfl⟩
  · exact .inr huser

section Invariant

variable {first : UserTable} {attempt : Attempt} {i : ℕ}

theorem Attempt.Backed.update (h : attempt.Backed passwords first users) {id : Uuid}
    {passwordHash : String} (hfresh : passwords.needsPasswordRehash passwordHash = false) :
    attempt.Backed passwords first (users.updatePasswordHash id passwordHash).2 := by
  refine ⟨h.read, h.verified, fun user huser row hrow hid => ?_, fun user huser row hrow hid => ?_⟩
  · rcases mem_updatePasswordHash hrow with ⟨-, hhash⟩ | hold
    · exact .inr (hhash ▸ hfresh)
    · exact h.changed user huser row hold hid
  · rcases mem_updatePasswordHash hrow with ⟨-, hhash⟩ | hold
    · exact hhash ▸ hfresh
    · exact h.rehashed user huser row hold hid

/-- A stage that follows without a write has read and verified no more. -/
theorem Attempt.Backed.moves (h : attempt.Backed passwords first users)
    (hfind : ∀ user, users.findUserByEmail attempt.email = some user →
      ∃ old ∈ first.rows, user = old.rehash user.passwordHash ∧
        passwords.Replaces old.passwordHash user.passwordHash)
    {stage : AttemptStage} (hmoves : attempt.Moves passwords users stage) :
    Attempt.Backed passwords first users { attempt with stage } := by
  cases hmoves with
  | allowed => exact ⟨nofun, nofun, nofun, nofun⟩
  | refused => exact ⟨nofun, nofun, nofun, nofun⟩
  | found =>
      refine ⟨fun user huser => hfind user huser, nofun, fun user huser row hrow hid => ?_, nofun⟩
      have hmem := (Table.find_eq_some_iff (user_selects_email attempt.email)).mp huser
      rw [user_id_inj hrow hmem.1 hid]
      exact .inl rfl
  | @accepted user hstage hvalid =>
      refine ⟨?_, ?_, ?_, nofun⟩
      · rintro _ ⟨⟩
        exact h.read user (by simp [hstage, AttemptStage.user])
      · rintro _ ⟨⟩
        exact hvalid
      · rintro _ ⟨⟩
        exact h.changed user (by simp [hstage, AttemptStage.user])
  | @cleared user hstage =>
      refine ⟨?_, ?_, ?_, nofun⟩
      · rintro _ ⟨⟩
        exact h.read user (by simp [hstage, AttemptStage.user])
      · rintro _ ⟨⟩
        exact h.verified user (by simp [hstage, AttemptStage.verified])
      · rintro _ ⟨⟩
        exact h.changed user (by simp [hstage, AttemptStage.user])
  | @kept user hstage hfresh =>
      have hchanged := h.changed user (by simp only [hstage, AttemptStage.user])
      refine ⟨?_, ?_, ?_, ?_⟩
      · rintro _ ⟨⟩
        exact h.read user (by simp [hstage, AttemptStage.user])
      · rintro _ ⟨⟩
        exact h.verified user (by simp [hstage, AttemptStage.verified])
      · rintro _ ⟨⟩
        exact hchanged
      · rintro _ ⟨⟩ row hrow hid
        rcases hchanged row hrow hid with hsame | hcurrent
        · rw [hsame, hfresh]
        · exact hcurrent

theorem LoginService.Upgraded.find (h : s.Upgraded passwords first) {email : String} {user : User}
    (huser : s.accounts.users.findUserByEmail email = some user) :
    ∃ old ∈ first.rows, user = old.rehash user.passwordHash ∧
      passwords.Replaces old.passwordHash user.passwordHash := by
  obtain ⟨stored, hrows, hreplaces⟩ := h.rows
  have hmem := Table.mem_of_find huser
  rw [hrows] at hmem
  obtain ⟨old, hold, rfl⟩ := List.mem_map.mp hmem
  exact ⟨old, hold, rfl, hreplaces old hold⟩

theorem LoginService.Upgraded.withThrottle (h : s.Upgraded passwords first)
    (throttle : LoginSystem) : (s.withThrottle throttle).Upgraded passwords first :=
  ⟨h.rows, h.attempts, h.responses⟩

theorem LoginService.Upgraded.withTokens (h : s.Upgraded passwords first) (tokens : TokenStore) :
    (s.withTokens tokens).Upgraded passwords first :=
  ⟨h.rows, h.attempts, h.responses⟩

theorem LoginService.Upgraded.setStage (h : s.Upgraded passwords first) {stage : AttemptStage}
    (hnew : Attempt.Backed passwords first s.accounts.users { attempt with stage }) :
    (s.setStage i attempt stage).Upgraded passwords first := by
  refine ⟨h.rows, fun other hother => ?_, h.responses⟩
  rcases List.mem_or_eq_of_mem_set hother with hmem | rfl
  · exact h.attempts other hmem
  · exact hnew

theorem LoginService.Upgraded.finish (h : s.Upgraded passwords first)
    {result : Except Failure Session} (hnew : ∀ session, result = .ok session →
      ∀ row ∈ s.accounts.users.rows, row.id = session.user.id →
        passwords.needsPasswordRehash row.passwordHash = false) :
    (s.finish i attempt result).Upgraded passwords first := by
  refine ⟨h.rows, fun other hother => h.attempts other (List.mem_of_mem_eraseIdx hother), ?_⟩
  intro email session hmem
  rcases List.mem_append.mp hmem with hold | hlast
  · exact h.responses email session hold
  · obtain ⟨-, hresult⟩ := Prod.mk.inj (List.mem_singleton.mp hlast)
    exact hnew session hresult.symm

theorem LoginService.Upgraded.update (hlaws : passwords.Lawful) (h : s.Upgraded passwords first)
    {user : User} (hattempt : attempt ∈ s.attempts) (hstage : attempt.stage = .cleared user)
    (salt : String) : (s.withUsers (s.accounts.users.updatePasswordHash user.id
      (passwords.argon2Hash attempt.password salt)).2).Upgraded passwords first := by
  have hbacked := h.attempts attempt hattempt
  have hfresh := needsPasswordRehash_argon2Hash hlaws attempt.password salt
  obtain ⟨read, hread, hsame, hreplaces⟩ :=
    hbacked.read user (by simp only [hstage, AttemptStage.user])
  have hid : user.id = read.id := by rw [hsame]; rfl
  have hrenew := hreplaces.renew hlaws
    (hbacked.verified user (by simp only [hstage, AttemptStage.verified])) salt
  obtain ⟨stored, hrows, hstored⟩ := h.rows
  refine ⟨?_, fun other hother => (h.attempts other hother).update hfresh, ?_⟩
  · refine ⟨fun old => if old.id = user.id then passwords.argon2Hash attempt.password salt
      else stored old, ?_, fun old hold => ?_⟩
    · show (s.accounts.users.updatePasswordHash user.id _).2.rows = _
      rw [updatePasswordHash_users, hrows, List.map_map]
      refine List.map_congr_left fun old _ => ?_
      show (if old.id = user.id then _ else _) = old.rehash (if old.id = user.id then _ else _)
      split <;> rfl
    · dsimp only
      split
      next hold' => rwa [user_id_inj hold hread (hold'.trans hid)]
      · exact hstored old hold
  · intro email session hmem row hrow hrowid
    rcases mem_updatePasswordHash hrow with ⟨-, hhash⟩ | hold
    · exact hhash ▸ hfresh
    · exact h.responses email session hmem row hold hrowid

theorem LoginService.Upgraded.start (throttle : LoginSystem) (accounts : AccountStore) :
    (LoginService.start throttle accounts).Upgraded passwords accounts.users := by
  refine ⟨⟨User.passwordHash, (List.map_id' _).symm, fun _ _ => .inl rfl⟩, ?_, ?_⟩
  · intro attempt hattempt
    cases hattempt
  · intro email session hmem
    cases hmem

theorem issueSession_user {now : Time} {draw : TokenDraw} {user : User} {tokens : TokenStore}
    {session : Session} (h : (issueSession hash now draw user tokens).1 = .ok session) :
    session.user = user.toPublicUser ∧ session.accessToken = ⟨user.id, user.role⟩ := by
  unfold issueSession issuePair at h
  cases hcreate : tokens.create draw.id (hash draw.raw) user.id (now + refreshTtlMs) with
  | error failure => simp [hcreate] at h
  | ok tokens =>
      simp only [hcreate, Except.ok.injEq] at h
      rw [← h]
      exact ⟨rfl, rfl⟩

theorem strike_ok {α σ : Type} {outage : Option Outage} {before after : σ}
    {call : Except Failure α × σ} {result : α}
    (h : Outage.strike outage before call = (.ok result, after)) : call = (.ok result, after) := by
  cases outage with
  | none => exact h
  | some outage => simp [Outage.strike] at h

theorem LoginService.Upgraded.step (hlaws : passwords.Lawful) (h : s.Upgraded passwords first)
    (hstep : serviceStep env passwords hash s a = some t) : t.Upgraded passwords first := by
  cases serviceStep_moves hstep with
  | ticked => exact h.withThrottle _
  | called =>
      refine ⟨h.rows, fun attempt hattempt => ?_, h.responses⟩
      rcases List.mem_append.mp hattempt with hold | hnew
      · exact h.attempts attempt hold
      · obtain rfl := List.mem_singleton.mp hnew
        exact ⟨nofun, nofun, nofun, nofun⟩
  | moved hattempt _ hmoves =>
      have hbacked := h.attempts _ (List.mem_of_getElem? hattempt)
      exact (h.withThrottle _).setStage (hbacked.moves (fun _ => h.find) hmoves)
  | failed => exact (h.withThrottle _).finish fun _ hresult => nomatch hresult
  | @rehashed i turn attempt user users hattempt hstage hupdate =>
      have hmem := List.mem_of_getElem? hattempt
      have hnext := h.update hlaws hmem hstage turn.salt
      rw [hupdate] at hnext
      have hbacked := hnext.attempts attempt hmem
      refine hnext.setStage ⟨?_, ?_, ?_, ?_⟩
      · rintro user ⟨⟩
        exact hbacked.read user (by simp [hstage, AttemptStage.user])
      · rintro user ⟨⟩
        exact hbacked.verified user (by simp [hstage, AttemptStage.verified])
      · rintro user ⟨⟩
        exact hbacked.changed user (by simp [hstage, AttemptStage.user])
      · rintro user ⟨⟩ row hrow hid
        have husers : users = (s.accounts.users.updatePasswordHash user.id
            (passwords.argon2Hash attempt.password turn.salt)).2 := by rw [hupdate]
        have hrow' : row ∈ users.rows := hrow
        rw [husers, updatePasswordHash_users] at hrow'
        obtain ⟨old, -, rfl⟩ := List.mem_map.mp hrow'
        split
        · exact needsPasswordRehash_argon2Hash hlaws attempt.password turn.salt
        next hother =>
          rw [if_neg hother] at hid
          exact (hother hid).elim
  | unrehashed hattempt hstage husers =>
      rcases husers with rfl | rfl
      · exact h.finish fun _ hresult => nomatch hresult
      · have hnext := h.update hlaws (List.mem_of_getElem? hattempt) hstage
        exact (hnext _).finish fun _ hresult => nomatch hresult
  | issued hattempt hstage hstrike =>
      refine (h.withTokens _).finish ?_
      rintro session rfl
      have hissue := strike_ok hstrike
      obtain ⟨huser, -⟩ := issueSession_user (congrArg Prod.fst hissue)
      rw [huser]
      exact (h.attempts _ (List.mem_of_getElem? hattempt)).rehashed _ hstage

end Invariant

/-- What logins do to the stored hashes, however they overlap and fail: no row
is added, lost or changed but in its hash, no password gets in that the first
hash of the account refused, and an account that has been answered with a
session has a hash that needs no other. -/
theorem logins_upgrade_hashes (hlaws : passwords.Lawful) (throttle : LoginSystem)
    (accounts : AccountStore) {acts : List ServiceAction}
    (hrun : exec (serviceStep env passwords hash) (.start throttle accounts) acts = some s) :
    s.accounts.users.rows.map (·.rehash "") = accounts.users.rows.map (·.rehash "") ∧
      (∀ email password, s.accounts.users.Verifies passwords email password →
        accounts.users.Verifies passwords email password) ∧
      ∀ email session, (email, .ok session) ∈ s.responses →
        ∀ row ∈ s.accounts.users.rows, row.id = session.user.id →
          passwords.needsPasswordRehash row.passwordHash = false := by
  have hupgraded := exec_invariant (fun _ _ _ hs hstep => LoginService.Upgraded.step hlaws hs hstep)
    (LoginService.Upgraded.start throttle accounts) hrun
  refine ⟨?_, ?_, hupgraded.responses⟩
  · obtain ⟨stored, hrows, -⟩ := hupgraded.rows
    rw [hrows, List.map_map]
    rfl
  · rintro email password ⟨user, huser, hvalid⟩
    obtain ⟨old, hold, hsame, hreplaces⟩ := hupgraded.find huser
    refine ⟨old, ?_, hreplaces.accepts hlaws hvalid⟩
    have hemail := Table.holds_of_find huser
    rw [hsame] at hemail
    exact (Table.find_eq_some_iff (user_selects_email email)).mpr ⟨hold, hemail⟩

/-- Hashes that carry the password alone. -/
def saltless : PasswordEnv where
  argon2Hash := fun password _ => "$argon2id$" ++ password
  argon2Verify := fun stored password => .ok (stored == "$argon2id$" ++ password)
  argon2NeedsRehash := fun _ => .ok false
  scrypt := fun password _ _ => .ok (password.toList.map fun c => UInt8.ofNat c.toNat)
  dummySalt := ""

theorem saltless_lawful : saltless.Lawful where
  format := fun password salt => by
    rw [List.isPrefixOf_iff_prefix]
    simp only [saltless, String.toList_append]
    exact List.prefix_append _ _
  verifies := fun password salt other => by
    have hiff : ("$argon2id$" ++ password = "$argon2id$" ++ other) ↔ other = password := by
      rw [← String.toList_inj, String.toList_append, String.toList_append, List.append_right_inj,
        String.toList_inj, eq_comm]
    simp [saltless, Bool.beq_eq_decide_eq, hiff]
  current := fun _ _ => rfl

/-- A hash of the time before argon2; the hex digits are those of `hi`. -/
def carl : User := ⟨"carl", "carl@example.com", "scrypt$salt$6869", "Carl", .attendee, 0⟩

def carlsTable : UserTable := ⟨[carl], by decide⟩

def carlLogsIn : List ServiceAction :=
  .login "carl@example.com" "hi" :: List.replicate 6 goesOn

theorem logins_upgrade_carl :
    ∃ s, exec (serviceStep strictLogin saltless id) (.start (.start 0) ⟨carlsTable, .empty⟩)
        carlLogsIn = some s ∧
      s.accounts.users.rows = [carl.rehash "$argon2id$hi"] ∧
      ∀ email session, (email, .ok session) ∈ s.responses →
        ∀ row ∈ s.accounts.users.rows, row.id = session.user.id →
          saltless.needsPasswordRehash row.passwordHash = false := by
  obtain ⟨s, hrun, hrows⟩ : ∃ s, exec (serviceStep strictLogin saltless id)
      (.start (.start 0) ⟨carlsTable, .empty⟩) carlLogsIn = some s ∧
        s.accounts.users.rows = [carl.rehash "$argon2id$hi"] := ⟨_, rfl, rfl⟩
  exact ⟨s, hrun, hrows, (logins_upgrade_hashes saltless_lawful _ _ hrun).2.2⟩

end Eventify
