import Eventify.Auth.Sessions

/-!
# Accounts

The `User` table of the auth repository, and `password.ts`. The hash functions
come as parameters: `argon2` and `scrypt` throw on what they cannot read.
-/

namespace Eventify

open Library

structure User where
  id : Uuid
  email : String
  passwordHash : String
  name : String
  role : Role
  createdAt : Time
  deriving DecidableEq, Repr

/-- `User_pkey` and `User_email_key`. -/
def User.Clash (a b : User) : Prop := a.id = b.id ∨ a.email = b.email

instance : DecidableRel User.Clash := fun a b =>
  inferInstanceAs (Decidable (a.id = b.id ∨ a.email = b.email))

abbrev UserTable := Table User User.Clash

structure AccountStore where
  users : UserTable
  tokens : TokenStore

/-- The error of a database call, whose statement has taken effect when it
`landed`. -/
structure Outage where
  error : ClientError
  landed : Bool
  deriving DecidableEq, Repr

def Outage.strike {α σ : Type} (outage : Option Outage) (before : σ)
    (call : Except Failure α × σ) : Except Failure α × σ :=
  match outage with
  | none => call
  | some outage => (.error (.client outage.error), if outage.landed then call.2 else before)

theorem Outage.strike_map {α σ τ : Type} (outage : Option Outage) (f : σ → τ) (before : σ)
    (call : Except Failure α × σ) :
    Outage.strike outage (f before) (call.1, f call.2) =
      ((Outage.strike outage before call).1, f (Outage.strike outage before call).2) := by
  cases outage with
  | none => rfl
  | some outage =>
      simp only [Outage.strike]
      split <;> rfl

theorem Outage.strike_state {α σ : Type} (outage : Option Outage) (before : σ)
    (call : Except Failure α × σ) :
    (Outage.strike outage before call).2 = before ∨
      (Outage.strike outage before call).2 = call.2 := by
  cases outage with
  | none => exact .inr rfl
  | some outage =>
      simp only [Outage.strike]
      split
      · exact .inr rfl
      · exact .inl rfl

structure PublicUser where
  id : Uuid
  email : String
  name : String
  role : Role
  createdAt : Time
  deriving DecidableEq, Repr

def User.toPublicUser (user : User) : PublicUser :=
  ⟨user.id, user.email, user.name, user.role, user.createdAt⟩

def User.rehash (user : User) (passwordHash : String) : User := { user with passwordHash }

theorem rehash_keepsKeys (passwordHash : String) :
    Table.KeepsKeys User.Clash (·.rehash passwordHash) := fun _ _ => ⟨Iff.rfl, Iff.rfl⟩

namespace UserTable

def findUserByEmail (users : UserTable) (email : String) : Option User :=
  users.find fun user => user.email == email

def createUser (users : UserTable) (id : Uuid) (now : Time) (email passwordHash name : String) :
    Except Failure User × UserTable :=
  let user : User := ⟨id, email, passwordHash, name, .attendee, now⟩
  match users.insert user with
  | none => (.error (.prisma "P2002"), users)
  | some users => (.ok user, users)

def updatePasswordHash (users : UserTable) (id : Uuid) (passwordHash : String) :
    Except Failure Unit × UserTable :=
  match users.find fun user => user.id == id with
  | none => (.error (.prisma "P2025"), users)
  | some _ =>
      (.ok (), users.updateWhere (fun user => user.id == id) _ (rehash_keepsKeys passwordHash))

end UserTable

/-- What `signup` and `login` answer, the access token by the claims it carries. -/
structure Session where
  user : PublicUser
  accessToken : AuthUser
  refreshToken : String
  deriving DecidableEq, Repr

/-- `issuePair` of a user, under the answer of `signup` and `login`. -/
def issueSession (hash : String → String) (now : Time) (draw : TokenDraw) (user : User)
    (tokens : TokenStore) : Except Failure Session × TokenStore :=
  match issuePair hash now draw user.id tokens with
  | (.error failure, tokens) => (.error failure, tokens)
  | (.ok pair, tokens) =>
      (.ok ⟨user.toPublicUser, ⟨pair.sub, user.role⟩, pair.refreshToken⟩, tokens)

structure PasswordEnv where
  argon2Hash : (password salt : String) → String
  argon2Verify : (stored password : String) → Except Failure Bool
  argon2NeedsRehash : (stored : String) → Except Failure Bool
  scrypt : (password salt : String) → ℕ → Except Failure (List UInt8)
  dummySalt : String

def hexDigit (c : Char) : Option ℕ :=
  if '0' ≤ c ∧ c ≤ '9' then some (c.toNat - '0'.toNat)
  else if 'a' ≤ c ∧ c ≤ 'f' then some (c.toNat - 'a'.toNat + 10)
  else if 'A' ≤ c ∧ c ≤ 'F' then some (c.toNat - 'A'.toNat + 10)
  else none

/-- `Buffer.from(hex, "hex")` stops at the first pair that is not two digits. -/
def bufferFromHex : List Char → List UInt8
  | high :: low :: rest =>
      match hexDigit high, hexDigit low with
      | some x, some y => UInt8.ofNat (16 * x + y) :: bufferFromHex rest
      | _, _ => []
  | _ => []

namespace PasswordEnv

variable (env : PasswordEnv)

def getDummyPasswordHash : String :=
  env.argon2Hash "Eventify dummy credential for timing equalization only" env.dummySalt

def verifyLegacyScrypt (password stored : String) : Except Failure Bool :=
  match stored.toList.splitOn '$' with
  | algorithm :: salt :: hex :: _ =>
      if algorithm ≠ "scrypt".toList ∨ salt = [] ∨ hex = [] then .ok false
      else
        let expected := bufferFromHex hex
        if expected.length = 0 then .ok false
        else
          match env.scrypt password (String.ofList salt) expected.length with
          | .error failure => .error failure
          | .ok actual => .ok (expected.length == actual.length && expected == actual)
  | _ => .ok false

def verifyPassword (password stored : String) : Bool :=
  let answer :=
    if "$argon2".toList.isPrefixOf stored.toList then env.argon2Verify stored password
    else if "scrypt$".toList.isPrefixOf stored.toList then env.verifyLegacyScrypt password stored
    else .ok false
  match answer with
  | .ok valid => valid
  | .error _ => false

def needsPasswordRehash (stored : String) : Bool :=
  if "$argon2id$".toList.isPrefixOf stored.toList then
    match env.argon2NeedsRehash stored with
    | .ok needed => needed
    | .error _ => true
  else true

end PasswordEnv

/-- Hashes that carry the password in clear. -/
def clearPasswords : PasswordEnv where
  argon2Hash := fun password salt => "$argon2id$" ++ salt ++ "$" ++ password
  argon2Verify := fun stored password =>
    match stored.toList.splitOn '$' with
    | [_, _, _, digest] => .ok (digest == password.toList)
    | _ => .error (.client ⟨none, none, none⟩)
  argon2NeedsRehash := fun _ => .ok false
  scrypt := fun password _ _ => .ok (password.toUTF8.toList)
  dummySalt := "dummy"

theorem user_selects_email (email : String) :
    Table.Selects User.Clash fun user => user.email == email := by
  intro a b ha hb
  simp only [beq_iff_eq] at ha hb
  exact .inr (ha.trans hb.symm)

theorem user_selects_id (id : Uuid) : Table.Selects User.Clash fun user => user.id == id := by
  intro a b ha hb
  simp only [beq_iff_eq] at ha hb
  exact .inl (ha.trans hb.symm)

theorem user_id_inj {users : UserTable} {a b : User} (ha : a ∈ users.rows) (hb : b ∈ users.rows)
    (h : a.id = b.id) : a = b := by
  have hfind := (Table.find_eq_some_iff (user_selects_id b.id)).mpr ⟨ha, by simpa using h⟩
  have hfind' := (Table.find_eq_some_iff (user_selects_id b.id)).mpr ⟨hb, by simp⟩
  exact Option.some.inj (hfind.symm.trans hfind')

section Outcomes

variable {users : UserTable} {tokens : TokenStore} {hash : String → String}

theorem createUser_of_clash {id : Uuid} {email : String} (now : Time) (passwordHash name : String)
    (h : ∃ user ∈ users.rows, user.id = id ∨ user.email = email) :
    users.createUser id now email passwordHash name = (.error (.prisma "P2002"), users) := by
  obtain ⟨user, hmem, hclash⟩ := h
  have hinsert : users.insert ⟨id, email, passwordHash, name, .attendee, now⟩ = none :=
    Table.insert_of_clash hmem hclash
  simp only [UserTable.createUser, hinsert]

theorem createUser_of_free {id : Uuid} {email : String} (now : Time) (passwordHash name : String)
    (h : ∀ user ∈ users.rows, user.id ≠ id ∧ user.email ≠ email) :
    ∃ users', users.insert ⟨id, email, passwordHash, name, .attendee, now⟩ = some users' ∧
      users.createUser id now email passwordHash name =
        (.ok ⟨id, email, passwordHash, name, .attendee, now⟩, users') := by
  have hfree : ∀ user ∈ users.rows,
      ¬ User.Clash user ⟨id, email, passwordHash, name, .attendee, now⟩ := by
    rintro user hmem (hid | hemail)
    · exact (h user hmem).1 hid
    · exact (h user hmem).2 hemail
  obtain ⟨users', hinsert⟩ := Table.exists_insert hfree
  exact ⟨users', hinsert, by simp only [UserTable.createUser, hinsert]⟩

theorem issueSession_of_clash (now : Time) {draw : TokenDraw} (user : User)
    (h : ∃ token ∈ tokens.rows, token.id = draw.id ∨ token.tokenHash = hash draw.raw) :
    issueSession hash now draw user tokens = (.error (.prisma "P2002"), tokens) := by
  obtain ⟨token, hmem, hclash⟩ := h
  have hinsert : tokens.insert
      ⟨draw.id, hash draw.raw, user.id, now + refreshTtlMs, none, none⟩ = none :=
    Table.insert_of_clash hmem hclash
  simp only [issueSession, issuePair, TokenStore.create, hinsert]

theorem issueSession_of_free (now : Time) {draw : TokenDraw} (user : User)
    (h : ∀ token ∈ tokens.rows, token.id ≠ draw.id ∧ token.tokenHash ≠ hash draw.raw) :
    ∃ tokens', tokens.insert
        ⟨draw.id, hash draw.raw, user.id, now + refreshTtlMs, none, none⟩ = some tokens' ∧
      issueSession hash now draw user tokens =
        (.ok ⟨user.toPublicUser, ⟨user.id, user.role⟩, draw.raw⟩, tokens') := by
  obtain ⟨tokens', hinsert, hcreate⟩ := TokenStore.create_of_free user.id (now + refreshTtlMs) h
  exact ⟨tokens', hinsert, by simp only [issueSession, issuePair, hcreate]⟩

end Outcomes

end Eventify
