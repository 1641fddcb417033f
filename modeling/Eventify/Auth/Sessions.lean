import Eventify.Domain
import Eventify.Library.Chain
import Eventify.Library.Machine
import Eventify.Library.Table

/-!
# Refresh tokens

`issuePair`, `refresh` and `logout` of the auth service on the `RefreshToken`
table. `hash` stands for `hashRefreshToken`; the random part of a new token
comes with the call.
-/

namespace Eventify

open Library

structure RefreshToken where
  id : Uuid
  tokenHash : String
  userId : Uuid
  expiresAt : Time
  revokedAt : Option Time
  replacedById : Option Uuid
  deriving DecidableEq, Repr

/-- `RefreshToken_pkey` and `RefreshToken_tokenHash_key`. -/
def RefreshToken.Clash (a b : RefreshToken) : Prop := a.id = b.id ∨ a.tokenHash = b.tokenHash

instance : DecidableRel RefreshToken.Clash := fun a b =>
  inferInstanceAs (Decidable (a.id = b.id ∨ a.tokenHash = b.tokenHash))

abbrev TokenStore := Table RefreshToken RefreshToken.Clash

def RefreshToken.revoke (token : RefreshToken) (now : Time) : RefreshToken :=
  { token with revokedAt := some now }

def RefreshToken.replace (token : RefreshToken) (now : Time) (replacement : Uuid) : RefreshToken :=
  { token with revokedAt := some now, replacedById := some replacement }

/-- What `updateMany` does to one token: `revokedAt: null` guards the write. -/
def RefreshToken.revokeIf (p : RefreshToken → Bool) (now : Time) (token : RefreshToken) :
    RefreshToken :=
  if p token && token.revokedAt.isNone then token.revoke now else token

theorem revoke_keepsKeys (now : Time) :
    Table.KeepsKeys RefreshToken.Clash (·.revoke now) := fun _ _ => ⟨Iff.rfl, Iff.rfl⟩

theorem replace_keepsKeys (now : Time) (replacement : Uuid) :
    Table.KeepsKeys RefreshToken.Clash (·.replace now replacement) :=
  fun _ _ => ⟨Iff.rfl, Iff.rfl⟩

theorem token_selects_id (id : Uuid) : Table.Selects RefreshToken.Clash fun t => t.id == id := by
  intro a b ha hb
  simp only [beq_iff_eq] at ha hb
  exact .inl (ha.trans hb.symm)

theorem token_selects_hash (hash : String) :
    Table.Selects RefreshToken.Clash fun t => t.tokenHash == hash := by
  intro a b ha hb
  simp only [beq_iff_eq] at ha hb
  exact .inr (ha.trans hb.symm)

def refreshTtlMs : ℤ := 7 * 24 * 60 * 60 * 1000

/-- What `createRefreshToken` and `uuid(7)` draw for a new token. -/
structure TokenDraw where
  id : Uuid
  raw : String
  deriving DecidableEq, Repr

/-- The tokens handed out; `sub` is the subject of the access token. -/
structure TokenPair where
  sub : Uuid
  refreshToken : String
  deriving DecidableEq, Repr

section RevokeIf

variable (p : RefreshToken → Bool) (now : Time) (token : RefreshToken)

@[simp] theorem RefreshToken.revokeIf_id : (token.revokeIf p now).id = token.id := by
  unfold revokeIf
  split <;> rfl

@[simp] theorem RefreshToken.revokeIf_tokenHash :
    (token.revokeIf p now).tokenHash = token.tokenHash := by
  unfold revokeIf
  split <;> rfl

@[simp] theorem RefreshToken.revokeIf_userId : (token.revokeIf p now).userId = token.userId := by
  unfold revokeIf
  split <;> rfl

@[simp] theorem RefreshToken.revokeIf_replacedById :
    (token.revokeIf p now).replacedById = token.replacedById := by
  unfold revokeIf
  split <;> rfl

theorem RefreshToken.revokeIf_of_revoked (h : token.revokedAt.isSome = true) :
    token.revokeIf p now = token := by
  have hnone : token.revokedAt.isNone = false := by simpa using h
  simp [revokeIf, hnone]

end RevokeIf

namespace TokenStore

def findToken (store : TokenStore) (id : Uuid) : Option RefreshToken :=
  store.find fun token => token.id == id

def findByHash (store : TokenStore) (hash : String) : Option RefreshToken :=
  store.find fun token => token.tokenHash == hash

def create (store : TokenStore) (id : Uuid) (tokenHash : String) (userId : Uuid)
    (expiresAt : Time) : Except Failure TokenStore :=
  match store.insert ⟨id, tokenHash, userId, expiresAt, none, none⟩ with
  | none => .error (.prisma "P2002")
  | some store => .ok store

theorem create_of_free {store : TokenStore} {id : Uuid} {tokenHash : String} (userId : Uuid)
    (expiresAt : Time) (h : ∀ token ∈ store.rows, token.id ≠ id ∧ token.tokenHash ≠ tokenHash) :
    ∃ store' : TokenStore,
      store.insert ⟨id, tokenHash, userId, expiresAt, none, none⟩ = some store' ∧
      store.create id tokenHash userId expiresAt = .ok store' := by
  have hfree : ∀ token ∈ store.rows,
      ¬ RefreshToken.Clash token ⟨id, tokenHash, userId, expiresAt, none, none⟩ := by
    rintro token htoken (hid | hhash)
    · exact (h token htoken).1 hid
    · exact (h token htoken).2 hhash
  obtain ⟨store', hinsert⟩ := Table.exists_insert hfree
  exact ⟨store', hinsert, by simp only [create, hinsert]⟩

/-- `refreshToken.updateMany` on unrevoked tokens. -/
def revokeWhere (store : TokenStore) (p : RefreshToken → Bool) (now : Time) : TokenStore :=
  store.updateWhere (fun token => p token && token.revokedAt.isNone) _ (revoke_keepsKeys now)

/-- `refreshToken.update` of a rotated token. -/
def replace (store : TokenStore) (id : Uuid) (now : Time) (replacement : Uuid) :
    Except Failure TokenStore :=
  match store.findToken id with
  | none => .error (.prisma "P2025")
  | some _ =>
      .ok (store.updateWhere (fun token => token.id == id) _ (replace_keepsKeys now replacement))

/-- The loop of `revokeReplacementChain`: the tokens it finds in `depth` rounds. -/
def replacementChain (store : TokenStore) : ℕ → Option Uuid → List RefreshToken :=
  walk store.findToken RefreshToken.replacedById

def maxDepth : ℕ := 100

def revokeReplacementChain (store : TokenStore) (now : Time) (replacedById : Option Uuid) :
    TokenStore :=
  let ids := (store.replacementChain maxDepth replacedById).map RefreshToken.id
  if ids.length > 0 then store.revokeWhere (fun token => ids.contains token.id) now else store

theorem revokeWhere_rows (store : TokenStore) (p : RefreshToken → Bool) (now : Time) :
    (store.revokeWhere p now).rows = store.rows.map (·.revokeIf p now) := rfl

theorem revokeReplacementChain_eq (store : TokenStore) (now : Time) (replacedById : Option Uuid) :
    store.revokeReplacementChain now replacedById =
      store.revokeWhere (fun token =>
        ((store.replacementChain maxDepth replacedById).map RefreshToken.id).contains token.id)
        now := by
  simp only [revokeReplacementChain]
  split
  · rfl
  · next hempty =>
    have hids : (store.replacementChain maxDepth replacedById).map RefreshToken.id = [] :=
      List.eq_nil_of_length_eq_zero (Nat.eq_zero_of_not_pos hempty)
    apply Table.ext_rows
    rw [revokeWhere_rows, hids]
    simp [RefreshToken.revokeIf]

end TokenStore

section Service

variable (hash : String → String)

def issuePair (now : Time) (draw : TokenDraw) (userId : Uuid) (store : TokenStore) :
    Except Failure TokenPair × TokenStore :=
  match store.create draw.id (hash draw.raw) userId (now + refreshTtlMs) with
  | .error failure => (.error failure, store)
  | .ok store => (.ok ⟨userId, draw.raw⟩, store)

/-- The transaction of `refresh`: the user it refreshed for, if any. -/
def refreshTx (now : Time) (draw : TokenDraw) (rawToken : String) (store : TokenStore) :
    Except Failure (Option Uuid × TokenStore) :=
  match store.findByHash (hash rawToken) with
  | none => .ok (none, store)
  | some current =>
      if current.expiresAt ≤ now then .ok (none, store)
      else if current.revokedAt.isSome then
        .ok (none, store.revokeReplacementChain now current.replacedById)
      else
        match store.create draw.id (hash draw.raw) current.userId (now + refreshTtlMs) with
        | .error failure => .error failure
        | .ok store =>
            (store.replace current.id now draw.id).map fun store => (some current.userId, store)

def invalidRefreshToken : Failure := .status 401 "Invalid refresh token"

def refresh (now : Time) (draw : TokenDraw) (rawToken : Option String) (store : TokenStore) :
    Except Failure TokenPair × TokenStore :=
  match rawToken with
  | none => (.error invalidRefreshToken, store)
  | some raw =>
      if raw = "" then (.error invalidRefreshToken, store)
      else
        match refreshTx hash now draw raw store with
        | .error failure => (.error failure, store)
        | .ok (none, store) => (.error invalidRefreshToken, store)
        | .ok (some userId, store) => (.ok ⟨userId, draw.raw⟩, store)

def logout (now : Time) (rawToken : Option String) (store : TokenStore) : TokenStore :=
  match rawToken with
  | none => store
  | some raw =>
      if raw = "" then store
      else store.revokeWhere (fun token => token.tokenHash == hash raw) now

end Service

/-- What `createRefreshToken` and `uuid(7)` draw is new and not empty. -/
def TokenDraw.Fresh (hash : String → String) (store : TokenStore) (draw : TokenDraw) : Prop :=
  draw.raw ≠ "" ∧ ∀ token ∈ store.rows, token.id ≠ draw.id ∧ token.tokenHash ≠ hash draw.raw

instance {hash : String → String} (store : TokenStore) (draw : TokenDraw) :
    Decidable (draw.Fresh hash store) :=
  inferInstanceAs (Decidable (draw.raw ≠ "" ∧
    ∀ token ∈ store.rows, token.id ≠ draw.id ∧ token.tokenHash ≠ hash draw.raw))

inductive AuthAction where
  | issuePair (now : Time) (draw : TokenDraw) (userId : Uuid)
  | refresh (now : Time) (draw : TokenDraw) (rawToken : Option String)
  | logout (now : Time) (rawToken : Option String)
  deriving DecidableEq, Repr

def authStep (hash : String → String) (store : TokenStore) : AuthAction → Option TokenStore
  | .issuePair now draw userId => some (issuePair hash now draw userId store).2
  | .refresh now draw rawToken => some (refresh hash now draw rawToken store).2
  | .logout now rawToken => some (logout hash now rawToken store)

end Eventify
