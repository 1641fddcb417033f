import Eventify.Auth.Sessions
import Eventify.Events.Schemas

/-!
# Access tokens

`signAccessToken` and `verifyAccessToken` over the JWT library, whose signing
and checking of a text come as parameters, and the two guards of the routes.
-/

namespace Eventify

namespace Role

def text : Role → String
  | attendee => "ATTENDEE"
  | organizer => "ORGANIZER"
  | admin => "ADMIN"

/-- `z.enum(["ATTENDEE", "ORGANIZER", "ADMIN"])`. -/
def ofText (text : String) : Option Role :=
  if text = "ATTENDEE" then some attendee
  else if text = "ORGANIZER" then some organizer
  else if text = "ADMIN" then some admin
  else none

theorem ofText_eq_some_iff {text : String} {role : Role} :
    ofText text = some role ↔ text = role.text := by
  unfold ofText
  cases role <;> split <;> simp_all [Role.text]
  all_goals split <;> simp_all

end Role

/-- The claims of a token; `iat` and `exp` are in seconds. -/
structure JwtPayload where
  sub : Option JsonValue
  role : Option JsonValue
  iat : ℤ
  exp : ℤ
  deriving DecidableEq, Repr

/-- `SignJWT` and `jwtVerify` under the key of the service. -/
structure Jose where
  sign : JwtPayload → String
  jwtVerify : (now : Time) → (token : String) → Except Failure JwtPayload

/-- A time in whole seconds. -/
def epoch (now : Time) : ℤ := now / 1000

/-- `setExpirationTime("15m")`. -/
def accessTtlSeconds : ℤ := 15 * 60

def accessPayload (now : Time) (user : AuthUser) : JwtPayload where
  sub := some (.string user.sub)
  role := some (.string user.role.text)
  iat := epoch now
  exp := epoch now + accessTtlSeconds

/-- A signed token verifies until the second in which it expires. -/
structure Jose.Lawful (jose : Jose) : Prop where
  accepts : ∀ user now later, epoch later < (accessPayload now user).exp →
    jose.jwtVerify later (jose.sign (accessPayload now user)) = .ok (accessPayload now user)
  expires : ∀ user now later, (accessPayload now user).exp ≤ epoch later →
    ∃ failure, jose.jwtVerify later (jose.sign (accessPayload now user)) = .error failure

def accessPayloadSchema : (sub role : Option JsonValue) → Option AuthUser
  | some (.string sub), some (.string role) =>
      if 1 ≤ jsLength sub ∧ jsLength sub ≤ 128 then
        (Role.ofText role).map fun role => ⟨sub, role⟩
      else none
  | _, _ => none

def authenticationRequired : Failure := .status 401 "Authentication required"

def bearer : String := "Bearer "

section Tokens

variable (jose : Jose)

def signAccessToken (now : Time) (user : AuthUser) : String := jose.sign (accessPayload now user)

def verifyAccessToken (now : Time) (token : String) : Except Failure AuthUser :=
  match jose.jwtVerify now token with
  | .error failure => .error failure
  | .ok payload =>
      match accessPayloadSchema payload.sub payload.role with
      | none => .error (.client ⟨none, none, none⟩)
      | some user => .ok user

def requireAuth (now : Time) (header : Option String) : Except Failure AuthUser :=
  match header with
  | none => .error authenticationRequired
  | some header =>
      if bearer.toList.isPrefixOf header.toList then
        match verifyAccessToken jose now (String.ofList (header.toList.drop 7)) with
        | .error _ => .error authenticationRequired
        | .ok user => .ok user
      else .error authenticationRequired

end Tokens

/-- `requireRole(...roles)` on the user that `requireAuth` left, if it ran. -/
def requireRoles (roles : List Role) : Option AuthUser → Except Failure Unit
  | none => .error authenticationRequired
  | some user =>
      if roles.contains user.role then .ok () else .error (.status 403 "Forbidden")

variable {jose : Jose} {now later : Time} {user : AuthUser}

theorem accessPayloadSchema_eq {sub role : String} {user : AuthUser}
    (h : accessPayloadSchema (some (.string sub)) (some (.string role)) = some user) :
    user.sub = sub ∧ role = user.role.text := by
  simp only [accessPayloadSchema] at h
  split at h
  · obtain ⟨role', hrole, rfl⟩ := Option.map_eq_some_iff.mp h
    exact ⟨rfl, Role.ofText_eq_some_iff.mp hrole⟩
  · simp at h

/-- A subject of sensible length comes back with its role. -/
theorem accessPayloadSchema_accessPayload (hleast : 1 ≤ jsLength user.sub)
    (hmost : jsLength user.sub ≤ 128) :
    accessPayloadSchema (accessPayload now user).sub (accessPayload now user).role = some user := by
  have hrole : Role.ofText user.role.text = some user.role := Role.ofText_eq_some_iff.mpr rfl
  simp [accessPayload, accessPayloadSchema, hleast, hmost, hrole]

theorem Role.text_inj {a b : Role} (h : a.text = b.text) : a = b := by
  have ha := Role.ofText_eq_some_iff.mpr (rfl : a.text = a.text)
  have hb := Role.ofText_eq_some_iff.mpr h
  exact Option.some.inj (ha.symm.trans hb)

def accessTtlMs : ℤ := accessTtlSeconds * 1000

/-- A second that passes the check of `exp` lies less than the lifetime after
the signing. -/
theorem lt_of_epoch_lt {now later : ℤ} (h : epoch later < epoch now + accessTtlSeconds) :
    later < now + accessTtlMs := by
  simp only [epoch, accessTtlSeconds, accessTtlMs] at *
  omega

theorem epoch_le_of_expired {now later : ℤ} (h : now + accessTtlMs ≤ later) :
    epoch now + accessTtlSeconds ≤ epoch later := by
  simp only [epoch, accessTtlSeconds, accessTtlMs] at *
  omega

/-- What a signed token authenticates, while it does. -/
theorem verifyAccessToken_signed (hjose : jose.Lawful) {user' : AuthUser}
    (h : verifyAccessToken jose later (signAccessToken jose now user) = .ok user') :
    user' = user ∧ later < now + accessTtlMs := by
  unfold verifyAccessToken signAccessToken at h
  by_cases hvalid : epoch later < (accessPayload now user).exp
  · rw [hjose.accepts _ _ _ hvalid] at h
    simp only at h
    split at h
    · simp at h
    next found hfound =>
      obtain rfl := Except.ok.inj h
      obtain ⟨hsub, hrole⟩ := accessPayloadSchema_eq hfound
      have hsame : found = user := by
        cases found
        cases user
        cases hsub
        cases Role.text_inj hrole
        rfl
      exact ⟨hsame, lt_of_epoch_lt hvalid⟩
  · obtain ⟨failure, hfailure⟩ := hjose.expires _ _ _ (not_lt.mp hvalid)
    rw [hfailure] at h
    simp at h

theorem verifyAccessToken_expired (hjose : jose.Lawful)
    (h : now + accessTtlMs ≤ later) :
    ∃ failure, verifyAccessToken jose later (signAccessToken jose now user) = .error failure := by
  obtain ⟨failure, hfailure⟩ := hjose.expires user now later (epoch_le_of_expired h)
  exact ⟨failure, by simp only [verifyAccessToken, signAccessToken, hfailure]⟩

theorem requireAuth_bearer (token : String) :
    requireAuth jose now (some (bearer ++ token)) =
      match verifyAccessToken jose now token with
      | .error _ => .error authenticationRequired
      | .ok user => .ok user := by
  have hprefix : bearer.toList.isPrefixOf (bearer ++ token).toList = true := by
    simp [String.toList_append]
  have hdrop : String.ofList ((bearer ++ token).toList.drop 7) = token := by
    rw [String.toList_append, List.drop_left' (by decide : bearer.toList.length = 7),
      String.ofList_toList]
  rw [requireAuth, if_pos hprefix, hdrop]

/-- A header lets a user in as the bearer of a text that verifies. -/
theorem requireAuth_ok {header : Option String} (h : requireAuth jose now header = .ok user) :
    ∃ token, header = some (bearer ++ token) ∧ verifyAccessToken jose now token = .ok user := by
  unfold requireAuth at h
  split at h
  · simp at h
  next header =>
    split at h
    next hbearer =>
      split at h
      · simp at h
      next found hverify =>
        obtain rfl := Except.ok.inj h
        obtain ⟨rest, hrest⟩ := List.isPrefixOf_iff_prefix.mp hbearer
        refine ⟨_, congrArg some ?_, hverify⟩
        apply String.toList_inj.mp
        rw [String.toList_append, String.toList_ofList, ← hrest,
          List.drop_left' (by decide : bearer.toList.length = 7)]
    · simp at h

section Unsigned

def encodeSeconds (seconds : ℤ) : List Char :=
  if seconds < 0 then '-' :: List.replicate seconds.natAbs 'x'
  else List.replicate seconds.natAbs 'x'

def decodeSeconds : List Char → ℤ
  | '-' :: rest => -rest.length
  | digits => digits.length

/-- Tokens that carry their claims in clear. -/
def unsigned : Jose where
  sign := fun payload =>
    match payload.sub, payload.role with
    | some (.string sub), some (.string role) =>
        String.ofList (role.toList ++ '.' :: (encodeSeconds payload.iat ++ '.' :: sub.toList))
    | _, _ => ""
  jwtVerify := fun now token =>
    let fields := (token.toList.dropWhile (· != '.')).drop 1
    let iat := decodeSeconds (fields.takeWhile (· != '.'))
    let payload : JwtPayload :=
      { sub := some (.string (String.ofList ((fields.dropWhile (· != '.')).drop 1)))
        role := some (.string (String.ofList (token.toList.takeWhile (· != '.'))))
        iat
        exp := iat + accessTtlSeconds }
    if epoch now < payload.exp then .ok payload else .error (.client ⟨none, none, none⟩)

theorem decodeSeconds_encodeSeconds (seconds : ℤ) :
    decodeSeconds (encodeSeconds seconds) = seconds := by
  unfold encodeSeconds
  split
  · simp only [decodeSeconds, List.length_replicate]
    omega
  · have hplain : ∀ n, decodeSeconds (List.replicate n 'x') = n := by
      intro n
      cases n <;> simp [decodeSeconds, List.replicate_succ]
    rw [hplain]
    omega

theorem takeWhile_field {l : List Char} (rest : List Char) (h : '.' ∉ l) :
    (l ++ '.' :: rest).takeWhile (· != '.') = l ∧
      ((l ++ '.' :: rest).dropWhile (· != '.')).drop 1 = rest := by
  induction l with
  | nil => simp
  | cons c l ih =>
      obtain ⟨hc, hl⟩ := not_or.mp (mt List.mem_cons.mpr h)
      have hne : (c != '.') = true := by simpa using Ne.symm hc
      simpa [List.takeWhile_cons, List.dropWhile_cons, hne] using ih hl

theorem unsigned_jwtVerify (user : AuthUser) (now later : Time) :
    unsigned.jwtVerify later (unsigned.sign (accessPayload now user)) =
      if epoch later < (accessPayload now user).exp then .ok (accessPayload now user)
      else .error (.client ⟨none, none, none⟩) := by
  have hrole : '.' ∉ user.role.text.toList := by cases user.role <;> decide
  have hseconds : '.' ∉ encodeSeconds (epoch now) := by
    unfold encodeSeconds
    split <;> simp
  simp only [unsigned, accessPayload, String.toList_ofList, takeWhile_field _ hrole,
    takeWhile_field _ hseconds, decodeSeconds_encodeSeconds, String.ofList_toList]
  rfl

theorem unsigned_lawful : unsigned.Lawful where
  accepts := fun user now later h => by rw [unsigned_jwtVerify, if_pos h]
  expires := fun user now later h => ⟨_, by rw [unsigned_jwtVerify, if_neg (not_lt.mpr h)]⟩

end Unsigned

end Eventify
