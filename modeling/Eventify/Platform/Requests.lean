import Eventify.Auth.AccessTokens
import Eventify.Auth.Rehash
import Eventify.Auth.Signup
import Eventify.Events.Ownership

/-!
# The API behind its guards

Accounts, sessions, events and bookings under one clock. A request arrives with
an `Authorization` header, passes the guards of its route, and is carried out
later for the user of its token.
-/

namespace Eventify

open Library

inductive ClientRequest where
  | getEventStats (id : String)
  | createEvent (body : JsonObject)
  | updateEvent (id : String) (body : JsonObject)
  | deleteEvent (id : String)
  | createBooking (eventId : String)
  | cancelBooking (id : String)
  deriving DecidableEq, Repr

/-- What carrying out a request draws. -/
structure RequestDraw where
  token : String
  id : Uuid
  ctx : TxContext

namespace ClientRequest

/-- What the route gives `requireRole`. -/
def roles : ClientRequest → Option (List Role)
  | getEventStats _ | createEvent _ | updateEvent _ _ | deleteEvent _ => some [.organizer, .admin]
  | createBooking _ | cancelBooking _ => none

def guards (jose : Jose) (now : Time) (header : Option String) (request : ClientRequest) :
    Except Failure AuthUser :=
  match requireAuth jose now header with
  | .error failure => .error failure
  | .ok user =>
      match request.roles with
      | none => .ok user
      | some roles => (requireRoles roles (some user)).map fun _ => user

/-- What the controller starts for the user. -/
def action (r : ℕ) (user : AuthUser) (draw : RequestDraw) : ClientRequest → ApiAction
  | getEventStats id => .begin r draw.token (.getEventStats id user)
  | createEvent body => .createEvent draw.id body user draw.ctx.now
  | updateEvent id body => .patchEvent r draw.token id body user
  | deleteEvent id => .begin r draw.token (.deleteEvent id user)
  | createBooking eventId => .book draw.ctx (.createBooking user eventId)
  | cancelBooking id => .book draw.ctx (.cancelBooking id user)

end ClientRequest

namespace ApiAction

/-- No user acts: a public read, a step of a request under way, the worker, or
the cache. -/
def anonymous : ApiAction → Bool
  | .begin _ _ request => request.actor.isNone
  | .patchEvent _ _ _ _ _ | .createEvent _ _ _ _ => false
  | .book _ (.promoteWaitlist _) => true
  | .book _ _ => false
  | _ => true

/-- When the step reads the clock. -/
def readsClock : ApiAction → Option Time
  | .authorize _ now | .createEvent _ _ _ now => some now
  | .book ctx _ => some ctx.now
  | _ => none

def opens : ApiAction → Option ℕ
  | .begin c _ _ | .patchEvent c _ _ _ _ => some c
  | _ => none

end ApiAction

/-- A request that has passed its guards. -/
structure Admission where
  user : AuthUser
  request : ClientRequest
  admittedAt : Time
  performed : Bool
  deriving DecidableEq, Repr

/-- An access token that a client has been answered, with the id of the refresh
token issued beside it. -/
structure IssuedToken where
  user : AuthUser
  issuedAt : Time
  refreshToken : Uuid
  deriving DecidableEq, Repr

def IssuedToken.text (jose : Jose) (token : IssuedToken) : String :=
  signAccessToken jose token.issuedAt token.user

/-- A signup or login that has written a refresh token: the password given, and
the hash stored for the account. -/
structure SignIn where
  refreshToken : Uuid
  user : Uuid
  password : String
  stored : String
  deriving DecidableEq, Repr

/-- The last four are history; `sessions` leads from a refresh token to the one
that its session began with. -/
structure Platform where
  service : LoginService
  api : ApiSystem
  sessions : Uuid → Uuid
  signIns : List SignIn
  issued : List IssuedToken
  admissions : ℕ → Option Admission

inductive PlatformAction where
  | service (a : ServiceAction)
  | signup (input : SignupInput) (call : SignupCall)
  | refresh (draw : TokenDraw) (rawToken : Option String) (answered : Bool)
  | logout (rawToken : Option String)
  | arrive (r : ℕ) (header : Option String) (request : ClientRequest)
  | perform (r : ℕ) (draw : RequestDraw)
  | api (a : ApiAction)

namespace Platform

def start (throttle : LoginSystem) (users : UserTable) (db : Database) : Platform where
  service := .start throttle ⟨users, .empty⟩
  api := .start db
  sessions := id
  signIns := []
  issued := []
  admissions := fun _ => none

def now (s : Platform) : Time := s.service.throttle.now

def users (s : Platform) : UserTable := s.service.accounts.users

def tokens (s : Platform) : TokenStore := s.service.accounts.tokens

def withAccounts (s : Platform) (accounts : AccountStore) : Platform :=
  { s with service := { s.service with accounts } }

def withTokens (s : Platform) (tokens : TokenStore) : Platform :=
  { s with service := s.service.withTokens tokens }

/-- The sign-in goes on record when the statement for its token took effect. -/
def signIn (s : Platform) (before : TokenStore) (signIn : SignIn) : Platform :=
  if (before.findToken signIn.refreshToken).isNone &&
      (s.tokens.findToken signIn.refreshToken).isSome then
    { s with signIns := signIn :: s.signIns }
  else s

def issue (s : Platform) (refreshToken : Uuid) (user : Option AuthUser) : Platform :=
  match user with
  | none => s
  | some user => { s with issued := ⟨user, s.now, refreshToken⟩ :: s.issued }

end Platform

/-- `{ sub: user.id, role: user.role }`. -/
def User.claims (user : User) : AuthUser := ⟨user.id, user.role⟩

/-- The user of a session that the last step of a login has answered. -/
def LoginService.answeredUser (s : LoginService) : Option AuthUser :=
  match s.responses.getLast? with
  | some (_, .ok session) => some session.accessToken
  | _ => none

section Steps

variable (env : LoginEnv) (passwords : PasswordEnv) (hash : String → String) (jose : Jose)
variable (ids : UuidOps) (parseDate : String → Option Time)

/-- `refresh`, and the access token for the user of the row that it found. -/
def Platform.refresh (s : Platform) (draw : TokenDraw) (rawToken : Option String)
    (answered : Bool) : Platform :=
  match Eventify.refresh hash s.now draw rawToken s.tokens,
      rawToken.bind fun raw => s.tokens.findByHash (hash raw) with
  | (.ok pair, tokens), some current =>
      let user := s.users.find fun user => user.id == pair.sub
      ({ s.withTokens tokens with
          sessions := Function.update s.sessions draw.id (s.sessions current.id) }).issue draw.id
        (if answered then user.map User.claims else none)
  | (_, tokens), _ => s.withTokens tokens

def Platform.arrive (s : Platform) (r : ℕ) (header : Option String) (request : ClientRequest) :
    Platform :=
  match request.guards jose s.now header with
  | .error _ => s
  | .ok user =>
      { s with admissions := Function.update s.admissions r (some ⟨user, request, s.now, false⟩) }

def platformStep (s : Platform) : PlatformAction → Option Platform
  | .service a =>
      (serviceStep env passwords hash s.service a).map fun service =>
        match a with
        | .proceed i turn =>
            match s.service.attempts[i]? with
            | some ⟨_, password, .rehashed user⟩ =>
                (({ s with service }).signIn s.tokens
                  ⟨turn.draw.id, user.id, password, user.passwordHash⟩).issue turn.draw.id
                    service.answeredUser
            | _ => { s with service }
        | _ => { s with service }
  | .signup input call =>
      if call.createdAt = s.now ∧ call.issuedAt = s.now then
        match signup env.toLowerCase hash passwords input call s.service.accounts with
        | (answer, accounts) =>
            some (((s.withAccounts accounts).signIn s.tokens ⟨call.token.id, call.id,
              input.password, passwords.argon2Hash input.password call.salt⟩).issue call.token.id
                (answer.toOption.map Session.accessToken))
      else none
  | .refresh draw rawToken answered => some (s.refresh hash draw rawToken answered)
  | .logout rawToken => some (s.withTokens (logout hash s.now rawToken s.tokens))
  | .arrive r header request =>
      if (s.admissions r).isSome || (s.api.calls r).isSome then none
      else some (s.arrive jose r header request)
  | .perform r draw =>
      match s.admissions r with
      | some admission =>
          if admission.performed ∨ draw.ctx.now ≠ s.now then none
          else
            (apiStep ids parseDate s.api (admission.request.action r admission.user draw)).map
              fun api =>
                { s with
                  api
                  admissions := Function.update s.admissions r
                    (some { admission with performed := true }) }
      | none => none
  | .api a =>
      if a.anonymous && a.readsClock.all (fun time => decide (time = s.now)) &&
          a.opens.all fun c => (s.admissions c).isNone then
        (apiStep ids parseDate s.api a).map fun api => { s with api }
      else none

/-- A token that verifies is one that the service has issued. -/
def PresentsIssued (s : Platform) (a : PlatformAction) : Prop :=
  ∀ r token request payload, a = .arrive r (some (bearer ++ token)) request →
    jose.jwtVerify s.now token = .ok payload →
      ∃ issued ∈ s.issued, issued.text jose = token

end Steps

end Eventify
