import Eventify.Events.Integrity
import Eventify.Platform.Provenance

/-!
# Who answers for a change

Each change of an event or a booking leads back to a request that was admitted
on a token of the last quarter of an hour, and from there to a sign-in of the
user whom the change is allowed to.
-/

namespace Eventify

open Library

/-- What a step has to do with the API: nothing, the admission of a request, its
start for its user, or a step for nobody in particular. -/
inductive ApiPart (jose : Jose) (ids : UuidOps) (parseDate : String → Option Time)
    (s t : Platform) : PlatformAction → Prop
  | apart {a : PlatformAction} (hapi : t.api = s.api) (hadmissions : t.admissions = s.admissions) :
      ApiPart jose ids parseDate s t a
  | admitted {r : ℕ} {header : Option String} {request : ClientRequest} {user : AuthUser}
      (hcall : s.api.calls r = none) (hguards : request.guards jose s.now header = .ok user)
      (hapi : t.api = s.api) (hadmissions : t.admissions =
        Function.update s.admissions r (some ⟨user, request, s.now, false⟩)) :
      ApiPart jose ids parseDate s t (.arrive r header request)
  | performed {r : ℕ} {draw : RequestDraw} {admission : Admission}
      (hadmission : s.admissions r = some admission)
      (hstep : apiStep ids parseDate s.api (admission.request.action r admission.user draw) =
        some t.api) (hadmissions : t.admissions =
        Function.update s.admissions r (some { admission with performed := true })) :
      ApiPart jose ids parseDate s t (.perform r draw)
  | stepped {act : ApiAction} (hanonymous : act.anonymous = true)
      (hstep : apiStep ids parseDate s.api act = some t.api)
      (hadmissions : t.admissions = s.admissions) : ApiPart jose ids parseDate s t (.api act)

/-- The call does for the user what the client has asked. -/
def ClientRequest.CarriedOut (parseDate : String → Option Time) (user : AuthUser) :
    ClientRequest → ApiRequest → Prop
  | getEventStats id, request => request = .getEventStats id user
  | updateEvent id body, request => ∃ patch, updateEventSchema parseDate body = some patch ∧
      request = .updateEvent id patch user
  | deleteEvent id, request => request = .deleteEvent id user
  | _, _ => False

/-- The token of the admission was answered within its lifetime to a user who
may use the route. -/
structure Admission.Backed (issued : List IssuedToken) (admission : Admission) : Prop where
  token : ∃ x ∈ issued, x.user = admission.user ∧ x.issuedAt ≤ admission.admittedAt ∧
    admission.admittedAt < x.issuedAt + accessTtlMs
  role : ∀ roles, admission.request.roles = some roles → admission.user.role ∈ roles

structure Platform.Answerable (ids : UuidOps) (parseDate : String → Option Time) (s : Platform) :
    Prop where
  accountable : Accountable ids s.api
  admissions : ∀ r admission, s.admissions r = some admission → admission.Backed s.issued
  calls : ∀ c call actor, s.api.calls c = some call → call.request.actor = some actor →
    ∃ admission, s.admissions c = some admission ∧
      admission.request.CarriedOut parseDate actor call.request ∧ admission.user = actor

/-- The user of the request is an account that had the role from the start, if it
is more than an attendee's, and was answered the token in a session that began
with a sign-in in which the password was given. -/
structure Admission.Traced (passwords : PasswordEnv) (first : UserTable) (s : Platform)
    (admission : Admission) : Prop where
  token : ∃ x ∈ s.issued, x.user = admission.user ∧ x.issuedAt ≤ admission.admittedAt ∧
    admission.admittedAt < x.issuedAt + accessTtlMs ∧
    ∃ signIn ∈ s.signIns, signIn.refreshToken = s.sessions x.refreshToken ∧
      signIn.user = admission.user.sub ∧ signIn.Genuine passwords
  account : s.users.Has admission.user
  role : admission.user.role = .attendee ∨ first.Has admission.user

section Traced

variable (passwords : PasswordEnv) (ids : UuidOps) (parseDate : String → Option Time)
variable (first : UserTable) (s t : Platform)

/-- An event row that changes is patched or deleted as an admitted request of
its organizer or an admin asks. -/
def EventsTraced : Prop :=
  ∀ id row, s.api.db.findEvent id = some row → t.api.db.findEvent id ≠ some row →
    ∃ r admission, s.admissions r = some admission ∧ admission.Traced passwords first s ∧
      first.Has admission.user ∧
      (admission.user.role = .admin ∨ admission.user.sub = row.organizerId) ∧
      ((∃ eventId body patch, admission.request = .updateEvent eventId body ∧
          ids.read eventId = id ∧ updateEventSchema parseDate body = some patch ∧
          t.api.db.findEvent id = some (patch.apply row)) ∨
        ∃ eventId, admission.request = .deleteEvent eventId ∧ ids.read eventId = id ∧
          t.api.db.findEvent id = none)

/-- A booking that appears or changes is promoted, or is booked or cancelled as
an admitted request asks. -/
def BookingsTraced (a : PlatformAction) : Prop :=
  ∀ id, t.api.db.findBooking id ≠ s.api.db.findBooking id →
    (∃ ctx eventId booking, a = .api (.book ctx (.promoteWaitlist eventId)) ∧
      s.api.db.findBooking id = some booking ∧ booking.status = .waitlisted ∧
      t.api.db.findBooking id = some { booking with status := .confirmed }) ∨
    ∃ r admission, s.admissions r = some admission ∧ admission.Traced passwords first s ∧
      ((∃ eventId booking, admission.request = .createBooking eventId ∧
          t.api.db.findBooking id = some booking ∧ booking.userId = admission.user.sub) ∨
        ∃ bookingId booking, admission.request = .cancelBooking bookingId ∧
          s.api.db.findBooking id = some booking ∧
          t.api.db.findBooking id = some { booking with status := .cancelled } ∧
          (admission.user.sub = booking.userId ∨ admission.user.role = .admin))

end Traced

variable {env : LoginEnv} {passwords : PasswordEnv} {hash : String → String} {jose : Jose}
variable {ids : UuidOps} {parseDate : String → Option Time}
variable {s t : Platform} {a : PlatformAction} {first : UserTable}

section History

variable {before : TokenStore} {x : SignIn} {refreshToken : Uuid} {claims : Option AuthUser}

@[simp] theorem signIn_api : (s.signIn before x).api = s.api := by
  unfold Platform.signIn
  split <;> rfl

@[simp] theorem signIn_admissions : (s.signIn before x).admissions = s.admissions := by
  unfold Platform.signIn
  split <;> rfl

@[simp] theorem issue_api : (s.issue refreshToken claims).api = s.api := by
  cases claims <;> rfl

@[simp] theorem issue_admissions : (s.issue refreshToken claims).admissions = s.admissions := by
  cases claims <;> rfl

end History

theorem platformStep_api (h : platformStep env passwords hash jose ids parseDate s a = some t) :
    ApiPart jose ids parseDate s t a := by
  cases a with
  | service act =>
      obtain ⟨service, -, rfl⟩ := Option.map_eq_some_iff.mp h
      split
      · split
        · exact .apart (by simp) (by simp)
        · exact .apart rfl rfl
      · exact .apart rfl rfl
  | signup input call =>
      simp only [platformStep] at h
      split at h
      · obtain rfl := Option.some.inj h
        exact .apart (by simp [Platform.withAccounts]) (by simp [Platform.withAccounts])
      · simp at h
  | refresh draw rawToken answered =>
      obtain rfl := Option.some.inj h
      unfold Platform.refresh
      split
      · exact .apart (by simp [Platform.withTokens]) (by simp [Platform.withTokens])
      · exact .apart rfl rfl
  | logout rawToken =>
      obtain rfl := Option.some.inj h
      exact .apart rfl rfl
  | arrive r header request =>
      simp only [platformStep] at h
      split at h
      · simp at h
      next hnew =>
        obtain rfl := Option.some.inj h
        unfold Platform.arrive
        split
        · exact .apart rfl rfl
        next user hguards =>
          simp only [Bool.or_eq_true, not_or, Bool.not_eq_true, Option.isSome_eq_false_iff,
            Option.isNone_iff_eq_none] at hnew
          exact .admitted hnew.2 hguards rfl rfl
  | perform r draw =>
      simp only [platformStep] at h
      split at h
      next admission hadmission =>
        split at h
        · simp at h
        · obtain ⟨api, hstep, rfl⟩ := Option.map_eq_some_iff.mp h
          exact .performed hadmission hstep rfl
      · simp at h
  | api act =>
      simp only [platformStep] at h
      split at h
      next hallowed =>
        obtain ⟨api, hstep, rfl⟩ := Option.map_eq_some_iff.mp h
        simp only [Bool.and_eq_true] at hallowed
        exact .stepped hallowed.1.1 hstep rfl
      · simp at h

theorem guards_ok {now : Time} {header : Option String} {request : ClientRequest} {user : AuthUser}
    (h : request.guards jose now header = .ok user) :
    requireAuth jose now header = .ok user ∧
      ∀ roles, request.roles = some roles → user.role ∈ roles := by
  unfold ClientRequest.guards at h
  cases hauth : requireAuth jose now header with
  | error failure => simp [hauth] at h
  | ok found =>
      simp only [hauth] at h
      split at h
      next hnone =>
        obtain rfl := Except.ok.inj h
        exact ⟨rfl, fun roles hroles => by simp [hnone] at hroles⟩
      next roles hsome =>
        obtain ⟨_, hrequired, rfl⟩ := map_ok h
        refine ⟨rfl, fun roles' hroles' => ?_⟩
        obtain rfl := Option.some.inj (hsome.symm.trans hroles')
        simp only [requireRoles] at hrequired
        split at hrequired
        next hcontains => simpa using hcontains
        · simp at hrequired

theorem Admission.Backed.mono {admission : Admission} {issued issued' : List IssuedToken}
    (h : admission.Backed issued) (hgrow : ∀ x ∈ issued, x ∈ issued') :
    admission.Backed issued' := by
  obtain ⟨⟨x, hx, huser, hfrom, huntil⟩, hrole⟩ := h
  exact ⟨⟨x, hgrow x hx, huser, hfrom, huntil⟩, hrole⟩

theorem SessionsMove.issued_subset (h : SessionsMove passwords hash s t) {x : IssuedToken}
    (hx : x ∈ s.issued) : x ∈ t.issued := by
  cases h with
  | kept _ _ _ hissued => rwa [hissued]
  | revoked _ _ _ hissued => rwa [hissued]
  | signedIn _ _ _ _ _ hissued =>
      rcases hissued with hissued | hissued
      · rwa [hissued]
      · exact hissued ▸ List.mem_cons_of_mem _ hx
  | rotated _ _ _ _ _ _ hissued =>
      rcases hissued with hissued | ⟨user, -, -, hissued⟩
      · rwa [hissued]
      · exact hissued ▸ List.mem_cons_of_mem _ hx

/-- What passes the guards presents a token that was answered in the last
quarter of an hour. -/
theorem backed_of_guards (hjose : jose.Lawful) (hvouched : Vouched passwords first s) {r : ℕ}
    {header : Option String} {request : ClientRequest} {user : AuthUser}
    (hpresents : PresentsIssued jose s (.arrive r header request))
    (hguards : request.guards jose s.now header = .ok user) (performed : Bool) :
    Admission.Backed s.issued ⟨user, request, s.now, performed⟩ := by
  obtain ⟨hauth, hrole⟩ := guards_ok hguards
  obtain ⟨token, rfl, hverify⟩ := requireAuth_ok hauth
  obtain ⟨payload, hpayload⟩ : ∃ payload, jose.jwtVerify s.now token = .ok payload := by
    unfold verifyAccessToken at hverify
    split at hverify
    · simp at hverify
    next payload hpayload => exact ⟨payload, hpayload⟩
  obtain ⟨x, hx, rfl⟩ := hpresents r token request payload rfl hpayload
  obtain ⟨rfl, huntil⟩ := verifyAccessToken_signed hjose hverify
  exact ⟨⟨x, hx, rfl, (hvouched.issued x hx).2.2.1, huntil⟩, hrole⟩

/-- An action for nobody in particular opens no call of a user. -/
theorem not_opens_of_anonymous {act : ApiAction} (h : act.anonymous = true) {c : ℕ}
    {request : ApiRequest} {actor : AuthUser} (hactor : request.actor = some actor) :
    ¬ act.Opens parseDate c request := by
  cases act with
  | begin d token begun =>
      rintro ⟨-, rfl⟩
      simp [ApiAction.anonymous, hactor] at h
  | patchEvent d token id body user => simp [ApiAction.anonymous] at h
  | _ => exact id

/-- The call that an admitted request opens is its own, and does what it asks. -/
theorem carriedOut_of_opens {request : ClientRequest} {r c : ℕ} {user : AuthUser}
    {draw : RequestDraw} {opened : ApiRequest}
    (h : (request.action r user draw).Opens parseDate c opened) :
    r = c ∧ request.CarriedOut parseDate user opened := by
  cases request with
  | getEventStats id => exact ⟨h.1, h.2.symm⟩
  | updateEvent id body =>
      obtain ⟨hid, patch, hpatch, rfl⟩ := h
      exact ⟨hid, patch, hpatch, rfl⟩
  | deleteEvent id => exact ⟨h.1, h.2.symm⟩
  | createEvent body => exact h.elim
  | createBooking eventId => exact h.elim
  | cancelBooking id => exact h.elim

theorem CarriedOut.actor {request : ClientRequest} {user : AuthUser} {opened : ApiRequest}
    (h : request.CarriedOut parseDate user opened) : opened.actor = some user := by
  cases request with
  | getEventStats id =>
      obtain rfl := h
      rfl
  | updateEvent id body =>
      obtain ⟨patch, -, rfl⟩ := h
      rfl
  | deleteEvent id =>
      obtain rfl := h
      rfl
  | createEvent body => exact h.elim
  | createBooking eventId => exact h.elim
  | cancelBooking id => exact h.elim

theorem carriedOut_updateEvent {request : ClientRequest} {id : String} {patch : EventPatch}
    {user actor : AuthUser} (h : request.CarriedOut parseDate user (.updateEvent id patch actor)) :
    ∃ body, request = .updateEvent id body ∧ updateEventSchema parseDate body = some patch := by
  cases request with
  | updateEvent i body =>
      obtain ⟨patch', hpatch, heq⟩ := h
      cases heq
      exact ⟨body, rfl, hpatch⟩
  | getEventStats i => cases h
  | deleteEvent i => cases h
  | createEvent body => exact h.elim
  | createBooking i => exact h.elim
  | cancelBooking i => exact h.elim

theorem carriedOut_deleteEvent {request : ClientRequest} {id : String} {user actor : AuthUser}
    (h : request.CarriedOut parseDate user (.deleteEvent id actor)) :
    request = .deleteEvent id := by
  cases request with
  | deleteEvent i =>
      cases h
      rfl
  | getEventStats i => cases h
  | updateEvent i body =>
      obtain ⟨patch', -, heq⟩ := h
      cases heq
  | createEvent body => exact h.elim
  | createBooking i => exact h.elim
  | cancelBooking i => exact h.elim

theorem Platform.Answerable.start (throttle : LoginSystem) (users : UserTable) (db : Database) :
    (Platform.start throttle users db).Answerable ids parseDate := by
  refine ⟨.start db, ?_, ?_⟩
  · intro r admission hadmission
    cases hadmission
  · intro c call actor hcall
    cases hcall

theorem Platform.Answerable.step (hjose : jose.Lawful) (hvouched : Vouched passwords first s)
    (hs : s.Answerable ids parseDate) (hpresents : PresentsIssued jose s a)
    (h : platformStep env passwords hash jose ids parseDate s a = some t) :
    t.Answerable ids parseDate := by
  have hgrow : ∀ x ∈ s.issued, x ∈ t.issued := fun x hx =>
    (platformStep_moves hvouched.reads h).sessions.issued_subset hx
  have hadmissions : ∀ r admission, s.admissions r = some admission →
      admission.Backed t.issued := fun r admission hadmission =>
    (hs.admissions r admission hadmission).mono hgrow
  cases platformStep_api h with
  | apart hapi hsame =>
      refine ⟨hapi ▸ hs.accountable, ?_, ?_⟩
      · rw [hsame]
        exact hadmissions
      · rw [hapi, hsame]
        exact hs.calls
  | @admitted r header request user hfree hguards hapi hsame =>
      refine ⟨hapi ▸ hs.accountable, ?_, ?_⟩
      · rw [hsame]
        apply calls_update hadmissions
        exact (backed_of_guards hjose hvouched hpresents hguards false).mono hgrow
      · rw [hapi, hsame]
        intro c call actor hcall hactor
        have hc : c ≠ r := by
          rintro rfl
          simp [hfree] at hcall
        rw [Function.update_of_ne hc]
        exact hs.calls c call actor hcall hactor
  | @performed r draw admission hadmission hstep hsame =>
      refine ⟨hs.accountable.step hstep, ?_, ?_⟩
      · rw [hsame]
        apply calls_update hadmissions
        obtain ⟨htoken, hrole⟩ := hadmissions r admission hadmission
        exact ⟨htoken, hrole⟩
      · intro c call actor hcall hactor
        have hkept : ∀ other, s.admissions c = some other → ∃ kept, t.admissions c = some kept ∧
            kept.request = other.request ∧ kept.user = other.user := by
          intro other hother
          rw [hsame]
          by_cases hc : c = r
          · subst hc
            obtain rfl := Option.some.inj (hadmission.symm.trans hother)
            exact ⟨_, Function.update_self _ _ _, rfl, rfl⟩
          · exact ⟨other, (Function.update_of_ne hc _ _).trans hother, rfl, rfl⟩
        rcases apiStep_request hstep hcall with ⟨before, hbefore, hrequest⟩ | hopens
        · obtain ⟨other, hother, hcarried, huser⟩ :=
            hs.calls c before actor hbefore (hrequest ▸ hactor)
          obtain ⟨kept, hkept, hkeptRequest, hkeptUser⟩ := hkept other hother
          exact ⟨kept, hkept, by rwa [hkeptRequest, ← hrequest], hkeptUser.trans huser⟩
        · obtain ⟨rfl, hcarried⟩ := carriedOut_of_opens hopens
          obtain ⟨kept, hkept, hkeptRequest, hkeptUser⟩ := hkept admission hadmission
          obtain rfl := Option.some.inj ((CarriedOut.actor hcarried).symm.trans hactor)
          exact ⟨kept, hkept, by rwa [hkeptRequest], hkeptUser⟩
  | stepped hanonymous hstep hsame =>
      refine ⟨hs.accountable.step hstep, ?_, ?_⟩
      · rw [hsame]
        exact hadmissions
      · intro c call actor hcall hactor
        rcases apiStep_request hstep hcall with ⟨before, hbefore, hrequest⟩ | hopens
        · rw [hsame, ← hrequest]
          exact hs.calls c before actor hbefore (hrequest ▸ hactor)
        · exact (not_opens_of_anonymous hanonymous hactor hopens).elim

theorem Platform.Answerable.traced (hs : s.Answerable ids parseDate)
    (hvouched : Vouched passwords first s) {r : ℕ} {admission : Admission}
    (h : s.admissions r = some admission) : admission.Traced passwords first s := by
  obtain ⟨x, hx, huser, hfrom, huntil⟩ := (hs.admissions r admission h).token
  obtain ⟨hhas, ⟨signIn, hsignIn, hsession, hsame⟩, -, -⟩ := hvouched.issued x hx
  rw [huser] at hhas hsame
  refine ⟨⟨x, hx, huser, hfrom, huntil, signIn, hsignIn, hsession, hsame,
    hvouched.signIns signIn hsignIn⟩, hhas, ?_⟩
  obtain ⟨row, hrow, hclaims⟩ := hhas
  by_cases hrole : admission.user.role = .attendee
  · exact .inl hrole
  · rw [← hclaims] at hrole ⊢
    exact .inr (hvouched.roles row hrow hrole)

/-- The route of an admitted request is open to no attendee. -/
theorem Platform.Answerable.organizer (hs : s.Answerable ids parseDate)
    (hvouched : Vouched passwords first s) {r : ℕ} {admission : Admission}
    (h : s.admissions r = some admission)
    (hroles : admission.request.roles = some [.organizer, .admin]) :
    first.Has admission.user := by
  rcases (hs.traced hvouched h).role with hattendee | hfirst
  · have hrole := (hs.admissions r admission h).role _ hroles
    simp [hattendee] at hrole
  · exact hfirst

theorem ApiPart.api (h : ApiPart jose ids parseDate s t a) :
    t.api = s.api ∨ ∃ act, apiStep ids parseDate s.api act = some t.api := by
  cases h with
  | apart hapi => exact .inl hapi
  | admitted _ _ hapi => exact .inl hapi
  | performed _ hstep => exact .inr ⟨_, hstep⟩
  | stepped _ hstep => exact .inr ⟨_, hstep⟩

theorem Platform.Answerable.events (hs : s.Answerable ids parseDate)
    (hvouched : Vouched passwords first s) (h : ApiPart jose ids parseDate s t a) :
    EventsTraced passwords ids parseDate first s t := by
  intro id row hrow hlost
  rcases h.api with hsame | ⟨act, hstep⟩
  · exact (hlost (hsame ▸ hrow)).elim
  have howner : ∀ {c : ℕ} {call : ApiCall} {i : String} {actor : AuthUser},
      call.request.MayChange ids s.api.organizers → call.request.eventId = some i →
      call.request.actor = some actor → ids.read i = id →
      actor.role = .admin ∨ actor.sub = row.organizerId := by
    rintro c call i actor ⟨i', actor', hid', hactor', hmay⟩ hid hactor rfl
    obtain rfl := Option.some.inj (hid.symm.trans hid')
    obtain rfl := Option.some.inj (hactor.symm.trans hactor')
    rcases hmay with hadmin | howner
    · exact .inl hadmin
    · exact .inr (Option.some.inj (howner.symm.trans (hs.accountable.rows _ row hrow)))
  cases apiStep_change hstep with
  | kept hdb => exact (hlost (hdb ▸ hrow)).elim
  | booked htx => exact (hlost (by rw [(transaction_effect htx).findEvent, hrow])).elim
  | created _ _ hinsert hdb =>
      refine (hlost ?_).elim
      rw [hdb]
      change Table.find _ _ = _
      rw [Table.find_insert hinsert, Option.or_eq_some_iff]
      exact .inl hrow
  | @updated c i token patch actor event _ hcall hdb =>
      have hid : ids.read i = id := by
        by_contra hne
        rw [hdb, Database.findEvent_withPatch, if_neg (Ne.symm hne)] at hlost
        exact hlost hrow
      obtain ⟨admission, hadmission, hcarried, rfl⟩ := hs.calls c _ actor hcall rfl
      obtain ⟨body, hbody, hpatch⟩ := carriedOut_updateEvent hcarried
      refine ⟨c, admission, hadmission, hs.traced hvouched hadmission,
        hs.organizer hvouched hadmission (by rw [hbody]; rfl),
        howner (c := c) (hs.accountable.calls c _ hcall) rfl rfl hid,
        .inl ⟨i, body, patch, hbody, hid, hpatch, ?_⟩⟩
      rw [hdb, Database.findEvent_withPatch, if_pos hid.symm, hrow]
      rfl
  | @deleted c i token actor event _ hcall hdb =>
      have hid : ids.read i = id := by
        by_contra hne
        rw [Database.findEvent_deleteEvent hdb, if_neg (Ne.symm hne)] at hlost
        exact hlost hrow
      obtain ⟨admission, hadmission, hcarried, rfl⟩ := hs.calls c _ actor hcall rfl
      have hrequest := carriedOut_deleteEvent hcarried
      refine ⟨c, admission, hadmission, hs.traced hvouched hadmission,
        hs.organizer hvouched hadmission (by rw [hrequest]; rfl),
        howner (c := c) (hs.accountable.calls c _ hcall) rfl rfl hid,
        .inr ⟨i, hrequest, hid, ?_⟩⟩
      rw [Database.findEvent_deleteEvent hdb, if_pos hid.symm]

/-- Which requests start a booking transaction, and for whom. -/
theorem action_book {request : ClientRequest} {r : ℕ} {user : AuthUser} {draw : RequestDraw}
    {ctx : TxContext} {op : BookingOp} (h : request.action r user draw = .book ctx op) :
    (∃ eventId, request = .createBooking eventId ∧ op = .createBooking user eventId) ∨
      ∃ id, request = .cancelBooking id ∧ op = .cancelBooking id user := by
  cases request with
  | createBooking eventId =>
      cases h
      exact .inl ⟨eventId, rfl, rfl⟩
  | cancelBooking id =>
      cases h
      exact .inr ⟨id, rfl, rfl⟩
  | getEventStats i => cases h
  | updateEvent i body => cases h
  | deleteEvent i => cases h
  | createEvent body => cases h

theorem Platform.Answerable.bookings (hs : s.Answerable ids parseDate)
    (hvouched : Vouched passwords first s) (h : ApiPart jose ids parseDate s t a) :
    BookingsTraced passwords first s t a := by
  intro id hchanged
  cases h with
  | apart hapi => exact (hchanged (by rw [hapi])).elim
  | admitted _ _ hapi => exact (hchanged (by rw [hapi])).elim
  | stepped hanonymous hstep =>
      rcases bookingsByUser hstep id with hsame | ⟨ctx, op, rfl, hkeeps⟩
      · exact (hchanged hsame).elim
      cases op with
      | createBooking actor eventId => simp [ApiAction.anonymous] at hanonymous
      | cancelBooking bookingId actor => simp [ApiAction.anonymous] at hanonymous
      | promoteWaitlist eventId =>
          left
          revert hkeeps hchanged
          cases s.api.db.findBooking id with
          | none =>
              cases t.api.db.findBooking id with
              | none => exact fun hchanged => (hchanged rfl).elim
              | some new =>
                  rintro - ⟨-, actor, eventId', heq, -⟩
                  cases heq
          | some old =>
              cases t.api.db.findBooking id with
              | none => exact fun _ hkeeps => hkeeps.elim
              | some new =>
                  rintro hchanged ⟨hrow, hstatus | ⟨hwaiting, hconfirmed⟩⟩
                  · exact (hchanged (by rw [hrow, hstatus])).elim
                  · rw [hconfirmed] at hrow
                    exact ⟨ctx, eventId, old, rfl, rfl, hwaiting, congrArg some hrow⟩
  | @performed r draw admission hadmission hstep =>
      have htraced := hs.traced hvouched hadmission
      rcases bookingsByUser hstep id with hsame | ⟨ctx, op, haction, hkeeps⟩
      · exact (hchanged hsame).elim
      refine .inr ⟨r, admission, hadmission, htraced, ?_⟩
      rcases action_book haction with ⟨eventId, hrequest, rfl⟩ | ⟨bookingId, hrequest, rfl⟩
      · left
        revert hkeeps hchanged
        cases s.api.db.findBooking id with
        | none =>
            cases t.api.db.findBooking id with
            | none => exact fun hchanged => (hchanged rfl).elim
            | some new =>
                rintro - ⟨-, actor, eventId', heq, huser⟩
                cases heq
                exact ⟨eventId, new, hrequest, rfl, huser⟩
        | some old =>
            cases t.api.db.findBooking id with
            | none => exact fun _ hkeeps => hkeeps.elim
            | some new =>
                rintro hchanged ⟨hrow, hstatus | howner⟩
                · exact (hchanged (by rw [hrow, hstatus])).elim
                · refine ⟨eventId, new, hrequest, rfl, ?_⟩
                  rw [hrow]
                  exact howner.symm
      · right
        revert hkeeps hchanged
        cases s.api.db.findBooking id with
        | none =>
            cases t.api.db.findBooking id with
            | none => exact fun hchanged => (hchanged rfl).elim
            | some new =>
                rintro - ⟨-, actor, eventId', heq, -⟩
                cases heq
        | some old =>
            cases t.api.db.findBooking id with
            | none => exact fun _ hkeeps => hkeeps.elim
            | some new =>
                rintro hchanged ⟨hrow, hstatus | ⟨howner, hcancelled⟩⟩
                · exact (hchanged (by rw [hrow, hstatus])).elim
                · rw [hcancelled] at hrow
                  exact ⟨bookingId, old, hrequest, rfl, congrArg some hrow, howner⟩

/-- In every run whose clients present no token that they were not answered,
whoever changes an event is its organizer or an admin, an account with that role
from the start, and whoever changes a booking is its user or an admin; each was
answered the token that let the request in less than a quarter of an hour before,
in a session that began with the password of the account. -/
theorem changes_traced (hjose : jose.Lawful) {throttle : LoginSystem} {db : Database}
    {acts : List PlatformAction}
    (hrun : exec (platformStep env passwords hash jose ids parseDate) (.start throttle first db)
      acts = some s)
    (hpresents : Along (platformStep env passwords hash jose ids parseDate) (PresentsIssued jose)
      (.start throttle first db) acts)
    (hstep : platformStep env passwords hash jose ids parseDate s a = some t) :
    EventsTraced passwords ids parseDate first s t ∧ BookingsTraced passwords first s t a := by
  obtain ⟨hvouched, hanswerable⟩ := exec_invariant_along
    (I := fun u => Vouched passwords first u ∧ u.Answerable ids parseDate)
    (fun _ _ _ hu hgood hnext => ⟨hu.1.step hnext, hu.2.step hjose hu.1 hgood hnext⟩)
    ⟨.start throttle first db, .start throttle first db⟩ hpresents hrun
  have hapi := platformStep_api hstep
  exact ⟨hanswerable.events hvouched hapi, hanswerable.bookings hvouched hapi⟩

def olgasRequest : ClientRequest := .updateEvent hallId [("capacity", .number 9)]

def olgaArrives : PlatformAction :=
  .arrive 0 (some (bearer ++ signAccessToken unsigned 0 olga.claims)) olgasRequest

def olgaIsServed : List PlatformAction :=
  [.perform 0 ⟨"editor", "", drawing 0 ""⟩, .api (.advance 0), .api (.advance 0),
    .api (.advance 0), .api (.load 0), .api (.advance 0), .api (.advance 0), .api (.authorize 0 0)]

theorem changes_traced_olga :
    ∃ s t, exec (platformStep strictLogin saltless id unsigned storedSpelling fun _ => none)
        olgasPlatform (olgaLogsIn ++ olgaArrives :: olgaIsServed) = some s ∧
      platformStep strictLogin saltless id unsigned storedSpelling (fun _ => none) s
        (.api (.update 0)) = some t ∧
      (t.api.db.findEvent hallId).map Event.capacity = some 9 ∧
      EventsTraced saltless storedSpelling (fun _ => none) olgasTable s t := by
  obtain ⟨u, hu, hissued⟩ : ∃ u,
      exec (platformStep strictLogin saltless id unsigned storedSpelling fun _ => none)
        olgasPlatform olgaLogsIn = some u ∧
      u.issued = [⟨olga.claims, 0, "1"⟩] := ⟨_, rfl, rfl⟩
  obtain ⟨s, t, hs, ht, hcapacity⟩ : ∃ s t,
      exec (platformStep strictLogin saltless id unsigned storedSpelling fun _ => none)
        olgasPlatform (olgaLogsIn ++ olgaArrives :: olgaIsServed) = some s ∧
      platformStep strictLogin saltless id unsigned storedSpelling (fun _ => none) s
        (.api (.update 0)) = some t ∧
      (t.api.db.findEvent hallId).map Event.capacity = some 9 := ⟨_, _, rfl, rfl, rfl⟩
  refine ⟨s, t, hs, ht, hcapacity, (changes_traced unsigned_lawful hs ?_ ht).1⟩
  have hothers : ∀ as : List PlatformAction, (∀ r header request, .arrive r header request ∉ as) →
      ∀ v, Along (platformStep strictLogin saltless id unsigned storedSpelling fun _ => none)
        (PresentsIssued unsigned) v as := by
    intro as hnone v
    apply along_of_forall_mem
    rintro a ha w r token request payload rfl
    exact (hnone _ _ _ ha).elim
  rw [along_append_iff]
  refine ⟨hothers _ (by simp [olgaLogsIn]) _, fun v hv => ⟨?_, fun w _ => ?_⟩⟩
  · obtain rfl := Option.some.inj (hu.symm.trans hv)
    intro r token request payload hsame _
    have htext : bearer ++ signAccessToken unsigned 0 olga.claims = bearer ++ token :=
      Option.some.inj (PlatformAction.arrive.inj hsame).2.1
    refine ⟨⟨olga.claims, 0, "1"⟩, by simp [hissued], ?_⟩
    rw [← String.toList_inj, String.toList_append, String.toList_append, List.append_right_inj,
      String.toList_inj] at htext
    exact htext
  · exact hothers _ (by simp [olgaIsServed]) _

end Eventify
