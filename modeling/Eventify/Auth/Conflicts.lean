import Eventify.Auth.Logout
import Eventify.Serialization
import Mathlib.Data.List.Perm.Basic

/-!
# Refreshes under serialization conflicts

Any number of refresh requests at once. The database runs a Serializable
transaction as one atomic step or aborts it; `refresh` does not retry an
aborted one, so the conflict goes to `errorHandler` and the presentation of
the token leaves no trace.
-/

namespace Eventify

open Library

variable {hash : String → String}

/-- The status and message of the response to an error of a service. -/
def errorHandler : Failure → HttpError
  | .http error => error
  | .client _ => ⟨500, "Internal server error"⟩

def respond (result : Except Failure TokenPair) : Except HttpError TokenPair :=
  result.mapError errorHandler

structure RefreshRequest where
  rawToken : Option String
  draw : TokenDraw
  deriving DecidableEq, Repr

structure RefreshAnswer where
  request : RefreshRequest
  response : Except HttpError TokenPair

structure RefreshSystem where
  store : TokenStore
  pending : List RefreshRequest
  answers : List RefreshAnswer

inductive RefreshAction where
  | begin (request : RefreshRequest)
  | transact (i : ℕ) (now : Time)
  | abort (i : ℕ) (now : Time) (error : Failure)

def TokenDraw.Differs (hash : String → String) (a b : TokenDraw) : Prop :=
  a.id ≠ b.id ∧ hash a.raw ≠ hash b.raw

instance (a b : TokenDraw) : Decidable (a.Differs hash b) :=
  inferInstanceAs (Decidable (a.id ≠ b.id ∧ hash a.raw ≠ hash b.raw))

namespace RefreshSystem

def start (store : TokenStore) : RefreshSystem where
  store := store
  pending := []
  answers := []

def answer (s : RefreshSystem) (i : ℕ) (request : RefreshRequest)
    (result : Except Failure TokenPair) : RefreshSystem :=
  { s with
    pending := s.pending.eraseIdx i
    answers := s.answers ++ [⟨request, respond result⟩] }

end RefreshSystem

def refreshesStep (hash : String → String) (s : RefreshSystem) :
    RefreshAction → Option RefreshSystem
  | .begin request =>
      if request.draw.Fresh hash s.store ∧
          ∀ other ∈ s.pending, request.draw.Differs hash other.draw then
        some { s with pending := s.pending ++ [request] }
      else none
  | .transact i now =>
      match s.pending[i]? with
      | none => none
      | some request =>
          let answer := refresh hash now request.draw request.rawToken s.store
          some { s.answer i request answer.1 with store := answer.2 }
  | .abort i _ error =>
      match s.pending[i]? with
      | none => none
      | some request =>
          -- without a token `refresh` starts no transaction
          if request.rawToken.getD "" ≠ "" ∧ isSerializationConflict error then
            some (s.answer i request (.error error))
          else none

/-- The requests served one after another, each at its own time. -/
def serially (hash : String → String) (store : TokenStore) :
    List (RefreshRequest × Time) → TokenStore × List RefreshAnswer
  | [] => (store, [])
  | (request, now) :: rest =>
      let answer := refresh hash now request.draw request.rawToken store
      let last := serially hash answer.2 rest
      (last.1, ⟨request, respond answer.1⟩ :: last.2)

/-- The request that a step answers, and when. -/
def answered (s : RefreshSystem) : RefreshAction → Option (RefreshRequest × Time)
  | .begin _ => none
  | .transact i now | .abort i now _ => s.pending[i]?.map fun request => (request, now)

/-- When a step answers a request that replays a token, the descendants that
`revokeReplacementChain` reaches are revoked. -/
def ReplayRevokes (hash : String → String) (s : RefreshSystem) (a : RefreshAction) : Prop :=
  ∀ t request now raw current, refreshesStep hash s a = some t →
    answered s a = some (request, now) → request.rawToken = some raw → raw ≠ "" →
    s.store.findByHash (hash raw) = some current → current.revokedAt.isSome = true →
    now < current.expiresAt →
      ∀ descendant ∈ s.store.replacementChain TokenStore.maxDepth current.replacedById,
        ∃ token ∈ t.store.rows, token.id = descendant.id ∧ token.revokedAt.isSome = true

def RefreshAnswer.Succeeded (answer : RefreshAnswer) : Prop := ∃ pair, answer.response = .ok pair

structure BehavesSerially (hash : String → String) (store : TokenStore) (acts : List RefreshAction)
    (t : RefreshSystem) : Prop where
  serial : ∃ order, (serially hash store order).1 = t.store ∧
    (serially hash store order).2.Perm t.answers
  once : t.answers.Pairwise fun a b =>
    a.Succeeded → b.Succeeded → a.request.rawToken ≠ b.request.rawToken
  refused : ∀ answer ∈ t.answers,
    answer.Succeeded ∨ answer.response = .error ⟨401, "Invalid refresh token"⟩
  replays : Along (refreshesStep hash) (ReplayRevokes hash) (.start store) acts

/-- The database does not abort the transaction of a refresh. -/
def NoConflict (_ : RefreshSystem) (a : RefreshAction) : Prop :=
  ∀ i now error, a ≠ .abort i now error

variable {s t : RefreshSystem} {a : RefreshAction}

inductive RefreshChange (hash : String → String) (s : RefreshSystem) :
    RefreshAction → RefreshSystem → Prop
  | begins {request : RefreshRequest} (hfresh : request.draw.Fresh hash s.store)
      (hdiffers : ∀ other ∈ s.pending, request.draw.Differs hash other.draw) :
      RefreshChange hash s (.begin request) { s with pending := s.pending ++ [request] }
  | transacts {i : ℕ} {now : Time} {request : RefreshRequest} {result : Except Failure TokenPair}
      {store : TokenStore} (hrequest : s.pending[i]? = some request)
      (hrefresh : refresh hash now request.draw request.rawToken s.store = (result, store)) :
      RefreshChange hash s (.transact i now) { s.answer i request result with store }
  | aborts {i : ℕ} {now : Time} {error : Failure} {request : RefreshRequest}
      (hrequest : s.pending[i]? = some request) (herror : isSerializationConflict error = true) :
      RefreshChange hash s (.abort i now error) (s.answer i request (.error error))

theorem refreshesStep_change (h : refreshesStep hash s a = some t) : RefreshChange hash s a t := by
  cases a with
  | «begin» request =>
      simp only [refreshesStep] at h
      split at h
      · next hguard =>
        cases h
        exact .begins hguard.1 hguard.2
      · cases h
  | transact i now =>
      simp only [refreshesStep] at h
      split at h <;> cases h
      next hrequest => exact .transacts hrequest rfl
  | abort i now error =>
      simp only [refreshesStep] at h
      split at h
      · cases h
      · next hrequest =>
        split at h
        · next hguard =>
          cases h
          exact .aborts hrequest hguard.2
        · cases h

theorem serially_append (store : TokenStore) (xs ys : List (RefreshRequest × Time)) :
    serially hash store (xs ++ ys) =
      ((serially hash (serially hash store xs).1 ys).1,
        (serially hash store xs).2 ++ (serially hash (serially hash store xs).1 ys).2) := by
  induction xs generalizing store with
  | nil => simp [serially]
  | cons x xs ih =>
      obtain ⟨request, now⟩ := x
      simp only [List.cons_append, serially, ih]

/-- Served in the order of their commits, the requests get the same answers. -/
def InCommitOrder (hash : String → String) (store : TokenStore) (s : RefreshSystem) : Prop :=
  ∃ order, serially hash store order = (s.store, s.answers)

theorem InCommitOrder.step {store : TokenStore} (hs : InCommitOrder hash store s)
    (hgood : NoConflict s a) (h : refreshesStep hash s a = some t) :
    InCommitOrder hash store t := by
  obtain ⟨order, horder⟩ := hs
  cases refreshesStep_change h with
  | begins => exact ⟨order, horder⟩
  | @transacts i now request result u hrequest hrefresh =>
      refine ⟨order ++ [(request, now)], ?_⟩
      rw [serially_append, horder]
      simp [serially, hrefresh, RefreshSystem.answer]
  | aborts => exact (hgood _ _ _ rfl).elim

theorem refresh_keys {store u : TokenStore} {now : Time} {draw : TokenDraw}
    {rawToken : Option String} {result : Except Failure TokenPair}
    (h : refresh hash now draw rawToken store = (result, u)) {token : RefreshToken}
    (htoken : token ∈ u.rows) :
    (∃ old ∈ store.rows, token.id = old.id ∧ token.tokenHash = old.tokenHash) ∨
      (token.id = draw.id ∧ token.tokenHash = hash draw.raw) := by
  have hstep : authStep hash store (.refresh now draw rawToken) = some u := by
    rw [authStep, h]
  cases authStep_cases hstep with
  | unchanged => exact .inl ⟨token, htoken, rfl, rfl⟩
  | revokes =>
      obtain ⟨old, hold, rfl⟩ := List.mem_map.mp htoken
      refine .inl ⟨old, hold, ?_⟩
      split <;> exact ⟨rfl, rfl⟩
  | rotates _ _ hinsert =>
      obtain ⟨old, hold, rfl⟩ := List.mem_map.mp htoken
      rw [Table.insert_rows hinsert] at hold
      rcases List.mem_append.mp hold with hold | hnew
      · refine .inl ⟨old, hold, ?_⟩
        split <;> exact ⟨rfl, rfl⟩
      · rw [List.mem_singleton.mp hnew]
        right
        split <;> exact ⟨rfl, rfl⟩

/-- A refresh whose new token is new succeeds or answers 401. -/
theorem refresh_fresh {store : TokenStore} {draw : TokenDraw} (hfresh : draw.Fresh hash store)
    (now : Time) (rawToken : Option String) :
    (∃ pair, (refresh hash now draw rawToken store).1 = .ok pair) ∨
      (refresh hash now draw rawToken store).1 = .error invalidRefreshToken := by
  cases rawToken with
  | none => exact .inr rfl
  | some raw =>
      by_cases hraw : raw = ""
      · exact .inr (by simp [refresh, hraw])
      · cases hfind : store.findByHash (hash raw) with
        | none => exact .inr (by simp [refresh, hraw, refreshTx, hfind])
        | some current =>
            obtain ⟨hcurrent, hhash⟩ := TokenStore.findByHash_eq_some_iff.mp hfind
            by_cases hspent : Spent now current
            · exact .inr (refresh_spent draw hcurrent hhash.symm hspent le_rfl)
            · exact .inl ⟨_, refresh_live hcurrent hhash.symm hraw hspent hfresh.2⟩

/-- The requests under way have drawn tokens that nobody else has. -/
structure FreshDraws (hash : String → String) (s : RefreshSystem) : Prop where
  fresh : ∀ request ∈ s.pending, request.draw.Fresh hash s.store
  differ : s.pending.Pairwise fun x y => x.draw.Differs hash y.draw

theorem TokenDraw.Differs.symm {x y : TokenDraw} (h : x.Differs hash y) : y.Differs hash x :=
  ⟨h.1.symm, h.2.symm⟩

theorem FreshDraws.others (hs : FreshDraws hash s) {i : ℕ} {request : RefreshRequest}
    (hrequest : s.pending[i]? = some request) :
    ∀ other ∈ s.pending.eraseIdx i, request.draw.Differs hash other.draw := by
  obtain ⟨hi, rfl⟩ := List.getElem?_eq_some_iff.mp hrequest
  have hperm := List.getElem_cons_eraseIdx_perm hi
  have hpairwise := (hperm.pairwise_iff fun h => TokenDraw.Differs.symm h).mpr hs.differ
  exact (List.pairwise_cons.mp hpairwise).1

theorem FreshDraws.step (hs : FreshDraws hash s) (h : refreshesStep hash s a = some t) :
    FreshDraws hash t := by
  cases refreshesStep_change h with
  | @begins request hfresh hdiffers =>
      refine ⟨?_, ?_⟩
      · intro other hother
        rcases List.mem_append.mp hother with hold | hnew
        · exact hs.fresh other hold
        · rw [List.mem_singleton.mp hnew]
          exact hfresh
      · refine List.pairwise_append.mpr ⟨hs.differ, List.pairwise_singleton _ _, ?_⟩
        intro other hother new hnew
        rw [List.mem_singleton.mp hnew]
        exact (hdiffers other hother).symm
  | @transacts i now request result u hrequest hrefresh =>
      refine ⟨?_, hs.differ.sublist (List.eraseIdx_sublist _ _)⟩
      intro other hother
      have hdiffers := hs.others hrequest other hother
      have hfresh := hs.fresh other (List.mem_of_mem_eraseIdx hother)
      refine ⟨hfresh.1, ?_⟩
      intro token htoken
      rcases refresh_keys hrefresh htoken with ⟨old, hold, hid, hhash⟩ | ⟨hid, hhash⟩
      · rw [hid, hhash]
        exact hfresh.2 old hold
      · rw [hid, hhash]
        exact hdiffers
  | aborts =>
      refine ⟨?_, hs.differ.sublist (List.eraseIdx_sublist _ _)⟩
      intro other hother
      exact hs.fresh other (List.mem_of_mem_eraseIdx hother)

/-- The tokens that succeeded are rotated, and differ from one another. -/
structure UsedTokens (hash : String → String) (s : RefreshSystem) : Prop where
  once : s.answers.Pairwise fun a b =>
    a.Succeeded → b.Succeeded → a.request.rawToken ≠ b.request.rawToken
  rotated : ∀ answer ∈ s.answers, answer.Succeeded → ∃ raw, answer.request.rawToken = some raw ∧
    ∃ token ∈ s.store.rows, token.tokenHash = hash raw ∧ token.revokedAt.isSome = true

theorem respond_ok {result : Except Failure TokenPair} {pair : TokenPair}
    (h : respond result = .ok pair) : result = .ok pair := by
  cases result with
  | error failure => cases h
  | ok other => exact congrArg Except.ok (Except.ok.inj h)

theorem UsedTokens.refused (hs : UsedTokens hash s) {i : ℕ} {request : RefreshRequest}
    {result : Except Failure TokenPair} (hrefused : ¬ ∃ pair, result = .ok pair) :
    UsedTokens hash (s.answer i request result) := by
  have hfailed : ¬ (⟨request, respond result⟩ : RefreshAnswer).Succeeded := by
    rintro ⟨pair, hpair⟩
    exact hrefused ⟨pair, respond_ok hpair⟩
  refine ⟨List.pairwise_append.mpr ⟨hs.once, List.pairwise_singleton _ _, ?_⟩, ?_⟩
  · intro old hold new hnew _ hsucceeded
    rw [List.mem_singleton.mp hnew] at hsucceeded
    exact (hfailed hsucceeded).elim
  · intro answer hanswer hsucceeded
    rcases List.mem_append.mp hanswer with hold | hnew
    · exact hs.rotated answer hold hsucceeded
    · rw [List.mem_singleton.mp hnew] at hsucceeded
      exact (hfailed hsucceeded).elim

theorem UsedTokens.stored (hs : UsedTokens hash s) {store : TokenStore}
    (hkept : ∀ token ∈ s.store.rows, token.revokedAt.isSome = true →
      ∃ token' ∈ store.rows, token'.tokenHash = token.tokenHash ∧ token'.revokedAt.isSome = true) :
    UsedTokens hash { s with store } := by
  refine ⟨hs.once, ?_⟩
  intro answer hanswer hsucceeded
  obtain ⟨raw, hraw, token, htoken, hhash, hrevoked⟩ := hs.rotated answer hanswer hsucceeded
  obtain ⟨token', htoken', hhash', hrevoked'⟩ := hkept token htoken hrevoked
  exact ⟨raw, hraw, token', htoken', hhash'.trans hhash, hrevoked'⟩

theorem UsedTokens.step (hs : UsedTokens hash s) (h : refreshesStep hash s a = some t) :
    UsedTokens hash t := by
  cases refreshesStep_change h with
  | begins => exact ⟨hs.once, hs.rotated⟩
  | aborts => exact hs.refused (by simp)
  | @transacts i now request result u hrequest hrefresh =>
      have hstep : authStep hash s.store (.refresh now request.draw request.rawToken) = some u := by
        rw [authStep, hrefresh]
      have hkept : ∀ token ∈ s.store.rows, token.revokedAt.isSome = true →
          ∃ token' ∈ u.rows, token'.tokenHash = token.tokenHash ∧
            token'.revokedAt.isSome = true := by
        intro token htoken hrevoked
        obtain ⟨kept, hkept, -, hhash, hsame⟩ := (authStep_cases hstep).kept htoken
        exact ⟨kept, hkept, hhash, by rw [hsame hrevoked, hrevoked]⟩
      cases result with
      | error failure =>
          have hrefused : UsedTokens hash (s.answer i request (.error failure)) :=
            hs.refused (by simp)
          exact hrefused.stored hkept
      | ok pair =>
          obtain ⟨raw, current, v, hraw, hfind, hlive, hinsert, rfl⟩ := refresh_ok hrefresh
          obtain ⟨hcurrent, hhash⟩ := TokenStore.findByHash_eq_some_iff.mp hfind
          have hold := hs.stored hkept
          refine ⟨List.pairwise_append.mpr ⟨hs.once, List.pairwise_singleton _ _, ?_⟩, ?_⟩
          · intro old hmem new hnew hsucceeded _
            rw [List.mem_singleton.mp hnew]
            -- a token that succeeded before is revoked by now
            obtain ⟨raw', hraw', token, htoken, htokenHash, hrevoked⟩ :=
              hs.rotated old hmem hsucceeded
            rw [hraw', hraw]
            intro hsame
            cases hsame
            have hfind' := TokenStore.findByHash_eq_some_iff.mpr ⟨htoken, htokenHash⟩
            obtain rfl := Option.some.inj (hfind.symm.trans hfind')
            simp [hlive] at hrevoked
          · intro answer hanswer hsucceeded
            rcases List.mem_append.mp hanswer with hmem | hnew
            · exact hold.rotated answer hmem hsucceeded
            · rw [List.mem_singleton.mp hnew]
              refine ⟨raw, hraw, current.replace now request.draw.id, ?_, hhash, rfl⟩
              refine List.mem_map.mpr ⟨current, ?_, by simp⟩
              rw [Table.insert_rows hinsert]
              exact List.mem_append_left _ hcurrent

theorem replayRevokes_of_noConflict (hgood : NoConflict s a) : ReplayRevokes hash s a := by
  intro t request now raw current h hanswered hraw hne hfind hrevoked hunexpired descendant hmem
  cases refreshesStep_change h with
  | begins => cases hanswered
  | aborts => exact (hgood _ _ _ rfl).elim
  | @transacts i now' request' result u hrequest hrefresh =>
      simp only [answered, hrequest, Option.map_some, Option.some.injEq, Prod.mk.injEq]
        at hanswered
      obtain ⟨rfl, rfl⟩ := hanswered
      obtain ⟨hcurrent, hhash⟩ := TokenStore.findByHash_eq_some_iff.mp hfind
      have hreplay : (refresh hash now' request'.draw (some raw) s.store).2 = _ :=
        refresh_replay hcurrent hhash.symm hne hrevoked hunexpired
      rw [← hraw, hrefresh] at hreplay
      obtain rfl : u = _ := hreplay
      simp only [TokenStore.revokeWhere_rows]
      refine ⟨_, List.mem_map.mpr ⟨descendant, mem_of_descendant ⟨_, hmem⟩, rfl⟩,
        descendant.revokeIf_id _ _, descendant.revokeIf_selected _ ?_⟩
      rw [List.contains_iff_mem]
      exact List.mem_map.mpr ⟨descendant, hmem, rfl⟩

/-- Some request got the answer that `errorHandler` has for a conflict. -/
def Unexpected (s : RefreshSystem) : Prop :=
  ∃ answer ∈ s.answers, answer.response = .error ⟨500, "Internal server error"⟩

theorem refreshesStep_answers (h : refreshesStep hash s a = some t) :
    ∃ new, t.answers = s.answers ++ new := by
  cases refreshesStep_change h with
  | begins => exact ⟨[], (List.append_nil _).symm⟩
  | transacts | aborts => exact ⟨_, rfl⟩

theorem unexpected_of_conflict (hbad : ¬ NoConflict s a) (h : refreshesStep hash s a = some t) :
    Unexpected t := by
  cases refreshesStep_change h with
  | begins => exact (hbad fun _ _ _ heq => by cases heq).elim
  | transacts => exact (hbad fun _ _ _ heq => by cases heq).elim
  | @aborts i now error request hrequest herror =>
      refine ⟨⟨request, respond (.error error)⟩, List.mem_append_right _ List.mem_cons_self, ?_⟩
      cases error with
      | http error => cases herror
      | client error => rfl

theorem Unexpected.step (hs : Unexpected s) (h : refreshesStep hash s a = some t) :
    Unexpected t := by
  obtain ⟨answer, hanswer, hresponse⟩ := hs
  obtain ⟨new, hnew⟩ := refreshesStep_answers h
  exact ⟨answer, hnew ▸ List.mem_append_left _ hanswer, hresponse⟩

/-- What holds of the answers of every run without conflicts. -/
structure AnswersInv (hash : String → String) (s : RefreshSystem) : Prop
    extends FreshDraws hash s where
  refused : ∀ answer ∈ s.answers,
    answer.Succeeded ∨ answer.response = .error ⟨401, "Invalid refresh token"⟩

theorem AnswersInv.step (hs : AnswersInv hash s) (hgood : NoConflict s a)
    (h : refreshesStep hash s a = some t) : AnswersInv hash t := by
  refine ⟨hs.toFreshDraws.step h, ?_⟩
  cases refreshesStep_change h with
  | begins => exact hs.refused
  | aborts => exact (hgood _ _ _ rfl).elim
  | @transacts i now request result u hrequest hrefresh =>
      intro answer hanswer
      rcases List.mem_append.mp hanswer with hold | hnew
      · exact hs.refused answer hold
      · rw [List.mem_singleton.mp hnew]
        have hfresh := hs.fresh request (List.mem_of_getElem? hrequest)
        have hresult := refresh_fresh hfresh now request.rawToken
        rw [hrefresh] at hresult
        rcases hresult with ⟨pair, hpair⟩ | hinvalid
        · obtain rfl : result = .ok pair := hpair
          exact .inl ⟨pair, rfl⟩
        · obtain rfl : result = .error invalidRefreshToken := hinvalid
          exact .inr rfl

theorem BehavesSerially.expected {store : TokenStore} {acts : List RefreshAction}
    (h : BehavesSerially hash store acts t) : ¬ Unexpected t := by
  rintro ⟨answer, hanswer, hresponse⟩
  rcases h.refused answer hanswer with ⟨pair, hpair⟩ | hinvalid
  · cases hresponse.symm.trans hpair
  · cases hresponse.symm.trans hinvalid

/-- Concurrent refreshes behave as in some serial order exactly when the
database aborts none of their transactions. -/
theorem refreshes_serial_iff {store : TokenStore} {acts : List RefreshAction}
    (hrun : exec (refreshesStep hash) (.start store) acts = some t) :
    BehavesSerially hash store acts t ↔
      Along (refreshesStep hash) NoConflict (.start store) acts := by
  have hused : UsedTokens hash t := by
    refine exec_invariant (fun _ _ _ hs h => UsedTokens.step hs h) ?_ hrun
    refine ⟨List.Pairwise.nil, ?_⟩
    intro answer hanswer
    cases hanswer
  constructor
  · intro hserial
    refine along_of_trap (I := fun _ => True) (fun _ _ _ _ _ _ => trivial)
      (fun _ _ _ _ hbad h => unexpected_of_conflict hbad h) (fun _ _ _ hs h => hs.step h)
      trivial hrun hserial.expected
  · intro hgood
    have horder : InCommitOrder hash store t :=
      exec_invariant_along (fun _ _ _ hs hgood h => InCommitOrder.step hs hgood h) ⟨[], rfl⟩
        hgood hrun
    have hanswers : AnswersInv hash t := by
      refine exec_invariant_along (fun _ _ _ hs hgood h => AnswersInv.step hs hgood h) ?_
        hgood hrun
      refine ⟨⟨?_, List.Pairwise.nil⟩, ?_⟩
      · intro request hrequest
        cases hrequest
      · intro answer hanswer
        cases hanswer
    obtain ⟨order, horder⟩ := horder
    refine ⟨⟨order, by rw [horder], by rw [horder]⟩, hused.once, hanswers.refused, ?_⟩
    exact Along.mono (I := fun _ => True) (fun _ _ _ hgood => replayRevokes_of_noConflict hgood)
      (fun _ _ _ _ _ _ => trivial) trivial hgood

def twoPresentations : List RefreshAction :=
  [.begin ⟨some (nthText 0), ⟨nthText 1, nthText 1⟩⟩,
    .begin ⟨some (nthText 0), ⟨nthText 2, nthText 2⟩⟩, .transact 0 0]

theorem refreshes_serial_iff_replayed :
    ∃ store t, exec (authStep id) Table.empty (rotationsRun 0) = some store ∧
      exec (refreshesStep id) (.start store) (twoPresentations ++ [.transact 0 0]) = some t ∧
      (BehavesSerially id store (twoPresentations ++ [.transact 0 0]) t ↔
        Along (refreshesStep id) NoConflict (.start store)
          (twoPresentations ++ [.transact 0 0])) := by
  obtain ⟨store, t, hstore, hrun⟩ : ∃ store t,
      exec (authStep id) Table.empty (rotationsRun 0) = some store ∧
      exec (refreshesStep id) (.start store) (twoPresentations ++ [.transact 0 0]) = some t :=
    ⟨_, _, rfl, rfl⟩
  exact ⟨store, t, hstore, hrun, refreshes_serial_iff hrun⟩

/-- The second presentation of a token is aborted: its replay goes unnoticed
and its sender is told of an internal error. -/
theorem aborted_replay_swallowed :
    ∃ store t, exec (authStep id) Table.empty (rotationsRun 0) = some store ∧
      exec (refreshesStep id) (.start store)
        (twoPresentations ++ [.abort 0 0 (.prisma "P2034")]) = some t ∧
      t.answers.map RefreshAnswer.response =
        [.ok ⟨"ann", nthText 1⟩, .error ⟨500, "Internal server error"⟩] ∧
      liveToken 1 ∈ t.store.rows ∧
      ¬ BehavesSerially id store (twoPresentations ++ [.abort 0 0 (.prisma "P2034")]) t := by
  obtain ⟨store, t, hstore, hrun, hanswers, hrows⟩ : ∃ store t,
      exec (authStep id) Table.empty (rotationsRun 0) = some store ∧
      exec (refreshesStep id) (.start store)
        (twoPresentations ++ [.abort 0 0 (.prisma "P2034")]) = some t ∧
      t.answers.map RefreshAnswer.response =
        [.ok ⟨"ann", nthText 1⟩, .error ⟨500, "Internal server error"⟩] ∧
      t.store.rows = [rotatedToken 0, liveToken 1] := ⟨_, _, rfl, rfl, rfl, rfl⟩
  refine ⟨store, t, hstore, hrun, hanswers, by simp [hrows], ?_⟩
  intro hserial
  apply hserial.expected
  apply List.mem_map.mp
  simp [hanswers]

end Eventify
