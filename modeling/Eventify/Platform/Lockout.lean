import Eventify.Platform.Provenance

/-!
# The end of a session

A session has at most one refresh token in force. Once it has none it gets none,
so its access tokens run out, the last of them after a quarter of an hour.
-/

namespace Eventify

open Library

/-- Each refresh token is of a session that began with one in the table, and no
two in force are of one session. -/
structure Platform.OneInForce (s : Platform) : Prop where
  root : ∀ token ∈ s.tokens.rows, ∃ root ∈ s.tokens.rows, root.id = s.sessions token.id
  unique : ∀ a ∈ s.tokens.rows, ∀ b ∈ s.tokens.rows, a.revokedAt = none → b.revokedAt = none →
    s.sessions a.id = s.sessions b.id → a = b

/-- The session has no refresh token in force, and no access token answered
after `since`. -/
structure Platform.Ended (session : Uuid) (since : Time) (s : Platform) : Prop where
  root : ∃ root ∈ s.tokens.rows, root.id = session
  tokens : ∀ token ∈ s.tokens.rows, s.sessions token.id = session →
    token.revokedAt.isSome = true
  issued : ∀ x ∈ s.issued, s.sessions x.refreshToken = session → x.issuedAt ≤ since

variable {env : LoginEnv} {passwords : PasswordEnv} {hash : String → String} {jose : Jose}
variable {ids : UuidOps} {parseDate : String → Option Time}
variable {s t : Platform} {a : PlatformAction} {first : UserTable}

theorem mem_of_revokeWhere {store : TokenStore} {p : RefreshToken → Bool} {now : Time}
    {token : RefreshToken} (htoken : token ∈ (store.revokeWhere p now).rows)
    (hlive : token.revokedAt = none) : token ∈ store.rows := by
  obtain ⟨old, hold, hsame⟩ := List.mem_map.mp htoken
  dsimp only at hsame
  split at hsame
  · rw [← hsame] at hlive
    cases hlive
  · exact hsame ▸ hold

/-- After a rotation the new token is in force, and the one that it replaces no
more. -/
theorem live_of_rotated {now : Time} {draw : TokenDraw} {current token : RefreshToken}
    {store u : TokenStore}
    (hinsert : store.insert (newToken hash now draw current.userId) = some u)
    (htoken : token ∈ (u.updateWhere (fun token => token.id == current.id) _
      (replace_keepsKeys now draw.id)).rows) (hlive : token.revokedAt = none) :
    token = newToken hash now draw current.userId ∨ (token ∈ store.rows ∧ token ≠ current) := by
  obtain ⟨old, hold, hsame⟩ := List.mem_map.mp htoken
  dsimp only at hsame
  split at hsame
  · rw [← hsame] at hlive
    cases hlive
  next hother =>
    rw [Table.insert_rows hinsert] at hold
    rw [← hsame]
    rcases List.mem_append.mp hold with hstored | hnew
    · refine .inr ⟨hstored, ?_⟩
      rintro rfl
      simp at hother
    · exact .inl (List.mem_singleton.mp hnew)

/-- A new refresh token begins a session or carries one on. -/
theorem SessionsMove.session (h : SessionsMove passwords hash s t)
    (hvouched : Vouched passwords first s) {token : RefreshToken} (htoken : token ∈ t.tokens.rows) :
    (∃ old ∈ s.tokens.rows, t.sessions token.id = s.sessions old.id) ∨
      t.sessions token.id = token.id := by
  have hold : ∀ old ∈ s.tokens.rows, old.id = token.id →
      ∃ old ∈ s.tokens.rows, t.sessions token.id = s.sessions old.id :=
    fun old hold hid => ⟨old, hold, hid ▸ (h.kept_token hold).2⟩
  cases h with
  | kept htokens => exact .inl (hold token (htokens ▸ htoken) rfl)
  | @revoked p now htokens =>
      rw [htokens] at htoken
      obtain ⟨old, hmem, rfl⟩ := List.mem_map.mp htoken
      exact .inl (hold old hmem (old.revokeIf_id p now).symm)
  | signedIn _ _ hinsert hsessions =>
      rw [Table.insert_rows hinsert] at htoken
      rcases List.mem_append.mp htoken with hmem | hnew
      · exact .inl (hold token hmem rfl)
      · obtain rfl := List.mem_singleton.mp hnew
        rw [hsessions]
        exact .inr (hvouched.unused _ (newToken_free hinsert))
  | @rotated draw current u hcurrent _ hinsert htokens hsessions =>
      rw [htokens] at htoken
      obtain ⟨old, hmem, rfl⟩ := List.mem_map.mp htoken
      rw [Table.insert_rows hinsert] at hmem
      rcases List.mem_append.mp hmem with hmem | hnew
      · exact .inl (hold old hmem (by split <;> rfl))
      · obtain rfl := List.mem_singleton.mp hnew
        have hother : (newToken hash s.now draw current.userId).id ≠ current.id :=
          (newToken_free hinsert current hcurrent).symm
        refine .inl ⟨current, hcurrent, ?_⟩
        rw [if_neg (by simpa using hother), hsessions]
        exact Function.update_self draw.id (s.sessions current.id) s.sessions

theorem Platform.OneInForce.start (throttle : LoginSystem) (users : UserTable) (db : Database) :
    (Platform.start throttle users db).OneInForce := by
  constructor
  · intro token htoken
    cases htoken
  · intro a ha
    cases ha

theorem Platform.OneInForce.step (hs : s.OneInForce) (hvouched : Vouched passwords first s)
    (hmove : SessionsMove passwords hash s t) : t.OneInForce := by
  constructor
  · intro token htoken
    rcases hmove.session hvouched htoken with ⟨old, hold, hsession⟩ | hself
    · obtain ⟨root, hroot, hid⟩ := hs.root old hold
      obtain ⟨⟨root', hroot', hid', -⟩, -⟩ := hmove.kept_token hroot
      exact ⟨root', hroot', by rw [hid', hid, hsession]⟩
    · exact ⟨token, htoken, hself.symm⟩
  · intro a ha b hb hlive hlive' hsame
    cases hmove with
    | kept htokens hsessions =>
        rw [hsessions] at hsame
        exact hs.unique a (htokens ▸ ha) b (htokens ▸ hb) hlive hlive' hsame
    | revoked htokens hsessions =>
        rw [hsessions] at hsame
        exact hs.unique a (mem_of_revokeWhere (htokens ▸ ha) hlive) b
          (mem_of_revokeWhere (htokens ▸ hb) hlive') hlive hlive' hsame
    | @signedIn draw user _ _ _ _ hinsert hsessions =>
        -- the session of the new token began with it, so no other is of that
        have hfree := newToken_free hinsert
        have hnew : s.sessions draw.id = draw.id := hvouched.unused _ hfree
        have hapart : ∀ old ∈ s.tokens.rows, s.sessions old.id ≠ s.sessions draw.id := by
          intro old hold hsession
          obtain ⟨root, hroot, hid⟩ := hs.root old hold
          exact hfree root hroot (by rw [hid, hsession, hnew])
        rw [hsessions] at hsame
        rw [Table.insert_rows hinsert, List.mem_append, List.mem_singleton] at ha hb
        rcases ha with ha | rfl <;> rcases hb with hb | rfl
        · exact hs.unique a ha b hb hlive hlive' hsame
        · exact (hapart a ha hsame).elim
        · exact (hapart b hb hsame.symm).elim
        · rfl
    | @rotated draw current u hcurrent hcurrentLive hinsert htokens hsessions =>
        -- the token in force of the session is replaced
        have hfree := newToken_free hinsert
        have hnew : t.sessions draw.id = s.sessions current.id := by
          rw [hsessions]
          exact Function.update_self draw.id (s.sessions current.id) s.sessions
        have hkept : ∀ old ∈ s.tokens.rows, t.sessions old.id = s.sessions old.id := by
          intro old hold
          rw [hsessions, Function.update_of_ne (hfree old hold)]
        rcases live_of_rotated hinsert (htokens ▸ ha) hlive with rfl | ⟨hmem, hne⟩ <;>
          rcases live_of_rotated hinsert (htokens ▸ hb) hlive' with rfl | ⟨hmem', hne'⟩
        · rfl
        · refine (hne' (hs.unique b hmem' current hcurrent hlive' hcurrentLive ?_)).elim
          rw [← hkept b hmem', ← hsame]
          exact hnew
        · refine (hne (hs.unique a hmem current hcurrent hlive hcurrentLive ?_)).elim
          rw [← hkept a hmem, hsame]
          exact hnew
        · rw [hkept a hmem, hkept b hmem'] at hsame
          exact hs.unique a hmem b hmem' hlive hlive' hsame

theorem Platform.Ended.step {session : Uuid} {since : Time} (hs : s.Ended session since)
    (hvouched : Vouched passwords first s) (husers : UsersMove s.users t.users)
    (hmove : SessionsMove passwords hash s t) : t.Ended session since := by
  obtain ⟨root, hroot, hrootid⟩ := hs.root
  have hrevoked : ∀ token ∈ t.tokens.rows, t.sessions token.id = session →
      token.revokedAt.isSome = true := by
    intro token htoken hsession
    by_contra hnone
    have hlive : token.revokedAt = none := by simpa using hnone
    cases hmove with
    | kept htokens hsessions =>
        rw [hsessions] at hsession
        exact hnone (hs.tokens token (htokens ▸ htoken) hsession)
    | revoked htokens hsessions =>
        rw [hsessions] at hsession
        exact hnone (hs.tokens token (mem_of_revokeWhere (htokens ▸ htoken) hlive) hsession)
    | signedIn _ _ hinsert hsessions =>
        have hfree := newToken_free hinsert
        rw [hsessions] at hsession
        rw [Table.insert_rows hinsert, List.mem_append, List.mem_singleton] at htoken
        rcases htoken with hold | rfl
        · exact hnone (hs.tokens token hold hsession)
        · have hnew := hvouched.unused _ hfree
          exact hfree root hroot (by rw [hrootid, ← hsession]; exact hnew)
    | @rotated draw current u hcurrent hcurrentLive hinsert htokens hsessions =>
        have hfree := newToken_free hinsert
        rcases live_of_rotated hinsert (htokens ▸ htoken) hlive with rfl | ⟨hold, -⟩
        · -- a token of the session would have been in force before
          have hcurrentSession : s.sessions current.id = session := by
            rw [← hsession, hsessions]
            exact (Function.update_self draw.id (s.sessions current.id) s.sessions).symm
          have hspent := hs.tokens current hcurrent hcurrentSession
          simp [hcurrentLive] at hspent
        · rw [hsessions, Function.update_of_ne (hfree token hold)] at hsession
          exact hnone (hs.tokens token hold hsession)
  obtain ⟨⟨root', hroot', hid', -⟩, -⟩ := hmove.kept_token hroot
  refine ⟨⟨root', hroot', hid'.trans hrootid⟩, hrevoked, ?_⟩
  intro x hx hsession
  rcases hmove.new_issued (fun _ => husers.has) hx with
    hold | ⟨-, -, -, token, htoken, hid, -, hlive⟩
  · obtain ⟨-, -, -, token, htoken, hid⟩ := hvouched.issued x hold
    have hkept := (hmove.kept_token htoken).2
    rw [hid] at hkept
    exact hs.issued x hold (hkept.symm.trans hsession)
  · have hspent := hrevoked token htoken (hid ▸ hsession)
    simp [hlive] at hspent

theorem Platform.OneInForce.run {throttle : LoginSystem} {db : Database}
    {acts : List PlatformAction}
    (hrun : exec (platformStep env passwords hash jose ids parseDate) (.start throttle first db)
      acts = some s) : Vouched passwords first s ∧ s.OneInForce :=
  exec_invariant (I := fun u => Vouched passwords first u ∧ u.OneInForce)
    (fun _ _ _ hu hstep => ⟨hu.1.step hstep,
      hu.2.step hu.1 (platformStep_moves hu.1.reads hstep).sessions⟩)
    ⟨.start throttle first db, .start throttle first db⟩ hrun

theorem Platform.Ended.run {session : Uuid} {since : Time} {more : List PlatformAction}
    (hs : s.Ended session since) (hvouched : Vouched passwords first s)
    (hmore : exec (platformStep env passwords hash jose ids parseDate) s more = some t) :
    t.Ended session since := by
  refine (exec_invariant (I := fun u => Vouched passwords first u ∧ u.Ended session since) ?_
    ⟨hvouched, hs⟩ hmore).2
  rintro u a v ⟨hu, hended⟩ hstep
  have hmove := platformStep_moves hu.reads hstep
  exact ⟨hu.step hstep, hended.step hu hmove.users hmove.sessions⟩

/-- A logout with the refresh token in force leaves the session without one. -/
theorem Platform.Ended.of_logout (hvouched : Vouched passwords first s) (hs : s.OneInForce)
    {current : RefreshToken} (hcurrent : current ∈ s.tokens.rows)
    (hlive : current.revokedAt = none) {raw : String} (hraw : raw ≠ "")
    (hhash : hash raw = current.tokenHash) :
    (s.withTokens (logout hash s.now (some raw) s.tokens)).Ended (s.sessions current.id) s.now := by
  have hrows : logout hash s.now (some raw) s.tokens =
      s.tokens.revokeWhere (fun token => token.tokenHash == hash raw) s.now := if_neg hraw
  rw [hrows]
  refine ⟨?_, ?_, fun x hx _ => (hvouched.issued x hx).2.2.1⟩
  · obtain ⟨root, hroot, hid⟩ := hs.root current hcurrent
    exact ⟨_, List.mem_map.mpr ⟨root, hroot, rfl⟩, by split <;> exact hid⟩
  · intro token htoken hsession
    by_contra hnone
    have hstill : token.revokedAt = none := by simpa using hnone
    have hold := mem_of_revokeWhere htoken hstill
    obtain rfl := hs.unique token hold current hcurrent hstill hlive hsession
    obtain ⟨old, hmem, hsame⟩ := List.mem_map.mp htoken
    dsimp only at hsame
    split at hsame
    · rw [← hsame] at hstill
      cases hstill
    next hother =>
      rw [← hsame] at hhash hstill
      simp [hhash, hstill] at hother

/-- A logout with the refresh token that its session has in force ends the
session in every later run: no refresh with a token of it is answered, it gets
no access token, and those that it got are refused a quarter of an hour on. -/
theorem logout_locks_out (hjose : jose.Lawful) {throttle : LoginSystem} {db : Database}
    {acts more : List PlatformAction} {u : Platform} {current : RefreshToken} {raw : String}
    (hrun : exec (platformStep env passwords hash jose ids parseDate) (.start throttle first db)
      acts = some s)
    (hcurrent : current ∈ s.tokens.rows) (hlive : current.revokedAt = none) (hraw : raw ≠ "")
    (hhash : hash raw = current.tokenHash)
    (hlogout : platformStep env passwords hash jose ids parseDate s (.logout (some raw)) = some u)
    (hmore : exec (platformStep env passwords hash jose ids parseDate) u more = some t) :
    (∀ token ∈ t.tokens.rows, t.sessions token.id = s.sessions current.id →
      ∀ now draw raw', hash raw' = token.tokenHash →
        (refresh hash now draw (some raw') t.tokens).1 = .error invalidRefreshToken) ∧
    ∀ x ∈ t.issued, t.sessions x.refreshToken = s.sessions current.id → x.issuedAt ≤ s.now ∧
      ∀ now, s.now + accessTtlMs ≤ now →
        requireAuth jose now (some (bearer ++ x.text jose)) = .error authenticationRequired := by
  obtain ⟨hvouched, hone⟩ := Platform.OneInForce.run hrun
  have hended := Platform.Ended.of_logout hvouched hone hcurrent hlive hraw hhash
  have hvouched' := hvouched.step hlogout
  obtain rfl := Option.some.inj hlogout
  have hlast := hended.run hvouched' hmore
  refine ⟨fun token htoken hsession now draw raw' hhash' => ?_, fun x hx hsession => ?_⟩
  · exact refresh_revoked htoken hhash' (hlast.tokens token htoken hsession)
  · have hsince := hlast.issued x hx hsession
    refine ⟨hsince, fun now hnow => ?_⟩
    obtain ⟨failure, hfailure⟩ :
        ∃ failure, verifyAccessToken jose now (x.text jose) = .error failure :=
      verifyAccessToken_expired hjose ((Int.add_le_add_right hsince accessTtlMs).trans hnow)
    rw [requireAuth_bearer, hfailure]

theorem logout_locks_out_olga :
    ∃ s u t, exec (platformStep strictLogin saltless id unsigned storedSpelling fun _ => none)
        olgasPlatform olgaLogsIn = some s ∧
      platformStep strictLogin saltless id unsigned storedSpelling (fun _ => none) s
        (.logout (some "a")) = some u ∧
      exec (platformStep strictLogin saltless id unsigned storedSpelling fun _ => none) u
        [.service (.tick 900000)] = some t ∧
      requireAuth unsigned t.now (some (bearer ++ signAccessToken unsigned 0 olga.claims)) =
        .error authenticationRequired := by
  obtain ⟨s, u, t, hs, hu, ht, htokens, hnow, hissued, hsession, hnow'⟩ : ∃ s u t,
      exec (platformStep strictLogin saltless id unsigned storedSpelling fun _ => none)
        olgasPlatform olgaLogsIn = some s ∧
      platformStep strictLogin saltless id unsigned storedSpelling (fun _ => none) s
        (.logout (some "a")) = some u ∧
      exec (platformStep strictLogin saltless id unsigned storedSpelling fun _ => none) u
        [.service (.tick 900000)] = some t ∧
      s.tokens.rows = [⟨"1", "a", "organizer", refreshTtlMs, none, none⟩] ∧ s.now = 0 ∧
      t.issued = [⟨olga.claims, 0, "1"⟩] ∧ t.sessions "1" = s.sessions "1" ∧ t.now = 900000 :=
    ⟨_, _, _, rfl, rfl, rfl, rfl, rfl, rfl, rfl, rfl⟩
  refine ⟨s, u, t, hs, hu, ht, ?_⟩
  have hout := (logout_locks_out unsigned_lawful hs (by rw [htokens]; exact List.mem_cons_self) rfl
    (by decide) rfl hu ht).2 ⟨olga.claims, 0, "1"⟩ (by rw [hissued]; exact List.mem_cons_self)
      hsession
  exact hout.2 t.now (by rw [hnow, hnow']; decide)

end Eventify
