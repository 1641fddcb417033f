import Eventify.Auth.Replay

/-!
# What a logout ends

`logout` revokes the presented token and nothing else. It ends the session
when that token is the live one; a token that another tab has rotated in the
meantime leaves its replacement in use.
-/

namespace Eventify

open Library

variable {hash : String → String} {s t : TokenStore}

def SameChain (s : TokenStore) (a b : RefreshToken) : Prop :=
  a = b ∨ Descendant s a b ∨ Descendant s b a

/-- After the logout no refresh with a token of the presented one's chain
succeeds, whatever happens in between. -/
def LogoutEndsSession (hash : String → String) (s : TokenStore) (now : Time) (raw : String)
    (current : RefreshToken) : Prop :=
  ∀ acts t, exec (authStep hash) (logout hash now (some raw) s) acts = some t →
    ∀ token ∈ s.rows, SameChain s current token →
      ∀ later draw raw' pair, now ≤ later → hash raw' = token.tokenHash →
        (refresh hash later draw (some raw') t).1 ≠ .ok pair

/-- The raw token that an action draws; `createRefreshToken` never draws an
empty one. -/
def AuthAction.drawnRaw : AuthAction → Option String
  | .issuePair _ draw _ | .refresh _ draw _ => some draw.raw
  | .logout _ _ => none

/-- From `now` on the token is good for no refresh. -/
def Spent (now : Time) (token : RefreshToken) : Prop :=
  token.revokedAt.isSome = true ∨ token.expiresAt ≤ now

theorem RefreshToken.revokeIf_expiresAt (token : RefreshToken) (p : RefreshToken → Bool)
    (now : Time) : (token.revokeIf p now).expiresAt = token.expiresAt := by
  unfold revokeIf
  split <;> rfl

theorem RefreshToken.revokeIf_selected (token : RefreshToken) {p : RefreshToken → Bool}
    (now : Time) (h : p token = true) : (token.revokeIf p now).revokedAt.isSome = true := by
  cases hrevoked : token.revokedAt <;> simp [revokeIf, revoke, h, hrevoked]

theorem TokenStep.kept_expiry {a : AuthAction} (h : TokenStep hash s a t) {token : RefreshToken}
    (htoken : token ∈ s.rows) :
    ∃ token' ∈ t.rows, token'.id = token.id ∧ token'.expiresAt = token.expiresAt := by
  cases h with
  | unchanged => exact ⟨token, htoken, rfl, rfl⟩
  | @revokes _ p now =>
      exact ⟨token.revokeIf p now, List.mem_map.mpr ⟨token, htoken, rfl⟩, by simp,
        token.revokeIf_expiresAt p now⟩
  | issues hinsert =>
      refine ⟨token, ?_, rfl, rfl⟩
      rw [Table.insert_rows hinsert]
      exact List.mem_append_left _ htoken
  | rotates _ _ hinsert =>
      refine ⟨_, List.mem_map.mpr ⟨token, ?_, rfl⟩, ?_⟩
      · rw [Table.insert_rows hinsert]
        exact List.mem_append_left _ htoken
      · split <;> exact ⟨rfl, rfl⟩

theorem Spent.revokeIf {now : Time} {token : RefreshToken} (h : Spent now token)
    (p : RefreshToken → Bool) (at_ : Time) : Spent now (token.revokeIf p at_) := by
  rcases h with hrevoked | hexpired
  · rw [token.revokeIf_of_revoked p at_ hrevoked]
    exact .inl hrevoked
  · exact .inr (by rwa [token.revokeIf_expiresAt])

theorem spent_run {acts : List AuthAction} (hrun : exec (authStep hash) s acts = some t)
    {now : Time} {token : RefreshToken} (htoken : token ∈ s.rows) (hspent : Spent now token) :
    ∃ token' ∈ t.rows, token'.tokenHash = token.tokenHash ∧ Spent now token' := by
  refine exec_invariant
    (I := fun u => ∃ token' ∈ u.rows, token'.tokenHash = token.tokenHash ∧ Spent now token')
    ?_ ⟨token, htoken, rfl, hspent⟩ hrun
  rintro u a v ⟨old, hold, hhash, hspent⟩ hstep
  obtain ⟨kept, hkept, hid, hkeptHash, hsame⟩ := (authStep_cases hstep).kept hold
  obtain ⟨other, hother, hotherid, hexpiry⟩ := (authStep_cases hstep).kept_expiry hold
  obtain rfl := token_id_inj hkept hother (hotherid.trans hid.symm)
  refine ⟨other, hkept, hkeptHash.trans hhash, ?_⟩
  rcases hspent with hrevoked | hexpired
  · exact .inl (by rw [hsame hrevoked, hrevoked])
  · exact .inr (hexpiry ▸ hexpired)

theorem refresh_spent {now later : Time} (draw : TokenDraw) {raw : String} {token : RefreshToken}
    (htoken : token ∈ s.rows) (hhash : hash raw = token.tokenHash) (hspent : Spent now token)
    (hlater : now ≤ later) :
    (refresh hash later draw (some raw) s).1 = .error invalidRefreshToken := by
  rcases hspent with hrevoked | hexpired
  · exact refresh_revoked htoken hhash hrevoked
  · have hfind := TokenStore.findByHash_eq_some_iff.mpr ⟨htoken, hhash.symm⟩
    by_cases hraw : raw = ""
    · simp [refresh, hraw]
    · simp [refresh, hraw, refreshTx, hfind, hexpired.trans hlater]

/-- A token that is neither revoked nor expired is exchanged for a new one. -/
theorem refresh_live {now : Time} {draw : TokenDraw} {raw : String} {token : RefreshToken}
    (htoken : token ∈ s.rows) (hhash : hash raw = token.tokenHash) (hraw : raw ≠ "")
    (hlive : ¬ Spent now token)
    (hfresh : ∀ stored ∈ s.rows, stored.id ≠ draw.id ∧ stored.tokenHash ≠ hash draw.raw) :
    (refresh hash now draw (some raw) s).1 = .ok ⟨token.userId, draw.raw⟩ := by
  have hfind := TokenStore.findByHash_eq_some_iff.mpr ⟨htoken, hhash.symm⟩
  obtain ⟨hrevoked, hunexpired⟩ := not_or.mp hlive
  obtain ⟨u, hu, hcreate⟩ :=
    TokenStore.create_of_free token.userId (now + refreshTtlMs) hfresh
  have hstored : TokenStore.findToken u token.id = some token := by
    refine TokenStore.findToken_eq_some_iff.mpr ⟨?_, rfl⟩
    rw [Table.insert_rows hu]
    exact List.mem_append_left _ htoken
  simp [refresh, hraw, refreshTx, hfind, hrevoked, hunexpired, hcreate, TokenStore.replace, hstored,
    Except.map]

theorem mem_of_descendant {current token : RefreshToken} (h : Descendant s current token) :
    token ∈ s.rows := by
  obtain ⟨depth, hmem⟩ := h
  unfold TokenStore.replacementChain at hmem
  generalize current.replacedById = next at hmem
  induction depth generalizing next with
  | zero => cases hmem
  | succ depth ih =>
      cases next with
      | none => cases hmem
      | some id =>
          cases hfind : s.findToken id with
          | none => simp [walk, hfind] at hmem
          | some found =>
              rw [walk, hfind] at hmem
              rcases List.mem_cons.mp hmem with rfl | hrest
              · exact (TokenStore.findToken_eq_some_iff.mp hfind).1
              · exact ih _ hrest

/-- Every token with a descendant has been rotated. -/
theorem revoked_of_descendant {n : ℕ} (hfamilies : Families s n) {current token : RefreshToken}
    (hcurrent : current ∈ s.rows) (h : Descendant s current token) :
    current.revokedAt.isSome = true := by
  obtain ⟨family, hmem, hpath, -⟩ := hfamilies.path_of_mem hcurrent
  obtain ⟨pre, rest, rfl⟩ := List.append_of_mem hmem
  have hsuffix : RotationPath (current :: rest) := hpath.suffix
  cases hsuffix with
  | last hnone =>
      obtain ⟨depth, hmem⟩ := h
      rw [hnone] at hmem
      cases depth <;> cases hmem
  | cons _ hlink _ => exact hlink.1

/-- Every stored token was drawn as a raw token that can be presented. -/
def Presentable (hash : String → String) (s : TokenStore) : Prop :=
  ∀ token ∈ s.rows, ∃ raw, raw ≠ "" ∧ hash raw = token.tokenHash

theorem Presentable.insert (hs : Presentable hash s) {now : Time} {draw : TokenDraw}
    {userId : Uuid} (hdraw : draw.raw ≠ "")
    (hinsert : s.insert (newToken hash now draw userId) = some t) : Presentable hash t := by
  intro token htoken
  rw [Table.insert_rows hinsert] at htoken
  rcases List.mem_append.mp htoken with hold | hnew
  · exact hs token hold
  · rw [List.mem_singleton.mp hnew]
    exact ⟨draw.raw, hdraw, rfl⟩

theorem Presentable.step (hs : Presentable hash s) {a : AuthAction} (hdraw : a.drawnRaw ≠ some "")
    (h : authStep hash s a = some t) : Presentable hash t := by
  cases authStep_cases h with
  | unchanged => exact hs
  | @revokes _ p now =>
      intro token htoken
      obtain ⟨old, hold, rfl⟩ := List.mem_map.mp htoken
      obtain ⟨raw, hraw, hhash⟩ := hs old hold
      refine ⟨raw, hraw, ?_⟩
      rw [hhash]
      exact (old.revokeIf_tokenHash p now).symm
  | issues hinsert => exact hs.insert (fun hempty => hdraw (congrArg some hempty)) hinsert
  | rotates _ _ hinsert =>
      have hu := hs.insert (fun hempty => hdraw (congrArg some hempty)) hinsert
      intro token htoken
      obtain ⟨old, hold, rfl⟩ := List.mem_map.mp htoken
      obtain ⟨raw, hraw, hhash⟩ := hu old hold
      refine ⟨raw, hraw, ?_⟩
      split <;> exact hhash

theorem Presentable.run {acts : List AuthAction} (hdraws : ∀ a ∈ acts, a.drawnRaw ≠ some "")
    (hrun : exec (authStep hash) Table.empty acts = some s) : Presentable hash s := by
  have halong : Along (authStep hash) (fun _ a => a.drawnRaw ≠ some "") Table.empty acts :=
    along_of_forall_mem fun a ha _ => hdraws a ha
  refine exec_invariant_along (fun _ _ _ hs hdraw h => hs.step hdraw h) ?_ halong hrun
  intro token htoken
  cases htoken

theorem logout_rows {now : Time} {raw : String} (hraw : raw ≠ "") :
    (logout hash now (some raw) s).rows =
      s.rows.map (·.revokeIf (fun token => token.tokenHash == hash raw) now) := by
  rw [logout, if_neg hraw, TokenStore.revokeWhere_rows]

/-- A logout ends the session of the presented token exactly when no token
that replaced it is still good, as long as tokens can be drawn at all. -/
theorem logout_ends_session_iff {acts : List AuthAction} {current : RefreshToken} {raw : String}
    {now : Time} (hrun : exec (authStep hash) Table.empty acts = some s)
    (hdraws : ∀ a ∈ acts, a.drawnRaw ≠ some "") (hcurrent : current ∈ s.rows)
    (hhash : hash raw = current.tokenHash) (hraw : raw ≠ "") (draw : TokenDraw)
    (hfresh : ∀ token ∈ s.rows, token.id ≠ draw.id ∧ token.tokenHash ≠ hash draw.raw) :
    LogoutEndsSession hash s now raw current ↔
      ∀ token, Descendant s current token →
        token.revokedAt.isSome = true ∨ token.expiresAt ≤ now := by
  have hfamilies := Families.run hrun
  have hrows : (logout hash now (some raw) s).rows =
      s.rows.map (·.revokeIf (fun token => token.tokenHash == hash raw) now) := logout_rows hraw
  constructor
  · intro hends token hdescendant
    by_contra hlive
    have htoken := mem_of_descendant hdescendant
    have hrotated := revoked_of_descendant hfamilies hcurrent hdescendant
    have hother : token.tokenHash ≠ hash raw := by
      intro hsame
      have hfind := TokenStore.findByHash_eq_some_iff.mpr ⟨htoken, hsame⟩
      have hfind' := TokenStore.findByHash_eq_some_iff.mpr ⟨hcurrent, hhash.symm⟩
      obtain rfl := Option.some.inj (hfind.symm.trans hfind')
      exact hlive (.inl hrotated)
    have hkept : token ∈ (logout hash now (some raw) s).rows := by
      rw [hrows]
      refine List.mem_map.mpr ⟨token, htoken, ?_⟩
      simp [RefreshToken.revokeIf, hother]
    obtain ⟨raw', hraw', hhash'⟩ := Presentable.run hdraws hrun token htoken
    refine hends [] _ rfl token htoken (.inr (.inl hdescendant)) now draw raw' _ le_rfl hhash'
      (refresh_live hkept hhash' hraw' hlive ?_)
    rw [hrows]
    intro stored hstored
    obtain ⟨old, hold, rfl⟩ := List.mem_map.mp hstored
    simpa using hfresh old hold
  · intro hspent later_acts t hlater token htoken hchain later draw raw' pair hnow hhash' hok
    obtain ⟨kept, hkept, hkeptHash, hkeptSpent⟩ :
        ∃ kept ∈ (logout hash now (some raw) s).rows, kept.tokenHash = token.tokenHash ∧
          Spent now kept := by
      refine ⟨_, hrows ▸ List.mem_map.mpr ⟨token, htoken, rfl⟩, by simp, ?_⟩
      rcases hchain with rfl | hdescendant | hancestor
      · exact .inl (current.revokeIf_selected now (beq_iff_eq.mpr hhash.symm))
      · exact Spent.revokeIf (hspent token hdescendant) _ now
      · exact Spent.revokeIf (.inl (revoked_of_descendant hfamilies htoken hancestor)) _ now
    obtain ⟨last, hlast, hlastHash, hlastSpent⟩ := spent_run hlater hkept hkeptSpent
    have hrefused := refresh_spent draw hlast
      (hhash'.trans (hkeptHash.symm.trans hlastHash.symm)) hlastSpent hnow
    cases hrefused.symm.trans hok

theorem logout_ends_session_iff_rotated :
    ∃ s, exec (authStep id) Table.empty (rotationsRun 1) = some s ∧
      (LogoutEndsSession id s 0 (nthText 0) (rotatedToken 0) ↔
        ∀ token, Descendant s (rotatedToken 0) token →
          token.revokedAt.isSome = true ∨ token.expiresAt ≤ 0) := by
  obtain ⟨s, hs, hrows⟩ := rotationsRun_rows 1
  have hcurrent : rotatedToken 0 ∈ s.rows := by simp [hrows, sessionFrom]
  refine ⟨s, hs, logout_ends_session_iff hs (by decide) hcurrent rfl (by decide)
    ⟨nthText 2, nthText 2⟩ ?_⟩
  rw [hrows]
  decide

/-- Another tab has rotated the token just before: its replacement survives
the logout. -/
theorem session_survives_logout :
    ∃ s t pair, exec (authStep id) Table.empty (rotationsRun 1) = some s ∧
      rotatedToken 0 ∈ s.rows ∧ liveToken 1 ∈ s.rows ∧
      SameChain s (rotatedToken 0) (liveToken 1) ∧
      refresh id 0 ⟨nthText 2, nthText 2⟩ (some (nthText 1)) (logout id 0 (some (nthText 0)) s) =
        (.ok pair, t) ∧
      ¬ LogoutEndsSession id s 0 (nthText 0) (rotatedToken 0) := by
  obtain ⟨s, t, pair, hs, hrows, hrefresh⟩ : ∃ s t pair,
      exec (authStep id) Table.empty (rotationsRun 1) = some s ∧
      s.rows = [rotatedToken 0, liveToken 1] ∧
      refresh id 0 ⟨nthText 2, nthText 2⟩ (some (nthText 1))
        (logout id 0 (some (nthText 0)) s) = (.ok pair, t) := ⟨_, _, _, rfl, rfl, rfl⟩
  have hcurrent : rotatedToken 0 ∈ s.rows := by simp [hrows]
  have hlive : liveToken 1 ∈ s.rows := by simp [hrows]
  have hchain : SameChain s (rotatedToken 0) (liveToken 1) := by
    have hpath : RotationPath [rotatedToken 0, liveToken 1] := rotationPath_sessionFrom 0 1
    exact .inr (.inl ((descendant_iff hpath (by simpa using hlive)).mpr (by simp)))
  refine ⟨s, t, pair, hs, hcurrent, hlive, hchain, hrefresh, ?_⟩
  intro hends
  exact hends [] _ rfl (liveToken 1) hlive hchain 0 ⟨nthText 2, nthText 2⟩ (nthText 1) pair le_rfl
    rfl (congrArg Prod.fst hrefresh)

end Eventify
