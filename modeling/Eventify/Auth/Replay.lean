import Eventify.Auth.Families

/-!
# Replay of a rotated token

A replay revokes what the bounded loop of `revokeReplacementChain` reaches.
The one token of a session that is still good stands at the end of its path,
so the session is over exactly when the loop gets that far.
-/

namespace Eventify

open Library

variable {hash : String → String} {s t : TokenStore}

/-- A token that can be reached from another through `replacedById`. -/
def Descendant (s : TokenStore) (current token : RefreshToken) : Prop :=
  ∃ depth, token ∈ s.replacementChain depth current.replacedById

/-- A refresh with the raw token fails, leaves no descendant of its row
unrevoked, and no later refresh with a descendant succeeds. -/
def KillsSession (hash : String → String) (s : TokenStore) (now : Time) (draw : TokenDraw)
    (raw : String) (current : RefreshToken) : Prop :=
  (refresh hash now draw (some raw) s).1 = .error invalidRefreshToken ∧
  (∀ d, Descendant (refresh hash now draw (some raw) s).2 current d →
    d.revokedAt.isSome = true) ∧
  ∀ acts t, exec (authStep hash) (refresh hash now draw (some raw) s).2 acts = some t →
    ∀ d, Descendant s current d → ∀ later draw' raw', hash raw' = d.tokenHash →
      (refresh hash later draw' (some raw') t).1 = .error invalidRefreshToken

theorem refresh_revoked {now : Time} {draw : TokenDraw} {raw : String} {token : RefreshToken}
    (htoken : token ∈ s.rows) (hhash : hash raw = token.tokenHash)
    (hrevoked : token.revokedAt.isSome = true) :
    (refresh hash now draw (some raw) s).1 = .error invalidRefreshToken := by
  have hfind := TokenStore.findByHash_eq_some_iff.mpr ⟨htoken, hhash.symm⟩
  by_cases hraw : raw = ""
  · simp [refresh, hraw]
  · by_cases hexpired : token.expiresAt ≤ now <;>
      simp [refresh, hraw, refreshTx, hfind, hexpired, hrevoked]

theorem refresh_replay {now : Time} {draw : TokenDraw} {raw : String} {current : RefreshToken}
    (hcurrent : current ∈ s.rows) (hhash : hash raw = current.tokenHash) (hraw : raw ≠ "")
    (hrevoked : current.revokedAt.isSome = true) (hunexpired : now < current.expiresAt) :
    (refresh hash now draw (some raw) s).2 = s.revokeWhere (fun token =>
      ((s.replacementChain TokenStore.maxDepth current.replacedById).map
        RefreshToken.id).contains token.id) now := by
  have hfind := TokenStore.findByHash_eq_some_iff.mpr ⟨hcurrent, hhash.symm⟩
  rw [← TokenStore.revokeReplacementChain_eq]
  simp [refresh, hraw, refreshTx, hfind, not_le.mpr hunexpired, hrevoked]

theorem revoked_run {acts : List AuthAction} (hrun : exec (authStep hash) s acts = some t)
    {token : RefreshToken} (htoken : token ∈ s.rows) (hrevoked : token.revokedAt.isSome = true) :
    ∃ token' ∈ t.rows, token'.tokenHash = token.tokenHash ∧ token'.revokedAt.isSome = true := by
  refine exec_invariant
    (I := fun u => ∃ token' ∈ u.rows, token'.tokenHash = token.tokenHash ∧
      token'.revokedAt.isSome = true) ?_ ⟨token, htoken, rfl, hrevoked⟩ hrun
  rintro u a v ⟨old, hold, hhash, hrevoked⟩ hstep
  obtain ⟨kept, hkept, -, hkeptHash, hsame⟩ := (authStep_cases hstep).kept hold
  exact ⟨kept, hkept, hkeptHash.trans hhash, by rw [hsame hrevoked, hrevoked]⟩

section Path

variable {current : RefreshToken} {rest : List RefreshToken}

theorem replacementChain_eq (hpath : RotationPath (current :: rest))
    (hrows : ∀ token ∈ rest, token ∈ s.rows) (depth : ℕ) :
    s.replacementChain depth current.replacedById = rest.take depth :=
  hpath.walk_eq (fun token htoken => TokenStore.findToken_eq_some_iff.mpr
    ⟨hrows token htoken, rfl⟩) depth

theorem descendant_iff (hpath : RotationPath (current :: rest))
    (hrows : ∀ token ∈ rest, token ∈ s.rows) {token : RefreshToken} :
    Descendant s current token ↔ token ∈ rest := by
  simp only [Descendant, replacementChain_eq hpath hrows]
  constructor
  · rintro ⟨depth, hmem⟩
    exact List.mem_of_mem_take hmem
  · exact fun hmem => ⟨rest.length, by rwa [List.take_length]⟩

theorem revokeIf_reached (hrows : ∀ token ∈ rest, token ∈ s.rows) (n : ℕ) (now : Time)
    {token : RefreshToken} (htoken : token ∈ rest) :
    (token.revokeIf (fun x => ((rest.take n).map RefreshToken.id).contains x.id)
        now).revokedAt.isSome = true ↔
      token ∈ rest.take n ∨ token.revokedAt.isSome = true := by
  have hreached : ((rest.take n).map RefreshToken.id).contains token.id = true ↔
      token ∈ rest.take n := by
    rw [List.contains_iff_mem, List.mem_map]
    constructor
    · rintro ⟨other, hother, hid⟩
      have hmem := hrows other (List.mem_of_mem_take hother)
      obtain rfl := token_id_inj (hrows token htoken) hmem hid
      exact hother
    · exact fun hmem => ⟨token, hmem, rfl⟩
  by_cases hrevoked : token.revokedAt.isSome = true
  · simp [token.revokeIf_of_revoked _ now hrevoked, hrevoked]
  · have hnone : token.revokedAt.isNone = true := by simpa using hrevoked
    rw [RefreshToken.revokeIf, hnone, Bool.and_true]
    by_cases hmem : token ∈ rest.take n
    · rw [if_pos (hreached.mpr hmem)]
      simp [hmem, RefreshToken.revoke]
    · rw [if_neg (fun h => hmem (hreached.mp h))]
      simp [hmem]

theorem last_out_of_reach (hpath : RotationPath (current :: rest)) {n : ℕ} (hlong : n < rest.length)
    (h : ∀ token ∈ rest, token ∈ rest.take n ∨ token.revokedAt.isSome = true) :
    ∀ token ∈ rest, token.revokedAt.isSome = true := by
  have hinit : ∀ token ∈ rest.dropLast, token.revokedAt.isSome = true := by
    intro token htoken
    have hmem : token ∈ (current :: rest).dropLast := by
      cases rest with
      | nil => simp at htoken
      | cons next rest =>
          rw [List.dropLast_cons_cons]
          exact List.mem_cons_of_mem _ htoken
    obtain ⟨next, hlink⟩ := hpath.linked_of_mem_dropLast hmem
    exact hlink.1
  intro token htoken
  rcases h token htoken with hreached | hrevoked
  · apply hinit
    rw [List.dropLast_eq_take]
    exact List.take_subset_take_left rest (by omega) hreached
  · exact hrevoked

/-- A replay kills the session iff its loop reaches the end of the path, or
nothing behind the token was good any more. -/
theorem killsSession_iff (hpath : RotationPath (current :: rest))
    (hcurrent : current ∈ s.rows) (hrows : ∀ token ∈ rest, token ∈ s.rows)
    {raw : String} {now : Time} (draw : TokenDraw) (hhash : hash raw = current.tokenHash)
    (hraw : raw ≠ "") (hrevoked : current.revokedAt.isSome = true)
    (hunexpired : now < current.expiresAt) :
    KillsSession hash s now draw raw current ↔
      rest.length ≤ TokenStore.maxDepth ∨ ∀ token ∈ rest, token.revokedAt.isSome = true := by
  have hreplay : (refresh hash now draw (some raw) s).2 = _ :=
    refresh_replay hcurrent hhash hraw hrevoked hunexpired
  rw [replacementChain_eq hpath hrows] at hreplay
  unfold KillsSession
  rw [hreplay]
  generalize hp : (fun token : RefreshToken =>
    ((rest.take TokenStore.maxDepth).map RefreshToken.id).contains token.id) = p
  have hreached : ∀ token ∈ rest, ((token.revokeIf p now).revokedAt.isSome = true ↔
      token ∈ rest.take TokenStore.maxDepth ∨ token.revokedAt.isSome = true) := by
    intro token htoken
    rw [← hp]
    exact revokeIf_reached hrows _ now htoken
  have hafter : ∀ token, Descendant (s.revokeWhere p now) current token ↔
      ∃ old ∈ rest, old.revokeIf p now = token := by
    intro token
    have hmap : RotationPath (current.revokeIf p now :: rest.map (·.revokeIf p now)) :=
      hpath.revokeIf p now
    have hiff : Descendant (s.revokeWhere p now) (current.revokeIf p now) token ↔ _ :=
      descendant_iff hmap ?_
    · rw [List.mem_map] at hiff
      simpa only [Descendant, RefreshToken.revokeIf_replacedById] using hiff
    · intro token htoken
      obtain ⟨old, hold, rfl⟩ := List.mem_map.mp htoken
      exact List.mem_map.mpr ⟨old, hrows old hold, rfl⟩
  constructor
  · rintro ⟨-, hall, -⟩
    by_cases hshort : rest.length ≤ TokenStore.maxDepth
    · exact .inl hshort
    · refine .inr (last_out_of_reach hpath (not_le.mp hshort) fun token htoken => ?_)
      exact (hreached token htoken).mp (hall _ ((hafter _).mpr ⟨token, htoken, rfl⟩))
  · intro hcond
    have hall : ∀ token ∈ rest, (token.revokeIf p now).revokedAt.isSome = true := by
      intro token htoken
      apply (hreached token htoken).mpr
      rcases hcond with hshort | hrevoked
      · exact .inl (by rwa [List.take_of_length_le hshort])
      · exact .inr (hrevoked token htoken)
    refine ⟨refresh_revoked hcurrent hhash hrevoked, ?_, ?_⟩
    · intro token htoken
      obtain ⟨old, hold, rfl⟩ := (hafter token).mp htoken
      exact hall old hold
    · intro acts t hrun token htoken later draw' raw' hhash'
      have hold := (descendant_iff hpath hrows).mp htoken
      have hmem : token.revokeIf p now ∈ (s.revokeWhere p now).rows :=
        List.mem_map.mpr ⟨token, hrows token hold, rfl⟩
      obtain ⟨kept, hkept, hkeptHash, hkeptRevoked⟩ := revoked_run hrun hmem (hall token hold)
      refine refresh_revoked hkept ?_ hkeptRevoked
      rw [hhash', hkeptHash, RefreshToken.revokeIf_tokenHash]

end Path

/-- Replaying a rotated token that has not expired ends its session exactly
when at most `100` tokens follow it, or none of them was unrevoked any more. -/
theorem replay_kills_session_iff {acts : List AuthAction} {current : RefreshToken} {raw : String}
    {now : Time} (hrun : exec (authStep hash) Table.empty acts = some s)
    (hcurrent : current ∈ s.rows) (hhash : hash raw = current.tokenHash) (hraw : raw ≠ "")
    (hrotated : current.replacedById ≠ none) (hunexpired : now < current.expiresAt)
    (draw : TokenDraw) :
    KillsSession hash s now draw raw current ↔
      (∀ depth, (s.replacementChain depth current.replacedById).length ≤ 100) ∨
        ∀ token, Descendant s current token → token.revokedAt.isSome = true := by
  obtain ⟨family, hmem, hpath, hmembers⟩ := (Families.run hrun).path_of_mem hcurrent
  obtain ⟨pre, rest, rfl⟩ := List.append_of_mem hmem
  have hsuffix : RotationPath (current :: rest) := hpath.suffix
  have hrows : ∀ token ∈ rest, token ∈ s.rows := by
    intro token htoken
    exact hmembers token (by simp [htoken])
  have hrevoked : current.revokedAt.isSome = true := by
    cases hsuffix with
    | last hnone => exact (hrotated hnone).elim
    | cons _ hlink _ => exact hlink.1
  rw [killsSession_iff hsuffix hcurrent hrows draw hhash hraw hrevoked hunexpired]
  simp only [descendant_iff hsuffix hrows, replacementChain_eq hsuffix hrows]
  refine or_congr_left ?_
  constructor
  · intro hshort depth
    exact (List.length_take_le' _ _).trans hshort
  · intro hshort
    have hfull := hshort rest.length
    rwa [List.take_length] at hfull

section LongSession

def nthText (i : ℕ) : String := String.ofList (List.replicate (i + 1) 'x')

theorem nthText_inj {i j : ℕ} : nthText i = nthText j ↔ i = j := by
  constructor
  · intro h
    have hlength := congrArg (fun text : String => text.toList.length) h
    simpa [nthText] using hlength
  · exact fun h => h ▸ rfl

def rotatedToken (i : ℕ) : RefreshToken :=
  ⟨nthText i, nthText i, "ann", refreshTtlMs, some 0, some (nthText (i + 1))⟩

def liveToken (i : ℕ) : RefreshToken :=
  ⟨nthText i, nthText i, "ann", refreshTtlMs, none, none⟩

/-- A session from its `k`-th token on, `n` rotations later. -/
def sessionFrom (k : ℕ) : ℕ → List RefreshToken
  | 0 => [liveToken k]
  | n + 1 => rotatedToken k :: sessionFrom (k + 1) n

def nthRefresh (i : ℕ) : AuthAction :=
  .refresh 0 ⟨nthText (i + 1), nthText (i + 1)⟩ (some (nthText i))

def rotationsRun (n : ℕ) : List AuthAction :=
  .issuePair 0 ⟨nthText 0, nthText 0⟩ "ann" :: (List.range n).map nthRefresh

theorem length_sessionFrom (k n : ℕ) : (sessionFrom k n).length = n + 1 := by
  induction n generalizing k with
  | zero => rfl
  | succ n ih => simp [sessionFrom, ih]

theorem mem_sessionFrom {k n : ℕ} {token : RefreshToken} (h : token ∈ sessionFrom k n) :
    ∃ i ≤ k + n, token.id = nthText i ∧ token.tokenHash = nthText i := by
  induction n generalizing k with
  | zero =>
      obtain rfl := List.mem_singleton.mp h
      exact ⟨k, le_rfl, rfl, rfl⟩
  | succ n ih =>
      rcases List.mem_cons.mp h with rfl | h
      · exact ⟨k, by omega, rfl, rfl⟩
      · obtain ⟨i, hi, hid, hhash⟩ := ih h
        exact ⟨i, by omega, hid, hhash⟩

theorem liveToken_mem (k n : ℕ) : liveToken (k + n) ∈ sessionFrom k n := by
  induction n generalizing k with
  | zero => exact List.mem_singleton.mpr rfl
  | succ n ih =>
      have hmem := ih (k + 1)
      rw [Nat.add_right_comm] at hmem
      exact List.mem_cons_of_mem _ hmem

theorem rotationPath_sessionFrom (k n : ℕ) : RotationPath (sessionFrom k n) := by
  induction n generalizing k with
  | zero => exact .last rfl
  | succ n ih =>
      have hrest := ih (k + 1)
      cases n with
      | zero => exact .cons rfl ⟨rfl, rfl⟩ hrest
      | succ n => exact .cons rfl ⟨rfl, rfl⟩ hrest

theorem sessionFrom_rotate (k n : ℕ) :
    (sessionFrom k n ++ [liveToken (k + n + 1)]).map (fun token =>
      if token.id == nthText (k + n) then token.replace 0 (nthText (k + n + 1)) else token) =
      sessionFrom k (n + 1) := by
  induction n generalizing k with
  | zero =>
      simp [sessionFrom, liveToken, rotatedToken, RefreshToken.replace, nthText_inj]
  | succ n ih =>
      have hrest := ih (k + 1)
      rw [Nat.add_right_comm k 1 n] at hrest
      have hne : k ≠ k + n + 1 := by omega
      rw [sessionFrom, List.cons_append, List.map_cons, sessionFrom]
      simp only [← Nat.add_assoc, hrest]
      rw [if_neg (by simpa [rotatedToken, nthText_inj] using hne)]

theorem nthRefresh_step {n : ℕ} (hs : s.rows = sessionFrom 0 n) :
    ∃ t, authStep id s (nthRefresh n) = some t ∧ t.rows = sessionFrom 0 (n + 1) := by
  have hlive : liveToken n ∈ s.rows := by
    rw [hs]
    simpa using liveToken_mem 0 n
  have hfind : s.findByHash (nthText n) = some (liveToken n) :=
    TokenStore.findByHash_eq_some_iff.mpr ⟨hlive, rfl⟩
  have hfresh : ∀ token ∈ s.rows, ¬ RefreshToken.Clash token (liveToken (n + 1)) := by
    intro token htoken hclash
    obtain ⟨i, hi, hid, hhash⟩ := mem_sessionFrom (hs ▸ htoken)
    have heq : i = n + 1 := by
      rcases hclash with hclash | hclash
      · exact nthText_inj.mp (hid.symm.trans hclash)
      · exact nthText_inj.mp (hhash.symm.trans hclash)
    omega
  obtain ⟨u, hu⟩ := Table.exists_insert hfresh
  have hfind' : TokenStore.findToken u (nthText n) = some (liveToken n) := by
    refine TokenStore.findToken_eq_some_iff.mpr ⟨?_, rfl⟩
    rw [Table.insert_rows hu]
    exact List.mem_append_left _ hlive
  refine ⟨u.updateWhere (fun token => token.id == nthText n) _
    (replace_keepsKeys 0 (nthText (n + 1))), ?_, ?_⟩
  · have hraw : nthText n ≠ "" := by simp [nthText, List.replicate_succ]
    have hunexpired : ¬ refreshTtlMs ≤ 0 := by decide
    have hcreate : s.create (nthText (n + 1)) (nthText (n + 1)) "ann" refreshTtlMs = .ok u := by
      rw [TokenStore.create, ← liveToken, hu]
    have hreplace : TokenStore.replace u (nthText n) 0 (nthText (n + 1)) =
        .ok (u.updateWhere (fun token => token.id == nthText n) _
          (replace_keepsKeys 0 (nthText (n + 1)))) := by
      rw [TokenStore.replace, hfind']
    simp [authStep, nthRefresh, refresh, hraw, refreshTx, hfind, hunexpired, hcreate, hreplace,
      Except.map, liveToken]
  · rw [Table.updateWhere_rows, Table.insert_rows hu, hs]
    simpa using sessionFrom_rotate 0 n

theorem rotationsRun_rows (n : ℕ) :
    ∃ s, exec (authStep id) Table.empty (rotationsRun n) = some s ∧ s.rows = sessionFrom 0 n := by
  induction n with
  | zero => exact ⟨_, rfl, rfl⟩
  | succ n ih =>
      obtain ⟨s, hs, hrows⟩ := ih
      obtain ⟨t, ht, hrows'⟩ := nthRefresh_step hrows
      refine ⟨t, ?_, hrows'⟩
      have hsplit : rotationsRun (n + 1) = rotationsRun n ++ [nthRefresh n] := by
        simp [rotationsRun, List.range_succ]
      rw [hsplit]
      exact exec_append_iff.mpr ⟨s, hs, by simpa using ht⟩

theorem replay_kills_session_iff_short :
    ∃ s, exec (authStep id) Table.empty (rotationsRun 1) = some s ∧
      (KillsSession id s 0 ⟨"replacement", "replacement"⟩ (nthText 0) (rotatedToken 0) ↔
        (∀ depth, (s.replacementChain depth (rotatedToken 0).replacedById).length ≤ 100) ∨
          ∀ token, Descendant s (rotatedToken 0) token → token.revokedAt.isSome = true) := by
  obtain ⟨s, hs, hrows⟩ := rotationsRun_rows 1
  have hcurrent : rotatedToken 0 ∈ s.rows := by simp [hrows, sessionFrom]
  exact ⟨s, hs, replay_kills_session_iff hs hcurrent rfl (by decide) (by decide) (by decide) _⟩

/-- After 101 rotations a replay of the first token leaves the session alive. -/
theorem replay_spares_long_session :
    ∃ s, exec (authStep id) Table.empty (rotationsRun 101) = some s ∧ rotatedToken 0 ∈ s.rows ∧
      ¬ KillsSession id s 0 ⟨"replacement", "replacement"⟩ (nthText 0) (rotatedToken 0) := by
  obtain ⟨s, hs, hrows⟩ := rotationsRun_rows 101
  have hsession : s.rows = rotatedToken 0 :: sessionFrom 1 100 := hrows
  have hpath : RotationPath (rotatedToken 0 :: sessionFrom 1 100) := rotationPath_sessionFrom 0 101
  have hcurrent : rotatedToken 0 ∈ s.rows := by simp [hsession]
  have hrest : ∀ token ∈ sessionFrom 1 100, token ∈ s.rows := fun token htoken => by
    rw [hsession]
    exact List.mem_cons_of_mem _ htoken
  refine ⟨s, hs, hcurrent, fun hkills => ?_⟩
  rcases (killsSession_iff hpath hcurrent hrest _ rfl (by decide) rfl (by decide)).mp hkills
    with hshort | hrevoked
  · rw [length_sessionFrom] at hshort
    exact absurd hshort (by decide)
  · have hlive := hrevoked _ (liveToken_mem 1 100)
    simp [liveToken] at hlive

end LongSession

end Eventify
