import Eventify.Auth.Sessions

/-!
# Families of refresh tokens

At any time the table splits into rotation paths, one for each `issuePair`:
every token points at its replacement, and only the last may be unrevoked.
-/

namespace Eventify

open Library

variable {hash : String → String} {s t : TokenStore} {a : AuthAction}

/-- A token that has been replaced is revoked and belongs to the same user. -/
def RotatedTo (a b : RefreshToken) : Prop := a.revokedAt.isSome = true ∧ a.userId = b.userId

/-- The tokens of one session, in the order of their rotations. -/
def RotationPath (family : List RefreshToken) : Prop :=
  Linked RefreshToken.id RefreshToken.replacedById RotatedTo family

def newToken (hash : String → String) (now : Time) (draw : TokenDraw) (userId : Uuid) :
    RefreshToken := ⟨draw.id, hash draw.raw, userId, now + refreshTtlMs, none, none⟩

inductive TokenStep (hash : String → String) (s : TokenStore) : AuthAction → TokenStore → Prop
  | unchanged {a : AuthAction} : TokenStep hash s a s
  | revokes {a : AuthAction} {p : RefreshToken → Bool} {now : Time} :
      TokenStep hash s a (s.revokeWhere p now)
  | issues {now : Time} {draw : TokenDraw} {userId : Uuid} {t : TokenStore}
      (hinsert : s.insert (newToken hash now draw userId) = some t) :
      TokenStep hash s (.issuePair now draw userId) t
  | rotates {now : Time} {draw : TokenDraw} {raw : String} {current : RefreshToken}
      {u : TokenStore} (hfind : s.findByHash (hash raw) = some current)
      (hlive : current.revokedAt = none)
      (hinsert : s.insert (newToken hash now draw current.userId) = some u) :
      TokenStep hash s (.refresh now draw (some raw))
        (u.updateWhere (fun token => token.id == current.id) _ (replace_keepsKeys now draw.id))

theorem TokenStore.findToken_eq_some_iff {id : Uuid} {token : RefreshToken} :
    s.findToken id = some token ↔ token ∈ s.rows ∧ token.id = id := by
  simpa [findToken] using Table.find_eq_some_iff (t := s) (token_selects_id id)

theorem TokenStore.findByHash_eq_some_iff {tokenHash : String} {token : RefreshToken} :
    s.findByHash tokenHash = some token ↔ token ∈ s.rows ∧ token.tokenHash = tokenHash := by
  simpa [findByHash] using Table.find_eq_some_iff (t := s) (token_selects_hash tokenHash)

theorem TokenStore.create_ok {id : Uuid} {tokenHash : String} {userId : Uuid} {expiresAt : Time}
    (h : s.create id tokenHash userId expiresAt = .ok t) :
    s.insert ⟨id, tokenHash, userId, expiresAt, none, none⟩ = some t := by
  unfold create at h
  split at h
  · simp at h
  · next hinsert => rw [hinsert, Except.ok.inj h]

theorem TokenStore.replace_ok {id : Uuid} {now : Time} {replacement : Uuid}
    (h : s.replace id now replacement = .ok t) :
    t = s.updateWhere (fun token => token.id == id) _ (replace_keepsKeys now replacement) := by
  unfold replace at h
  split at h
  · simp at h
  · exact (Except.ok.inj h).symm

theorem refresh_ok {now : Time} {draw : TokenDraw} {rawToken : Option String} {pair : TokenPair}
    (h : refresh hash now draw rawToken s = (.ok pair, t)) :
    ∃ raw current u, rawToken = some raw ∧ s.findByHash (hash raw) = some current ∧
      current.revokedAt = none ∧ s.insert (newToken hash now draw current.userId) = some u ∧
      t = u.updateWhere (fun token => token.id == current.id) _
        (replace_keepsKeys now draw.id) := by
  unfold refresh at h
  split at h
  · simp at h
  next raw =>
    split at h
    · simp at h
    · split at h
      · simp at h
      · simp at h
      next userId store htx =>
        obtain rfl := (Prod.mk.inj h).2
        unfold refreshTx at htx
        split at htx
        · simp at htx
        next current hfind =>
          split at htx
          · simp at htx
          · split at htx
            · simp at htx
            next hlive =>
              split at htx
              · simp at htx
              next u hcreate =>
                cases hreplace : TokenStore.replace u current.id now draw.id with
                | error failure => simp [hreplace, Except.map] at htx
                | ok v =>
                    simp only [hreplace, Except.map, Except.ok.injEq, Prod.mk.injEq] at htx
                    refine ⟨raw, current, u, rfl, hfind, by simpa using hlive,
                      TokenStore.create_ok hcreate, ?_⟩
                    rw [← htx.2]
                    exact TokenStore.replace_ok hreplace

theorem refresh_error {now : Time} {draw : TokenDraw} {rawToken : Option String}
    {failure : Failure} (h : refresh hash now draw rawToken s = (.error failure, t)) :
    t = s ∨ ∃ p, t = s.revokeWhere p now := by
  unfold refresh at h
  split at h
  · exact .inl (Prod.mk.inj h).2.symm
  next raw =>
    split at h
    · exact .inl (Prod.mk.inj h).2.symm
    · split at h
      · exact .inl (Prod.mk.inj h).2.symm
      next store htx =>
        obtain rfl := (Prod.mk.inj h).2
        unfold refreshTx at htx
        split at htx
        · simp only [Except.ok.injEq, Prod.mk.injEq, true_and] at htx
          exact .inl htx.symm
        next current hfind =>
          split at htx
          · simp only [Except.ok.injEq, Prod.mk.injEq, true_and] at htx
            exact .inl htx.symm
          · split at htx
            · simp only [Except.ok.injEq, Prod.mk.injEq, true_and] at htx
              rw [TokenStore.revokeReplacementChain_eq] at htx
              exact .inr ⟨_, htx.symm⟩
            · split at htx
              · simp at htx
              next u hcreate =>
                cases hreplace : TokenStore.replace u current.id now draw.id <;>
                  simp [hreplace, Except.map] at htx
      · simp at h

theorem authStep_cases (h : authStep hash s a = some t) : TokenStep hash s a t := by
  cases a with
  | issuePair now draw userId =>
      cases h
      unfold issuePair
      split
      · exact .unchanged
      next hcreate => exact .issues (TokenStore.create_ok hcreate)
  | refresh now draw rawToken =>
      cases hrefresh : refresh hash now draw rawToken s with
      | mk result u =>
          simp only [authStep, hrefresh, Option.some.injEq] at h
          subst h
          cases result with
          | error failure =>
              rcases refresh_error hrefresh with rfl | ⟨p, rfl⟩
              · exact .unchanged
              · exact .revokes
          | ok pair =>
              obtain ⟨raw, current, v, rfl, hfind, hlive, hinsert, rfl⟩ := refresh_ok hrefresh
              exact .rotates hfind hlive hinsert
  | logout now rawToken =>
      cases h
      unfold logout
      split
      · exact .unchanged
      · split
        · exact .unchanged
        · exact .revokes

theorem RotationPath.revokeIf {family : List RefreshToken} (h : RotationPath family)
    (p : RefreshToken → Bool) (now : Time) : RotationPath (family.map (·.revokeIf p now)) := by
  refine Linked.map _ h (fun token _ => token.revokeIf_id p now)
    (fun token _ => token.revokeIf_replacedById p now) ?_
  rintro token _ next _ ⟨hrevoked, huser⟩
  -- a replaced token is revoked already, so only its successor can change
  rw [token.revokeIf_of_revoked p now hrevoked]
  exact ⟨hrevoked, by rw [huser, RefreshToken.revokeIf_userId]⟩

/-- The table splits into `n` rotation paths. -/
def Families (s : TokenStore) (n : ℕ) : Prop :=
  ∃ families : List (List RefreshToken), families.flatten.Perm s.rows ∧ families.length = n ∧
    ∀ family ∈ families, RotationPath family

theorem Families.revoke {n : ℕ} (h : Families s n) (p : RefreshToken → Bool) (now : Time) :
    Families (s.revokeWhere p now) n := by
  obtain ⟨families, hperm, hlength, hpath⟩ := h
  refine ⟨families.map (List.map (·.revokeIf p now)), ?_, by simpa using hlength, ?_⟩
  · rw [← List.map_flatten, TokenStore.revokeWhere_rows]
    exact hperm.map _
  · intro family hfamily
    obtain ⟨old, hold, rfl⟩ := List.mem_map.mp hfamily
    exact (hpath old hold).revokeIf p now

theorem Families.issue {n : ℕ} (h : Families s n) {now : Time} {draw : TokenDraw} {userId : Uuid}
    (hinsert : s.insert (newToken hash now draw userId) = some t) : Families t (n + 1) := by
  obtain ⟨families, hperm, hlength, hpath⟩ := h
  refine ⟨families ++ [[newToken hash now draw userId]], ?_, by simp [hlength], ?_⟩
  · rw [Table.insert_rows hinsert, List.flatten_append]
    exact hperm.append_right _
  · intro family hfamily
    rcases List.mem_append.mp hfamily with hold | hnew
    · exact hpath family hold
    · obtain rfl := List.mem_singleton.mp hnew
      exact .last rfl

theorem Families.rotate {n : ℕ} (h : Families s n) {now : Time} {draw : TokenDraw}
    {current : RefreshToken} {u : TokenStore} (hcurrent : current ∈ s.rows)
    (hlive : current.revokedAt = none)
    (hinsert : s.insert (newToken hash now draw current.userId) = some u) :
    Families (u.updateWhere (fun token => token.id == current.id) _
      (replace_keepsKeys now draw.id)) n := by
  obtain ⟨families, hperm, hlength, hpath⟩ := h
  obtain ⟨family, hfamily, hmem⟩ := List.mem_flatten.mp (hperm.mem_iff.mpr hcurrent)
  obtain ⟨pre, rfl, -⟩ := (hpath family hfamily).ends_at hmem fun b hlink => by
    simp [RotatedTo, hlive] at hlink
  obtain ⟨front, back, rfl⟩ := List.append_of_mem hfamily
  have hfind : u.find (fun token => token.id == current.id) = some current := by
    have hold := TokenStore.findToken_eq_some_iff.mpr ⟨hcurrent, rfl⟩
    rw [TokenStore.findToken] at hold
    rw [Table.find_insert hinsert, hold, Option.some_or]
  obtain ⟨l, r, hlr, -, hupdate⟩ := Table.exists_split (token_selects_id current.id) hfind
  have hrows := Table.insert_rows hinsert
  generalize hnew : newToken hash now draw current.userId = new at *
  refine ⟨front ++ (pre ++ [current.replace now draw.id, new]) :: back, ?_, by simpa using hlength,
    ?_⟩
  · rw [hupdate]
    apply List.perm_iff_count.mpr
    intro x
    have hbefore := hperm.count_eq x
    have hinserted := congrArg (List.count x) (hlr.symm.trans hrows)
    simp only [List.flatten_append, List.flatten_cons, List.count_append, List.count_cons,
      List.count_nil] at hbefore hinserted ⊢
    omega
  · intro f hf
    rcases List.mem_append.mp hf with hf | hf
    · exact hpath f (List.mem_append_left _ hf)
    · rcases List.mem_cons.mp hf with rfl | hf
      · refine (hpath _ hfamily).grow rfl ?_ ?_ ?_ ?_
        · rintro c ⟨hrevoked, huser⟩
          exact ⟨hrevoked, huser⟩
        · rw [← hnew]
          rfl
        · rw [← hnew]
          exact ⟨rfl, rfl⟩
        · rw [← hnew]
          rfl
      · exact hpath f (List.mem_append_right _ (List.mem_cons_of_mem _ hf))

def issued (hash : String → String) (s : TokenStore) (a : AuthAction) (_ : TokenStore) : ℕ :=
  match a with
  | .issuePair now draw userId => if (issuePair hash now draw userId s).1.isOk then 1 else 0
  | _ => 0

/-- The refreshes with a raw token that a step answers with a new pair. -/
def refreshed (hash : String → String) (raw : String) (s : TokenStore) (a : AuthAction)
    (_ : TokenStore) : ℕ :=
  match a with
  | .refresh now draw rawToken =>
      if rawToken = some raw ∧ (refresh hash now draw rawToken s).1.isOk then 1 else 0
  | _ => 0

theorem Families.step {n : ℕ} (h : Families s n) (hstep : authStep hash s a = some t) :
    Families t (n + issued hash s a t) := by
  cases a with
  | issuePair now draw userId =>
      cases hstep
      cases hcreate : s.create draw.id (hash draw.raw) userId (now + refreshTtlMs) with
      | error failure => simpa [issued, issuePair, hcreate, Except.isOk, Except.toBool] using h
      | ok u =>
          simpa [issued, issuePair, hcreate, Except.isOk, Except.toBool] using
            h.issue (TokenStore.create_ok hcreate)
  | refresh now draw rawToken =>
      cases authStep_cases hstep with
      | unchanged => exact h
      | revokes => exact h.revoke _ _
      | rotates hfind hlive hinsert =>
          exact h.rotate (TokenStore.findByHash_eq_some_iff.mp hfind).1 hlive hinsert
  | logout now rawToken =>
      cases authStep_cases hstep with
      | unchanged => exact h
      | revokes => exact h.revoke _ _

theorem Families.run {acts : List AuthAction}
    (hrun : exec (authStep hash) Table.empty acts = some s) :
    Families s (tally (authStep hash) (issued hash) Table.empty acts) := by
  have hempty : Families Table.empty 0 := ⟨[], by simp, rfl, by simp⟩
  have hfamilies := exec_counts (fun _ _ _ _ h => Families.step h) hempty hrun
  rwa [Nat.zero_add] at hfamilies

theorem Families.path_of_mem {n : ℕ} (h : Families s n) {token : RefreshToken}
    (htoken : token ∈ s.rows) :
    ∃ family, token ∈ family ∧ RotationPath family ∧ ∀ member ∈ family, member ∈ s.rows := by
  obtain ⟨families, hperm, -, hpath⟩ := h
  obtain ⟨family, hfamily, hmem⟩ := List.mem_flatten.mp (hperm.mem_iff.mpr htoken)
  refine ⟨family, hmem, hpath family hfamily, ?_⟩
  intro member hmember
  exact hperm.mem_iff.mp (List.mem_flatten.mpr ⟨family, hfamily, hmember⟩)

theorem token_id_inj {token token' : RefreshToken} (h : token ∈ s.rows) (h' : token' ∈ s.rows)
    (hid : token'.id = token.id) : token' = token := by
  have hfind := TokenStore.findToken_eq_some_iff.mpr ⟨h, rfl⟩
  have hfind' := TokenStore.findToken_eq_some_iff.mpr ⟨h', hid⟩
  exact Option.some.inj (hfind'.symm.trans hfind)

theorem TokenStep.kept (h : TokenStep hash s a t) {token : RefreshToken} (htoken : token ∈ s.rows) :
    ∃ token' ∈ t.rows, token'.id = token.id ∧ token'.tokenHash = token.tokenHash ∧
      (token.revokedAt.isSome = true → token'.revokedAt = token.revokedAt) := by
  cases h with
  | unchanged => exact ⟨token, htoken, rfl, rfl, fun _ => rfl⟩
  | @revokes _ p now =>
      refine ⟨token.revokeIf p now, List.mem_map.mpr ⟨token, htoken, rfl⟩, by simp, by simp, ?_⟩
      intro hrevoked
      rw [token.revokeIf_of_revoked p now hrevoked]
  | issues hinsert =>
      refine ⟨token, ?_, rfl, rfl, fun _ => rfl⟩
      rw [Table.insert_rows hinsert]
      exact List.mem_append_left _ htoken
  | @rotates now draw raw current u hfind hlive hinsert =>
      have hu : token ∈ u.rows := by
        rw [Table.insert_rows hinsert]
        exact List.mem_append_left _ htoken
      refine ⟨_, List.mem_map.mpr ⟨token, hu, rfl⟩, ?_⟩
      by_cases hid : token.id = current.id
      · have hcurrent := (TokenStore.findByHash_eq_some_iff.mp hfind).1
        obtain rfl := token_id_inj hcurrent htoken hid
        rw [if_pos (by simp)]
        exact ⟨rfl, rfl, fun hrevoked => by simp [hlive] at hrevoked⟩
      · rw [if_neg (by simpa using hid)]
        exact ⟨rfl, rfl, fun _ => rfl⟩

def KeepsRevoked (hash : String → String) (s : TokenStore) (a : AuthAction) : Prop :=
  ∀ t, authStep hash s a = some t → ∀ token ∈ s.rows, ∀ token' ∈ t.rows, token'.id = token.id →
    token.revokedAt.isSome = true → token'.revokedAt = token.revokedAt

theorem keepsRevoked (hash : String → String) (s : TokenStore) (a : AuthAction) :
    KeepsRevoked hash s a := by
  intro t h token htoken token' htoken' hid hrevoked
  obtain ⟨kept, hkept, hkeptid, -, hsame⟩ := (authStep_cases h).kept htoken
  obtain rfl := token_id_inj hkept htoken' (hid.trans hkeptid.symm)
  exact hsame hrevoked

/-- A raw token was used for no refresh, or for one that revoked its row. -/
def UsedOnce (hash : String → String) (raw : String) (s : TokenStore) (n : ℕ) : Prop :=
  n = 0 ∨ (n = 1 ∧ ∃ token ∈ s.rows, token.tokenHash = hash raw ∧ token.revokedAt.isSome = true)

theorem UsedOnce.step {raw : String} {n : ℕ} (h : UsedOnce hash raw s n)
    (hstep : authStep hash s a = some t) : UsedOnce hash raw t (n + refreshed hash raw s a t) := by
  by_cases hused : refreshed hash raw s a t = 0
  · rw [hused, Nat.add_zero]
    rcases h with rfl | ⟨rfl, token, htoken, htokenHash, hrevoked⟩
    · exact .inl rfl
    · obtain ⟨kept, hkept, -, hkeptHash, hsame⟩ := (authStep_cases hstep).kept htoken
      exact .inr ⟨rfl, kept, hkept, hkeptHash.trans htokenHash, by rw [hsame hrevoked, hrevoked]⟩
  · cases a with
    | issuePair now draw userId => exact (hused rfl).elim
    | logout now rawToken => exact (hused rfl).elim
    | refresh now draw rawToken =>
        obtain ⟨rfl, hok⟩ : rawToken = some raw ∧
            (refresh hash now draw rawToken s).1.isOk = true := by
          by_contra hnot
          simp [refreshed, hnot] at hused
        cases hrefresh : refresh hash now draw (some raw) s with
        | mk result u =>
            obtain rfl : u = t := by simpa [authStep, hrefresh] using hstep
            cases result with
            | error failure => simp [hrefresh, Except.isOk, Except.toBool] at hok
            | ok pair =>
                obtain ⟨raw', current, v, hraw, hfind, hlive, hinsert, rfl⟩ := refresh_ok hrefresh
                cases hraw
                obtain ⟨hcurrent, hhash⟩ := TokenStore.findByHash_eq_some_iff.mp hfind
                have hfirst : n = 0 := by
                  rcases h with rfl | ⟨-, token, htoken, htokenHash, hrevoked⟩
                  · rfl
                  · have hfind' := TokenStore.findByHash_eq_some_iff.mpr ⟨htoken, htokenHash⟩
                    obtain rfl := Option.some.inj (hfind'.symm.trans hfind)
                    simp [hlive] at hrevoked
                refine .inr ⟨?_, current.replace now draw.id, ?_, hhash, rfl⟩
                · simp [hfirst, refreshed, hrefresh, Except.isOk, Except.toBool]
                · refine List.mem_map.mpr ⟨current, ?_, by simp⟩
                  rw [Table.insert_rows hinsert]
                  exact List.mem_append_left _ hcurrent

/-- Every run of signups, logins, refreshes and logouts from an empty table
leaves one rotation path for each pair issued, undoes no revocation, and
answers each raw token at most once. -/
theorem refresh_token_families {acts : List AuthAction}
    (hrun : exec (authStep hash) Table.empty acts = some s) :
    (∃ families : List (List RefreshToken), families.flatten.Perm s.rows ∧
      (families.flatten.map RefreshToken.id).Nodup ∧
      families.length = tally (authStep hash) (issued hash) Table.empty acts ∧
      ∀ family ∈ families, RotationPath family ∧
        (∀ a ∈ family, ∀ b ∈ family, a.userId = b.userId) ∧
        ∀ token ∈ family.dropLast, token.revokedAt.isSome = true) ∧
    Along (authStep hash) (KeepsRevoked hash) Table.empty acts ∧
    ∀ raw, tally (authStep hash) (refreshed hash raw) Table.empty acts ≤ 1 := by
  refine ⟨?_, along_of_forall_mem fun a _ s => keepsRevoked hash s a, fun raw => ?_⟩
  · obtain ⟨families, hperm, hlength, hpath⟩ := Families.run hrun
    have hnodup : (s.rows.map RefreshToken.id).Nodup :=
      List.pairwise_map.mpr (s.unique.imp fun hclash hid => hclash (.inl hid))
    refine ⟨families, hperm, (hperm.map _).nodup_iff.mpr hnodup, hlength, ?_⟩
    intro family hfamily
    refine ⟨hpath family hfamily, (hpath family hfamily).const _ fun a b hlink => hlink.2, ?_⟩
    intro token htoken
    obtain ⟨next, hlink⟩ := (hpath family hfamily).linked_of_mem_dropLast htoken
    exact hlink.1
  · have hstep : ∀ s a t n, UsedOnce hash raw s n → authStep hash s a = some t →
        UsedOnce hash raw t (n + refreshed hash raw s a t) := fun _ _ _ _ h => h.step
    have hused := exec_counts hstep (.inl rfl) hrun
    rcases hused with hnone | ⟨hone, -⟩ <;> omega

def sessionsRun : List AuthAction :=
  [.issuePair 0 ⟨"1", "a"⟩ "ann", .issuePair 0 ⟨"2", "b"⟩ "bob", .issuePair 0 ⟨"3", "c"⟩ "ann",
    .refresh 1 ⟨"4", "d"⟩ (some "a"), .refresh 2 ⟨"5", "e"⟩ (some "d"),
    .refresh 3 ⟨"6", "f"⟩ (some "a"), .logout 4 (some "c")]

theorem refresh_token_families_sessions :
    ∃ s, exec (authStep id) Table.empty sessionsRun = some s ∧
      ∃ families : List (List RefreshToken),
        families.flatten.Perm s.rows ∧ families.length = 3 := by
  obtain ⟨s, hs⟩ : ∃ s, exec (authStep id) Table.empty sessionsRun = some s := ⟨_, rfl⟩
  obtain ⟨families, hperm, -, hlength, -⟩ := (refresh_token_families hs).1
  exact ⟨s, hs, families, hperm, hlength.trans (by decide)⟩

end Eventify
