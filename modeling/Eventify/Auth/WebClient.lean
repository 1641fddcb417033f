import Eventify.Auth.Logout

/-!
# Refreshes of one browser tab

`request` and the initial effect decide on their own to call
`refreshSession`. The browser attaches the cookie when the fetch is sent and
stores the new one when the response arrives, so two refreshes that overlap
carry the same token and the server takes the second for a replay.
-/

namespace Eventify

open Library

variable {hash : String → String}

/-- Where a call of the tab is. The initial effect refreshes when the first
events are loaded, `request` when its first response has status 401. -/
inductive CallStage where
  | loading
  | requested (retry : Bool)
  | refreshing (cookie : Option String)
  | refreshed (result : Except Failure TokenPair)
  | identifying
  | retrying
  | finished

/-- A refresh is in flight from its fetch to the arrival of its response. -/
def CallStage.InFlight : CallStage → Prop
  | .refreshing _ | .refreshed _ => True
  | _ => False

/-- The tab with the server's token store. `presented` and `refused` are
history: the tokens `refresh` was given, and whether it turned one away. -/
structure WebSystem where
  store : TokenStore
  cookie : Option String
  calls : ℕ → Option CallStage
  presented : List String
  refused : Bool

inductive WebAction where
  | mount (c : ℕ)
  | request (c : ℕ) (retry : Bool)
  | loaded (c : ℕ)
  | respond (c : ℕ) (status : ℕ)
  | serve (c : ℕ) (now : Time) (draw : TokenDraw)
  | receive (c : ℕ)
  | identified (c : ℕ)
  | retried (c : ℕ)

namespace WebSystem

def start (store : TokenStore) (raw : String) : WebSystem where
  store := store
  cookie := some raw
  calls := fun _ => none
  presented := []
  refused := false

def setCall (s : WebSystem) (c : ℕ) (stage : CallStage) : WebSystem :=
  { s with calls := Function.update s.calls c (some stage) }

/-- `refreshSession` sends its fetch. -/
def refreshSession (s : WebSystem) (c : ℕ) : WebSystem := s.setCall c (.refreshing s.cookie)

def InFlight (s : WebSystem) (c : ℕ) : Prop := ∃ stage, s.calls c = some stage ∧ stage.InFlight

end WebSystem

def webStep (hash : String → String) (s : WebSystem) : WebAction → Option WebSystem
  | .mount c =>
      match s.calls c with
      | none => some (s.setCall c .loading)
      | some _ => none
  | .request c retry =>
      match s.calls c with
      | none => some (s.setCall c (.requested retry))
      | some _ => none
  | .loaded c =>
      match s.calls c with
      | some .loading => some (s.refreshSession c)
      | _ => none
  | .respond c status =>
      match s.calls c with
      | some (.requested retry) =>
          if status ≠ 401 ∨ retry = false then some (s.setCall c .finished)
          else some (s.refreshSession c)
      | _ => none
  | .serve c now draw =>
      match s.calls c with
      | some (.refreshing cookie) =>
          if draw.Fresh hash s.store then
            let answer := refresh hash now draw cookie s.store
            some { s.setCall c (.refreshed answer.1) with
              store := answer.2, presented := s.presented ++ cookie.toList }
          else none
      | _ => none
  | .receive c =>
      match s.calls c with
      | some (.refreshed (.ok pair)) =>
          some { s.setCall c .identifying with cookie := some pair.refreshToken }
      | some (.refreshed (.error _)) => some { s.setCall c .finished with refused := true }
      | _ => none
  | .identified c =>
      match s.calls c with
      | some .identifying => some (s.setCall c .retrying)
      | _ => none
  | .retried c =>
      match s.calls c with
      | some .retrying => some (s.setCall c .finished)
      | _ => none

/-- The step sends the fetch of a refresh. -/
def SendsRefresh (s : WebSystem) : WebAction → Prop
  | .loaded c => s.calls c = some .loading
  | .respond c status => status = 401 ∧ s.calls c = some (.requested true)
  | _ => False

/-- A refresh is sent only when no other is in flight and none was refused. -/
def RefreshesAlone (s : WebSystem) (a : WebAction) : Prop :=
  SendsRefresh s a → s.refused = false ∧ ∀ c, ¬ s.InFlight c

variable {s t : WebSystem} {a : WebAction}

inductive WebChange (hash : String → String) (s : WebSystem) (a : WebAction) : WebSystem → Prop
  | proceeds {c : ℕ} {stage : CallStage} (hold : ¬ s.InFlight c) (hnew : ¬ stage.InFlight)
      (hsends : ¬ SendsRefresh s a) : WebChange hash s a (s.setCall c stage)
  | sends {c : ℕ} (hold : ¬ s.InFlight c) (hsends : SendsRefresh s a) :
      WebChange hash s a (s.refreshSession c)
  | serves {c : ℕ} {cookie : Option String} {now : Time} {draw : TokenDraw}
      {result : Except Failure TokenPair} {store : TokenStore}
      (hcall : s.calls c = some (.refreshing cookie)) (hfresh : draw.Fresh hash s.store)
      (hanswer : refresh hash now draw cookie s.store = (result, store))
      (hsends : ¬ SendsRefresh s a) :
      WebChange hash s a { s.setCall c (.refreshed result) with
        store, presented := s.presented ++ cookie.toList }
  | accepts {c : ℕ} {pair : TokenPair} (hcall : s.calls c = some (.refreshed (.ok pair)))
      (hsends : ¬ SendsRefresh s a) :
      WebChange hash s a { s.setCall c .identifying with cookie := some pair.refreshToken }
  | rejects {c : ℕ} {failure : Failure}
      (hcall : s.calls c = some (.refreshed (.error failure))) (hsends : ¬ SendsRefresh s a) :
      WebChange hash s a { s.setCall c .finished with refused := true }

theorem WebSystem.not_inFlight {c : ℕ} {stage : CallStage} (hcall : s.calls c = some stage)
    (hstage : ¬ stage.InFlight) : ¬ s.InFlight c := by
  rintro ⟨other, hother, hflight⟩
  obtain rfl := Option.some.inj (hcall.symm.trans hother)
  exact hstage hflight

theorem webStep_change (h : webStep hash s a = some t) : WebChange hash s a t := by
  cases a with
  | mount c | request c retry =>
      simp only [webStep] at h
      split at h
      · next hnone =>
        cases h
        refine .proceeds ?_ id id
        rintro ⟨stage, hstage, -⟩
        simp [hnone] at hstage
      · cases h
  | loaded c =>
      simp only [webStep] at h
      split at h <;> cases h
      next hcall => exact .sends (WebSystem.not_inFlight hcall id) hcall
  | respond c status =>
      simp only [webStep] at h
      split at h
      · next retry hcall =>
        have hidle : ¬ s.InFlight c := WebSystem.not_inFlight hcall id
        split at h
        · next hdone =>
          cases h
          refine .proceeds hidle id ?_
          rintro ⟨hstatus, hretry⟩
          rw [hcall] at hretry
          cases hretry
          simp [hstatus] at hdone
        · next hretry =>
          cases h
          obtain ⟨hstatus, hretry⟩ := not_or.mp hretry
          obtain rfl : retry = true := by simpa using hretry
          exact .sends hidle ⟨not_not.mp hstatus, hcall⟩
      · cases h
  | serve c now draw =>
      simp only [webStep] at h
      split at h
      · next cookie hcall =>
        split at h
        · next hfresh =>
          cases h
          exact .serves hcall hfresh rfl id
        · cases h
      · cases h
  | receive c =>
      simp only [webStep] at h
      split at h <;> cases h
      · next hcall => exact .accepts hcall id
      · next hcall => exact .rejects hcall id
  | identified c | retried c =>
      simp only [webStep] at h
      split at h <;> cases h
      next hcall => exact .proceeds (WebSystem.not_inFlight hcall id) id id

/-- The raw token of an unrevoked row, on the rotation path through the row
with the given id. -/
def LiveIn (hash : String → String) (store : TokenStore) (first : Uuid) (raw : String) : Prop :=
  ∃ family token, RotationPath family ∧ (∀ member ∈ family, member ∈ store.rows) ∧
    (∃ member ∈ family, member.id = first) ∧ token ∈ family ∧ token.tokenHash = hash raw ∧
    token.revokedAt = none

/-- The session that the row with the given id belongs to has an unrevoked
token. -/
def SessionAlive (store : TokenStore) (first : Uuid) : Prop :=
  ∃ family, RotationPath family ∧ (∀ member ∈ family, member ∈ store.rows) ∧
    (∃ member ∈ family, member.id = first) ∧ ∃ token ∈ family, token.revokedAt = none

theorem LiveIn.alive {store : TokenStore} {first : Uuid} {raw : String}
    (h : LiveIn hash store first raw) : SessionAlive store first := by
  obtain ⟨family, token, hpath, hrows, hfirst, htoken, -, hlive⟩ := h
  exact ⟨family, hpath, hrows, hfirst, token, htoken, hlive⟩

theorem RotationPath.rotate {store u : TokenStore} {pre : List RefreshToken} {token : RefreshToken}
    {now : Time} {draw : TokenDraw} (hpath : RotationPath (pre ++ [token]))
    (hrows : ∀ member ∈ pre ++ [token], member ∈ store.rows) (hlive : token.revokedAt = none)
    (hinsert : store.insert (newToken hash now draw token.userId) = some u) :
    RotationPath (pre ++ [token.replace now draw.id, newToken hash now draw token.userId]) ∧
      ∀ member ∈ pre ++ [token.replace now draw.id, newToken hash now draw token.userId],
        member ∈ (u.updateWhere (fun stored => stored.id == token.id) _
          (replace_keepsKeys now draw.id)).rows := by
  have hold : ∀ member ∈ pre ++ [token], member ∈ u.rows := by
    intro member hmember
    rw [Table.insert_rows hinsert]
    exact List.mem_append_left _ (hrows member hmember)
  have hnew : newToken hash now draw token.userId ∈ u.rows := by
    rw [Table.insert_rows hinsert]
    exact List.mem_append_right _ List.mem_cons_self
  have htoken : token ∈ u.rows := hold token (by simp)
  constructor
  · refine hpath.grow rfl ?_ rfl ⟨rfl, rfl⟩ rfl
    rintro member ⟨hrevoked, huser⟩
    exact ⟨hrevoked, huser⟩
  · have hkept : ∀ member ∈ u.rows, member ≠ token → member ∈ (u.updateWhere
        (fun stored => stored.id == token.id) _ (replace_keepsKeys now draw.id)).rows := by
      intro member hmember hne
      refine List.mem_map.mpr ⟨member, hmember, ?_⟩
      rw [if_neg]
      intro hid
      exact hne (token_id_inj htoken hmember (beq_iff_eq.mp hid))
    intro member hmember
    rcases List.mem_append.mp hmember with hpre | hlast
    · apply hkept member (hold member (List.mem_append_left _ hpre))
      rintro rfl
      obtain ⟨next, hrevoked, -⟩ := hpath.linked_of_mem_dropLast (a := member) (by simpa using hpre)
      simp [hlive] at hrevoked
    · rcases List.mem_cons.mp hlast with rfl | hlast
      · exact List.mem_map.mpr ⟨token, htoken, by simp⟩
      · rw [List.mem_singleton.mp hlast]
        apply hkept _ hnew
        intro heq
        have hclash := (Table.insert_eq_some_iff.mp hinsert).1 token (hrows token (by simp))
        exact hclash (.inl (congrArg RefreshToken.id heq).symm)

/-- The live token of a session is exchanged for the next one, or has expired. -/
theorem LiveIn.refresh {store : TokenStore} {first : Uuid} {raw : String}
    (h : LiveIn hash store first raw) (hraw : raw ≠ "") {now : Time} {draw : TokenDraw}
    (hfresh : draw.Fresh hash store) {result : Except Failure TokenPair} {u : TokenStore}
    (hanswer : refresh hash now draw (some raw) store = (result, u)) :
    (∃ failure, result = .error failure ∧ u = store) ∨
      ∃ sub, result = .ok ⟨sub, draw.raw⟩ ∧ LiveIn hash u first draw.raw := by
  obtain ⟨family, token, hpath, hrows, ⟨member, hmember, hfirst⟩, htoken, hhash, hlive⟩ := h
  have hfind := TokenStore.findByHash_eq_some_iff.mpr ⟨hrows token htoken, hhash⟩
  by_cases hexpired : token.expiresAt ≤ now
  · left
    have hrefused : Eventify.refresh hash now draw (some raw) store =
        (.error invalidRefreshToken, store) := by
      simp [Eventify.refresh, hraw, refreshTx, hfind, hexpired]
    rw [hrefused] at hanswer
    cases hanswer
    exact ⟨_, rfl, rfl⟩
  · right
    have hgood : ¬ Spent now token := by simp [Spent, hlive, hexpired]
    have hok := refresh_live (hrows token htoken) hhash.symm hraw hgood hfresh.2
    rw [hanswer] at hok
    cases hok
    obtain ⟨raw', current, v, hraw', hfind', -, hinsert, rfl⟩ := refresh_ok hanswer
    cases hraw'
    obtain rfl := Option.some.inj (hfind.symm.trans hfind')
    obtain ⟨pre, rfl, -⟩ := hpath.ends_at htoken fun b hlink => by simp [RotatedTo, hlive] at hlink
    obtain ⟨hgrown, hmembers⟩ := hpath.rotate hrows hlive hinsert
    refine ⟨_, rfl, _, newToken hash now draw token.userId, hgrown, hmembers, ?_, by simp, rfl, rfl⟩
    rcases List.mem_append.mp hmember with hpre | hlast
    · exact ⟨member, List.mem_append_left _ hpre, hfirst⟩
    · rw [List.mem_singleton.mp hlast] at hfirst
      exact ⟨token.replace now draw.id, by simp, hfirst⟩

/-- The refreshes of the tab one at a time: `raw` is the token in the cookie. -/
inductive OneRefresh (hash : String → String) (first : Uuid) (s : WebSystem) (raw : String) : Prop
  | idle (hquiet : ∀ c, ¬ s.InFlight c) (hrefused : s.refused = false) (hnew : raw ∉ s.presented)
      (hlive : LiveIn hash s.store first raw)
  | ended (hquiet : ∀ c, ¬ s.InFlight c) (hrefused : s.refused = true) (hold : raw ∈ s.presented)
      (hlive : LiveIn hash s.store first raw)
  | sent {c : ℕ} (hcall : s.calls c = some (.refreshing (some raw)))
      (honly : ∀ d, s.InFlight d → d = c) (hrefused : s.refused = false)
      (hnew : raw ∉ s.presented) (hlive : LiveIn hash s.store first raw)
  | accepted {c : ℕ} {pair : TokenPair} (hcall : s.calls c = some (.refreshed (.ok pair)))
      (honly : ∀ d, s.InFlight d → d = c) (hrefused : s.refused = false)
      (hold : raw ∈ s.presented) (hnew : pair.refreshToken ∉ s.presented)
      (hraw : pair.refreshToken ≠ "") (hlive : LiveIn hash s.store first pair.refreshToken)
  | rejected {c : ℕ} {failure : Failure}
      (hcall : s.calls c = some (.refreshed (.error failure)))
      (honly : ∀ d, s.InFlight d → d = c) (hold : raw ∈ s.presented)
      (hlive : LiveIn hash s.store first raw)

structure TabInv (hash : String → String) (first : Uuid) (s : WebSystem) : Prop where
  cookie : ∃ raw, s.cookie = some raw ∧ raw ≠ "" ∧ OneRefresh hash first s raw
  nodup : s.presented.Nodup
  known : ∀ raw ∈ s.presented, ∃ token ∈ s.store.rows, token.tokenHash = hash raw

theorem WebSystem.inFlight_update {c d : ℕ} {stage : CallStage} {u : WebSystem}
    (hcalls : u.calls = Function.update s.calls c (some stage)) (hd : u.InFlight d) :
    (d = c ∧ stage.InFlight) ∨ (d ≠ c ∧ s.InFlight d) := by
  obtain ⟨other, hother, hflight⟩ := hd
  rw [hcalls] at hother
  by_cases hdc : d = c
  · subst hdc
    rw [Function.update_self] at hother
    cases hother
    exact .inl ⟨rfl, hflight⟩
  · rw [Function.update_of_ne hdc] at hother
    exact .inr ⟨hdc, other, hother, hflight⟩

section OneRefresh

variable {first : Uuid} {raw : String}

/-- A call that is no refresh leaves the one in flight as it is. -/
theorem OneRefresh.proceeds (h : OneRefresh hash first s raw) {c : ℕ} {stage : CallStage}
    (hold : ¬ s.InFlight c) (hstage : ¬ stage.InFlight) :
    OneRefresh hash first (s.setCall c stage) raw := by
  have hback : ∀ d, (s.setCall c stage).InFlight d → s.InFlight d := by
    intro d hd
    rcases WebSystem.inFlight_update rfl hd with ⟨-, hflight⟩ | ⟨-, hd⟩
    · exact (hstage hflight).elim
    · exact hd
  have hcalls : ∀ d other, s.calls d = some other → other.InFlight →
      (s.setCall c stage).calls d = some other := by
    intro d other hother hflight
    have hdc : d ≠ c := fun heq => hold (heq ▸ ⟨other, hother, hflight⟩)
    simp [WebSystem.setCall, hdc, hother]
  cases h with
  | idle hquiet hrefused hnew hlive =>
      exact .idle (fun d hd => hquiet d (hback d hd)) hrefused hnew hlive
  | ended hquiet hrefused hold hlive =>
      exact .ended (fun d hd => hquiet d (hback d hd)) hrefused hold hlive
  | sent hcall honly hrefused hnew hlive =>
      exact .sent (hcalls _ _ hcall trivial) (fun d hd => honly d (hback d hd)) hrefused hnew hlive
  | accepted hcall honly hrefused hold hnew hraw hlive =>
      exact .accepted (hcalls _ _ hcall trivial) (fun d hd => honly d (hback d hd)) hrefused hold
        hnew hraw hlive
  | rejected hcall honly hold hlive =>
      exact .rejected (hcalls _ _ hcall trivial) (fun d hd => honly d (hback d hd)) hold hlive

theorem OneRefresh.sends (h : OneRefresh hash first s raw) (hcookie : s.cookie = some raw) (c : ℕ)
    (hrefused : s.refused = false) (hquiet : ∀ d, ¬ s.InFlight d) :
    OneRefresh hash first (s.refreshSession c) raw := by
  have hcall : (s.refreshSession c).calls c = some (.refreshing (some raw)) := by
    simp [WebSystem.refreshSession, WebSystem.setCall, hcookie]
  have honly : ∀ d, (s.refreshSession c).InFlight d → d = c := by
    intro d hd
    rcases WebSystem.inFlight_update rfl hd with ⟨heq, -⟩ | ⟨-, hd⟩
    · exact heq
    · exact (hquiet d hd).elim
  cases h with
  | idle _ _ hnew hlive => exact .sent hcall honly hrefused hnew hlive
  | ended _ hended => cases hrefused.symm.trans hended
  | sent hcall | accepted hcall | rejected hcall => exact (hquiet _ ⟨_, hcall, trivial⟩).elim

/-- The one refresh in flight is the one that a step serves or answers. -/
theorem OneRefresh.serves (h : OneRefresh hash first s raw) {c : ℕ} {cookie : Option String}
    (hcall : s.calls c = some (.refreshing cookie)) :
    cookie = some raw ∧ (∀ d, s.InFlight d → d = c) ∧ s.refused = false ∧ raw ∉ s.presented ∧
      LiveIn hash s.store first raw := by
  have hflight : s.InFlight c := ⟨_, hcall, trivial⟩
  cases h with
  | idle hquiet | ended hquiet => exact (hquiet c hflight).elim
  | sent hsent honly hrefused hnew hlive =>
      obtain rfl := honly c hflight
      cases hcall.symm.trans hsent
      exact ⟨rfl, honly, hrefused, hnew, hlive⟩
  | accepted hother honly | rejected hother honly =>
      obtain rfl := honly c hflight
      cases hcall.symm.trans hother

theorem OneRefresh.accepts (h : OneRefresh hash first s raw) {c : ℕ} {pair : TokenPair}
    (hcall : s.calls c = some (.refreshed (.ok pair))) :
    pair.refreshToken ≠ "" ∧ OneRefresh hash first
      { s.setCall c .identifying with cookie := some pair.refreshToken } pair.refreshToken := by
  have hflight : s.InFlight c := ⟨_, hcall, trivial⟩
  cases h with
  | idle hquiet | ended hquiet => exact (hquiet c hflight).elim
  | sent hother honly | rejected hother honly =>
      obtain rfl := honly c hflight
      cases hcall.symm.trans hother
  | accepted hother honly hrefused hold hnew hraw hlive =>
      obtain rfl := honly c hflight
      cases hcall.symm.trans hother
      refine ⟨hraw, .idle ?_ hrefused hnew hlive⟩
      intro d hd
      rcases WebSystem.inFlight_update rfl hd with ⟨-, hnone⟩ | ⟨hne, hd⟩
      · exact hnone
      · exact hne (honly d hd)

theorem OneRefresh.rejects (h : OneRefresh hash first s raw) {c : ℕ} {failure : Failure}
    (hcall : s.calls c = some (.refreshed (.error failure))) :
    OneRefresh hash first { s.setCall c .finished with refused := true } raw := by
  have hflight : s.InFlight c := ⟨_, hcall, trivial⟩
  cases h with
  | idle hquiet | ended hquiet => exact (hquiet c hflight).elim
  | sent hother honly | accepted hother honly =>
      obtain rfl := honly c hflight
      cases hcall.symm.trans hother
  | rejected hother honly hold hlive =>
      obtain rfl := honly c hflight
      refine .ended ?_ rfl hold hlive
      intro d hd
      rcases WebSystem.inFlight_update rfl hd with ⟨-, hnone⟩ | ⟨hne, hd⟩
      · exact hnone
      · exact hne (honly d hd)

end OneRefresh

theorem TabInv.serves {first : Uuid} (hs : TabInv hash first s) {c : ℕ} {cookie : Option String}
    {now : Time} {draw : TokenDraw} {result : Except Failure TokenPair} {store : TokenStore}
    (hcall : s.calls c = some (.refreshing cookie)) (hfresh : draw.Fresh hash s.store)
    (hanswer : refresh hash now draw cookie s.store = (result, store)) :
    TabInv hash first { s.setCall c (.refreshed result) with
      store, presented := s.presented ++ cookie.toList } := by
  obtain ⟨raw, hcookie, hraw, hone⟩ := hs.cookie
  obtain ⟨rfl, honly, hrefused, hnew, hlive⟩ := hone.serves hcall
  have hknown : ∀ old ∈ s.presented ++ [raw], ∃ token ∈ s.store.rows,
      token.tokenHash = hash old := by
    intro old hold
    rcases List.mem_append.mp hold with hold | hlast
    · exact hs.known old hold
    · obtain ⟨family, token, -, hrows, -, htoken, hhash, -⟩ := hlive
      exact ⟨token, hrows token htoken, List.mem_singleton.mp hlast ▸ hhash⟩
  have hcalls : ∀ d, WebSystem.InFlight { s.setCall c (.refreshed result) with
      store, presented := s.presented ++ [raw] } d → d = c := by
    intro d hd
    rcases WebSystem.inFlight_update rfl hd with ⟨heq, -⟩ | ⟨-, hd⟩
    · exact heq
    · exact honly d hd
  have hself : (s.setCall c (.refreshed result)).calls c = some (.refreshed result) :=
    Function.update_self c _ s.calls
  refine ⟨⟨raw, hcookie, hraw, ?_⟩, ?_, ?_⟩
  · rcases hlive.refresh hraw hfresh hanswer with ⟨failure, rfl, rfl⟩ | ⟨sub, rfl, hnext⟩
    · exact .rejected hself hcalls (by simp) hlive
    · refine .accepted hself hcalls hrefused (by simp) ?_ hfresh.1 hnext
      intro hdrawn
      obtain ⟨token, htoken, hhash⟩ := hknown _ hdrawn
      exact (hfresh.2 token htoken).2 hhash
  · apply List.nodup_append'.mpr
    exact ⟨hs.nodup, List.nodup_singleton raw, by simpa using hnew⟩
  · intro old hold
    obtain ⟨token, htoken, hhash⟩ := hknown old hold
    have hstep : authStep hash s.store (.refresh now draw (some raw)) = some store := by
      rw [authStep, hanswer]
    obtain ⟨kept, hkept, -, hkeptHash, -⟩ := (authStep_cases hstep).kept htoken
    exact ⟨kept, hkept, hkeptHash.trans hhash⟩

theorem TabInv.step {first : Uuid} (hs : TabInv hash first s) (hgood : RefreshesAlone s a)
    (h : webStep hash s a = some t) : TabInv hash first t := by
  obtain ⟨raw, hcookie, hraw, hone⟩ := hs.cookie
  cases webStep_change h with
  | proceeds hold hnew =>
      exact ⟨⟨raw, hcookie, hraw, hone.proceeds hold hnew⟩, hs.nodup, hs.known⟩
  | sends _ hsends =>
      obtain ⟨hrefused, hquiet⟩ := hgood hsends
      exact ⟨⟨raw, hcookie, hraw, hone.sends hcookie _ hrefused hquiet⟩, hs.nodup, hs.known⟩
  | serves hcall hfresh hanswer => exact hs.serves hcall hfresh hanswer
  | accepts hcall =>
      obtain ⟨hnext, hidle⟩ := hone.accepts hcall
      exact ⟨⟨_, rfl, hnext, hidle⟩, hs.nodup, hs.known⟩
  | rejects hcall => exact ⟨⟨raw, hcookie, hraw, hone.rejects hcall⟩, hs.nodup, hs.known⟩

/-- A token is presented a second time, or a fetch on its way will do so. -/
inductive Doomed (s : WebSystem) : Prop
  | repeated (h : ¬ s.presented.Nodup)
  | again {c : ℕ} {raw : String} (hcall : s.calls c = some (.refreshing (some raw)))
      (hold : raw ∈ s.presented)
  | twice {c d : ℕ} {raw : String} (hne : c ≠ d)
      (hc : s.calls c = some (.refreshing (some raw)))
      (hd : s.calls d = some (.refreshing (some raw)))

theorem WebChange.presented (h : WebChange hash s a t) : s.presented.Sublist t.presented := by
  cases h with
  | serves => exact List.sublist_append_left _ _
  | _ => exact List.Sublist.refl _

/-- A refresh on its way stays on its way until it is served. -/
theorem WebChange.refreshing (h : WebChange hash s a t) {c : ℕ} {raw : String}
    (hcall : s.calls c = some (.refreshing (some raw))) :
    t.calls c = some (.refreshing (some raw)) ∨
      (t.presented = s.presented ++ [raw] ∧ ∀ d ≠ c, t.calls d = s.calls d) := by
  have hflight : s.InFlight c := ⟨_, hcall, trivial⟩
  cases h with
  | @proceeds d stage hold | @sends d hold =>
      have hne : c ≠ d := fun heq => hold (heq ▸ hflight)
      exact .inl (by simp [WebSystem.refreshSession, WebSystem.setCall, hne, hcall])
  | @serves d cookie _ _ _ _ hserved =>
      by_cases hcd : c = d
      · subst hcd
        cases hcall.symm.trans hserved
        exact .inr ⟨rfl, fun d hd => Function.update_of_ne hd _ _⟩
      · exact .inl (by simp [WebSystem.setCall, hcd, hcall])
  | @accepts d _ hother | @rejects d _ hother =>
      have hne : c ≠ d := by
        rintro rfl
        cases hcall.symm.trans hother
      exact .inl (by simp [WebSystem.setCall, hne, hcall])

theorem Doomed.step (hs : Doomed s) (h : webStep hash s a = some t) : Doomed t := by
  have hchange := webStep_change h
  have hpresented := hchange.presented
  cases hs with
  | repeated hdup => exact .repeated fun hnodup => hdup (hnodup.sublist hpresented)
  | again hcall hold =>
      rcases hchange.refreshing hcall with hkept | ⟨hserved, -⟩
      · exact .again hkept (hpresented.subset hold)
      · apply Doomed.repeated
        rw [hserved]
        intro hnodup
        have hnew := (List.nodup_append'.mp hnodup).2.2
        exact hnew hold List.mem_cons_self
  | twice hne hc hd =>
      rcases hchange.refreshing hc with hc' | ⟨hserved, hsame⟩
      · rcases hchange.refreshing hd with hd' | ⟨hserved, -⟩
        · exact .twice hne hc' hd'
        · exact .again hc' (by simp [hserved])
      · exact .again ((hsame _ hne.symm).trans hd) (by simp [hserved])

theorem doomed_of_overlap {first : Uuid} (hs : TabInv hash first s) (hbad : ¬ RefreshesAlone s a)
    (h : webStep hash s a = some t) : Doomed t := by
  obtain ⟨hsends, hbusy⟩ := Classical.not_imp.mp hbad
  obtain ⟨raw, hcookie, -, hone⟩ := hs.cookie
  cases webStep_change h with
  | @sends c hidle =>
      have hcall : (s.refreshSession c).calls c = some (.refreshing (some raw)) := by
        simp [WebSystem.refreshSession, WebSystem.setCall, hcookie]
      cases hone with
      | idle hquiet hrefused => exact (hbusy ⟨hrefused, hquiet⟩).elim
      | ended _ _ hold | accepted _ _ _ hold | rejected _ _ hold => exact .again hcall hold
      | @sent d hother =>
          have hne : d ≠ c := by
            rintro rfl
            exact hidle ⟨_, hother, trivial⟩
          refine .twice hne ?_ hcall
          simp [WebSystem.refreshSession, WebSystem.setCall, hne, hother]
  | proceeds _ _ hnone | serves _ _ _ hnone | accepts _ hnone | rejects _ hnone =>
      exact (hnone hsends).elim

theorem TabInv.start {acts : List AuthAction} {store : TokenStore}
    (hlogins : exec (authStep hash) Table.empty acts = some store) {current : RefreshToken}
    {raw : String} (hcurrent : current ∈ store.rows) (hhash : hash raw = current.tokenHash)
    (hraw : raw ≠ "") (hlive : current.revokedAt = none) :
    TabInv hash current.id (.start store raw) := by
  obtain ⟨family, hmem, hpath, hrows⟩ := (Families.run hlogins).path_of_mem hcurrent
  refine ⟨⟨raw, rfl, hraw, ?_⟩, List.nodup_nil, ?_⟩
  · refine .idle ?_ rfl List.not_mem_nil ?_
    · rintro c ⟨stage, hstage, -⟩
      cases hstage
    · exact ⟨family, current, hpath, hrows, ⟨current, hmem, rfl⟩, hmem, hhash.symm, hlive⟩
  · intro old hold
    cases hold

/-- A run in which every call finishes presents no token twice, and leaves the
session an unrevoked one, exactly when each refresh is sent alone. -/
theorem web_client_never_replays_iff {logins : List AuthAction} {store : TokenStore}
    (hlogins : exec (authStep hash) Table.empty logins = some store) {current : RefreshToken}
    {raw : String} (hcurrent : current ∈ store.rows) (hhash : hash raw = current.tokenHash)
    (hraw : raw ≠ "") (hlive : current.revokedAt = none) {acts : List WebAction}
    (hrun : exec (webStep hash) (.start store raw) acts = some t)
    (hdone : ∀ c stage, t.calls c = some stage → stage = .finished) :
    (t.presented.Nodup ∧ SessionAlive t.store current.id) ↔
      Along (webStep hash) RefreshesAlone (.start store raw) acts := by
  have hstart := TabInv.start hlogins hcurrent hhash hraw hlive
  constructor
  · rintro ⟨hnodup, -⟩
    refine along_of_trap (fun _ _ _ hs hgood h => hs.step hgood h)
      (fun _ _ _ hs hbad h => doomed_of_overlap hs hbad h) (fun _ _ _ hs h => hs.step h) hstart
      hrun ?_
    rintro (hdup | hcall | ⟨-, hcall, -⟩)
    · exact hdup hnodup
    · cases hdone _ _ hcall
    · cases hdone _ _ hcall
  · intro halone
    have hend := exec_invariant_along (fun _ _ _ hs hgood h => TabInv.step hs hgood h) hstart
      halone hrun
    obtain ⟨last, -, -, hone⟩ := hend.cookie
    refine ⟨hend.nodup, ?_⟩
    cases hone with
    | idle _ _ _ hlive | ended _ _ _ hlive => exact hlive.alive
    | sent hcall | accepted hcall | rejected hcall => cases hdone _ _ hcall

def oneLogin : List AuthAction := [.issuePair 0 ⟨"1", "a"⟩ "ann"]

def loneRun : List WebAction :=
  [.request 0 true, .respond 0 401, .serve 0 1 ⟨"2", "b"⟩, .receive 0, .identified 0, .retried 0]

/-- Two requests find the access token expired at the same time. -/
def overlappingRun : List WebAction :=
  [.request 0 true, .request 1 true, .respond 0 401, .respond 1 401, .serve 0 1 ⟨"2", "b"⟩,
    .serve 1 2 ⟨"3", "c"⟩, .receive 0, .receive 1, .identified 0, .retried 0]

theorem finished_update {calls : ℕ → Option CallStage} {c : ℕ}
    (h : ∀ d ≠ c, ∀ stage, calls d = some stage → stage = .finished) :
    ∀ d stage, Function.update calls c (some .finished) d = some stage → stage = .finished := by
  intro d stage hstage
  by_cases hd : d = c
  · subst hd
    rw [Function.update_self] at hstage
    exact (Option.some.inj hstage).symm
  · rw [Function.update_of_ne hd] at hstage
    exact h d hd stage hstage

theorem web_client_never_replays_iff_lone :
    ∃ store t, exec (authStep id) Table.empty oneLogin = some store ∧
      exec (webStep id) (.start store "a") loneRun = some t ∧
      ((t.presented.Nodup ∧ SessionAlive t.store "1") ↔
        Along (webStep id) RefreshesAlone (.start store "a") loneRun) := by
  obtain ⟨store, t, hlogins, hrows, hrun, hcalls⟩ : ∃ store t,
      exec (authStep id) Table.empty oneLogin = some store ∧
      store.rows = [⟨"1", "a", "ann", refreshTtlMs, none, none⟩] ∧
      exec (webStep id) (.start store "a") loneRun = some t ∧
      ∀ c stage, t.calls c = some stage → stage = .finished := by
    refine ⟨_, _, rfl, rfl, rfl, finished_update ?_⟩
    intro d hd stage hstage
    simp [WebSystem.start, WebSystem.setCall, WebSystem.refreshSession, hd] at hstage
  have hcurrent : (⟨"1", "a", "ann", refreshTtlMs, none, none⟩ : RefreshToken) ∈ store.rows := by
    simp [hrows]
  exact ⟨store, t, hlogins, hrun,
    web_client_never_replays_iff hlogins hcurrent rfl (by decide) rfl hrun hcalls⟩

theorem overlapping_refreshes_replay :
    ∃ store t, exec (authStep id) Table.empty oneLogin = some store ∧
      exec (webStep id) (.start store "a") overlappingRun = some t ∧
      (∀ c stage, t.calls c = some stage → stage = .finished) ∧
      t.presented = ["a", "a"] ∧ ∀ token ∈ t.store.rows, token.revokedAt ≠ none := by
  refine ⟨_, _, rfl, rfl, finished_update ?_, rfl, by decide⟩
  intro d hd stage hstage
  by_cases hone : d = 1
  · subst hone
    simpa [WebSystem.start, WebSystem.setCall, WebSystem.refreshSession, Function.update] using
      hstage.symm
  · simp [WebSystem.start, WebSystem.setCall, WebSystem.refreshSession, hd, hone] at hstage

end Eventify
