import Eventify.Cache.Transparency

/-!
# The lock of a cache miss

The lock may expire under a call that still loads. A release compares tokens,
and no two calls share one, so it takes away only the lock its own call set;
until then, or until the lock expires, no other call enters the branch that
loads and stores.
-/

namespace Eventify

open Library

variable {δ β : Type} {config : CacheConfig} {json : Json β}
  {loader : String → List δ → Except Failure β}

/-- The branch of `cacheAside` behind the lock. -/
def CachePhase.inBranch : CachePhase Unit β → Bool
  | .rechecking | .storing _ | .releasing _ => true
  | .loading owner _ => owner
  | _ => false

/-- A call enters the branch on a key. -/
def Enters (s t : CacheSystem δ β) (c : ℕ) (key : String) : Prop :=
  (∃ call, s.calls c = some call ∧ call.phase.inBranch = false) ∧
    ∃ call, t.calls c = some call ∧ call.key = key ∧ call.phase.inBranch = true

/-- The release command of a call. -/
def CacheAction.Releases (s : CacheSystem δ β) (c : ℕ) (a : CacheAction δ) : Prop :=
  a.call = some c ∧ ∃ call outcome, s.calls c = some call ∧ call.phase = .releasing outcome

/-- The lock of the key is the one this call set. -/
def CacheSystem.LockedBy (s : CacheSystem δ β) (c : ℕ) (key : String) : Prop :=
  ∃ token, s.server.locks key = some (token, c)

/-- Calls have tokens of their own, a lock has the token of the call that set
it, and calls in the branch, or that have stored, got the lock. -/
structure Locking (s : CacheSystem δ β) : Prop where
  drawn : ∀ c call, s.calls c = some call → call.token ∈ s.tokens
  distinct : ∀ c d call other, s.calls c = some call → s.calls d = some other →
    call.token = other.token → c = d
  holders : ∀ key token c, s.server.locks key = some (token, c) →
    ∃ call, s.calls c = some call ∧ call.token = token
  branch : ∀ c call, s.calls c = some call →
    call.phase.inBranch = true ∨ call.stored = true → call.locked = true

namespace CacheCall

variable {call : CacheCall δ β} {now : Time} {phase : CachePhase Unit β}

theorem goto_locked (h : call.locked = true) : (call.goto now phase).locked = true := by
  unfold goto
  split
  · exact h
  · rfl
  · exact h
  · exact h
  · exact h

theorem goto_branch (hbranch : phase.inBranch = true → call.phase.inBranch = true)
    (h : call.phase.inBranch = true ∨ call.stored = true → call.locked = true)
    (hnew : (call.goto now phase).phase.inBranch = true ∨ (call.goto now phase).stored = true) :
    (call.goto now phase).locked = true := by
  apply goto_locked
  apply h
  rw [goto_phase] at hnew
  rcases hnew with hin | hstored
  · exact .inl (hbranch hin)
  · unfold goto at hstored
    split at hstored
    · exact .inr hstored
    · exact .inr hstored
    next hphase _ =>
      rw [hphase]
      exact .inl rfl
    · exact .inr hstored
    · exact .inr hstored

theorem inBranch_afterGet {found : Option β} {phase phase' : CachePhase Unit β}
    (h : phase.afterGet found = some phase') (hin : phase'.inBranch = true) :
    phase.inBranch = true := by
  cases phase with
  | reading =>
      cases found <;> cases h <;> cases hin
  | waiting attempt =>
      cases found with
      | some value =>
          cases h
          cases hin
      | none =>
          cases h
          simp only [CachePhase.afterWait] at hin
          split at hin <;> cases hin
  | rechecking => rfl
  | locking => cases h
  | loading owner progress => cases h
  | storing value => cases h
  | releasing outcome => cases h
  | finished outcome => cases h

end CacheCall

namespace Locking

variable {s t : CacheSystem δ β} {a : CacheAction δ} {c d : ℕ} {call new : CacheCall δ β}
  {server : CacheServer δ β} {key token : String}

theorem start (now : Time) (db : δ) (entries : String → Option CacheEntry) :
    Locking (.start now db entries : CacheSystem δ β) := by
  constructor <;> simp [CacheSystem.start]

theorem of_server (hs : Locking s) {now : Time} {db : δ}
    (hlocks : ∀ key lock, server.locks key = some lock → s.server.locks key = some lock) :
    Locking { s with now, db, server } :=
  ⟨hs.drawn, hs.distinct, fun key token c hlock => hs.holders key token c (hlocks key _ hlock),
    hs.branch⟩

theorem withCall (hs : Locking s) (hcall : s.calls c = some call) (htoken : new.token = call.token)
    (hlocks : ∀ key token d, server.locks key = some (token, d) →
      s.server.locks key = some (token, d) ∨ (d = c ∧ token = call.token))
    (hbranch : new.phase.inBranch = true ∨ new.stored = true → new.locked = true) :
    Locking (s.withCall c new server) := by
  have hother : ∀ d other, (s.withCall c new server).calls d = some other →
      ∃ old, s.calls d = some old ∧ other.token = old.token := by
    intro d other hother
    by_cases hd : d = c
    · subst hd
      obtain rfl : new = other := by simpa [CacheSystem.withCall] using hother
      exact ⟨call, hcall, htoken⟩
    · exact ⟨other, by simpa [CacheSystem.withCall, hd] using hother, rfl⟩
  constructor
  · intro d other hd
    obtain ⟨old, hold, hsame⟩ := hother d other hd
    exact hsame ▸ hs.drawn d old hold
  · intro d e other other' hd he hsame
    obtain ⟨old, hold, htold⟩ := hother d other hd
    obtain ⟨old', hold', htold'⟩ := hother e other' he
    exact hs.distinct d e old old' hold hold' (by rw [← htold, ← htold', hsame])
  · intro key token d hlock
    have hset : ∃ old, s.calls d = some old ∧ old.token = token := by
      rcases hlocks key token d hlock with hold | ⟨rfl, rfl⟩
      · exact hs.holders key token d hold
      · exact ⟨call, hcall, rfl⟩
    obtain ⟨old, hold, rfl⟩ := hset
    by_cases hd : d = c
    · subst hd
      cases hcall.symm.trans hold
      exact ⟨new, by simp [CacheSystem.withCall], htoken⟩
    · exact ⟨old, by simpa [CacheSystem.withCall, hd] using hold, rfl⟩
  · intro d other hd
    by_cases hc : d = c
    · subst hc
      obtain rfl : new = other := by simpa [CacheSystem.withCall] using hd
      exact hbranch
    · exact hs.branch d other (by simpa [CacheSystem.withCall, hc] using hd)

theorem release_locks {k : String} {lock : String × ℕ}
    (h : (server.release key token).locks k = some lock) : server.locks k = some lock := by
  unfold CacheServer.release at h
  split at h
  · split at h
    · by_cases hk : k = key
      · subst hk
        simp [CacheServer.dropLock] at h
      · simpa [CacheServer.dropLock, hk] using h
    · exact h
  · exact h

/-- The script leaves alone what is not the lock of this key and token. -/
theorem release_locks_of_ne {k token' : String} (hlock : server.locks k = some (token', d))
    (hne : ¬ (k = key ∧ token' = token)) :
    (server.release key token).locks k = server.locks k := by
  by_cases hk : k = key
  · have htoken : token' ≠ token := fun htoken => hne ⟨hk, htoken⟩
    subst hk
    simp [CacheServer.release, hlock, htoken]
  · unfold CacheServer.release
    split
    · split
      · simp [CacheServer.dropLock, hk]
      · rfl
    · rfl

theorem lock_locks {k token' : String} {d : ℕ}
    (h : (server.lock key token c).locks k = some (token', d)) :
    server.locks k = some (token', d) ∨ (d = c ∧ token' = token) := by
  by_cases hk : k = key
  · subst hk
    have hnew : token = token' ∧ c = d := by simpa [CacheServer.lock] using h
    exact .inr ⟨hnew.2.symm, hnew.1.symm⟩
  · exact .inl (by simpa [CacheServer.lock, hk] using h)

theorem dropLock_locks {k : String} {lock : String × ℕ}
    (h : (server.dropLock key).locks k = some lock) : server.locks k = some lock := by
  by_cases hk : k = key
  · subst hk
    simp [CacheServer.dropLock] at h
  · simpa [CacheServer.dropLock, hk] using h

theorem begin_ (hs : Locking s) (hnew : s.calls c = none) (hfresh : new.token ∉ s.tokens)
    (hphase : new.phase.inBranch = false) (hstored : new.stored = false) :
    Locking { s.withCall c new s.server with tokens := new.token :: s.tokens } := by
  have hcases : ∀ d other, Function.update s.calls c (some new) d = some other →
      (d = c ∧ other = new) ∨ (d ≠ c ∧ s.calls d = some other) := by
    intro d other hother
    by_cases hd : d = c
    · subst hd
      exact .inl ⟨rfl, by simpa using hother.symm⟩
    · exact .inr ⟨hd, by simpa [hd] using hother⟩
  constructor
  · intro d other hother
    rcases hcases d other hother with ⟨-, rfl⟩ | ⟨-, hold⟩
    · exact List.mem_cons_self
    · exact List.mem_cons_of_mem _ (hs.drawn d other hold)
  · intro d e other other' hd he hsame
    rcases hcases d other hd with ⟨rfl, rfl⟩ | ⟨-, hold⟩ <;>
      rcases hcases e other' he with ⟨rfl, rfl⟩ | ⟨-, hold'⟩
    · rfl
    · exact (hfresh (hsame ▸ hs.drawn e other' hold')).elim
    · exact (hfresh (hsame ▸ hs.drawn d other hold)).elim
    · exact hs.distinct d e other other' hold hold' hsame
  · intro key token d hlock
    obtain ⟨old, hold, htoken⟩ := hs.holders key token d hlock
    have hd : d ≠ c := by
      rintro rfl
      rw [hnew] at hold
      cases hold
    exact ⟨old, by simpa [CacheSystem.withCall, hd] using hold, htoken⟩
  · intro d other hother
    rcases hcases d other hother with ⟨-, rfl⟩ | ⟨-, hold⟩
    · simp [hphase, hstored]
    · exact hs.branch d other hold

theorem step (hs : Locking s) (h : cacheStep config json loader s a = some t) : Locking t := by
  cases cacheStep_moves h with
  | ticked | written => exact hs.of_server fun _ _ hlock => hlock
  | deleted => exact hs.of_server fun _ _ hlock => hlock
  | unlocked => exact hs.of_server fun _ _ hlock => dropLock_locks hlock
  | began hnew hfresh => exact hs.begin_ hnew hfresh rfl rfl
  | got _ hcall hget _ =>
      apply hs.withCall hcall CacheCall.goto_token fun _ _ _ hlock => .inl hlock
      exact CacheCall.goto_branch (CacheCall.inBranch_afterGet hget) (hs.branch _ _ hcall)
  | acquired hcall hphase _ =>
      apply hs.withCall hcall CacheCall.goto_token fun _ _ _ hlock => lock_locks hlock
      intro _
      simp [CacheCall.goto, hphase]
  | refused _ hcall hphase hserver =>
      apply hs.withCall hcall CacheCall.goto_token
      · rcases hserver with rfl | ⟨-, rfl⟩
        · exact fun _ _ _ hlock => .inl hlock
        · exact fun _ _ _ hlock => lock_locks hlock
      · exact CacheCall.goto_branch (fun hin => by cases hin) (hs.branch _ _ hcall)
  | stored _ hcall hphase hserver =>
      apply hs.withCall hcall CacheCall.goto_token
      · rcases hserver with rfl | rfl
        · exact fun _ _ _ hlock => .inl hlock
        · exact fun _ _ _ hlock => .inl hlock
      · exact CacheCall.goto_branch (fun _ => by rw [hphase]; rfl) (hs.branch _ _ hcall)
  | released _ hcall hphase hserver =>
      apply hs.withCall hcall CacheCall.goto_token
      · rcases hserver with rfl | rfl
        · exact fun _ _ _ hlock => .inl hlock
        · exact fun _ _ _ hlock => .inl (release_locks hlock)
      · exact CacheCall.goto_branch (fun hin => by cases hin) (hs.branch _ _ hcall)
  | @queried c call owner progress hcall hphase =>
      refine hs.withCall hcall rfl (fun _ _ _ hlock => .inl hlock) ?_
      exact hs.branch c call hcall
  | @settled _ c call owner progress outcome _ hcall hphase _ =>
      refine hs.withCall hcall rfl (fun _ _ _ hlock => .inl hlock) ?_
      rintro (hin | hstored)
      · apply hs.branch c call hcall (.inl _)
        rw [hphase]
        cases owner with
        | true => rfl
        | false => cases hin
      · exact hs.branch c call hcall (.inr hstored)

theorem run {now : Time} {db : δ} {entries : String → Option CacheEntry}
    {acts : List (CacheAction δ)}
    (hrun : exec (cacheStep config json loader) (.start now db entries) acts = some t) :
    Locking t := by
  have hstep : ∀ (s : CacheSystem δ β) a t, Locking s →
      cacheStep config json loader s a = some t → Locking t := fun _ _ _ hs h => hs.step h
  exact exec_invariant hstep (.start now db entries) hrun

/-- A lock goes away by its expiry or by the release of the call that set it. -/
theorem lock_kept_or_released (hs : Locking s) (h : cacheStep config json loader s a = some t)
    (hlock : s.LockedBy c key) :
    t.server.locks key = s.server.locks key ∨ a = .expireLock key ∨ a.Releases s c := by
  obtain ⟨token, hlock⟩ := hlock
  cases cacheStep_moves h with
  | ticked | written | deleted | queried | settled | got | began => exact .inl rfl
  | @unlocked k =>
      by_cases hk : key = k
      · subst hk
        exact .inr (.inl rfl)
      · exact .inl (by simp [CacheServer.dropLock, hk])
  | @acquired d call draw hcall hphase hfree =>
      by_cases hk : key = call.key
      · subst hk
        rw [hfree] at hlock
        cases hlock
      · exact .inl (by simp [CacheSystem.withCall, CacheServer.lock, hk])
  | @refused _ d call server _ hcall hphase hserver =>
      rcases hserver with rfl | ⟨hfree, rfl⟩
      · exact .inl rfl
      · by_cases hk : key = call.key
        · subst hk
          rw [hfree] at hlock
          cases hlock
        · exact .inl (by simp [CacheSystem.withCall, CacheServer.lock, hk])
  | stored _ hcall hphase hserver =>
      rcases hserver with rfl | rfl
      · exact .inl rfl
      · exact .inl rfl
  | @released _ d call outcome server ha hcall hphase hserver =>
      rcases hserver with rfl | rfl
      · exact .inl rfl
      · by_cases hmine : key = call.key ∧ token = call.token
        · obtain ⟨rfl, rfl⟩ := hmine
          obtain ⟨old, hold, htoken⟩ := hs.holders _ _ _ hlock
          obtain rfl := hs.distinct d c call old hcall hold htoken.symm
          exact .inr (.inr ⟨ha, call, outcome, hcall, hphase⟩)
        · exact .inl (release_locks_of_ne hlock hmine)

end Locking

section Runs

variable {s t : CacheSystem δ β} {a : CacheAction δ} {c d : ℕ} {key : String}

/-- The branch is entered through the lock alone. -/
theorem enters_acquires (h : cacheStep config json loader s a = some t)
    (henters : Enters s t c key) :
    s.server.locks key = none ∧ t.LockedBy c key := by
  obtain ⟨⟨call, hcall, hout⟩, ⟨new, hnew, rfl, hin⟩⟩ := henters
  have hsame : t.calls c = some call → False := by
    intro hkept
    cases hnew.symm.trans hkept
    rw [hout] at hin
    cases hin
  have hmoved : ∀ {d : ℕ} {next : CacheCall δ β} {server : CacheServer δ β},
      t = s.withCall d next server → c = d ∧ new = next := by
    rintro d next server rfl
    by_cases hc : c = d
    · subst hc
      exact ⟨rfl, by simpa [CacheSystem.withCall] using hnew.symm⟩
    · exact (hsame (by simpa [CacheSystem.withCall, hc] using hcall)).elim
  cases cacheStep_moves h with
  | ticked | written | deleted | unlocked => exact (hsame hcall).elim
  | @began d k kind token hfree hfresh =>
      by_cases hc : c = d
      · subst hc
        rw [hcall] at hfree
        cases hfree
      · exact (hsame (by simpa [CacheSystem.withCall, hc] using hcall)).elim
  | @got _ d other found phase _ hother hget _ =>
      obtain ⟨rfl, rfl⟩ := hmoved rfl
      cases hcall.symm.trans hother
      rw [CacheCall.goto_phase] at hin
      rw [CacheCall.inBranch_afterGet hget hin] at hout
      cases hout
  | @acquired d other draw hother hphase hfree =>
      obtain ⟨rfl, rfl⟩ := hmoved rfl
      cases hcall.symm.trans hother
      rw [CacheCall.goto_key]
      exact ⟨hfree, call.token, by simp [CacheSystem.withCall, CacheServer.lock]⟩
  | @refused _ d other server _ hother hphase _ =>
      obtain ⟨rfl, rfl⟩ := hmoved rfl
      rw [CacheCall.goto_phase] at hin
      cases hin
  | @stored _ d other value draw server _ hother hphase _ =>
      obtain ⟨rfl, rfl⟩ := hmoved rfl
      cases hcall.symm.trans hother
      rw [hphase] at hout
      cases hout
  | @released _ d other outcome server _ hother hphase _ =>
      obtain ⟨rfl, rfl⟩ := hmoved rfl
      rw [CacheCall.goto_phase] at hin
      cases hin
  | @queried d other owner progress hother hphase =>
      obtain ⟨rfl, rfl⟩ := hmoved rfl
      cases hcall.symm.trans hother
      simp only [CacheCall.queried] at hin
      rw [hout] at hin
      cases hin
  | @settled _ d other owner progress outcome _ hother hphase _ =>
      obtain ⟨rfl, rfl⟩ := hmoved rfl
      cases hcall.symm.trans hother
      rw [hphase] at hout
      simp only [CachePhase.inBranch] at hout
      subst hout
      cases hin

theorem releases_none (hreleases : a.Releases s c)
    (h : cacheStep config json loader s a = some t) (hnone : s.server.locks key = none) :
    t.server.locks key = none := by
  obtain ⟨ha, call, outcome, hcall, hphase⟩ := hreleases
  cases cacheStep_moves h with
  | ticked | written | deleted | unlocked | began => cases ha
  | got | queried | settled => exact hnone
  | acquired hother hlocking _ =>
      cases ha
      cases hcall.symm.trans hother
      rw [hphase] at hlocking
      cases hlocking
  | refused ha' hother hlocking _ =>
      obtain rfl := Option.some.inj (ha.symm.trans ha')
      cases hcall.symm.trans hother
      rw [hphase] at hlocking
      cases hlocking
  | stored _ _ _ hserver =>
      rcases hserver with rfl | rfl
      · exact hnone
      · exact hnone
  | released _ _ _ hserver =>
      rcases hserver with rfl | rfl
      · exact hnone
      · apply Option.eq_none_iff_forall_ne_some.mpr
        intro lock hlock
        rw [Locking.release_locks hlock] at hnone
        cases hnone

/-- A release takes away the lock its own call set and no other; between two
calls' entries into the branch of a key, the first one's lock expires or is
released by it; and only calls that got the lock store. -/
theorem miss_lock_safe {now : Time} {db : δ} {entries : String → Option CacheEntry}
    {acts : List (CacheAction δ)}
    (hrun : exec (cacheStep config json loader) (.start now db entries) acts = some s) :
    (∀ c a t key, a.Releases s c → cacheStep config json loader s a = some t →
      t.server.locks key ≠ s.server.locks key → s.LockedBy c key) ∧
    (∀ c a t key, cacheStep config json loader s a = some t → Enters s t c key →
      ∀ between u b v d, exec (cacheStep config json loader) t between = some u →
        cacheStep config json loader u b = some v → Enters u v d key →
          ∃ before x after w, between = before ++ x :: after ∧
            exec (cacheStep config json loader) t before = some w ∧ w.LockedBy c key ∧
              (x = .expireLock key ∨ x.Releases w c)) ∧
    ∀ store ∈ s.server.stores, ∃ call, s.calls store.call = some call ∧ call.locked = true := by
  have hs := Locking.run hrun
  refine ⟨?_, ?_, ?_⟩
  · intro c a t key hreleases hstep hchanged
    cases hlock : s.server.locks key with
    | none => exact (hchanged (by rw [hlock, releases_none hreleases hstep hlock])).elim
    | some lock =>
        obtain ⟨token, d⟩ := lock
        rcases hs.lock_kept_or_released hstep ⟨token, hlock⟩ with hkept | rfl | hother
        · exact (hchanged hkept).elim
        · cases hreleases.1
        · obtain rfl := Option.some.inj (hreleases.1.symm.trans hother.1)
          exact ⟨token, hlock⟩
  · intro c a t key hstep henters between u b v d hbetween hnext henters'
    have hlocked := (enters_acquires hstep henters).2
    have hfree := (enters_acquires hnext henters').1
    have ht := hs.step hstep
    rcases exec_keeps_or_ends (fun s : CacheSystem δ β => s.LockedBy c key) hlocked hbetween with
      hkept | ⟨before, x, after, w, w', hsplit, hbefore, hw, hx, hlost⟩
    · obtain ⟨token, hlock⟩ := hkept
      rw [hfree] at hlock
      cases hlock
    · have hinv : ∀ (s : CacheSystem δ β) a t, Locking s →
          cacheStep config json loader s a = some t → Locking t := fun _ _ _ hs h => hs.step h
      have hw' := exec_invariant hinv ht hbefore
      rcases hw'.lock_kept_or_released hx hw with hkept | hends
      · obtain ⟨token, hlock⟩ := hw
        exact (hlost ⟨token, hkept ▸ hlock⟩).elim
      · exact ⟨before, x, after, w, hsplit, hbefore, hw, hends⟩
  · intro store hstore
    obtain ⟨call, hcall, hstored⟩ := (Transparent.run hrun).stores store hstore
    exact ⟨call, hcall, hs.branch _ call hcall (.inr hstored)⟩

end Runs

/-- The first call's lock expires, the second takes it, the first loads and stores. -/
def overtakenLock : List (CacheAction Bool) :=
  [.begin 0 "key" .detail "first", .begin 1 "key" .detail "second", .command 0 evenDraw,
    .command 1 evenDraw, .command 0 evenDraw, .expireLock "key", .command 1 evenDraw,
    .command 0 evenDraw, .query 0, .settle 0, .command 0 evenDraw]

theorem miss_lock_safe_overtaken :
    ∃ s t, exec (cacheStep defaultCacheConfig flagJson flagLoader)
        (.start 0 true fun _ => none) overtakenLock = some s ∧
      cacheStep defaultCacheConfig flagJson flagLoader s (.command 0 evenDraw) = some t ∧
      t.server.locks "key" = some ("second", 1) ∧
      ∀ key, t.server.locks key ≠ s.server.locks key → s.LockedBy 0 key := by
  obtain ⟨s, t, hrun, hstep, hlock, hreleases⟩ : ∃ s t,
      exec (cacheStep defaultCacheConfig flagJson flagLoader)
          (.start 0 true fun _ => none) overtakenLock = some s ∧
        cacheStep defaultCacheConfig flagJson flagLoader s (.command 0 evenDraw) = some t ∧
        t.server.locks "key" = some ("second", 1) ∧
        (CacheAction.command 0 evenDraw).Releases s 0 :=
    ⟨_, _, rfl, rfl, rfl, rfl, _, _, rfl, rfl⟩
  exact ⟨s, t, hrun, hstep, hlock,
    fun key => (miss_lock_safe hrun).1 0 _ t key hreleases hstep⟩

end Eventify
