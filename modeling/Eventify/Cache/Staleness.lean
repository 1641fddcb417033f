import Eventify.Cache.Transparency

/-!
# How old a cached value may be

Every entry is stored with a lifetime near its configured one, and nothing but
a store creates or prolongs an entry. A value read from the cache was loaded
within that lifetime and the time its loader and its store took, whatever
invalidations are lost.
-/

namespace Eventify

open Library

/-- The longest lifetime, in seconds, that the jitter makes of `ttlSeconds`. -/
def ttlBound (percent ttlSeconds : ℕ) : ℤ :=
  ttlSeconds + mathRound (ttlSeconds * (percent / 100 : ℚ))

theorem mathRound_mono {x y : ℚ} (h : x ≤ y) : mathRound x ≤ mathRound y :=
  Int.floor_le_floor (by linarith)

theorem mathRound_nonneg {x : ℚ} (h : 0 ≤ x) : 0 ≤ mathRound x :=
  Int.floor_nonneg.mpr (by linarith)

theorem jitteredTtl_bounds (percent : ℕ) {ttlSeconds : ℕ} (hpos : 1 ≤ ttlSeconds) (draw : Draw) :
    1 ≤ jitteredTtl percent ttlSeconds draw ∧
      jitteredTtl percent ttlSeconds draw ≤ ttlBound percent ttlSeconds := by
  have hrange : (0 : ℚ) ≤ ttlSeconds * (percent / 100 : ℚ) := by positivity
  have hround := mathRound_nonneg hrange
  unfold jitteredTtl ttlBound
  split
  · omega
  · have hswing : ((draw : ℚ) * 2 - 1) * (ttlSeconds * (percent / 100 : ℚ)) ≤
        ttlSeconds * (percent / 100 : ℚ) := by
      have hle : (draw : ℚ) * 2 - 1 ≤ 1 := by linarith [draw.2.2]
      calc
        ((draw : ℚ) * 2 - 1) * (ttlSeconds * (percent / 100 : ℚ)) ≤
            1 * (ttlSeconds * (percent / 100 : ℚ)) := mul_le_mul_of_nonneg_right hle hrange
        _ = ttlSeconds * (percent / 100 : ℚ) := one_mul _
    have hjitter := mathRound_mono hswing
    constructor
    · exact le_max_left _ _
    · exact max_le (by omega) (by omega)

theorem CacheConfig.ttlSeconds_pos (config : CacheConfig) (kind : CacheKind) :
    1 ≤ config.ttlSeconds kind := by
  cases kind with
  | list => exact config.listTtl_bounds.1
  | detail => exact config.detailTtl_bounds.1

variable {δ β : Type} {config : CacheConfig} {json : Json β}
  {loader : String → List δ → Except Failure β}

/-- The longest time from the start of a loader to the store of its value. -/
def CacheServer.longestLoad (server : CacheServer δ β) : Time :=
  (server.stores.map fun store => store.storedAt - store.log.since).foldr max 0

theorem le_longestLoad {server : CacheServer δ β} {store : CacheStore δ β}
    (h : store ∈ server.stores) : store.storedAt - store.log.since ≤ server.longestLoad := by
  unfold CacheServer.longestLoad
  generalize server.stores = stores at h
  induction stores with
  | nil => cases h
  | cons first rest ih =>
      rw [List.map_cons, List.foldr_cons]
      rcases List.mem_cons.mp h with rfl | hrest
      · exact le_max_left _ _
      · exact (ih hrest).trans (le_max_right _ _)

/-- The queries of a loader: each came after the loader's start, and its view
was seen; what was loaded is what the loader makes of the views. -/
structure LoaderLog.Dated (seen : Time × δ → Prop) (loader : List δ → Except Failure β)
    (log : LoaderLog δ β) : Prop where
  since_le : ∀ view ∈ log.views, log.since ≤ view.1
  seen : ∀ view ∈ log.views, seen view
  loaded : ∀ value, log.outcome = some (.ok value) → loader (log.views.map Prod.snd) = .ok value

structure CacheStore.Dated (seen : Time × δ → Prop) (config : CacheConfig) (json : Json β)
    (loader : String → List δ → Except Failure β) (store : CacheStore δ β) : Prop where
  kind : ∃ kind, store.ttlSeconds = config.ttlSeconds kind
  expiry : 1 ≤ store.expirySeconds ∧
    store.expirySeconds ≤ ttlBound config.jitterPercent store.ttlSeconds
  text : ∃ value, store.log.outcome = some (.ok value) ∧ store.text = json.stringify value
  log : store.log.Dated seen (loader store.key)

structure CacheCall.Dated (seen : Time × δ → Prop) (config : CacheConfig)
    (loader : String → List δ → Except Failure β) (call : CacheCall δ β) : Prop where
  kind : ∃ kind, call.ttlSeconds = config.ttlSeconds kind
  log : call.log.Dated seen (loader call.key)
  fresh : call.log.calls = 0 → call.log.views = []

structure Dated (seen : Time × δ → Prop) (config : CacheConfig) (json : Json β)
    (loader : String → List δ → Except Failure β) (s : CacheSystem δ β) : Prop where
  entries : ∀ key entry, s.server.entries key = some entry → ∃ store ∈ s.server.stores,
    store.key = key ∧ store.text = entry.text ∧
      entry.expiresAt = store.storedAt + store.expirySeconds * 1000
  stores : ∀ store ∈ s.server.stores, store.Dated seen config json loader
  calls : ∀ c call, s.calls c = some call → call.Dated seen config loader ∧ call.log.since ≤ s.now

section Steps

variable {seen seen' : Time × δ → Prop} {s t : CacheSystem δ β} {a : CacheAction δ} {c : ℕ}
  {call new : CacheCall δ β} {server : CacheServer δ β} {now : Time} {phase : CachePhase Unit β}

theorem LoaderLog.Dated.mono {log : LoaderLog δ β} {load : List δ → Except Failure β}
    (h : log.Dated seen load) (hseen : ∀ view, seen view → seen' view) : log.Dated seen' load :=
  ⟨h.since_le, fun view hview => hseen view (h.seen view hview), h.loaded⟩

theorem CacheCall.Dated.mono (h : call.Dated seen config loader)
    (hseen : ∀ view, seen view → seen' view) : call.Dated seen' config loader :=
  ⟨h.kind, h.log.mono hseen, h.fresh⟩

theorem Dated.mono (h : Dated seen config json loader s) (hseen : ∀ view, seen view → seen' view) :
    Dated seen' config json loader s := by
  refine ⟨h.entries, ?_, ?_⟩
  · intro store hstore
    have hold := h.stores store hstore
    exact ⟨hold.kind, hold.expiry, hold.text, hold.log.mono hseen⟩
  · exact fun c call hcall => ⟨(h.calls c call hcall).1.mono hseen, (h.calls c call hcall).2⟩

theorem CacheCall.Dated.goto (h : call.Dated seen config loader) (hsince : call.log.since ≤ now)
    (hfirst : ∀ owner progress, phase = .loading owner progress → call.log.calls = 0) :
    (call.goto now phase).Dated seen config loader ∧ (call.goto now phase).log.since ≤ now := by
  unfold CacheCall.goto
  split
  · have hnone := h.fresh (hfirst _ _ rfl)
    refine ⟨⟨h.kind, ⟨?_, h.log.seen, h.log.loaded⟩, ?_⟩, le_rfl⟩
    · simp [hnone]
    · simp
  · exact ⟨⟨h.kind, h.log, h.fresh⟩, hsince⟩
  · exact ⟨⟨h.kind, h.log, h.fresh⟩, hsince⟩
  · exact ⟨⟨h.kind, h.log, h.fresh⟩, hsince⟩
  · exact ⟨⟨h.kind, h.log, h.fresh⟩, hsince⟩

/-- A loader is started by a `get` that finds nothing, and then for the first time. -/
theorem loads_first {known : β → Prop} {found : Option β} (hfits : call.Fits known)
    (hget : call.phase.afterGet found = some phase) (owner : Bool) (progress : Unit)
    (hphase : phase = .loading owner progress) : call.log.calls = 0 := by
  subst hphase
  unfold CacheCall.Fits at hfits
  split at hfits
  · exact hfits.1
  · exact hfits.1
  · exact hfits.1
  · exact hfits.1
  all_goals
    next hphase =>
      rw [hphase] at hget
      cases hget

theorem CacheCall.Dated.queried {db : δ} {owner : Bool} {progress : Unit} {known : β → Prop}
    (h : call.Dated seen config loader) (hsince : call.log.since ≤ now) (hnow : seen (now, db))
    (hphase : call.phase = .loading owner progress) (hfits : call.Fits known) :
    (call.queried now db).Dated seen config loader := by
  simp only [CacheCall.Fits, hphase] at hfits
  obtain ⟨hone, hopen, -⟩ := hfits
  refine ⟨h.kind, ⟨?_, ?_, ?_⟩, ?_⟩
  · intro view hview
    rcases List.mem_append.mp hview with hold | hlast
    · exact h.log.since_le view hold
    · obtain rfl := List.mem_singleton.mp hlast
      exact hsince
  · intro view hview
    rcases List.mem_append.mp hview with hold | hlast
    · exact h.log.seen view hold
    · obtain rfl := List.mem_singleton.mp hlast
      exact hnow
  · intro value hvalue
    simp only [CacheCall.queried, hopen] at hvalue
    cases hvalue
  · intro hzero
    cases hone.symm.trans hzero

namespace Dated

variable {entries : String → Option CacheEntry}

theorem start (now : Time) (db : δ) :
    Dated seen config json loader (.start now db fun _ => none : CacheSystem δ β) := by
  constructor <;> simp [CacheSystem.start]

/-- Entries may vanish and time may pass. -/
theorem of_server (hs : Dated seen config json loader s) {db : δ} (hnow : s.now ≤ now)
    (hentries : ∀ key entry, server.entries key = some entry → s.server.entries key = some entry)
    (hstores : server.stores = s.server.stores) :
    Dated seen config json loader { s with now, db, server } := by
  refine ⟨?_, ?_, ?_⟩
  · intro key entry hentry
    obtain ⟨store, hstore, hkey⟩ := hs.entries key entry (hentries key entry hentry)
    exact ⟨store, hstores ▸ hstore, hkey⟩
  · exact fun store hstore => hs.stores store (hstores ▸ hstore)
  · exact fun c call hcall => ⟨(hs.calls c call hcall).1, (hs.calls c call hcall).2.trans hnow⟩

theorem withCall (hs : Dated seen config json loader s)
    (hentries : server.entries = s.server.entries) (hstores : server.stores = s.server.stores)
    (hnew : new.Dated seen config loader ∧ new.log.since ≤ s.now) :
    Dated seen config json loader (s.withCall c new server) := by
  refine ⟨?_, ?_, ?_⟩
  · intro key entry hentry
    have hold : s.server.entries key = some entry := hentries ▸ hentry
    obtain ⟨store, hstore, hkey⟩ := hs.entries key entry hold
    exact ⟨store, hstores ▸ hstore, hkey⟩
  · exact fun store hstore => hs.stores store (hstores ▸ hstore)
  · intro d call hcall
    by_cases hd : d = c
    · subst hd
      obtain rfl : new = call := by simpa [CacheSystem.withCall] using hcall
      exact hnew
    · exact hs.calls d call (by simpa [CacheSystem.withCall, hd] using hcall)

/-- What a call in `storing` sends is dated as its loader is. -/
theorem store_dated (hs : Dated seen config json loader s)
    (htransparent : Transparent json entries s) (hcall : s.calls c = some call) {value : β}
    (hphase : call.phase = .storing value) (draw : Draw) :
    (call.store config json s.now c value draw).Dated seen config json loader := by
  have hdated := (hs.calls c call hcall).1
  have hfits := htransparent.calls c call hcall
  simp only [CacheCall.Fits, hphase] at hfits
  obtain ⟨kind, hkind⟩ := hdated.kind
  refine ⟨⟨kind, hkind⟩, ?_, ⟨value, hfits.2, rfl⟩, hdated.log⟩
  apply jitteredTtl_bounds
  rw [hkind]
  exact config.ttlSeconds_pos kind

theorem set_server (hs : Dated seen config json loader s) {store : CacheStore δ β}
    (hnow : store.storedAt = s.now) (hstore : store.Dated seen config json loader) :
    Dated seen config json loader { s with server := s.server.set s.now store } := by
  refine ⟨?_, ?_, hs.calls⟩
  · intro key entry hentry
    by_cases hkey : key = store.key
    · subst hkey
      obtain rfl : _ = entry := by simpa [CacheServer.set] using hentry
      exact ⟨store, List.mem_cons_self, rfl, rfl, by rw [hnow]⟩
    · obtain ⟨old, hold, hsame⟩ :=
        hs.entries key entry (by simpa [CacheServer.set, hkey] using hentry)
      exact ⟨old, List.mem_cons_of_mem _ hold, hsame⟩
  · intro other hother
    rcases List.mem_cons.mp hother with rfl | hold
    · exact hstore
    · exact hs.stores other hold

theorem step (hs : Dated seen config json loader s) (htransparent : Transparent json entries s)
    (hnow : seen (s.now, s.db)) (h : cacheStep config json loader s a = some t) :
    Dated seen config json loader t := by
  cases cacheStep_moves h with
  | @ticked ms =>
      have hlater : s.now ≤ s.now + ms := le_add_of_nonneg_right (Int.natCast_nonneg ms)
      exact hs.of_server hlater (fun _ _ hentry => hentry) rfl
  | written | unlocked => exact hs.of_server le_rfl (fun _ _ hentry => hentry) rfl
  | @deleted key =>
      refine hs.of_server le_rfl (fun k entry hentry => ?_) rfl
      exact CacheServer.dropEntry_entries hentry
  | @began c key kind token hnew hfresh =>
      have hbegun : Dated seen config json loader
          (s.withCall c (.begun config s.now key kind token) s.server) := by
        refine hs.withCall rfl rfl ⟨⟨⟨kind, rfl⟩, ⟨?_, ?_, ?_⟩, fun _ => rfl⟩, le_rfl⟩
        · simp [CacheCall.begun]
        · simp [CacheCall.begun]
        · simp [CacheCall.begun]
      exact ⟨hbegun.entries, hbegun.stores, hbegun.calls⟩
  | got _ hcall hget _ =>
      obtain ⟨hdated, hsince⟩ := hs.calls _ _ hcall
      exact hs.withCall rfl rfl
        (hdated.goto hsince (loads_first (htransparent.calls _ _ hcall) hget))
  | acquired hcall hphase _ =>
      obtain ⟨hdated, hsince⟩ := hs.calls _ _ hcall
      exact hs.withCall rfl rfl (hdated.goto hsince (by simp))
  | @refused _ c call server _ hcall hphase hserver =>
      obtain ⟨hdated, hsince⟩ := hs.calls _ _ hcall
      have hentries : server.entries = s.server.entries := by
        rcases hserver with rfl | ⟨-, rfl⟩ <;> rfl
      have hstores : server.stores = s.server.stores := by
        rcases hserver with rfl | ⟨-, rfl⟩ <;> rfl
      exact hs.withCall hentries hstores (hdated.goto hsince (by simp))
  | @stored _ c call value draw server _ hcall hphase hserver =>
      obtain ⟨hdated, hsince⟩ := hs.calls _ _ hcall
      have hnew : (call.goto s.now (.releasing (.ok value))).Dated seen config loader ∧
          (call.goto s.now (.releasing (.ok value))).log.since ≤ s.now :=
        hdated.goto hsince (by simp)
      rcases hserver with rfl | rfl
      · exact hs.withCall rfl rfl hnew
      · exact (hs.set_server rfl (hs.store_dated htransparent hcall hphase draw)).withCall rfl rfl
          hnew
  | @released _ c call outcome server _ hcall hphase hserver =>
      obtain ⟨hdated, hsince⟩ := hs.calls _ _ hcall
      have hentries : server.entries = s.server.entries := by
        rcases hserver with rfl | rfl <;> simp
      have hstores : server.stores = s.server.stores := by
        rcases hserver with rfl | rfl <;> simp
      exact hs.withCall hentries hstores (hdated.goto hsince (by simp))
  | @queried c call owner progress hcall hphase =>
      obtain ⟨hdated, hsince⟩ := hs.calls _ _ hcall
      have hqueried := hdated.queried hsince hnow hphase (htransparent.calls _ _ hcall)
      exact hs.withCall rfl rfl ⟨hqueried, hsince⟩
  | @settled _ c call owner progress outcome _ hcall hphase hloaded =>
      obtain ⟨hdated, hsince⟩ := hs.calls _ _ hcall
      refine hs.withCall rfl rfl ⟨⟨hdated.kind, ⟨hdated.log.since_le, hdated.log.seen, ?_⟩,
        hdated.fresh⟩, hsince⟩
      intro value hvalue
      exact hloaded value (Option.some.inj hvalue)

end Dated

/-- A step that stores nothing creates no entry and changes none. -/
theorem entry_kept (h : cacheStep config json loader s a = some t)
    (hstores : t.server.stores = s.server.stores) {key : String} {entry : CacheEntry}
    (hentry : t.server.entries key = some entry) : s.server.entries key = some entry := by
  cases cacheStep_moves h with
  | ticked | written | unlocked | began | got | acquired | queried | settled => exact hentry
  | deleted => exact CacheServer.dropEntry_entries hentry
  | refused _ _ _ hserver =>
      rcases hserver with rfl | ⟨-, rfl⟩
      · exact hentry
      · exact hentry
  | stored _ _ _ hserver =>
      rcases hserver with rfl | rfl
      · exact hentry
      · exact (List.cons_ne_self _ _ hstores).elim
  | released _ _ _ hserver =>
      rcases hserver with rfl | rfl
      · exact hentry
      · simpa [CacheSystem.withCall] using hentry

end Steps

section Runs

variable {now : Time} {db : δ} {acts : List (CacheAction δ)} {t : CacheSystem δ β}

/-- At that time the run had that database state. -/
def SeenIn (config : CacheConfig) (json : Json β) (loader : String → List δ → Except Failure β)
    (now : Time) (db : δ) (acts : List (CacheAction δ)) (view : Time × δ) : Prop :=
  ∃ before after u, acts = before ++ after ∧
    exec (cacheStep config json loader) (.start now db fun _ => none) before = some u ∧
      u.now = view.1 ∧ u.db = view.2

theorem Dated.run
    (hrun : exec (cacheStep config json loader) (.start now db fun _ => none) acts = some t) :
    Dated (SeenIn config json loader now db acts) config json loader t := by
  let dated (acts : List (CacheAction δ)) (t : CacheSystem δ β) : Prop :=
    Dated (SeenIn config json loader now db acts) config json loader t
  have hstart : dated [] (.start now db fun _ => none) := Dated.start now db
  refine exec_trace hstart ?_ hrun
  intro before u a v hbefore hu hv
  have hgrows : ∀ view, SeenIn config json loader now db before view →
      SeenIn config json loader now db (before ++ [a]) view := by
    rintro view ⟨first, rest, w, rfl, hw⟩
    exact ⟨first, rest ++ [a], w, by simp, hw⟩
  have hcurrent : SeenIn config json loader now db (before ++ [a]) (u.now, u.db) :=
    ⟨before, [a], u, rfl, hbefore, rfl, rfl⟩
  exact (hu.mono hgrows).step (Transparent.run hbefore) hcurrent hv

/-- Lifetimes are positive and bounded, entries come from stores, only a store
makes an entry or changes one, and what a `get` finds was loaded from database
states no older than the longest lifetime and the longest load together. -/
theorem staleness_bounded
    (hrun : exec (cacheStep config json loader) (.start now db fun _ => none) acts = some t) :
    (∀ store ∈ t.server.stores, (∃ kind, store.ttlSeconds = config.ttlSeconds kind) ∧
      1 ≤ store.expirySeconds ∧
        store.expirySeconds ≤ ttlBound config.jitterPercent store.ttlSeconds) ∧
    (∀ key entry, t.server.entries key = some entry → ∃ store ∈ t.server.stores,
      store.key = key ∧ store.text = entry.text ∧
        entry.expiresAt = store.storedAt + store.expirySeconds * 1000) ∧
    (∀ a u, cacheStep config json loader t a = some u → u.server.stores = t.server.stores →
      ∀ key entry, u.server.entries key = some entry → t.server.entries key = some entry) ∧
    ∀ key value, readJson json (t.server.get t.now key) = some value →
      ∃ store ∈ t.server.stores, ∃ loaded, store.key = key ∧
        loader key (store.log.views.map Prod.snd) = .ok loaded ∧
        json.parse (json.stringify loaded) = some value ∧
        t.now - ttlBound config.jitterPercent store.ttlSeconds * 1000 - t.server.longestLoad ≤
          store.log.since ∧
        ∀ view ∈ store.log.views, store.log.since ≤ view.1 ∧
          SeenIn config json loader now db acts view := by
  have ht := Dated.run hrun
  refine ⟨?_, ht.entries, fun a u hstep hstores key entry => entry_kept hstep hstores, ?_⟩
  · exact fun store hstore => ⟨(ht.stores store hstore).kind, (ht.stores store hstore).expiry⟩
  · intro key value hread
    simp only [CacheServer.get] at hread
    split at hread
    next entry hentry =>
      split at hread
      next halive =>
        obtain ⟨store, hstore, rfl, htext, hexpires⟩ := ht.entries key entry hentry
        have hdated := ht.stores store hstore
        obtain ⟨loaded, houtcome, hloaded⟩ := hdated.text
        refine ⟨store, hstore, loaded, rfl, hdated.log.loaded loaded houtcome, ?_, ?_, ?_⟩
        · simp only [readJson] at hread
          split at hread
          · cases hread
          · rwa [← hloaded, htext]
        · have hlong := le_longestLoad hstore
          have hexpiry := hdated.expiry.2
          linarith
        · exact fun view hview => ⟨hdated.log.since_le view hview, hdated.log.seen view hview⟩
      · cases hread
    · cases hread

end Runs

/-- A flag is cached, then cleared in the database; the invalidation is lost. -/
def lostInvalidation : List (CacheAction Bool) :=
  [.begin 0 "key" .detail "token", .command 0 evenDraw, .command 0 evenDraw, .command 0 evenDraw,
    .query 0, .tick 40, .settle 0, .command 0 evenDraw, .write false, .tick 100000]

theorem staleness_bounded_lost :
    ∃ t, exec (cacheStep defaultCacheConfig flagJson flagLoader)
        (.start 0 true fun _ => none) lostInvalidation = some t ∧
      t.db = false ∧ readJson flagJson (t.server.get t.now "key") = some true ∧
      ∃ store ∈ t.server.stores, t.now - ttlBound 10 store.ttlSeconds * 1000 -
        t.server.longestLoad ≤ store.log.since := by
  obtain ⟨t, hrun, hdb, hread⟩ : ∃ t, exec (cacheStep defaultCacheConfig flagJson flagLoader)
        (.start 0 true fun _ => none) lostInvalidation = some t ∧
      t.db = false ∧ readJson flagJson (t.server.get t.now "key") = some true :=
    ⟨_, rfl, rfl, by decide +kernel⟩
  obtain ⟨store, hstore, -, -, -, -, hage, -⟩ := (staleness_bounded hrun).2.2.2 "key" true hread
  exact ⟨t, hrun, hdb, hread, store, hstore, hage⟩

end Eventify
