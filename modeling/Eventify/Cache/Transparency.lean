import Eventify.Cache.Calls

/-!
# What a cache-aside call returns

Whatever Redis does, a call runs its loader at most once and ends with what
that came to, or with a value that was stored under its key. It throws only
what its loader threw, and it gives back a lock it obtained.
-/

namespace Eventify

open Library

variable {δ β : Type} {config : CacheConfig} {json : Json β}
  {loader : String → List δ → Except Failure β}

/-- A text that is or was stored under the key: it was there at the start, or
a call has stored it since. -/
def TextUnder (entries : String → Option CacheEntry) (server : CacheServer δ β)
    (key text : String) : Prop :=
  (∃ entry, entries key = some entry ∧ entry.text = text) ∨
    ∃ store ∈ server.stores, store.key = key ∧ store.text = text

def StoredUnder (json : Json β) (entries : String → Option CacheEntry)
    (server : CacheServer δ β) (key : String) (value : β) : Prop :=
  ∃ text, json.parse text = some value ∧ TextUnder entries server key text

namespace CacheCall

/-- An outcome that the caller may see: a value of the loader or of the cache,
or the failure of the loader, after which nothing is stored. -/
def Answers (known : β → Prop) (call : CacheCall δ β) : Except Failure β → Prop
  | .ok value => call.log.outcome = some (.ok value) ∨ known value
  | .error failure => call.log.outcome = some (.error failure) ∧ call.stored = false

def Fits (known : β → Prop) (call : CacheCall δ β) : Prop :=
  match call.phase with
  | .reading | .locking | .waiting _ =>
      call.log.calls = 0 ∧ call.log.outcome = none ∧ call.locked = false ∧ call.stored = false
  | .rechecking =>
      call.log.calls = 0 ∧ call.log.outcome = none ∧ call.locked = true ∧ call.stored = false
  | .loading owner _ =>
      call.log.calls = 1 ∧ call.log.outcome = none ∧ call.locked = owner ∧ call.stored = false
  | .storing value => call.log.calls = 1 ∧ call.log.outcome = some (.ok value)
  | .releasing outcome => call.log.calls ≤ 1 ∧ call.Answers known outcome
  | .finished outcome => call.log.calls ≤ 1 ∧ call.Answers known outcome ∧
      (call.locked = true → call.released = true)

variable {call : CacheCall δ β} {now : Time} {phase : CachePhase Unit β} {known known' : β → Prop}

/-- What every step of a call keeps. -/
theorem goto_keeps (call : CacheCall δ β) (now : Time) (phase : CachePhase Unit β) :
    (call.goto now phase).key = call.key ∧ (call.goto now phase).token = call.token ∧
      (call.goto now phase).phase = phase ∧
      (call.stored = true → (call.goto now phase).stored = true) := by
  unfold goto
  split
  · exact ⟨rfl, rfl, rfl, id⟩
  · exact ⟨rfl, rfl, rfl, id⟩
  · exact ⟨rfl, rfl, rfl, fun _ => rfl⟩
  · exact ⟨rfl, rfl, rfl, id⟩
  · exact ⟨rfl, rfl, rfl, id⟩

@[simp] theorem goto_key : (call.goto now phase).key = call.key := (goto_keeps call now phase).1

@[simp] theorem goto_token : (call.goto now phase).token = call.token :=
  (goto_keeps call now phase).2.1

@[simp] theorem goto_phase : (call.goto now phase).phase = phase :=
  (goto_keeps call now phase).2.2.1

theorem goto_stored (h : call.stored = true) : (call.goto now phase).stored = true :=
  (goto_keeps call now phase).2.2.2 h

theorem Answers.mono {outcome : Except Failure β} (h : call.Answers known outcome)
    (hknown : ∀ value, known value → known' value) : call.Answers known' outcome := by
  cases outcome with
  | ok value => exact h.imp_right (hknown value)
  | error failure => exact h

theorem Fits.mono (h : call.Fits known) (hknown : ∀ value, known value → known' value) :
    call.Fits known' := by
  unfold Fits at h ⊢
  split at h
  · exact h
  · exact h
  · exact h
  · exact h
  · exact h
  · exact h
  · exact ⟨h.1, h.2.mono hknown⟩
  · exact ⟨h.1, h.2.1.mono hknown, h.2.2⟩

theorem begun_fits (config : CacheConfig) (key : String) (kind : CacheKind) (token : String) :
    (begun config now key kind token : CacheCall δ β).Fits known :=
  ⟨rfl, rfl, rfl, rfl⟩

theorem goto_got_fits {found : Option β} (hget : call.phase.afterGet found = some phase)
    (hfound : ∀ value, found = some value → known value) (h : call.Fits known) :
    (call.goto now phase).Fits known := by
  unfold Fits at h
  split at h
  next hphase =>
    rw [hphase] at hget
    cases found with
    | none =>
        cases hget
        simpa [goto, hphase, CachePhase.afterRead, Fits] using h
    | some value =>
        cases hget
        simp [goto, hphase, CachePhase.afterRead, Fits, Answers, h, hfound value rfl]
  next hphase =>
    rw [hphase] at hget
    cases hget
  next attempt hphase =>
    rw [hphase] at hget
    cases found with
    | none =>
        cases hget
        by_cases hmore : attempt + 1 < CachePhase.maxWaits
        · simpa [goto, hphase, CachePhase.afterWait, hmore, Fits] using h
        · simp [goto, CachePhase.afterWait, hmore, Fits, h]
    | some value =>
        cases hget
        simp [goto, hphase, CachePhase.afterWait, Fits, Answers, h, hfound value rfl]
  next hphase =>
    rw [hphase] at hget
    cases found with
    | none =>
        cases hget
        simp [goto, CachePhase.afterRecheck, Fits, h]
    | some value =>
        cases hget
        simp [goto, hphase, CachePhase.afterRecheck, Fits, Answers, h, hfound value rfl]
  next hphase =>
    rw [hphase] at hget
    cases hget
  next hphase =>
    rw [hphase] at hget
    cases hget
  next hphase =>
    rw [hphase] at hget
    cases hget
  next hphase =>
    rw [hphase] at hget
    cases hget

theorem goto_of_storing {value : β} (hphase : call.phase = .storing value)
    (h : call.Fits known) : (call.goto now (.releasing (.ok value))).Fits known := by
  simp only [Fits, hphase] at h
  simp [goto, hphase, Fits, Answers, h]

theorem goto_of_releasing {outcome : Except Failure β} (hphase : call.phase = .releasing outcome)
    (h : call.Fits known) : (call.goto now (.finished outcome)).Fits known := by
  simp only [Fits, hphase] at h
  simp only [goto, hphase, Fits]
  cases outcome with
  | ok value => exact ⟨h.1, h.2, fun _ => trivial⟩
  | error failure => exact ⟨h.1, h.2, fun _ => trivial⟩

theorem settled_fits {owner : Bool} {progress : Unit} {outcome : Except Failure β}
    (hphase : call.phase = .loading owner progress) (h : call.Fits known) :
    (call.settled owner outcome).Fits known := by
  simp only [Fits, hphase] at h
  obtain ⟨hcalls, -, hlocked, hstored⟩ := h
  cases owner <;> cases outcome <;>
    simp [settled, CachePhase.afterLoad, Fits, Answers, hcalls, hlocked, hstored]

end CacheCall

theorem TextUnder.mono {entries : String → Option CacheEntry} {server server' : CacheServer δ β}
    {key text : String} (h : TextUnder entries server key text)
    (hstores : ∀ store ∈ server.stores, store ∈ server'.stores) :
    TextUnder entries server' key text := by
  rcases h with hfirst | ⟨store, hstore, hkey⟩
  · exact .inl hfirst
  · exact .inr ⟨store, hstores store hstore, hkey⟩

namespace CacheServer

variable {server : CacheServer δ β} {entries : String → Option CacheEntry} {key token : String}

theorem release_keeps (server : CacheServer δ β) (key token : String) :
    (server.release key token).entries = server.entries ∧
      (server.release key token).stores = server.stores := by
  unfold release
  split
  · split
    · exact ⟨rfl, rfl⟩
    · exact ⟨rfl, rfl⟩
  · exact ⟨rfl, rfl⟩

@[simp] theorem release_entries : (server.release key token).entries = server.entries :=
  (server.release_keeps key token).1

@[simp] theorem release_stores : (server.release key token).stores = server.stores :=
  (server.release_keeps key token).2

/-- Every entry holds a text that was stored under its key. -/
def Backed (entries : String → Option CacheEntry) (server : CacheServer δ β) : Prop :=
  ∀ key entry, server.entries key = some entry → TextUnder entries server key entry.text

theorem Backed.of_same {server' : CacheServer δ β} (h : server.Backed entries)
    (hentries : server'.entries = server.entries) (hstores : server'.stores = server.stores) :
    server'.Backed entries := by
  intro key entry hentry
  rw [hentries] at hentry
  exact (h key entry hentry).mono fun store hstore => hstores ▸ hstore

theorem Backed.dropEntry (h : server.Backed entries) (key : String) :
    (server.dropEntry key).Backed entries :=
  fun other entry hentry => h other entry (dropEntry_entries hentry)

theorem Backed.set (h : server.Backed entries) (now : Time) (store : CacheStore δ β) :
    (server.set now store).Backed entries := by
  intro key entry hentry
  by_cases hkey : key = store.key
  · subst hkey
    obtain rfl : _ = entry := by simpa [CacheServer.set] using hentry
    exact .inr ⟨store, List.mem_cons_self, rfl, rfl⟩
  · have hold := h key entry (by simpa [CacheServer.set, hkey] using hentry)
    exact hold.mono fun _ => List.mem_cons_of_mem store

theorem Backed.storedUnder {now : Time} {value : β} (h : server.Backed entries)
    (hread : readJson json (server.get now key) = some value) :
    StoredUnder json entries server key value := by
  simp only [CacheServer.get] at hread
  split at hread
  next entry hentry =>
    split at hread
    · simp only [readJson] at hread
      split at hread
      · cases hread
      · exact ⟨entry.text, hread, h key entry hentry⟩
    · cases hread
  · cases hread

end CacheServer

structure Transparent (json : Json β) (entries : String → Option CacheEntry)
    (s : CacheSystem δ β) : Prop where
  backed : s.server.Backed entries
  stores : ∀ store ∈ s.server.stores, ∃ call, s.calls store.call = some call ∧ call.stored = true
  calls : ∀ c call, s.calls c = some call → call.Fits (StoredUnder json entries s.server call.key)

namespace Transparent

variable {entries : String → Option CacheEntry} {s t : CacheSystem δ β} {a : CacheAction δ}
  {c : ℕ} {call new : CacheCall δ β} {server : CacheServer δ β}

theorem start (now : Time) (db : δ) (entries : String → Option CacheEntry) :
    Transparent json entries (.start now db entries : CacheSystem δ β) := by
  constructor
  · exact fun key entry hentry => .inl ⟨entry, hentry, rfl⟩
  · simp [CacheSystem.start]
  · simp [CacheSystem.start]

/-- A call moves on, and the server with it. -/
theorem withCall (hs : Transparent json entries s) (hbacked : server.Backed entries)
    (hgrows : ∀ store ∈ s.server.stores, store ∈ server.stores)
    (hnew : ∀ store ∈ server.stores, store ∈ s.server.stores ∨ (store.call = c ∧ new.stored = true))
    (hkeeps : ∀ call, s.calls c = some call → call.stored = true → new.stored = true)
    (hfits : new.Fits (StoredUnder json entries server new.key)) :
    Transparent json entries (s.withCall c new server) := by
  constructor
  · exact hbacked
  · intro store hstore
    by_cases hmine : store.call = c
    · refine ⟨new, by simp [CacheSystem.withCall, hmine], ?_⟩
      rcases hnew store hstore with hold | ⟨-, hstored⟩
      · obtain ⟨call, hcall, hstored⟩ := hs.stores store hold
        exact hkeeps call (hmine ▸ hcall) hstored
      · exact hstored
    · rcases hnew store hstore with hold | ⟨hcall, -⟩
      · obtain ⟨call, hcall, hstored⟩ := hs.stores store hold
        exact ⟨call, by simpa [CacheSystem.withCall, hmine] using hcall, hstored⟩
      · exact (hmine hcall).elim
  · intro d other hother
    by_cases hd : d = c
    · subst hd
      obtain rfl : new = other := by simpa [CacheSystem.withCall] using hother
      exact hfits
    · apply (hs.calls d other (by simpa [CacheSystem.withCall, hd] using hother)).mono
      rintro value ⟨text, hparse, htext⟩
      exact ⟨text, hparse, htext.mono hgrows⟩

/-- A step that leaves entries and stores alone only has to say how its call fits. -/
theorem withCall_of_same (hs : Transparent json entries s) (hcall : s.calls c = some call)
    (hentries : server.entries = s.server.entries) (hstores : server.stores = s.server.stores)
    (hkeeps : call.stored = true → new.stored = true)
    (hfits : new.Fits (StoredUnder json entries s.server new.key)) :
    Transparent json entries (s.withCall c new server) := by
  apply hs.withCall (hs.backed.of_same hentries hstores)
  · exact fun store hstore => hstores ▸ hstore
  · exact fun store hstore => .inl (hstores ▸ hstore)
  · intro other hother hstored
    cases hcall.symm.trans hother
    exact hkeeps hstored
  · apply hfits.mono
    rintro value ⟨text, hparse, htext⟩
    exact ⟨text, hparse, htext.mono fun store hstore => hstores ▸ hstore⟩

theorem of_server (hs : Transparent json entries s) {now : Time} {db : δ}
    (hbacked : server.Backed entries) (hstores : server.stores = s.server.stores) :
    Transparent json entries { s with now, db, server } := by
  constructor
  · exact hbacked
  · exact fun store hstore => hs.stores store (hstores ▸ hstore)
  · intro c call hcall
    apply (hs.calls c call hcall).mono
    rintro value ⟨text, hparse, htext⟩
    exact ⟨text, hparse, htext.mono fun store hstore => hstores ▸ hstore⟩

theorem step (hs : Transparent json entries s)
    (h : cacheStep config json loader s a = some t) : Transparent json entries t := by
  cases cacheStep_moves h with
  | ticked | written => exact hs.of_server hs.backed rfl
  | deleted => exact hs.of_server (hs.backed.dropEntry _) rfl
  | unlocked => exact hs.of_server (hs.backed.of_same rfl rfl) rfl
  | @began c key kind token hnew hfresh =>
      have hbegun : Transparent json entries
          (s.withCall c (.begun config s.now key kind token) s.server) := by
        apply hs.withCall hs.backed (fun _ hstore => hstore) (fun _ hstore => .inl hstore)
        · intro call hcall
          rw [hnew] at hcall
          cases hcall
        · exact CacheCall.begun_fits config key kind token
      exact ⟨hbegun.backed, hbegun.stores, hbegun.calls⟩
  | got _ hcall hget hfound =>
      apply hs.withCall_of_same hcall rfl rfl CacheCall.goto_stored
      rw [CacheCall.goto_key]
      exact CacheCall.goto_got_fits hget
        (fun value hvalue => hs.backed.storedUnder (hfound value hvalue)) (hs.calls _ _ hcall)
  | acquired hcall hphase hfree =>
      refine hs.withCall_of_same hcall rfl rfl CacheCall.goto_stored ?_
      have hfits := hs.calls _ _ hcall
      simp only [CacheCall.Fits, hphase] at hfits
      simp [CacheCall.goto, hphase, CacheCall.Fits, hfits]
  | @refused _ c call server _ hcall hphase hserver =>
      have hentries : server.entries = s.server.entries := by
        rcases hserver with rfl | ⟨-, rfl⟩ <;> rfl
      have hstores : server.stores = s.server.stores := by
        rcases hserver with rfl | ⟨-, rfl⟩ <;> rfl
      apply hs.withCall_of_same hcall hentries hstores CacheCall.goto_stored
      have hfits := hs.calls _ _ hcall
      simp only [CacheCall.Fits, hphase] at hfits
      simp [CacheCall.goto, hphase, CacheCall.Fits, hfits]
  | @stored _ c call value draw server _ hcall hphase hserver =>
      have hfits : (call.goto s.now (.releasing (.ok value))).Fits
          (StoredUnder json entries s.server call.key) :=
        CacheCall.goto_of_storing hphase (hs.calls c call hcall)
      have hflag : (call.goto s.now (.releasing (.ok value))).stored = true := by
        simp [CacheCall.goto, hphase]
      rcases hserver with rfl | rfl
      · apply hs.withCall_of_same hcall rfl rfl CacheCall.goto_stored
        rwa [CacheCall.goto_key]
      · apply hs.withCall (hs.backed.set _ _)
        · exact fun store hstore => List.mem_cons_of_mem _ hstore
        · intro store hstore
          rcases List.mem_cons.mp hstore with rfl | hold
          · exact .inr ⟨rfl, hflag⟩
          · exact .inl hold
        · exact fun _ _ _ => hflag
        · rw [CacheCall.goto_key]
          apply hfits.mono
          rintro value ⟨text, hparse, htext⟩
          exact ⟨text, hparse, htext.mono fun store hstore => List.mem_cons_of_mem _ hstore⟩
  | @released _ c call outcome server _ hcall hphase hserver =>
      have hentries : server.entries = s.server.entries := by
        rcases hserver with rfl | rfl <;> simp
      have hstores : server.stores = s.server.stores := by
        rcases hserver with rfl | rfl <;> simp
      apply hs.withCall_of_same hcall hentries hstores CacheCall.goto_stored
      rw [CacheCall.goto_key]
      exact CacheCall.goto_of_releasing hphase (hs.calls c call hcall)
  | @queried c call owner progress hcall hphase =>
      refine hs.withCall_of_same hcall rfl rfl (fun hstored => hstored) ?_
      have hfits := hs.calls c call hcall
      simp only [CacheCall.Fits, hphase] at hfits
      simpa [CacheCall.Fits, CacheCall.queried, hphase] using hfits
  | settled _ hcall hphase _ =>
      refine hs.withCall_of_same hcall rfl rfl (fun hstored => hstored) ?_
      exact CacheCall.settled_fits hphase (hs.calls _ _ hcall)

end Transparent

/-! ### Every call ends -/

/-- The steps of a call, the queries of its loader apart. -/
def CacheAction.advances {δ : Type} (c : ℕ) : CacheAction δ → Bool
  | .command d _ | .throws d _ _ | .garbled d _ | .settle d | .loaderThrows d _ => d == c
  | _ => false

/-- How many steps a call has ahead of it at most. -/
def CachePhase.rank {β : Type} : CachePhase Unit β → ℕ
  | .reading => 10
  | .locking => 9
  | .waiting attempt => 4 + (4 - attempt)
  | .rechecking => 4
  | .loading _ _ => 3
  | .storing _ => 2
  | .releasing _ => 1
  | .finished _ => 0

def CacheSystem.rank (c : ℕ) (s : CacheSystem δ β) : ℕ :=
  match s.calls c with
  | some call => call.phase.rank
  | none => 10

section Rank

variable {s t : CacheSystem δ β} {a : CacheAction δ} {c d : ℕ} {call : CacheCall δ β}

theorem call_of_advances (h : a.advances c = true) : a.call = some c := by
  cases a with
  | command d | throws d | garbled d | settle d | loaderThrows d =>
      exact congrArg some (beq_iff_eq.mp h)
  | tick | write | begin | query | del | expireLock => cases h

theorem rank_afterGet {found : Option β} {phase phase' : CachePhase Unit β}
    (h : phase.afterGet found = some phase') : phase'.rank < phase.rank := by
  cases phase with
  | reading =>
      cases found <;> cases h <;> simp [CachePhase.afterRead, CachePhase.rank]
  | rechecking =>
      cases found <;> cases h <;> simp [CachePhase.afterRecheck, CachePhase.rank]
  | waiting attempt =>
      cases found with
      | some value =>
          cases h
          simp only [CachePhase.afterWait, CachePhase.rank]
          omega
      | none =>
          cases h
          by_cases hmore : attempt + 1 < CachePhase.maxWaits
          · simp only [CachePhase.afterWait, hmore, if_true, CachePhase.rank]
            simp only [CachePhase.maxWaits] at hmore
            omega
          · simp only [CachePhase.afterWait, hmore, if_false, CachePhase.rank]
            omega
  | locking => cases h
  | loading owner progress => cases h
  | storing value => cases h
  | releasing outcome => cases h
  | finished outcome => cases h

theorem rank_withCall {new : CacheCall δ β} {server : CacheServer δ β} (ha : a.call = some d)
    (hcall : s.calls d = some call) (hless : new.phase.rank < call.phase.rank) :
    (s.withCall d new server).rank c + (if a.advances c then 1 else 0) ≤ s.rank c := by
  by_cases hc : c = d
  · subst hc
    simp only [CacheSystem.rank, CacheSystem.withCall, Function.update_self, hcall]
    split <;> omega
  · have hother : a.advances c = false := by
      cases hadvances : a.advances c with
      | false => rfl
      | true =>
          have hsame := (call_of_advances hadvances).symm.trans ha
          exact (hc (Option.some.inj hsame)).elim
    simp [CacheSystem.rank, CacheSystem.withCall, hc, hother]

theorem rank_step (h : cacheStep config json loader s a = some t) :
    t.rank c + (if a.advances c then 1 else 0) ≤ s.rank c := by
  cases cacheStep_moves h with
  | ticked | written | deleted | unlocked => exact Nat.le_refl _
  | @began d key kind token hnew hfresh =>
      by_cases hc : c = d
      · subst hc
        simp [CacheSystem.rank, CacheSystem.withCall, CacheCall.begun, CachePhase.rank, hnew,
          CacheAction.advances]
      · simp [CacheSystem.rank, CacheSystem.withCall, hc, CacheAction.advances]
  | got ha hcall hget _ =>
      apply rank_withCall ha hcall
      rw [CacheCall.goto_phase]
      exact rank_afterGet hget
  | acquired hcall hphase _ =>
      apply rank_withCall rfl hcall
      simp [hphase, CachePhase.rank]
  | refused ha hcall hphase _ =>
      apply rank_withCall ha hcall
      simp [hphase, CachePhase.rank]
  | stored ha hcall hphase _ =>
      apply rank_withCall ha hcall
      simp [hphase, CachePhase.rank]
  | released ha hcall hphase _ =>
      apply rank_withCall ha hcall
      simp [hphase, CachePhase.rank]
  | @queried d call owner progress hcall hphase =>
      by_cases hc : c = d
      · subst hc
        simp [CacheSystem.rank, CacheSystem.withCall, hcall, CacheCall.queried,
          CacheAction.advances]
      · simp [CacheSystem.rank, CacheSystem.withCall, hc, CacheAction.advances]
  | @settled _ d call owner progress outcome ha hcall hphase _ =>
      apply rank_withCall ha hcall
      cases owner <;> cases outcome <;>
        simp [CacheCall.settled, CachePhase.afterLoad, hphase, CachePhase.rank]

/-- A call that has not finished can always go on. -/
theorem exists_advance (hcall : s.calls c = some call)
    (hopen : ∀ outcome, call.phase ≠ .finished outcome) :
    ∃ a, a.advances c = true ∧ (cacheStep config json loader s a).isSome := by
  have hdraw : (0 : ℚ) ≤ 0 ∧ (0 : ℚ) < 1 := by norm_num
  cases hphase : call.phase with
  | loading owner progress =>
      exact ⟨.settle c, beq_self_eq_true c, by simp [cacheStep, hcall, hphase]⟩
  | locking =>
      refine ⟨.command c ⟨0, hdraw⟩, beq_self_eq_true c, ?_⟩
      simp only [cacheStep, hcall, CacheCall.issue, hphase]
      split <;> rfl
  | finished outcome => exact (hopen outcome hphase).elim
  | reading | waiting | rechecking | storing | releasing =>
      refine ⟨.command c ⟨0, hdraw⟩, beq_self_eq_true c, ?_⟩
      simp [cacheStep, hcall, CacheCall.issue, hphase, CachePhase.afterGet]

end Rank

section Runs

variable {now : Time} {db : δ} {entries : String → Option CacheEntry}
  {acts : List (CacheAction δ)} {t : CacheSystem δ β} {c : ℕ} {call : CacheCall δ β}

theorem Transparent.run
    (hrun : exec (cacheStep config json loader) (.start now db entries) acts = some t) :
    Transparent json entries t := by
  have hstep : ∀ (s : CacheSystem δ β) a t, Transparent json entries s →
      cacheStep config json loader s a = some t → Transparent json entries t :=
    fun _ _ _ hs h => hs.step h
  exact exec_invariant hstep (.start now db entries) hrun

theorem advances_le
    (hrun : exec (cacheStep config json loader) (.start now db entries) acts = some t) (c : ℕ) :
    acts.countP (·.advances c) ≤ 10 := by
  have hstep : ∀ (s : CacheSystem δ β) a t, True → True →
      cacheStep config json loader s a = some t →
        t.rank c + (if a.advances c then 1 else 0) ≤ s.rank c := fun _ _ _ _ _ => rank_step
  have hcount := exec_countP_le (·.advances c) (CacheSystem.rank c) (fun _ _ _ _ _ _ => trivial)
    hstep trivial (along_of_forall_mem fun _ _ _ => trivial) hrun
  exact (Nat.le_add_right _ _).trans hcount

/-- However Redis behaves, a call runs its loader once at most; it ends, after
no more than ten commands and loader exits, with what its own loader came to
or with a value stored under its key; after a failure it has stored nothing;
and a lock it obtained it has tried to release. -/
theorem cacheAside_transparent
    (hrun : exec (cacheStep config json loader) (.start now db entries) acts = some t)
    (hcall : t.calls c = some call) :
    call.log.calls ≤ 1 ∧
      (∀ value, call.phase = .finished (.ok value) →
        call.log.outcome = some (.ok value) ∨ StoredUnder json entries t.server call.key value) ∧
      (∀ failure, call.phase = .finished (.error failure) →
        call.log.outcome = some (.error failure) ∧ call.stored = false ∧
          ∀ store ∈ t.server.stores, store.call ≠ c) ∧
      (∀ outcome, call.phase = .finished outcome → call.locked = true → call.released = true) ∧
      acts.countP (·.advances c) ≤ 10 ∧
      ((∀ outcome, call.phase ≠ .finished outcome) →
        ∃ a, a.advances c = true ∧ (cacheStep config json loader t a).isSome) := by
  have ht := Transparent.run hrun
  have hfits := ht.calls c call hcall
  refine ⟨?_, ?_, ?_, ?_, advances_le hrun c, exists_advance hcall⟩
  · unfold CacheCall.Fits at hfits
    split at hfits <;> omega
  · intro value hphase
    simp only [CacheCall.Fits, hphase] at hfits
    exact hfits.2.1
  · intro failure hphase
    simp only [CacheCall.Fits, hphase] at hfits
    obtain ⟨-, ⟨houtcome, hstored⟩, -⟩ := hfits
    refine ⟨houtcome, hstored, ?_⟩
    rintro store hstore rfl
    obtain ⟨other, hother, htrue⟩ := ht.stores store hstore
    cases hcall.symm.trans hother
    rw [hstored] at htrue
    cases htrue
  · intro outcome hphase
    simp only [CacheCall.Fits, hphase] at hfits
    exact hfits.2.2

end Runs

/-- The defaults of the `config` schema. -/
def defaultCacheConfig : CacheConfig := ⟨60, 120, 10, by decide, by decide, by decide⟩

def evenDraw : Draw := ⟨1 / 2, by norm_num⟩

/-- `JSON` on booleans. -/
def flagJson : Json Bool where
  parse raw := if raw = "true" then some true else if raw = "false" then some false else none
  stringify flag := if flag then "true" else "false"

/-- A loader with one query, of a database that holds one flag. -/
def flagLoader (_ : String) (views : List Bool) : Except Failure Bool :=
  match views.getLast? with
  | some flag => .ok flag
  | none => .error (.status 404 "Event not found")

/-- One call of which half the commands fail. -/
def hiccups : List (CacheAction Bool) :=
  [.begin 0 "key" .detail "token", .throws 0 false evenDraw, .command 0 evenDraw,
    .garbled 0 "<html>", .query 0, .settle 0, .throws 0 true evenDraw, .throws 0 false evenDraw]

theorem cacheAside_transparent_hiccups :
    ∃ t call, exec (cacheStep defaultCacheConfig flagJson flagLoader)
        (.start 0 true fun _ => none) hiccups = some t ∧
      t.calls 0 = some call ∧ call.phase = .finished (.ok true) ∧ call.locked = true ∧
      call.log.calls ≤ 1 ∧ call.released = true := by
  obtain ⟨t, call, hrun, hcall, hphase, hlocked⟩ : ∃ t call,
      exec (cacheStep defaultCacheConfig flagJson flagLoader)
          (.start 0 true fun _ => none) hiccups = some t ∧
        t.calls 0 = some call ∧ call.phase = .finished (.ok true) ∧ call.locked = true :=
    ⟨_, _, rfl, rfl, rfl, rfl⟩
  have htransparent := cacheAside_transparent hrun hcall
  exact ⟨t, call, hrun, hcall, hphase, hlocked, htransparent.1,
    htransparent.2.2.2.1 _ hphase hlocked⟩

end Eventify
