import Eventify.Cache.CacheAside
import Eventify.Library.Machine
import Mathlib.Data.Rat.Floor

/-!
# Cache-aside calls on a failing Redis

Any number of `cacheAside` calls over the texts that Redis holds. Every
command may succeed or throw, with or without having reached the server; a
`get` may return text that is no JSON; keys and locks may vanish at any time,
and the database is written to meanwhile. What a call has done is logged.
-/

namespace Eventify

open Library

/-- The cache settings, within the bounds of the `config` schema. -/
structure CacheConfig where
  listTtlSeconds : ℕ
  detailTtlSeconds : ℕ
  jitterPercent : ℕ
  listTtl_bounds : 1 ≤ listTtlSeconds ∧ listTtlSeconds ≤ 3600
  detailTtl_bounds : 1 ≤ detailTtlSeconds ∧ detailTtlSeconds ≤ 3600
  jitterPercent_le : jitterPercent ≤ 50

/-- `eventCache.list` or `eventCache.detail`. -/
inductive CacheKind where
  | list
  | detail
  deriving DecidableEq, Repr

def CacheConfig.ttlSeconds (config : CacheConfig) : CacheKind → ℕ
  | .list => config.listTtlSeconds
  | .detail => config.detailTtlSeconds

/-- A value of `Math.random()`. -/
abbrev Draw := { x : ℚ // 0 ≤ x ∧ x < 1 }

/-- `Math.round`. -/
def mathRound (x : ℚ) : ℤ := ⌊x + 1 / 2⌋

def jitteredTtl (percent ttlSeconds : ℕ) (draw : ℚ) : ℤ :=
  if percent = 0 then ttlSeconds
  else
    let range : ℚ := ttlSeconds * (percent / 100)
    let jitter := mathRound ((draw * 2 - 1) * range)
    max 1 (ttlSeconds + jitter)

/-- `JSON` on cached values; `parse` finds nothing where `JSON.parse` throws
or yields `null`. -/
structure Json (β : Type) where
  parse : String → Option β
  stringify : β → String

/-- `readJson` after the reply of `redis.get`. -/
def readJson {β : Type} (json : Json β) : Option String → Option β
  | none => none
  | some raw => if raw.isEmpty then none else json.parse raw

/-- The loader of a call: how often it was called and when last, the database
states its queries have seen, and what it came to. -/
structure LoaderLog (δ β : Type) where
  calls : ℕ
  since : Time
  views : List (Time × δ)
  outcome : Option (Except Failure β)

/-- `locked` once `OK` came back for the lock, `stored` and `released` once
`redis.set` and `redis.eval` were called. -/
structure CacheCall (δ β : Type) where
  key : String
  ttlSeconds : ℕ
  token : String
  phase : CachePhase Unit β
  log : LoaderLog δ β
  locked : Bool
  stored : Bool
  released : Bool

structure CacheEntry where
  text : String
  expiresAt : Time

/-- One `redis.set` that reached the server. -/
structure CacheStore (δ β : Type) where
  call : ℕ
  key : String
  text : String
  storedAt : Time
  ttlSeconds : ℕ
  expirySeconds : ℤ
  log : LoaderLog δ β

/-- The lock of `key` lives under `${key}:lock`; beside its token stands the
call that set it. -/
structure CacheServer (δ β : Type) where
  entries : String → Option CacheEntry
  locks : String → Option (String × ℕ)
  stores : List (CacheStore δ β)

structure CacheSystem (δ β : Type) where
  now : Time
  db : δ
  server : CacheServer δ β
  tokens : List String
  calls : ℕ → Option (CacheCall δ β)

inductive CacheAction (δ : Type) where
  | tick (ms : ℕ)
  | write (db : δ)
  | begin (c : ℕ) (key : String) (kind : CacheKind) (token : String)
  | command (c : ℕ) (draw : Draw)
  /-- The command throws; it has reached the server before when it `landed`. -/
  | throws (c : ℕ) (landed : Bool) (draw : Draw)
  | garbled (c : ℕ) (text : String)
  | query (c : ℕ)
  | settle (c : ℕ)
  | loaderThrows (c : ℕ) (failure : Failure)
  | del (key : String)
  | expireLock (key : String)

/-- The call that acts, if one does. -/
def CacheAction.call {δ : Type} : CacheAction δ → Option ℕ
  | .command c _ | .throws c _ _ | .garbled c _ | .query c | .settle c | .loaderThrows c _ => some c
  | _ => none

namespace CacheServer

variable {δ β : Type}

def get (server : CacheServer δ β) (now : Time) (key : String) : Option String :=
  match server.entries key with
  | some entry => if now ≤ entry.expiresAt then some entry.text else none
  | none => none

def lock (server : CacheServer δ β) (key token : String) (c : ℕ) : CacheServer δ β :=
  { server with locks := Function.update server.locks key (some (token, c)) }

def dropLock (server : CacheServer δ β) (key : String) : CacheServer δ β :=
  { server with locks := Function.update server.locks key none }

def dropEntry (server : CacheServer δ β) (key : String) : CacheServer δ β :=
  { server with entries := Function.update server.entries key none }

theorem dropEntry_entries {server : CacheServer δ β} {key k : String} {entry : CacheEntry}
    (h : (server.dropEntry k).entries key = some entry) : server.entries key = some entry := by
  by_cases hk : key = k
  · subst hk
    simp [dropEntry] at h
  · simpa [dropEntry, hk] using h

/-- `RELEASE_LOCK_SCRIPT`. -/
def release (server : CacheServer δ β) (key token : String) : CacheServer δ β :=
  match server.locks key with
  | some lock => if lock.1 = token then server.dropLock key else server
  | none => server

def set (server : CacheServer δ β) (now : Time) (store : CacheStore δ β) : CacheServer δ β where
  entries := Function.update server.entries store.key
    (some ⟨store.text, now + store.expirySeconds * 1000⟩)
  locks := server.locks
  stores := store :: server.stores

end CacheServer

/-- Where a `get` leads, by what `readJson` made of it. -/
def CachePhase.afterGet {β : Type} (found : Option β) :
    CachePhase Unit β → Option (CachePhase Unit β)
  | .reading => some (.afterRead found)
  | .waiting attempt => some (.afterWait () attempt found)
  | .rechecking => some (.afterRecheck () found)
  | _ => none

theorem afterFailure_of_afterGet {β : Type} {found : Option β} {phase phase' : CachePhase Unit β}
    (h : phase.afterGet found = some phase') : phase.afterFailure () = phase.afterGet none := by
  cases phase with
  | reading | rechecking => rfl
  | waiting attempt => rfl
  | locking => cases h
  | loading owner progress => cases h
  | storing value => cases h
  | releasing outcome => cases h
  | finished outcome => cases h

namespace CacheCall

variable {δ β : Type}

def begun (config : CacheConfig) (now : Time) (key : String) (kind : CacheKind)
    (token : String) : CacheCall δ β :=
  ⟨key, config.ttlSeconds kind, token, .reading, ⟨0, now, [], none⟩, false, false, false⟩

/-- A call goes from one await point to the next. -/
def goto (call : CacheCall δ β) (now : Time) (phase : CachePhase Unit β) : CacheCall δ β :=
  match call.phase, phase with
  | _, .loading _ _ =>
      { call with phase, log := { call.log with calls := call.log.calls + 1, since := now } }
  | .locking, .rechecking => { call with phase, locked := true }
  | .storing _, _ => { call with phase, stored := true }
  | .releasing _, _ => { call with phase, released := true }
  | _, _ => { call with phase }

def queried (call : CacheCall δ β) (now : Time) (db : δ) : CacheCall δ β :=
  { call with log := { call.log with views := call.log.views ++ [(now, db)] } }

def settled (call : CacheCall δ β) (owner : Bool) (outcome : Except Failure β) :
    CacheCall δ β :=
  { call with
    phase := .afterLoad owner outcome
    log := { call.log with outcome := some outcome } }

def store (call : CacheCall δ β) (config : CacheConfig) (json : Json β) (now : Time) (c : ℕ)
    (value : β) (draw : Draw) : CacheStore δ β where
  call := c
  key := call.key
  text := json.stringify value
  storedAt := now
  ttlSeconds := call.ttlSeconds
  expirySeconds := jitteredTtl config.jitterPercent call.ttlSeconds draw
  log := call.log

end CacheCall

section Step

variable {δ β : Type} (config : CacheConfig) (json : Json β)
  (loader : String → List δ → Except Failure β)

/-- The Redis command a call awaits: where its reply leads, and what it does
to the server. -/
def CacheCall.issue (call : CacheCall δ β) (now : Time) (c : ℕ) (draw : Draw)
    (server : CacheServer δ β) : Option (CachePhase Unit β × CacheServer δ β) :=
  match call.phase with
  | .locking =>
      if (server.locks call.key).isNone then
        some (.afterLock true, server.lock call.key call.token c)
      else some (.afterLock false, server)
  | .storing value =>
      some (.releasing (.ok value), server.set now (call.store config json now c value draw))
  | .releasing outcome => some (.finished outcome, server.release call.key call.token)
  | phase => (phase.afterGet (readJson json (server.get now call.key))).map fun next =>
      (next, server)

namespace CacheSystem

def start (now : Time) (db : δ) (entries : String → Option CacheEntry) : CacheSystem δ β :=
  ⟨now, db, ⟨entries, fun _ => none, []⟩, [], fun _ => none⟩

def withCall (s : CacheSystem δ β) (c : ℕ) (call : CacheCall δ β) (server : CacheServer δ β) :
    CacheSystem δ β :=
  { s with calls := Function.update s.calls c (some call), server }

end CacheSystem

def cacheStep (s : CacheSystem δ β) : CacheAction δ → Option (CacheSystem δ β)
  | .tick ms => some { s with now := s.now + ms }
  | .write db => some { s with db }
  | .begin c key kind token =>
      match s.calls c with
      | some _ => none
      | none =>
          if token ∈ s.tokens then none
          else some { s.withCall c (.begun config s.now key kind token) s.server with
            tokens := token :: s.tokens }
  | .command c draw =>
      match s.calls c with
      | some call => (call.issue config json s.now c draw s.server).map fun next =>
          s.withCall c (call.goto s.now next.1) next.2
      | none => none
  | .throws c landed draw =>
      match s.calls c with
      | some call =>
          (call.issue config json s.now c draw s.server).bind fun next =>
            (call.phase.afterFailure ()).map fun phase =>
              s.withCall c (call.goto s.now phase) (if landed then next.2 else s.server)
      | none => none
  | .garbled c text =>
      match s.calls c with
      | some call =>
          if (json.parse text).isNone then
            (call.phase.afterGet (readJson json (some text))).map fun phase =>
              s.withCall c (call.goto s.now phase) s.server
          else none
      | none => none
  | .query c =>
      match s.calls c with
      | some call =>
          match call.phase with
          | .loading _ _ => some (s.withCall c (call.queried s.now s.db) s.server)
          | _ => none
      | none => none
  | .settle c =>
      match s.calls c with
      | some call =>
          match call.phase with
          | .loading owner _ => some (s.withCall c
              (call.settled owner (loader call.key (call.log.views.map Prod.snd))) s.server)
          | _ => none
      | none => none
  | .loaderThrows c failure =>
      match s.calls c with
      | some call =>
          match call.phase with
          | .loading owner _ => some (s.withCall c (call.settled owner (.error failure)) s.server)
          | _ => none
      | none => none
  | .del key => some { s with server := s.server.dropEntry key }
  | .expireLock key => some { s with server := s.server.dropLock key }

/-- The steps of `cacheStep`: those of the environment, and those of a call
by where it stands, however its command comes out. -/
inductive CacheMove (s : CacheSystem δ β) : CacheAction δ → CacheSystem δ β → Prop
  | ticked {ms} : CacheMove s (.tick ms) { s with now := s.now + ms }
  | written {db} : CacheMove s (.write db) { s with db }
  | began {c key kind token} (hnew : s.calls c = none) (hfresh : token ∉ s.tokens) :
      CacheMove s (.begin c key kind token)
        { s.withCall c (.begun config s.now key kind token) s.server with
          tokens := token :: s.tokens }
  | got {a c call found phase} (ha : a.call = some c) (hcall : s.calls c = some call)
      (hget : call.phase.afterGet found = some phase)
      (hfound : ∀ value, found = some value →
        readJson json (s.server.get s.now call.key) = some value) :
      CacheMove s a (s.withCall c (call.goto s.now phase) s.server)
  | acquired {c call draw} (hcall : s.calls c = some call) (hphase : call.phase = .locking)
      (hfree : s.server.locks call.key = none) :
      CacheMove s (.command c draw)
        (s.withCall c (call.goto s.now .rechecking) (s.server.lock call.key call.token c))
  | refused {a c call server} (ha : a.call = some c) (hcall : s.calls c = some call)
      (hphase : call.phase = .locking)
      (hserver : server = s.server ∨
        (s.server.locks call.key = none ∧ server = s.server.lock call.key call.token c)) :
      CacheMove s a (s.withCall c (call.goto s.now (.waiting 0)) server)
  | stored {a c call value draw server} (ha : a.call = some c) (hcall : s.calls c = some call)
      (hphase : call.phase = .storing value)
      (hserver : server = s.server ∨
        server = s.server.set s.now (call.store config json s.now c value draw)) :
      CacheMove s a (s.withCall c (call.goto s.now (.releasing (.ok value))) server)
  | released {a c call outcome server} (ha : a.call = some c) (hcall : s.calls c = some call)
      (hphase : call.phase = .releasing outcome)
      (hserver : server = s.server ∨ server = s.server.release call.key call.token) :
      CacheMove s a (s.withCall c (call.goto s.now (.finished outcome)) server)
  | queried {c call owner progress} (hcall : s.calls c = some call)
      (hphase : call.phase = .loading owner progress) :
      CacheMove s (.query c) (s.withCall c (call.queried s.now s.db) s.server)
  | settled {a c call owner progress outcome} (ha : a.call = some c)
      (hcall : s.calls c = some call) (hphase : call.phase = .loading owner progress)
      (hloaded : ∀ value, outcome = .ok value →
        loader call.key (call.log.views.map Prod.snd) = .ok value) :
      CacheMove s a (s.withCall c (call.settled owner outcome) s.server)
  | deleted {key} : CacheMove s (.del key) { s with server := s.server.dropEntry key }
  | unlocked {key} : CacheMove s (.expireLock key) { s with server := s.server.dropLock key }

variable {config json loader} {s t : CacheSystem δ β} {a : CacheAction δ}

theorem command_moves {c : ℕ} {draw : Draw}
    (h : cacheStep config json loader s (.command c draw) = some t) :
    CacheMove config json loader s (.command c draw) t := by
  simp only [cacheStep] at h
  split at h
  next call hcall =>
    obtain ⟨next, hnext, rfl⟩ := Option.map_eq_some_iff.mp h
    unfold CacheCall.issue at hnext
    split at hnext
    next hphase =>
      split at hnext
      next hfree =>
        cases hnext
        exact .acquired hcall hphase (Option.isNone_iff_eq_none.mp hfree)
      · cases hnext
        exact .refused rfl hcall hphase (.inl rfl)
    next value hphase =>
      cases hnext
      exact .stored rfl hcall hphase (.inr rfl)
    next outcome hphase =>
      cases hnext
      exact .released rfl hcall hphase (.inr rfl)
    · obtain ⟨phase, hget, rfl⟩ := Option.map_eq_some_iff.mp hnext
      exact .got rfl hcall hget fun value hvalue => hvalue
  · cases h

theorem throws_moves {c : ℕ} {landed : Bool} {draw : Draw}
    (h : cacheStep config json loader s (.throws c landed draw) = some t) :
    CacheMove config json loader s (.throws c landed draw) t := by
  have hserver : ∀ server : CacheServer δ β, (if landed then server else s.server) = s.server ∨
      (if landed then server else s.server) = server := by
    intro server
    cases landed with
    | false => exact .inl rfl
    | true => exact .inr rfl
  simp only [cacheStep] at h
  split at h
  next call hcall =>
    obtain ⟨next, hnext, h⟩ := Option.bind_eq_some_iff.mp h
    obtain ⟨phase, hfailure, rfl⟩ := Option.map_eq_some_iff.mp h
    unfold CacheCall.issue at hnext
    split at hnext
    next hphase =>
      rw [hphase] at hfailure
      cases hfailure
      split at hnext
      next hfree =>
        cases hnext
        apply CacheMove.refused rfl hcall hphase
        exact (hserver _).imp_right fun hlock => ⟨Option.isNone_iff_eq_none.mp hfree, hlock⟩
      · cases hnext
        exact .refused rfl hcall hphase (.inl (by simp))
    next value hphase =>
      rw [hphase] at hfailure
      cases hfailure
      cases hnext
      exact .stored rfl hcall hphase (hserver _)
    next outcome hphase =>
      rw [hphase] at hfailure
      cases hfailure
      cases hnext
      exact .released rfl hcall hphase (hserver _)
    · obtain ⟨found, hget, rfl⟩ := Option.map_eq_some_iff.mp hnext
      rw [afterFailure_of_afterGet hget] at hfailure
      simp only [ite_self]
      exact .got rfl hcall hfailure (by simp)
  · cases h

theorem cacheStep_moves (h : cacheStep config json loader s a = some t) :
    CacheMove config json loader s a t := by
  cases a with
  | tick ms =>
      cases h
      exact .ticked
  | write db =>
      cases h
      exact .written
  | begin c key kind token =>
      simp only [cacheStep] at h
      split at h
      · cases h
      next hnew =>
        split at h
        · cases h
        next hfresh =>
          cases h
          exact .began hnew hfresh
  | command c draw => exact command_moves h
  | throws c landed draw => exact throws_moves h
  | garbled c text =>
      simp only [cacheStep] at h
      split at h
      next call hcall =>
        split at h
        next hgarbled =>
          obtain ⟨phase, hget, rfl⟩ := Option.map_eq_some_iff.mp h
          apply CacheMove.got rfl hcall hget
          intro value hvalue
          simp only [readJson, Option.isNone_iff_eq_none.mp hgarbled, ite_self] at hvalue
          cases hvalue
        · cases h
      · cases h
  | query c =>
      simp only [cacheStep] at h
      split at h
      next call hcall =>
        split at h
        next hphase =>
          cases h
          exact .queried hcall hphase
        · cases h
      · cases h
  | settle c =>
      simp only [cacheStep] at h
      split at h
      next call hcall =>
        split at h
        next hphase =>
          cases h
          exact .settled rfl hcall hphase fun value hvalue => hvalue
        · cases h
      · cases h
  | loaderThrows c failure =>
      simp only [cacheStep] at h
      split at h
      next call hcall =>
        split at h
        next hphase =>
          cases h
          exact .settled rfl hcall hphase (by simp)
        · cases h
      · cases h
  | del key =>
      cases h
      exact .deleted
  | expireLock key =>
      cases h
      exact .unlocked

end Step

end Eventify
