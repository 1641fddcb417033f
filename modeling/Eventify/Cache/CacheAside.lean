import Eventify.Domain
import Mathlib.Logic.Function.Basic

/-!
# Cache keys and cache-aside calls

The Redis keys of the event cache and the steps of one `cacheAside` call. A
call stands at an await point; the reply it gets there decides where it goes
next.
-/

namespace Eventify

def eventCacheDetailPrefix : String := "eventify:cache:event:"

def eventCacheDetailKey (id : String) : String := eventCacheDetailPrefix ++ id

def eventCacheListPrefix : String := "eventify:cache:events:list:"

def eventCacheListKey (version : ℕ) (digest : String) : String :=
  eventCacheListPrefix ++ toString version ++ ":" ++ digest

theorem eventCacheDetailKey_inj {id id' : String} :
    eventCacheDetailKey id = eventCacheDetailKey id' ↔ id = id' := by
  constructor
  · intro h
    have hchars := congrArg String.toList h
    simp only [eventCacheDetailKey, String.toList_append] at hchars
    exact String.toList_inj.mp (List.append_cancel_left hchars)
  · exact fun h => h ▸ rfl

theorem split_inj {α : Type*} {x : α} {as bs cs ds : List α} (has : x ∉ as) (hbs : x ∉ bs)
    (h : as ++ x :: cs = bs ++ x :: ds) : as = bs ∧ cs = ds := by
  induction as generalizing bs with
  | nil =>
      cases bs with
      | nil => exact ⟨rfl, List.tail_eq_of_cons_eq h⟩
      | cons b bs => exact (hbs (by simp [List.head_eq_of_cons_eq h])).elim
  | cons a as ih =>
      cases bs with
      | nil => exact (has (by simp [List.head_eq_of_cons_eq h])).elim
      | cons b bs =>
          obtain rfl : a = b := List.head_eq_of_cons_eq h
          have hrest := ih (fun hmem => has (List.mem_cons_of_mem _ hmem))
            (fun hmem => hbs (List.mem_cons_of_mem _ hmem)) (List.tail_eq_of_cons_eq h)
          exact ⟨by rw [hrest.1], hrest.2⟩

theorem colon_not_mem_repr (n : ℕ) : ':' ∉ Nat.toDigits 10 n := by
  intro hmem
  have hdigit := Nat.isDigit_of_mem_toDigits (by decide) (by decide) hmem
  exact absurd hdigit (by decide)

theorem eventCacheListKey_inj {version version' : ℕ} {digest digest' : String} :
    eventCacheListKey version digest = eventCacheListKey version' digest' ↔
      version = version' ∧ digest = digest' := by
  constructor
  · intro h
    have hchars := congrArg String.toList h
    simp only [eventCacheListKey, String.toList_append, List.append_assoc,
      Nat.toString_eq_ofList_toDigits, String.toList_ofList] at hchars
    have htail := List.append_cancel_left hchars
    obtain ⟨hversion, hdigest⟩ :=
      split_inj (colon_not_mem_repr version) (colon_not_mem_repr version') htail
    have hnumber := congrArg (fun digits => Nat.ofDigitChars 10 digits 0) hversion
    exact ⟨by simpa using hnumber, String.toList_inj.mp hdigest⟩
  · rintro ⟨rfl, rfl⟩
    rfl

/-- No key is both a list key and a detail key. -/
theorem eventCacheListKey_ne_detailKey (version : ℕ) (digest id : String) :
    eventCacheListKey version digest ≠ eventCacheDetailKey id := by
  intro h
  have hchar := congrArg (fun key => key.toList[20]?) h
  simp only [eventCacheListKey, eventCacheDetailKey, String.toList_append,
    List.append_assoc] at hchar
  rw [List.getElem?_append_left (by decide), List.getElem?_append_left (by decide)] at hchar
  exact absurd hchar (by decide)

/-- Where a `cacheAside` call is; `loading` says whether it owns the lock and
how far its loader is. -/
inductive CachePhase (γ β : Type*) where
  | reading
  | locking
  | waiting (attempt : ℕ)
  | rechecking
  | loading (owner : Bool) (progress : γ)
  | storing (value : β)
  | releasing (outcome : Except Failure β)
  | finished (outcome : Except Failure β)

namespace CachePhase

variable {γ β : Type*}

def maxWaits : ℕ := 5

def afterRead : Option β → CachePhase γ β
  | some value => finished (.ok value)
  | none => locking

def afterLock (locked : Bool) : CachePhase γ β := if locked then rechecking else waiting 0

def afterWait (start : γ) (attempt : ℕ) : Option β → CachePhase γ β
  | some value => finished (.ok value)
  | none => if attempt + 1 < maxWaits then waiting (attempt + 1) else loading false start

def afterRecheck (start : γ) : Option β → CachePhase γ β
  | some value => releasing (.ok value)
  | none => loading true start

/-- The loader settles: only the owner of the lock stores its value. -/
def afterLoad (owner : Bool) (outcome : Except Failure β) : CachePhase γ β :=
  match owner, outcome with
  | false, outcome => finished outcome
  | true, .ok value => storing value
  | true, .error failure => releasing (.error failure)

/-- The Redis command of a call fails: a read that fails finds nothing, a lock
that fails is not taken, and the rest is skipped. -/
def afterFailure (start : γ) : CachePhase γ β → Option (CachePhase γ β)
  | reading => some (afterRead none)
  | locking => some (afterLock false)
  | waiting attempt => some (afterWait start attempt none)
  | rechecking => some (afterRecheck start none)
  | storing value => some (releasing (.ok value))
  | releasing outcome => some (finished outcome)
  | loading _ _ => none
  | finished _ => none

def Holds (good : γ → Prop) (fresh : β → Prop) : CachePhase γ β → Prop
  | loading _ progress => good progress
  | storing value => fresh value
  | releasing (.ok value) => fresh value
  | finished (.ok value) => fresh value
  | _ => True

theorem Holds.imp {good good' : γ → Prop} {fresh fresh' : β → Prop} {phase : CachePhase γ β}
    (h : phase.Holds good fresh) (hgood : ∀ progress, good progress → good' progress)
    (hfresh : ∀ value, fresh value → fresh' value) : phase.Holds good' fresh' := by
  cases phase with
  | loading owner progress => exact hgood progress h
  | storing value => exact hfresh value h
  | releasing outcome =>
      cases outcome with
      | ok value => exact hfresh value h
      | error failure => trivial
  | finished outcome =>
      cases outcome with
      | ok value => exact hfresh value h
      | error failure => trivial
  | reading | locking | rechecking => trivial
  | waiting attempt => trivial

theorem holds_true (phase : CachePhase γ β) : phase.Holds (fun _ => True) (fun _ => True) := by
  cases phase with
  | releasing outcome => cases outcome <;> trivial
  | finished outcome => cases outcome <;> trivial
  | _ => trivial

end CachePhase

structure Redis (β : Type*) where
  entries : String → Option β
  locks : String → Option String

namespace Redis

variable {β : Type*}

def empty : Redis β := ⟨fun _ => none, fun _ => none⟩

def set (redis : Redis β) (key : String) (value : β) : Redis β :=
  { redis with entries := Function.update redis.entries key (some value) }

def del (redis : Redis β) (key : String) : Redis β :=
  { redis with entries := Function.update redis.entries key none }

def setLock (redis : Redis β) (key : String) (token : Option String) : Redis β :=
  { redis with locks := Function.update redis.locks key token }

/-- `RELEASE_LOCK_SCRIPT`. -/
def releaseLock (redis : Redis β) (key token : String) : Redis β :=
  if redis.locks key = some token then redis.setLock key none else redis

@[simp] theorem setLock_entries (redis : Redis β) (key : String) (token : Option String) :
    (redis.setLock key token).entries = redis.entries := rfl

@[simp] theorem releaseLock_entries (redis : Redis β) (key token : String) :
    (redis.releaseLock key token).entries = redis.entries := by
  unfold releaseLock
  split <;> rfl

theorem setLock_releaseLock {redis : Redis β} {key token : String}
    (hfree : redis.locks key = none) :
    (redis.setLock key (some token)).releaseLock key token = redis := by
  have hlocks : Function.update (Function.update redis.locks key (some token)) key none =
      redis.locks := by rw [Function.update_idem, ← hfree, Function.update_eq_self]
  simp [releaseLock, setLock, hlocks]

theorem set_releaseLock {redis : Redis β} {key token : String} {value : β}
    (hfree : redis.locks key = none) :
    ((redis.setLock key (some token)).set key value).releaseLock key token =
      redis.set key value := by
  have hlocks : Function.update (Function.update redis.locks key (some token)) key none =
      redis.locks := by rw [Function.update_idem, ← hfree, Function.update_eq_self]
  simp [releaseLock, setLock, set, hlocks]

theorem del_entries_some {redis : Redis β} {key key' : String} {value : β}
    (h : (redis.del key).entries key' = some value) : redis.entries key' = some value := by
  by_cases hkey : key' = key
  · subst hkey
    simp [del] at h
  · simpa [del, hkey] using h

end Redis

section Advance

variable {γ β : Type*}

/-- `cacheAside` as it comes out when no other request is under way. -/
def cacheAside (key : String) (loader : Except Failure β) (redis : Redis β) :
    Except Failure β × Redis β :=
  match redis.entries key with
  | some value => (.ok value, redis)
  | none =>
      match loader with
      | .error failure => (.error failure, redis)
      | .ok value => (.ok value, redis.set key value)

theorem cacheAside_entries_of_ne {key k : String} (loader : Except Failure β) (redis : Redis β)
    (h : k ≠ key) : (cacheAside key loader redis).2.entries k = redis.entries k := by
  unfold cacheAside
  split
  · rfl
  · split
    · rfl
    · simp [Redis.set, h]

theorem cacheAside_entries {key k : String} {loader : Except Failure β} {redis : Redis β}
    {value : β} (h : (cacheAside key loader redis).2.entries k = some value) :
    redis.entries k = some value ∨ (k = key ∧ loader = .ok value) := by
  by_cases hk : k = key
  · subst hk
    unfold cacheAside at h
    split at h
    · exact .inl h
    · split at h
      · exact .inl h
      next loaded =>
        obtain rfl : loaded = value := by simpa [Redis.set] using h
        exact .inr ⟨rfl, rfl⟩
  · rw [cacheAside_entries_of_ne loader redis hk] at h
    exact .inl h

/-- The next Redis command of a call, with its effect; a call whose loader
runs, or that has settled, issues none. -/
def advance (start : γ) (key token : String) (redis : Redis β) :
    CachePhase γ β → Option (CachePhase γ β × Redis β)
  | .reading => some (.afterRead (redis.entries key), redis)
  | .locking =>
      if (redis.locks key).isNone then
        some (.afterLock true, redis.setLock key (some token))
      else some (.afterLock false, redis)
  | .waiting attempt => some (.afterWait start attempt (redis.entries key), redis)
  | .rechecking => some (.afterRecheck start (redis.entries key), redis)
  | .storing value => some (.releasing (.ok value), redis.set key value)
  | .releasing outcome => some (.finished outcome, redis.releaseLock key token)
  | .loading _ _ => none
  | .finished _ => none

/-- A command brings a call only values that its key held, and changes no
entry except that key, to a value the call held. -/
theorem advance_holds {start : γ} {key token : String} {redis redis' : Redis β}
    {phase phase' : CachePhase γ β} {good : γ → Prop} {fresh : β → Prop}
    (h : advance start key token redis phase = some (phase', redis')) (hstart : good start)
    (hkey : ∀ value, redis.entries key = some value → fresh value)
    (hphase : phase.Holds good fresh) :
    phase'.Holds good fresh ∧ ∀ k value, redis'.entries k = some value →
      redis.entries k = some value ∨ (k = key ∧ fresh value) := by
  have hsame : ∀ k value, redis.entries k = some value →
      redis.entries k = some value ∨ (k = key ∧ fresh value) := fun _ _ hvalue => .inl hvalue
  cases phase with
  | reading =>
      obtain ⟨rfl, rfl⟩ := Prod.mk.inj (Option.some.inj h)
      refine ⟨?_, hsame⟩
      cases hread : redis.entries key with
      | none => trivial
      | some value => exact hkey value hread
  | locking =>
      simp only [advance] at h
      split at h
      · obtain ⟨rfl, rfl⟩ := Prod.mk.inj (Option.some.inj h)
        exact ⟨trivial, hsame⟩
      · obtain ⟨rfl, rfl⟩ := Prod.mk.inj (Option.some.inj h)
        exact ⟨trivial, hsame⟩
  | waiting attempt =>
      obtain ⟨rfl, rfl⟩ := Prod.mk.inj (Option.some.inj h)
      refine ⟨?_, hsame⟩
      cases hread : redis.entries key with
      | some value => exact hkey value hread
      | none =>
          simp only [CachePhase.afterWait]
          split
          · trivial
          · exact hstart
  | rechecking =>
      obtain ⟨rfl, rfl⟩ := Prod.mk.inj (Option.some.inj h)
      refine ⟨?_, hsame⟩
      cases hread : redis.entries key with
      | none => exact hstart
      | some value => exact hkey value hread
  | storing value =>
      obtain ⟨rfl, rfl⟩ := Prod.mk.inj (Option.some.inj h)
      refine ⟨hphase, fun k v hv => ?_⟩
      by_cases hk : k = key
      · subst hk
        obtain rfl : value = v := by simpa [Redis.set] using hv
        exact .inr ⟨rfl, hphase⟩
      · exact .inl (by simpa [Redis.set, hk] using hv)
  | releasing outcome =>
      obtain ⟨rfl, rfl⟩ := Prod.mk.inj (Option.some.inj h)
      refine ⟨?_, fun k v hv => .inl (by simpa using hv)⟩
      cases outcome with
      | error failure => trivial
      | ok value => exact hphase
  | loading owner progress => simp [advance] at h
  | finished outcome => simp [advance] at h

/-- Only a call that stores changes an entry, the one of its key. -/
theorem advance_stores {start : γ} {key token : String} {redis redis' : Redis β}
    {phase phase' : CachePhase γ β}
    (h : advance start key token redis phase = some (phase', redis'))
    {k : String} {value : β} (hvalue : redis'.entries k = some value) :
    redis.entries k = some value ∨ (k = key ∧ phase = .storing value) := by
  cases phase with
  | storing held =>
      obtain ⟨rfl, rfl⟩ := Prod.mk.inj (Option.some.inj h)
      by_cases hk : k = key
      · subst hk
        obtain rfl : held = value := by simpa [Redis.set] using hvalue
        exact .inr ⟨rfl, rfl⟩
      · exact .inl (by simpa [Redis.set, hk] using hvalue)
  | locking =>
      simp only [advance] at h
      split at h <;> obtain ⟨rfl, rfl⟩ := Prod.mk.inj (Option.some.inj h) <;> exact .inl hvalue
  | releasing outcome =>
      obtain ⟨rfl, rfl⟩ := Prod.mk.inj (Option.some.inj h)
      exact .inl (by simpa using hvalue)
  | reading | rechecking =>
      obtain ⟨rfl, rfl⟩ := Prod.mk.inj (Option.some.inj h)
      exact .inl hvalue
  | waiting attempt =>
      obtain ⟨rfl, rfl⟩ := Prod.mk.inj (Option.some.inj h)
      exact .inl hvalue
  | loading owner progress => simp [advance] at h
  | finished outcome => simp [advance] at h

theorem afterFailure_holds {start : γ} {phase phase' : CachePhase γ β} {good : γ → Prop}
    {fresh : β → Prop} (h : phase.afterFailure start = some phase') (hstart : good start)
    (hphase : phase.Holds good fresh) : phase'.Holds good fresh := by
  cases phase with
  | reading | locking =>
      cases h
      trivial
  | rechecking =>
      cases h
      exact hstart
  | waiting attempt =>
      cases h
      simp only [CachePhase.afterWait]
      split
      · trivial
      · exact hstart
  | storing value =>
      cases h
      exact hphase
  | releasing outcome =>
      cases h
      cases outcome with
      | ok value => exact hphase
      | error failure => trivial
  | loading owner progress => simp [CachePhase.afterFailure] at h
  | finished outcome => simp [CachePhase.afterFailure] at h

theorem afterLoad_holds {good : γ → Prop} {fresh : β → Prop} (owner : Bool)
    {outcome : Except Failure β} (h : ∀ value, outcome = .ok value → fresh value) :
    (CachePhase.afterLoad owner outcome : CachePhase γ β).Holds good fresh := by
  cases owner <;> cases outcome with
  | error failure => trivial
  | ok value => exact h value rfl

end Advance

end Eventify
