import Eventify.Cache.Transparency
import Eventify.Library.Accounts
import Eventify.Observability.Metrics

/-!
# What the cache counters say

`recordCacheResult` is called from within `readJson`, `writeJson` and
`cacheAside`, by all calls at once. The counters of loads and hits nevertheless
count calls: each call is answered from the cache or runs its loader, and says
so once. A text that is no value counts as a hit of nobody.
-/

namespace Eventify

open Library

section Records

variable {δ β : Type} (json : Json β) (malformed : String → Bool)

/-- What `readJson` records for the reply of `redis.get`; `malformed` tells the
texts on which `JSON.parse` throws. -/
def readRecords : Option String → List CacheOutcome
  | none => [.miss]
  | some raw =>
      if raw.isEmpty then [.miss] else if malformed raw then [.hit, .error] else [.hit]

/-- `cacheAside` records a load where it calls its loader. -/
def loadRecords : CachePhase Unit β → List CacheOutcome
  | .loading _ _ => [.load]
  | _ => []

/-- The records of a call whose `get` is answered, or throws. -/
def getRecords (phase : CachePhase Unit β) (read : List CacheOutcome) (found : Option β) :
    List CacheOutcome :=
  read ++ ((phase.afterGet found).map loadRecords).getD []

/-- What the command of a call records when it comes back. -/
def replyRecords (phase : CachePhase Unit β) (raw : Option String) : List CacheOutcome :=
  match phase with
  | .locking | .storing _ | .releasing _ => []
  | phase => getRecords phase (readRecords malformed raw) (readJson json raw)

/-- What the command of a call records when it throws: of a release nothing. -/
def failureRecords (phase : CachePhase Unit β) : List CacheOutcome :=
  match phase with
  | .locking | .storing _ => [.error]
  | .releasing _ => []
  | phase => getRecords phase [.error] none

/-- What a step records in the counters of the process. -/
def cacheRecords (s : CacheSystem δ β) : CacheAction δ → List CacheOutcome
  | .command c _ => (s.calls c).elim [] fun call =>
      replyRecords json malformed call.phase (s.server.get s.now call.key)
  | .garbled c text => (s.calls c).elim [] fun call =>
      replyRecords json malformed call.phase (some text)
  | .throws c _ _ => (s.calls c).elim [] fun call => failureRecords call.phase
  | _ => []

/-- The step reads a text that holds no value of the cache. -/
def readsUnusable (s : CacheSystem δ β) : CacheAction δ → Bool
  | .command c _ => (s.calls c).any fun call =>
      ((call.phase.afterGet none).isSome && (s.server.get s.now call.key).any fun raw =>
        !raw.isEmpty && (json.parse raw).isNone)
  | .garbled c text => (s.calls c).any fun call =>
      (call.phase.afterGet none).isSome && !text.isEmpty
  | _ => false

end Records

namespace CacheCall

variable {δ β : Type}

/-- The call has not been answered and has not called its loader. -/
def looking (call : CacheCall δ β) : Bool :=
  match call.phase with
  | .reading | .locking | .waiting _ | .rechecking => true
  | _ => false

def loaded (call : CacheCall δ β) : Bool := call.log.calls != 0

/-- The call has its value from the cache. -/
def served (call : CacheCall δ β) : Bool := !call.looking && !call.loaded

end CacheCall

section Accounting

variable {δ β : Type} {config : CacheConfig} {json : Json β} {malformed : String → Bool}
variable {loader : String → List δ → Except Failure β} {s t : CacheSystem δ β} {a : CacheAction δ}
variable {call : CacheCall δ β} {known : β → Prop} {now : Time} {phase : CachePhase Unit β}

theorem goto_calls : (call.goto now phase).log.calls =
    call.log.calls + (loadRecords phase).count .load := by
  unfold CacheCall.goto
  split <;> simp [loadRecords]

theorem CacheCall.Fits.looking (h : call.Fits known) (hlooking : call.looking = true) :
    call.log.calls = 0 := by
  unfold CacheCall.Fits at h
  unfold CacheCall.looking at hlooking
  split at h <;> simp_all

theorem afterGet_looking {found : Option β} (hget : call.phase.afterGet found = some phase) :
    call.looking = true := by
  unfold CacheCall.looking
  cases hphase : call.phase <;> simp_all [CachePhase.afterGet]

theorem afterGet_isSome {found : Option β} (hget : call.phase.afterGet found = some phase) :
    (call.phase.afterGet none).isSome = true := by
  cases hphase : call.phase <;> simp_all [CachePhase.afterGet]

/-- A call that moves on becomes loaded exactly where it records a load. -/
theorem goto_loaded (hfits : call.Fits known)
    (hphase : call.looking = true ∨ loadRecords phase = []) :
    call.loaded.toNat + (loadRecords phase).count .load = (call.goto now phase).loaded.toNat := by
  simp only [CacheCall.loaded, goto_calls]
  rcases hphase with hlooking | hnone
  · rw [hfits.looking hlooking]
    unfold loadRecords
    split <;> simp
  · simp [hnone]

theorem settled_loaded {owner : Bool} {outcome : Except Failure β} :
    (call.settled owner outcome).loaded = call.loaded := rfl

/-- A read finds a value exactly where its call is then served. -/
theorem goto_served_of_get {found : Option β} (hfits : call.Fits known)
    (hget : call.phase.afterGet found = some phase) :
    (call.goto now phase).served = found.isSome := by
  have hcalls := hfits.looking (afterGet_looking hget)
  simp only [CacheCall.served, CacheCall.loaded, goto_calls, hcalls, CacheCall.looking,
    CacheCall.goto_phase]
  cases hphase : call.phase with
  | reading =>
      rw [hphase] at hget
      cases hget
      cases found <;> simp [CachePhase.afterRead, loadRecords]
  | rechecking =>
      rw [hphase] at hget
      cases hget
      cases found <;> simp [CachePhase.afterRecheck, loadRecords]
  | waiting attempt =>
      rw [hphase] at hget
      cases hget
      cases found with
      | some value => simp [CachePhase.afterWait, loadRecords]
      | none =>
          by_cases hmore : attempt + 1 < CachePhase.maxWaits <;>
            simp [CachePhase.afterWait, hmore, loadRecords]
  | _ => simp [hphase, CachePhase.afterGet] at hget

theorem served_of_looking (hlooking : call.looking = true) : call.served = false := by
  simp [CacheCall.served, hlooking]

/-- A text that is there is a hit, of the call if it holds a value. -/
theorem count_hit_readRecords (json : Json β) (raw : Option String) :
    (readRecords malformed raw).count .hit =
      (readJson json raw).isSome.toNat +
        (raw.any fun text => !text.isEmpty && (json.parse text).isNone).toNat := by
  cases raw with
  | none => simp [readRecords, readJson]
  | some text =>
      by_cases hempty : text.isEmpty = true
      · simp [readRecords, readJson, hempty]
      · cases hparse : json.parse text <;> cases hthrows : malformed text <;>
          simp [readRecords, readJson, hempty, hparse, hthrows]

theorem count_load_readRecords (raw : Option String) :
    (readRecords malformed raw).count .load = 0 := by
  cases raw with
  | none => simp [readRecords]
  | some text =>
      by_cases hempty : text.isEmpty = true
      · simp [readRecords, hempty]
      · cases hthrows : malformed text <;> simp [readRecords, hempty, hthrows]

theorem count_hit_loadRecords : (loadRecords phase).count .hit = 0 := by
  unfold loadRecords
  split <;> simp

/-- A call that keeps looking, or that has stopped before, is counted as before. -/
theorem goto_counts (hload : loadRecords phase = [])
    (hlooking : (call.goto now phase).looking = call.looking) :
    (call.goto now phase).loaded = call.loaded ∧ (call.goto now phase).served = call.served := by
  have hloaded : (call.goto now phase).loaded = call.loaded := by
    simp [CacheCall.loaded, goto_calls, hload]
  exact ⟨hloaded, by simp only [CacheCall.served, hloaded, hlooking]⟩

/-- What a step records to the accounts of loads and hits. -/
def Metered (s : CacheSystem δ β) (records : List CacheOutcome) (unusable : Bool)
    (t : CacheSystem δ β) : Prop :=
  Booked (fun call => call.loaded.toNat) s.calls t.calls (records.count .load) 0 ∧
    Booked (fun call => call.served.toNat) s.calls t.calls (records.count .hit) unusable.toNat

theorem Metered.apart (hcalls : t.calls = s.calls) : Metered s [] false t :=
  ⟨.apart hcalls rfl, .apart hcalls rfl⟩

theorem Metered.kept {c : ℕ} {new : CacheCall δ β} {records : List CacheOutcome}
    (hcall : s.calls c = some call) (hload : records.count .load = 0)
    (hhit : records.count .hit = 0) (hloaded : new.loaded = call.loaded)
    (hserved : new.served = call.served)
    (hcalls : t.calls = Function.update s.calls c (some new)) : Metered s records false t := by
  constructor
  · exact .moved hcalls (by simp [hcall, hload, hloaded])
  · exact .moved hcalls (by simp [hcall, hhit, hserved])

theorem Metered.goto {c : ℕ} {records : List CacheOutcome} (hcall : s.calls c = some call)
    (hload : records.count .load = 0) (hhit : records.count .hit = 0)
    (hnone : loadRecords phase = []) (hlooking : (call.goto now phase).looking = call.looking)
    (hcalls : t.calls = Function.update s.calls c (some (call.goto now phase))) :
    Metered s records false t := by
  obtain ⟨hloaded, hserved⟩ := goto_counts hnone hlooking
  exact .kept hcall hload hhit hloaded hserved hcalls

/-- The call's `get` comes back, or throws. -/
theorem Metered.get {c : ℕ} {found : Option β} {read : List CacheOutcome} {unusable : Bool}
    (hcall : s.calls c = some call) (hfits : call.Fits known)
    (hget : call.phase.afterGet found = some phase) (hload : read.count .load = 0)
    (hhit : read.count .hit = found.isSome.toNat + unusable.toNat)
    (hcalls : t.calls = Function.update s.calls c (some (call.goto now phase))) :
    Metered s (getRecords call.phase read found) unusable t := by
  have hlooking := afterGet_looking hget
  have hrecords : getRecords call.phase read found = read ++ loadRecords phase := by
    simp [getRecords, hget]
  constructor
  · refine .moved hcalls ?_
    have hgoto : _ = (call.goto now phase).loaded.toNat := goto_loaded hfits (.inl hlooking)
    simpa [hcall, hrecords, hload] using hgoto
  · refine .moved hcalls ?_
    simp only [hcall, account_some, served_of_looking hlooking, hrecords, List.count_append,
      count_hit_loadRecords, hhit, goto_served_of_get hfits hget]
    simp

theorem command_metered {c : ℕ} {draw : Draw} (hcall : s.calls c = some call)
    (hfits : call.Fits known) {next : CachePhase Unit β × CacheServer δ β}
    (hissue : call.issue config json s.now c draw s.server = some next)
    (hcalls : t.calls = Function.update s.calls c (some (call.goto s.now next.1))) :
    Metered s (cacheRecords json malformed s (.command c draw))
      (readsUnusable json s (.command c draw)) t := by
  have hrecords : cacheRecords json malformed s (.command c draw) =
      replyRecords json malformed call.phase (s.server.get s.now call.key) := by
    simp [cacheRecords, hcall]
  rw [hrecords]
  by_cases hget : (call.phase.afterGet none).isSome = true
  · have hunusable : readsUnusable json s (.command c draw) =
        (s.server.get s.now call.key).any fun raw => !raw.isEmpty && (json.parse raw).isNone := by
      simp [readsUnusable, hcall, hget]
    have hread : ∃ phase, call.phase.afterGet (readJson json (s.server.get s.now call.key)) =
        some phase ∧ next.1 = phase ∧
        replyRecords json malformed call.phase (s.server.get s.now call.key) =
          getRecords call.phase (readRecords malformed (s.server.get s.now call.key))
            (readJson json (s.server.get s.now call.key)) := by
      cases hphase : call.phase <;>
        simp_all [CachePhase.afterGet, CacheCall.issue, replyRecords] <;>
        simp [← hissue]
    obtain ⟨phase, hphase, hnext, hreply⟩ := hread
    rw [hreply, hunusable]
    exact .get hcall hfits hphase (count_load_readRecords _) (count_hit_readRecords _ _)
      (hnext ▸ hcalls)
  · have hunusable : readsUnusable json s (.command c draw) = false := by
      simp [readsUnusable, hcall, hget]
    rw [hunusable]
    unfold CacheCall.issue at hissue
    split at hissue
    next hphase =>
      have hnext : loadRecords next.1 = [] ∧ (call.goto s.now next.1).looking = call.looking := by
        split at hissue <;> cases hissue <;>
          simp [CachePhase.afterLock, loadRecords, CacheCall.looking, hphase]
      exact .goto hcall (by simp [replyRecords, hphase]) (by simp [replyRecords, hphase]) hnext.1
        hnext.2 hcalls
    next value hphase =>
      cases hissue
      exact .goto hcall (by simp [replyRecords, hphase]) (by simp [replyRecords, hphase]) rfl
        (by simp [CacheCall.looking, hphase]) hcalls
    next outcome hphase =>
      cases hissue
      exact .goto hcall (by simp [replyRecords, hphase]) (by simp [replyRecords, hphase]) rfl
        (by simp [CacheCall.looking, hphase]) hcalls
    · obtain ⟨phase, hphase, -⟩ := Option.map_eq_some_iff.mp hissue
      exact (hget (afterGet_isSome hphase)).elim

theorem throws_metered {c : ℕ} (hcall : s.calls c = some call) (hfits : call.Fits known)
    (hfailure : call.phase.afterFailure () = some phase)
    (hcalls : t.calls = Function.update s.calls c (some (call.goto now phase))) :
    Metered s (failureRecords call.phase) false t := by
  have hget : ∀ found : CachePhase Unit β, call.phase.afterGet none = some found →
      failureRecords call.phase = getRecords call.phase [.error] none →
      Metered s (failureRecords call.phase) false t := by
    intro found hfound hrecords
    rw [afterFailure_of_afterGet hfound] at hfailure
    rw [hrecords]
    exact .get hcall hfits hfailure rfl rfl hcalls
  cases hphase : call.phase with
  | reading => exact hphase ▸ hget _ (by rw [hphase]; rfl) (by rw [hphase]; rfl)
  | rechecking => exact hphase ▸ hget _ (by rw [hphase]; rfl) (by rw [hphase]; rfl)
  | waiting attempt => exact hphase ▸ hget _ (by rw [hphase]; rfl) (by rw [hphase]; rfl)
  | locking =>
      rw [hphase] at hfailure
      cases hfailure
      exact .goto hcall rfl rfl rfl (by simp [CacheCall.looking, hphase, CachePhase.afterLock])
        hcalls
  | storing value =>
      rw [hphase] at hfailure
      cases hfailure
      exact .goto hcall rfl rfl rfl (by simp [CacheCall.looking, hphase]) hcalls
  | releasing outcome =>
      rw [hphase] at hfailure
      cases hfailure
      exact .goto hcall rfl rfl rfl (by simp [CacheCall.looking, hphase]) hcalls
  | loading owner progress =>
      rw [hphase] at hfailure
      cases hfailure
  | finished outcome =>
      rw [hphase] at hfailure
      cases hfailure

theorem settled_metered {c : ℕ} {owner : Bool} {progress : Unit} {outcome : Except Failure β}
    (hcall : s.calls c = some call) (hphase : call.phase = .loading owner progress)
    (hcalls : t.calls = Function.update s.calls c (some (call.settled owner outcome))) :
    Metered s [] false t := by
  have hlooking : (call.settled owner outcome).looking = call.looking := by
    cases owner <;> cases outcome <;>
      simp [CacheCall.settled, CachePhase.afterLoad, CacheCall.looking, hphase]
  have hserved : (call.settled owner outcome).served = call.served := by
    rw [CacheCall.served, CacheCall.served, hlooking, settled_loaded]
  exact .kept hcall rfl rfl settled_loaded hserved hcalls

theorem cacheStep_metered {entries : String → Option CacheEntry}
    (hs : Transparent json entries s) (h : cacheStep config json loader s a = some t) :
    Metered s (cacheRecords json malformed s a) (readsUnusable json s a) t := by
  cases a with
  | tick ms | write db | del key | expireLock key =>
      cases h
      exact .apart rfl
  | begin c key kind token =>
      simp only [cacheStep] at h
      split at h
      · simp at h
      next hnew =>
        split at h
        · simp at h
        · cases h
          exact ⟨.moved rfl (by simp [hnew, cacheRecords, CacheCall.begun, CacheCall.loaded]),
            .moved rfl (by
              simp [hnew, cacheRecords, readsUnusable, CacheCall.begun, CacheCall.served,
                CacheCall.looking])⟩
  | command c draw =>
      simp only [cacheStep] at h
      split at h
      next call hcall =>
        obtain ⟨next, hissue, rfl⟩ := Option.map_eq_some_iff.mp h
        exact command_metered hcall (hs.calls c call hcall) hissue rfl
      · simp at h
  | throws c landed draw =>
      simp only [cacheStep] at h
      split at h
      next call hcall =>
        obtain ⟨next, -, h⟩ := Option.bind_eq_some_iff.mp h
        obtain ⟨phase, hfailure, rfl⟩ := Option.map_eq_some_iff.mp h
        have hrecords : cacheRecords json malformed s (.throws c landed draw) =
            failureRecords call.phase := by simp [cacheRecords, hcall]
        rw [hrecords]
        exact throws_metered hcall (hs.calls c call hcall) hfailure rfl
      · simp at h
  | garbled c text =>
      simp only [cacheStep] at h
      split at h
      next call hcall =>
        split at h
        next hgarbled =>
          obtain ⟨phase, hget, rfl⟩ := Option.map_eq_some_iff.mp h
          have hreply : replyRecords json malformed call.phase (some text) =
              getRecords call.phase (readRecords malformed (some text))
                (readJson json (some text)) := by
            cases hphase : call.phase <;> simp_all [CachePhase.afterGet, replyRecords]
          have hrecords : cacheRecords json malformed s (.garbled c text) =
              replyRecords json malformed call.phase (some text) := by
            simp [cacheRecords, hcall]
          have hunusable : readsUnusable json s (.garbled c text) = !text.isEmpty := by
            simp [readsUnusable, hcall, afterGet_isSome hget]
          rw [hrecords, hreply, hunusable]
          refine .get hcall (hs.calls c call hcall) hget (count_load_readRecords _) ?_ rfl
          rw [count_hit_readRecords json]
          simp [hgarbled]
        · simp at h
      · simp at h
  | query c =>
      simp only [cacheStep] at h
      split at h
      next call hcall =>
        split at h
        · cases h
          have hloaded : (call.queried s.now s.db).loaded = call.loaded := rfl
          have hserved : (call.queried s.now s.db).served = call.served := rfl
          exact .kept hcall rfl rfl hloaded hserved rfl
        · simp at h
      · simp at h
  | settle c =>
      simp only [cacheStep] at h
      split at h
      next call hcall =>
        split at h
        next hphase =>
          cases h
          exact settled_metered hcall hphase rfl
        · simp at h
      · simp at h
  | loaderThrows c failure =>
      simp only [cacheStep] at h
      split at h
      next call hcall =>
        split at h
        next hphase =>
          cases h
          exact settled_metered hcall hphase rfl
        · simp at h
      · simp at h

theorem CacheCall.Fits.sorted (h : call.Fits known) :
    call.looking.toNat + call.served.toNat + call.loaded.toNat = 1 := by
  by_cases hlooking : call.looking = true
  · have hcalls := h.looking hlooking
    simp [CacheCall.served, CacheCall.loaded, hlooking, hcalls]
  · have hnot : call.looking = false := by simpa using hlooking
    cases hloaded : call.loaded <;> simp [CacheCall.served, hnot, hloaded]

/-- The calls that have begun and satisfy a condition. -/
def CacheSystem.callsWhere (s : CacheSystem δ β) (ids : Finset ℕ) (p : CacheCall δ β → Bool) :
    Finset ℕ := ids.filter fun c => (s.calls c).any p

theorem callsWhere_sorted {entries : String → Option CacheEntry} (hs : Transparent json entries s)
    {ids : Finset ℕ} (hids : ∀ c, c ∈ ids ↔ (s.calls c).isSome) :
    (s.callsWhere ids CacheCall.looking).card + (s.callsWhere ids CacheCall.served).card +
      (s.callsWhere ids CacheCall.loaded).card = ids.card := by
  simp only [CacheSystem.callsWhere, Finset.card_filter, ← Finset.sum_add_distrib]
  rw [Finset.card_eq_sum_ones]
  refine Finset.sum_congr rfl fun c hc => ?_
  obtain ⟨call, hcall⟩ := Option.isSome_iff_exists.mp ((hids c).mp hc)
  have hsorted := (hs.calls c call hcall).sorted
  rw [hcall]
  cases hlooking : call.looking <;> cases hserved : call.served <;>
    cases hloaded : call.loaded <;> simp_all

/-! ### The counters of the process -/

/-- The calls of a process, with its metrics. -/
structure CacheProcess (δ β ε : Type) where
  cache : CacheSystem δ β
  metrics : Metrics ε

/-- A process that starts has counted nothing. -/
def CacheProcess.start {ε : Type} (now : Time) (db : δ) (entries : String → Option CacheEntry) :
    CacheProcess δ β ε :=
  ⟨.start now db entries, .start .empty⟩

/-- A step of a call, and `recordCacheResult` for what it records. -/
def processStep {ε : Type} (config : CacheConfig) (json : Json β) (malformed : String → Bool)
    (loader : String → List δ → Except Failure β) (s : CacheProcess δ β ε) (a : CacheAction δ) :
    Option (CacheProcess δ β ε) :=
  (cacheStep config json loader s.cache a).map fun cache =>
    ⟨cache, (cacheRecords json malformed s.cache a).foldl Metrics.recordCacheResult s.metrics⟩

/-- What the metrics show for an outcome. -/
def Metrics.counted {ε : Type} (m : Metrics ε) (result : CacheOutcome) : ℕ :=
  (m.cacheResults.get result).getD 0

theorem counted_recordCacheResult {ε : Type} (m : Metrics ε) (recorded result : CacheOutcome) :
    (m.recordCacheResult recorded).counted result =
      m.counted result + [recorded].count result := by
  simp only [Metrics.counted, Metrics.recordCacheResult, OrderedMap.get_set]
  by_cases hsame : result = recorded
  · simp [hsame]
  · simp [hsame, Ne.symm hsame]

theorem counted_foldl {ε : Type} (results : List CacheOutcome) (m : Metrics ε)
    (result : CacheOutcome) :
    (results.foldl Metrics.recordCacheResult m).counted result =
      m.counted result + results.count result := by
  induction results generalizing m with
  | nil => rfl
  | cons first rest ih =>
      rw [List.foldl_cons, ih, counted_recordCacheResult, Nat.add_assoc, ← List.count_append]
      rfl

/-- The counters of a run have grown by what its steps recorded. -/
theorem process_counts {ε : Type} {s t : CacheProcess δ β ε} {acts : List (CacheAction δ)}
    (hrun : exec (processStep config json malformed loader) s acts = some t)
    (result : CacheOutcome) :
    exec (cacheStep config json loader) s.cache acts = some t.cache ∧
      t.metrics.counted result = s.metrics.counted result +
        tally (cacheStep config json loader)
          (fun s a _ => (cacheRecords json malformed s a).count result) s.cache acts := by
  induction acts generalizing s with
  | nil =>
      cases hrun
      exact ⟨rfl, rfl⟩
  | cons a acts ih =>
      obtain ⟨u, hu, ht⟩ := exec_cons_iff.mp hrun
      obtain ⟨cache, hcache, rfl⟩ := Option.map_eq_some_iff.mp hu
      obtain ⟨hrest, hcount⟩ := ih ht
      refine ⟨exec_cons_iff.mpr ⟨cache, hcache, hrest⟩, ?_⟩
      rw [hcount, counted_foldl, Nat.add_assoc]
      simp only [tally, hcache]

/-- How many texts a run has read that held no value. -/
def unusableReads (config : CacheConfig) (json : Json β)
    (loader : String → List δ → Except Failure β) : CacheSystem δ β → List (CacheAction δ) → ℕ :=
  tally (cacheStep config json loader) fun s a _ => (readsUnusable json s a).toNat

/-- In every run, however calls interleave and commands fail: the load counter is
the number of calls that have called their loader, each once; the hit counter is
the number of calls answered from the cache, and of texts read that held no
value; every other call is still looking. -/
theorem cache_counters_account {ε : Type} {now : Time} {db : δ}
    {entries : String → Option CacheEntry} {acts : List (CacheAction δ)}
    {t : CacheProcess δ β ε}
    (hrun : exec (processStep config json malformed loader) (.start now db entries) acts = some t)
    {ids : Finset ℕ} (hids : ∀ c, c ∈ ids ↔ (t.cache.calls c).isSome) :
    t.metrics.counted .load = (t.cache.callsWhere ids CacheCall.loaded).card ∧
    t.metrics.counted .hit = (t.cache.callsWhere ids CacheCall.served).card +
      unusableReads config json loader (.start now db entries) acts ∧
    (t.cache.callsWhere ids CacheCall.looking).card +
      (t.cache.callsWhere ids CacheCall.served).card +
      (t.cache.callsWhere ids CacheCall.loaded).card = ids.card := by
  have hinv : ∀ s a t, Transparent json entries s → cacheStep config json loader s a = some t →
      Transparent json entries t := fun _ _ _ hs hstep => hs.step hstep
  have hstart : Transparent json entries (.start now db entries : CacheSystem δ β) :=
    .start now db entries
  have hnone : ∀ c, (CacheSystem.start now db entries : CacheSystem δ β).calls c = none :=
    fun _ => rfl
  have hmetered : ∀ s a t, Transparent json entries s → cacheStep config json loader s a = some t →
      Metered s (cacheRecords json malformed s a) (readsUnusable json s a) t :=
    fun _ _ _ hs hstep => cacheStep_metered hs hstep
  obtain ⟨hcache, hloads⟩ := process_counts hrun .load
  obtain ⟨-, hhits⟩ := process_counts hrun .hit
  refine ⟨?_, ?_, callsWhere_sorted (exec_invariant hinv hstart hcache) hids⟩
  · have hload := tally_calls hinv (fun s a t hs hstep => (hmetered s a t hs hstep).1) hstart
      hnone hcache hids
    rw [tally_zero, Nat.add_zero] at hload
    exact hloads.trans ((Nat.zero_add _).trans hload)
  · have hhit := tally_calls hinv (fun s a t hs hstep => (hmetered s a t hs hstep).2) hstart
      hnone hcache hids
    exact hhits.trans ((Nat.zero_add _).trans hhit)

end Accounting

def unjitteredCacheConfig : CacheConfig :=
  { defaultCacheConfig with jitterPercent := 0, jitterPercent_le := Nat.zero_le 50 }

/-- The first call loads and stores; the second is answered, after a garbled reply. -/
def sharedRun : List (CacheAction Bool) :=
  [.begin 0 "key" .detail "first", .command 0 evenDraw, .command 0 evenDraw, .command 0 evenDraw,
    .query 0, .settle 0, .command 0 evenDraw, .begin 1 "key" .detail "second",
    .garbled 1 "<html>", .command 1 evenDraw, .command 1 evenDraw]

theorem cache_counters_account_shared :
    ∃ t : CacheProcess Bool Bool ℚ,
      exec (processStep unjitteredCacheConfig flagJson (fun _ => true) flagLoader)
        (.start 0 true fun _ => none) sharedRun = some t ∧
      t.metrics.counted .load = 1 ∧ t.metrics.counted .hit = 1 + 1 := by
  obtain ⟨t, hrun, hids, hloaded, hserved, hunusable⟩ : ∃ t : CacheProcess Bool Bool ℚ,
      exec (processStep unjitteredCacheConfig flagJson (fun _ => true) flagLoader)
          (.start 0 true fun _ => none) sharedRun = some t ∧
        (∀ c, c ∈ ({0, 1} : Finset ℕ) ↔ (t.cache.calls c).isSome) ∧
        (t.cache.callsWhere {0, 1} CacheCall.loaded).card = 1 ∧
        (t.cache.callsWhere {0, 1} CacheCall.served).card = 1 ∧
        unusableReads unjitteredCacheConfig flagJson flagLoader (.start 0 true fun _ => none)
          sharedRun = 1 := by
    refine ⟨_, rfl, fun c => ?_, rfl, rfl, rfl⟩
    match c with
    | 0 => exact iff_of_true (by decide) rfl
    | 1 => exact iff_of_true (by decide) rfl
    | c + 2 =>
        refine iff_of_false (by simp) ?_
        simp [CacheSystem.withCall, CacheProcess.start, CacheSystem.start]
  obtain ⟨hload, hhit, -⟩ := cache_counters_account hrun hids
  exact ⟨t, hrun, hload.trans hloaded, hhit.trans (by rw [hserved, hunusable])⟩

end Eventify
