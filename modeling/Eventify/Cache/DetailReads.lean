import Eventify.Events.Requests

/-!
# Detail reads after an invalidation

Any number of `eventCache.detail` calls for one event among writers that
commit first and delete the detail key afterwards. The key carries no version,
so a call may store what it loaded before a commit whose invalidation is over.
-/

namespace Eventify

open Library

/-- A detail with the committed states that its loader saw, the latest first. -/
structure LoadedDetail where
  detail : EventDetail
  seen : List Database

/-- `since` counts the commits whose invalidation was over at the start. -/
structure DetailCall where
  token : String
  since : ℕ
  phase : CachePhase Unit LoadedDetail

/-- `committed` gives for a writer whose invalidation is due the number of
commits up to its own, `invalidated` the largest one whose invalidation is over. -/
structure DetailSystem where
  base : Database
  history : List Database
  invalidated : ℕ
  redis : Redis LoadedDetail
  calls : ℕ → Option DetailCall
  committed : ℕ → Option ℕ

inductive DetailAction where
  | begin (c : ℕ) (token : String)
  | advance (c : ℕ)
  | load (c : ℕ)
  | loadThrows (c : ℕ) (failure : Failure)
  | expireEntry (key : String)
  | expireLock (key : String)
  | commit (w : ℕ) (db : Database)
  | invalidate (w : ℕ)

namespace DetailSystem

def start (base : Database) : DetailSystem :=
  ⟨base, [], 0, .empty, fun _ => none, fun _ => none⟩

def db (s : DetailSystem) : Database := s.history.headD s.base

def withCall (s : DetailSystem) (c : ℕ) (call : DetailCall) (redis : Redis LoadedDetail) :
    DetailSystem :=
  { s with calls := Function.update s.calls c (some call), redis }

end DetailSystem

section Steps

variable (ids : UuidOps) (id : String)

def detailStep (s : DetailSystem) : DetailAction → Option DetailSystem
  | .begin c token =>
      match s.calls c with
      | some _ => none
      | none => some (s.withCall c ⟨token, s.invalidated, .reading⟩ s.redis)
  | .advance c =>
      match s.calls c with
      | none => none
      | some ⟨token, since, phase⟩ =>
          (advance () (eventCacheDetailKey id) token s.redis phase).map fun next =>
            s.withCall c ⟨token, since, next.1⟩ next.2
  | .load c =>
      match s.calls c with
      | some ⟨token, since, .loading owner ()⟩ =>
          some (s.withCall c ⟨token, since, .afterLoad owner
            ((s.db.loadEvent ids id).map fun detail => ⟨detail, s.history⟩)⟩ s.redis)
      | _ => none
  | .loadThrows c failure =>
      match s.calls c with
      | some ⟨token, since, .loading owner ()⟩ =>
          some (s.withCall c ⟨token, since, .afterLoad owner (.error failure)⟩ s.redis)
      | _ => none
  | .expireEntry key => some { s with redis := s.redis.del key }
  | .expireLock key => some { s with redis := s.redis.setLock key none }
  | .commit w db =>
      match s.committed w with
      | some _ => none
      | none =>
          some { s with
            history := db :: s.history
            committed := Function.update s.committed w (some (s.history.length + 1)) }
  | .invalidate w =>
      match s.committed w with
      | none => none
      | some commits =>
          some { s with
            redis := s.redis.del (eventCacheDetailKey id)
            invalidated := max s.invalidated commits
            committed := Function.update s.committed w none }

/-- A call that stores its value loaded it after every commit whose
invalidation is over. -/
def StoresCurrent (s : DetailSystem) : DetailAction → Prop
  | .advance c =>
      match s.calls c with
      | some ⟨_, _, .storing value⟩ => s.invalidated ≤ value.seen.length
      | _ => True
  | _ => True

instance (s : DetailSystem) (a : DetailAction) : Decidable (StoresCurrent s a) := by
  unfold StoresCurrent
  split
  · split <;> infer_instance
  · infer_instance

/-- The value was loaded in a committed state, after `n` commits at least. -/
def SeenSince (s : DetailSystem) (n : ℕ) (value : LoadedDetail) : Prop :=
  value.seen <:+ s.history ∧ n ≤ value.seen.length ∧
    (value.seen.headD s.base).loadEvent ids id = .ok value.detail

inductive DetailChange (s : DetailSystem) : DetailAction → DetailSystem → Prop
  | began {c : ℕ} {token : String} (hnew : s.calls c = none) :
      DetailChange s (.begin c token) (s.withCall c ⟨token, s.invalidated, .reading⟩ s.redis)
  | moved {a : DetailAction} {c : ℕ} {token : String} {since : ℕ}
      {phase phase' : CachePhase Unit LoadedDetail} {redis' : Redis LoadedDetail}
      (hcall : s.calls c = some ⟨token, since, phase⟩)
      (hphase : ∀ fresh : LoadedDetail → Prop,
        (∀ value, s.redis.entries (eventCacheDetailKey id) = some value → fresh value) →
        (∀ detail, s.db.loadEvent ids id = .ok detail → fresh ⟨detail, s.history⟩) →
        phase.Holds (fun _ => True) fresh → phase'.Holds (fun _ => True) fresh)
      (hentries : ∀ key value, redis'.entries key = some value →
        s.redis.entries key = some value ∨ (phase = .storing value ∧ a = .advance c)) :
      DetailChange s a (s.withCall c ⟨token, since, phase'⟩ redis')
  | expired {a : DetailAction} {redis' : Redis LoadedDetail}
      (hentries : ∀ key value, redis'.entries key = some value →
        s.redis.entries key = some value) :
      DetailChange s a { s with redis := redis' }
  | committed {w : ℕ} {db : Database} (hfree : s.committed w = none) :
      DetailChange s (.commit w db) { s with
        history := db :: s.history
        committed := Function.update s.committed w (some (s.history.length + 1)) }
  | invalidated {w commits : ℕ} (hdue : s.committed w = some commits) :
      DetailChange s (.invalidate w) { s with
        redis := s.redis.del (eventCacheDetailKey id)
        invalidated := max s.invalidated commits
        committed := Function.update s.committed w none }

end Steps

variable {ids : UuidOps} {id : String} {s t : DetailSystem} {a : DetailAction}

theorem detailStep_change (h : detailStep ids id s a = some t) : DetailChange ids id s a t := by
  cases a with
  | begin c token =>
      simp only [detailStep] at h
      split at h
      · simp at h
      next hnew =>
        cases h
        exact .began hnew
  | advance c =>
      simp only [detailStep] at h
      split at h
      · simp at h
      next token since phase hcall =>
        obtain ⟨⟨phase', redis'⟩, hnext, rfl⟩ := Option.map_eq_some_iff.mp h
        refine .moved hcall ?_ ?_
        · intro fresh hkey _ hheld
          exact (advance_holds hnext trivial hkey hheld).1
        · intro key value hvalue
          rcases advance_stores hnext hvalue with hold | ⟨-, hstoring⟩
          · exact .inl hold
          · exact .inr ⟨hstoring, rfl⟩
  | load c =>
      simp only [detailStep] at h
      split at h
      next token since owner hcall =>
        cases h
        refine .moved hcall ?_ fun _ _ hvalue => .inl hvalue
        intro fresh _ hload _
        apply afterLoad_holds
        intro value hvalue
        obtain ⟨detail, hdetail, rfl⟩ := map_ok hvalue
        exact hload detail hdetail
      · simp at h
  | loadThrows c failure =>
      simp only [detailStep] at h
      split at h
      next token since owner hcall =>
        cases h
        refine .moved hcall ?_ fun _ _ hvalue => .inl hvalue
        intro fresh _ _ _
        apply afterLoad_holds
        simp
      · simp at h
  | expireEntry key =>
      cases h
      exact .expired fun _ _ => Redis.del_entries_some
  | expireLock key =>
      cases h
      exact .expired fun _ _ hvalue => hvalue
  | commit w db =>
      simp only [detailStep] at h
      split at h
      · simp at h
      next hfree =>
        cases h
        exact .committed hfree
  | invalidate w =>
      simp only [detailStep] at h
      split at h
      · simp at h
      next commits hdue =>
        cases h
        exact .invalidated hdue

theorem SeenSince.mono {n m : ℕ} {value : LoadedDetail} (h : SeenSince ids id s n value)
    (hbase : t.base = s.base) (hhistory : s.history <:+ t.history) (hle : m ≤ n) :
    SeenSince ids id t m value := by
  obtain ⟨hseen, hcontains, hload⟩ := h
  exact ⟨hseen.trans hhistory, hle.trans hcontains, hbase ▸ hload⟩

theorem SeenSince.now {detail : EventDetail} {n : ℕ} (h : s.db.loadEvent ids id = .ok detail)
    (hn : n ≤ s.history.length) : SeenSince ids id s n ⟨detail, s.history⟩ :=
  ⟨List.suffix_rfl, hn, h⟩

/-- What the key holds was loaded after every commit whose invalidation is
over, and what a call holds after those that were over at its start. -/
structure FreshDetails (ids : UuidOps) (id : String) (s : DetailSystem) : Prop where
  counted : s.invalidated ≤ s.history.length
  committed : ∀ w n, s.committed w = some n → n ≤ s.history.length
  since : ∀ c call, s.calls c = some call → call.since ≤ s.invalidated
  held : ∀ c call, s.calls c = some call →
    call.phase.Holds (fun _ => True) (SeenSince ids id s call.since)
  stored : ∀ value, s.redis.entries (eventCacheDetailKey id) = some value →
    SeenSince ids id s s.invalidated value

theorem FreshDetails.start (base : Database) : FreshDetails ids id (.start base) := by
  constructor
  · exact le_rfl
  · intro w n hdue
    cases hdue
  · intro c call hcall
    cases hcall
  · intro c call hcall
    cases hcall
  · intro value hvalue
    cases hvalue

theorem FreshDetails.step (hs : FreshDetails ids id s) (hgood : StoresCurrent s a)
    (h : detailStep ids id s a = some t) : FreshDetails ids id t := by
  cases detailStep_change h with
  | began hnew =>
      refine ⟨hs.counted, hs.committed, ?_, ?_, hs.stored⟩
      · exact calls_update hs.since le_rfl
      · exact calls_update hs.held trivial
  | @moved _ c token since phase phase' redis' hcall hphase hentries =>
      have hsince : since ≤ s.invalidated := hs.since c _ hcall
      refine ⟨hs.counted, hs.committed, ?_, ?_, ?_⟩
      · exact calls_update hs.since hsince
      · apply calls_update hs.held
        refine hphase (SeenSince ids id s since) ?_ ?_ (hs.held c _ hcall)
        · intro value hvalue
          exact (hs.stored value hvalue).mono rfl List.suffix_rfl hsince
        · intro detail hdetail
          exact .now hdetail (hsince.trans hs.counted)
      · intro value hvalue
        rcases hentries _ value hvalue with hold | ⟨rfl, rfl⟩
        · exact hs.stored value hold
        · have hheld : SeenSince ids id s since value := hs.held c _ hcall
          have hcurrent : s.invalidated ≤ value.seen.length := by
            simpa [StoresCurrent, hcall] using hgood
          exact ⟨hheld.1, hcurrent, hheld.2.2⟩
  | expired hentries =>
      refine ⟨hs.counted, hs.committed, hs.since, hs.held, ?_⟩
      intro value hvalue
      exact hs.stored value (hentries _ value hvalue)
  | @committed w db hfree =>
      have hlater : s.history <:+ db :: s.history := List.suffix_cons db s.history
      have hlength : s.history.length ≤ (db :: s.history).length := hlater.length_le
      refine ⟨hs.counted.trans hlength, ?_, hs.since, ?_, ?_⟩
      · intro v n hn
        by_cases hv : v = w
        · subst hv
          obtain rfl : s.history.length + 1 = n := by simpa using hn
          exact le_rfl
        · exact (hs.committed v n (by simpa [hv] using hn)).trans hlength
      · intro c call hcall
        exact (hs.held c call hcall).imp (fun _ _ => trivial)
          fun value hvalue => hvalue.mono rfl hlater le_rfl
      · intro value hvalue
        exact (hs.stored value hvalue).mono rfl hlater le_rfl
  | @invalidated w commits hdue =>
      refine ⟨max_le hs.counted (hs.committed w commits hdue), ?_, ?_, hs.held, ?_⟩
      · intro v n hn
        by_cases hv : v = w
        · subst hv
          simp at hn
        · exact hs.committed v n (by simpa [hv] using hn)
      · intro c call hcall
        exact (hs.since c call hcall).trans (le_max_left _ _)
      · intro value hvalue
        simp [Redis.del] at hvalue

theorem FreshDetails.exec {acts : List DetailAction} (hs : FreshDetails ids id s)
    (hgood : Along (detailStep ids id) StoresCurrent s acts)
    (h : exec (detailStep ids id) s acts = some t) : FreshDetails ids id t :=
  exec_invariant_along (fun _ _ _ hs hgood hstep => hs.step hgood hstep) hs hgood h

theorem detailStep_grows (h : detailStep ids id s a = some t) :
    t.base = s.base ∧ s.history <:+ t.history ∧ s.invalidated ≤ t.invalidated := by
  cases detailStep_change h with
  | began | moved | expired => exact ⟨rfl, List.suffix_rfl, le_rfl⟩
  | committed => exact ⟨rfl, List.suffix_cons _ _, le_rfl⟩
  | invalidated => exact ⟨rfl, List.suffix_rfl, le_max_left _ _⟩

theorem detailRun_grows {acts : List DetailAction} (h : exec (detailStep ids id) s acts = some t) :
    t.base = s.base ∧ s.history <:+ t.history ∧ s.invalidated ≤ t.invalidated := by
  refine exec_relation (I := fun _ => True)
    (R := fun s t => t.base = s.base ∧ s.history <:+ t.history ∧ s.invalidated ≤ t.invalidated)
    (fun _ => ⟨rfl, List.suffix_rfl, le_rfl⟩) ?_ (fun _ _ _ _ _ => trivial)
    (fun _ _ _ _ hstep => detailStep_grows hstep) trivial h
  rintro s t u ⟨hbase, hhistory, hcount⟩ ⟨hbase', hhistory', hcount'⟩
  exact ⟨hbase'.trans hbase, hhistory.trans hhistory', hcount.trans hcount'⟩

/-- The first `n` commits are invalidated, or will be when writer `w` is done. -/
def Owes (w n : ℕ) (s : DetailSystem) : Prop :=
  n ≤ s.invalidated ∨ ∃ commits, s.committed w = some commits ∧ n ≤ commits

theorem Owes.step {w n : ℕ} (hs : Owes w n s) (h : detailStep ids id s a = some t) :
    Owes w n t := by
  rcases hs with hdone | ⟨commits, hdue, hle⟩
  · exact .inl (hdone.trans (detailStep_grows h).2.2)
  · cases detailStep_change h with
    | began | moved | expired => exact .inr ⟨commits, hdue, hle⟩
    | @committed v db hfree =>
        have hv : w ≠ v := fun hwv => by simp [hwv, hfree] at hdue
        exact .inr ⟨commits, by simpa [hv] using hdue, hle⟩
    | @invalidated v others hother =>
        by_cases hv : w = v
        · subst hv
          obtain rfl : commits = others := Option.some.inj (hdue.symm.trans hother)
          exact .inl (hle.trans (le_max_right _ _))
        · exact .inr ⟨commits, by simpa [hv] using hdue, hle⟩

theorem detailStep_commit {w : ℕ} {db : Database}
    (h : detailStep ids id s (.commit w db) = some t) : Owes w t.history.length t := by
  simp only [detailStep] at h
  split at h
  · simp at h
  · cases h
    exact .inr ⟨s.history.length + 1, by simp, le_rfl⟩

theorem detailStep_invalidate {w n : ℕ} (hs : Owes w n s)
    (h : detailStep ids id s (.invalidate w) = some t) : n ≤ t.invalidated := by
  simp only [detailStep] at h
  split at h
  · simp at h
  next commits hdue =>
    cases h
    rcases hs with hdone | ⟨commits', hdue', hle⟩
    · exact hdone.trans (le_max_left _ _)
    · obtain rfl : commits' = commits := Option.some.inj (hdue'.symm.trans hdue)
      exact hle.trans (le_max_right _ _)

def HasBegun (c n : ℕ) (s : DetailSystem) : Prop :=
  ∃ call, s.calls c = some call ∧ n ≤ call.since

theorem HasBegun.step {c n : ℕ} (hs : HasBegun c n s) (h : detailStep ids id s a = some t) :
    HasBegun c n t := by
  obtain ⟨call, hcall, hle⟩ := hs
  cases detailStep_change h with
  | @began d token hnew =>
      have hd : c ≠ d := fun hcd => by simp [hcd, hnew] at hcall
      exact ⟨call, by simpa [DetailSystem.withCall, hd] using hcall, hle⟩
  | @moved _ d token since phase phase' redis' hcall' hphase hentries =>
      by_cases hd : c = d
      · subst hd
        obtain rfl : call = ⟨token, since, phase⟩ := Option.some.inj (hcall.symm.trans hcall')
        exact ⟨⟨token, since, phase'⟩, by simp [DetailSystem.withCall], hle⟩
      · exact ⟨call, by simpa [DetailSystem.withCall, hd] using hcall, hle⟩
  | expired | committed | invalidated => exact ⟨call, hcall, hle⟩

theorem detailStep_begin {c : ℕ} {token : String}
    (h : detailStep ids id s (.begin c token) = some t) : HasBegun c s.invalidated t := by
  simp only [detailStep] at h
  split at h
  · simp at h
  · cases h
    exact ⟨⟨token, s.invalidated, .reading⟩, by simp [DetailSystem.withCall], le_rfl⟩

/-- When no call stores what it loaded before a commit that is invalidated by
then, a detail call that starts after a writer's invalidation returns a value
loaded in a state that contains the writer's commit. -/
theorem detail_read_contains_commit (ids : UuidOps) (id : String) (base : Database)
    {pre between mid post : List DetailAction} {w c since : ℕ} {db : Database}
    {u t : DetailSystem} {token : String} {value : LoadedDetail}
    (hcommit : exec (detailStep ids id) (.start base) (pre ++ [.commit w db]) = some u)
    (hrun : exec (detailStep ids id) u
      (between ++ .invalidate w :: (mid ++ .begin c token :: post)) = some t)
    (hgood : Along (detailStep ids id) StoresCurrent (.start base)
      ((pre ++ [.commit w db]) ++ (between ++ .invalidate w :: (mid ++ .begin c token :: post))))
    (hreturned : t.calls c = some ⟨token, since, .finished (.ok value)⟩) :
    u.history <:+ value.seen ∧ value.seen <:+ t.history ∧
      (value.seen.headD base).loadEvent ids id = .ok value.detail := by
  have hfresh : FreshDetails ids id t := by
    apply (FreshDetails.start base).exec hgood
    exact exec_append_iff.mpr ⟨u, hcommit, hrun⟩
  obtain ⟨hseen, hcontains, hload⟩ : SeenSince ids id t since value := hfresh.held c _ hreturned
  have hbase : t.base = base := (detailRun_grows hrun).1.trans (detailRun_grows hcommit).1
  -- the call's `since` counts the writer's commit
  have howes : Owes w u.history.length u := by
    obtain ⟨u₀, -, hlast⟩ := exec_append_iff.mp hcommit
    rw [exec_singleton] at hlast
    exact detailStep_commit hlast
  obtain ⟨v, hbetween, hafter⟩ := exec_append_iff.mp hrun
  obtain ⟨v', hinvalidate, hrest⟩ := exec_cons_iff.mp hafter
  have hdone : u.history.length ≤ v'.invalidated :=
    detailStep_invalidate (exec_invariant (fun _ _ _ hs hstep => hs.step hstep) howes hbetween)
      hinvalidate
  obtain ⟨x, hmid, hread⟩ := exec_append_iff.mp hrest
  obtain ⟨y, hbegin, hpost⟩ := exec_cons_iff.mp hread
  have hsince : u.history.length ≤ since := by
    obtain ⟨call, hcall, hle⟩ := exec_invariant (fun _ _ _ hs hstep => HasBegun.step hs hstep)
      (detailStep_begin hbegin) hpost
    obtain rfl := Option.some.inj (hreturned.symm.trans hcall)
    exact (hdone.trans (detailRun_grows hmid).2.2).trans hle
  refine ⟨?_, hseen, hbase ▸ hload⟩
  exact List.suffix_of_suffix_length_le (detailRun_grows hrun).2.1 hseen (hsince.trans hcontains)

/-- A step that stores an older value makes the next call return it. -/
theorem stale_store_served {c d since : ℕ} {token next : String} {value : LoadedDetail}
    (hcall : s.calls c = some ⟨token, since, .storing value⟩) (hnew : s.calls d = none)
    (hstale : value.seen.length < s.invalidated) :
    ∃ t, exec (detailStep ids id) s [.advance c, .begin d next, .advance d] = some t ∧
      t.calls d = some ⟨next, s.invalidated, .finished (.ok value)⟩ ∧
      ¬ SeenSince ids id t s.invalidated value := by
  have hd : d ≠ c := fun hdc => by simp [hdc, hcall] at hnew
  let stored := s.withCall c ⟨token, since, .releasing (.ok value)⟩
    (s.redis.set (eventCacheDetailKey id) value)
  let begun := stored.withCall d ⟨next, s.invalidated, .reading⟩ stored.redis
  have hstore : detailStep ids id s (.advance c) = some stored := by
    simp [detailStep, hcall, advance, stored]
  have hbegin : detailStep ids id stored (.begin d next) = some begun := by
    simp [detailStep, stored, begun, DetailSystem.withCall, hd, hnew]
  have hserve : detailStep ids id begun (.advance d) =
      some (begun.withCall d ⟨next, s.invalidated, .finished (.ok value)⟩ begun.redis) := by
    simp [detailStep, advance, begun, stored, DetailSystem.withCall, Redis.set,
      CachePhase.afterRead]
  have hrun : exec (detailStep ids id) s [.advance c, .begin d next, .advance d] = some _ :=
    exec_cons_iff.mpr ⟨_, hstore, exec_cons_iff.mpr ⟨_, hbegin,
      (exec_singleton _ _).trans hserve⟩⟩
  refine ⟨_, hrun, by simp [DetailSystem.withCall], ?_⟩
  exact fun hseen => absurd hseen.2.1 (not_le.mpr hstale)

/-- A reader loads the event and stops before it stores it. -/
def loadedRun : List DetailAction :=
  [.begin 1 "slow", .advance 1, .advance 1, .advance 1, .load 1]

theorem detail_read_contains_commit_hall :
    ∃ u t, exec (detailStep storedSpelling hallId) (.start hallDatabase)
        (loadedRun ++ [.advance 1, .advance 1] ++ [.commit 0 ⟨.empty, .empty, .empty⟩]) = some u ∧
      exec (detailStep storedSpelling hallId) u
        ([.commit 1 hallDatabase] ++ .invalidate 0 :: ([] ++ .begin 2 "late" ::
          [.advance 2, .advance 2, .advance 2, .load 2, .advance 2, .advance 2])) = some t ∧
      ∃ value since, t.calls 2 = some ⟨"late", since, .finished (.ok value)⟩ ∧
        u.history <:+ value.seen := by
  obtain ⟨u, t, value, since, hcommit, hrun, hreturned⟩ : ∃ u t value since,
      exec (detailStep storedSpelling hallId) (.start hallDatabase)
        (loadedRun ++ [.advance 1, .advance 1] ++ [.commit 0 ⟨.empty, .empty, .empty⟩]) = some u ∧
      exec (detailStep storedSpelling hallId) u
        ([.commit 1 hallDatabase] ++ .invalidate 0 :: ([] ++ .begin 2 "late" ::
          [.advance 2, .advance 2, .advance 2, .load 2, .advance 2, .advance 2])) = some t ∧
      t.calls 2 = some ⟨"late", since, .finished (.ok value)⟩ := ⟨_, _, _, _, rfl, rfl, rfl⟩
  refine ⟨u, t, hcommit, hrun, value, since, hreturned, ?_⟩
  refine (detail_read_contains_commit storedSpelling hallId hallDatabase hcommit hrun ?_
    hreturned).1
  decide

/-- The event is deleted and its key invalidated before the reader stores what
it loaded; the next call is served the deleted event. -/
theorem detail_read_deleted :
    ∃ db u t, hallDatabase.deleteEvent hallId = .ok db ∧
      exec (detailStep storedSpelling hallId) (.start hallDatabase)
        (loadedRun ++ [.commit 0 db]) = some u ∧
      exec (detailStep storedSpelling hallId) u
        ([] ++ .invalidate 0 :: ([.advance 1] ++ .begin 2 "late" :: [.advance 2])) = some t ∧
      u.db.loadEvent storedSpelling hallId = .error (.status 404 "Event not found") ∧
      ∃ value since, t.calls 2 = some ⟨"late", since, .finished (.ok value)⟩ ∧
        value.detail = enrichAvailability hallEvent 0 ∧ ¬ u.history <:+ value.seen := by
  refine ⟨_, _, _, rfl, rfl, rfl, rfl, _, _, rfl, rfl, ?_⟩
  intro hsuffix
  exact absurd hsuffix.length_le (by decide)

end Eventify
