import Eventify.Cache.CacheAside
import Eventify.Events.Listing
import Eventify.Library.Machine

/-!
# List reads after an invalidation

Any number of `eventCache.list` calls among writers that commit first and
increment the list version afterwards. A call reads the version once and
keeps it in its key, so what is stored under the versions from an increment on
was loaded after the commit before it.
-/

namespace Eventify

open Library

inductive ListStage where
  | start
  | inCache (version : ℕ) (phase : CachePhase (Option (List EventDetail)) EventPage)

structure ListCall where
  query : ListEventsQuery
  token : String
  stage : ListStage

/-- `history` lists the committed database states, the latest first; an absent
version key is version `0`. -/
structure ListSystem where
  base : Database
  history : List Database
  version : ℕ
  redis : Redis EventPage
  calls : ℕ → Option ListCall
  committed : ℕ → Bool

inductive ListAction where
  | begin (c : ℕ) (query : ListEventsQuery) (token : String)
  | readVersion (c : ℕ)
  | advance (c : ℕ)
  | loadRows (c : ℕ) (soonestFirst : OrderBy Event.startsAt)
  | loadTotal (c : ℕ)
  | loadThrows (c : ℕ) (failure : Failure)
  | expireEntry (key : String)
  | expireLock (key : String)
  | commit (w : ℕ) (db : Database)
  | increment (w : ℕ)

namespace ListSystem

def start (base : Database) : ListSystem :=
  ⟨base, [], 0, .empty, fun _ => none, fun _ => false⟩

def db (s : ListSystem) : Database := s.history.headD s.base

def withCall (s : ListSystem) (c : ℕ) (call : ListCall) (redis : Redis EventPage) : ListSystem :=
  { s with calls := Function.update s.calls c (some call), redis }

end ListSystem

section Steps

variable (ops : TextOps) (digest : ListEventsQuery → String)

def listStep (s : ListSystem) : ListAction → Option ListSystem
  | .begin c query token =>
      match s.calls c with
      | some _ => none
      | none => some (s.withCall c ⟨query, token, .start⟩ s.redis)
  | .readVersion c =>
      match s.calls c with
      | some ⟨query, token, .start⟩ =>
          some (s.withCall c ⟨query, token, .inCache s.version .reading⟩ s.redis)
      | _ => none
  | .advance c =>
      match s.calls c with
      | some ⟨query, token, .inCache version phase⟩ =>
          (advance none (eventCacheListKey version (digest query)) token s.redis phase).map
            fun next => s.withCall c ⟨query, token, .inCache version next.1⟩ next.2
      | _ => none
  | .loadRows c soonestFirst =>
      match s.calls c with
      | some ⟨query, token, .inCache version (.loading owner none)⟩ =>
          some (s.withCall c ⟨query, token, .inCache version
            (.loading owner (some (s.db.listRows ops soonestFirst query)))⟩ s.redis)
      | _ => none
  | .loadTotal c =>
      match s.calls c with
      | some ⟨query, token, .inCache version (.loading owner (some rows))⟩ =>
          some (s.withCall c ⟨query, token, .inCache version
            (.afterLoad owner (.ok (eventPage query rows (s.db.listTotal ops query))))⟩ s.redis)
      | _ => none
  | .loadThrows c failure =>
      match s.calls c with
      | some ⟨query, token, .inCache version (.loading owner _)⟩ =>
          some (s.withCall c ⟨query, token, .inCache version (.afterLoad owner (.error failure))⟩
            s.redis)
      | _ => none
  | .expireEntry key => some { s with redis := s.redis.del key }
  | .expireLock key => some { s with redis := s.redis.setLock key none }
  | .commit w db =>
      if s.committed w then none
      else some { s with
        history := db :: s.history, committed := Function.update s.committed w true }
  | .increment w =>
      if s.committed w then
        some { s with
          version := s.version + 1, committed := Function.update s.committed w false }
      else none

/-- A step of the cache call of a query: whatever holds of the values under its
key and of what it loads now, holds of what it has and stores. -/
def Moves (s : ListSystem) (version : ℕ) (query : ListEventsQuery)
    (phase phase' : CachePhase (Option (List EventDetail)) EventPage)
    (redis' : Redis EventPage) : Prop :=
  ∀ (good : Option (List EventDetail) → Prop) (fresh : EventPage → Prop), good none →
    (∀ page, s.redis.entries (eventCacheListKey version (digest query)) = some page → fresh page) →
    (∀ soonestFirst, good (some (s.db.listRows ops soonestFirst query))) →
    (∀ rows, good (some rows) → fresh (eventPage query rows (s.db.listTotal ops query))) →
    phase.Holds good fresh →
    phase'.Holds good fresh ∧ ∀ key page, redis'.entries key = some page →
      s.redis.entries key = some page ∨
        (key = eventCacheListKey version (digest query) ∧ fresh page)

inductive ListChange (s : ListSystem) : ListAction → ListSystem → Prop
  | began {c : ℕ} {query : ListEventsQuery} {token : String} (hnew : s.calls c = none) :
      ListChange s (.begin c query token) (s.withCall c ⟨query, token, .start⟩ s.redis)
  | versioned {c : ℕ} {query : ListEventsQuery} {token : String}
      (hcall : s.calls c = some ⟨query, token, .start⟩) :
      ListChange s (.readVersion c)
        (s.withCall c ⟨query, token, .inCache s.version .reading⟩ s.redis)
  | moved {a : ListAction} {c : ℕ} {query : ListEventsQuery} {token : String} {version : ℕ}
      {phase phase' : CachePhase (Option (List EventDetail)) EventPage} {redis' : Redis EventPage}
      (hcall : s.calls c = some ⟨query, token, .inCache version phase⟩)
      (hmoves : Moves ops digest s version query phase phase' redis') :
      ListChange s a (s.withCall c ⟨query, token, .inCache version phase'⟩ redis')
  | expired {a : ListAction} {redis' : Redis EventPage}
      (hentries : ∀ key page, redis'.entries key = some page → s.redis.entries key = some page) :
      ListChange s a { s with redis := redis' }
  | committed {w : ℕ} {db : Database} (committed' : ℕ → Bool) :
      ListChange s (.commit w db) { s with history := db :: s.history, committed := committed' }
  | incremented {w : ℕ} (committed' : ℕ → Bool) :
      ListChange s (.increment w) { s with version := s.version + 1, committed := committed' }

end Steps

variable {ops : TextOps} {digest : ListEventsQuery → String} {s t : ListSystem} {a : ListAction}

theorem listStep_change (h : listStep ops digest s a = some t) : ListChange ops digest s a t := by
  cases a with
  | begin c query token =>
      simp only [listStep] at h
      split at h
      · simp at h
      next hnew =>
        cases h
        exact .began hnew
  | readVersion c =>
      simp only [listStep] at h
      split at h
      next query token hcall =>
        cases h
        exact .versioned hcall
      · simp at h
  | advance c =>
      simp only [listStep] at h
      split at h
      next query token version phase hcall =>
        obtain ⟨⟨phase', redis'⟩, hnext, rfl⟩ := Option.map_eq_some_iff.mp h
        exact .moved hcall fun good fresh hnone hkey _ _ hphase =>
          advance_holds hnext hnone hkey hphase
      · simp at h
  | loadRows c soonestFirst =>
      simp only [listStep] at h
      split at h
      next query token version owner hcall =>
        cases h
        exact .moved hcall fun good fresh _ _ hrows _ _ =>
          ⟨hrows soonestFirst, fun _ _ hpage => .inl hpage⟩
      · simp at h
  | loadTotal c =>
      simp only [listStep] at h
      split at h
      next query token version owner rows hcall =>
        cases h
        refine .moved hcall fun good fresh _ _ _ htotal hphase =>
          ⟨afterLoad_holds owner ?_, fun _ _ hpage => .inl hpage⟩
        intro page hpage
        exact Except.ok.inj hpage ▸ htotal rows hphase
      · simp at h
  | loadThrows c failure =>
      simp only [listStep] at h
      split at h
      next query token version owner progress hcall =>
        cases h
        exact .moved hcall fun good fresh _ _ _ _ _ =>
          ⟨afterLoad_holds owner (by simp), fun _ _ hpage => .inl hpage⟩
      · simp at h
  | expireEntry key =>
      cases h
      exact .expired fun _ _ => Redis.del_entries_some
  | expireLock key =>
      cases h
      exact .expired fun _ _ hpage => hpage
  | commit w db =>
      simp only [listStep] at h
      split at h
      · simp at h
      · cases h
        exact .committed _
  | increment w =>
      simp only [listStep] at h
      split at h
      · cases h
        exact .incremented _
      · simp at h

def queriesOf (acts : List ListAction) : List ListEventsQuery :=
  acts.filterMap fun
    | .begin _ query _ => some query
    | _ => none

def ListsOnly (queries : List ListEventsQuery) (_ : ListSystem) (a : ListAction) : Prop :=
  ∀ c query token, a = .begin c query token → query ∈ queries

/-- Every version in use is past, and every entry belongs to such a version. -/
structure Versioned (digest : ListEventsQuery → String) (queries : List ListEventsQuery)
    (s : ListSystem) : Prop where
  query : ∀ c call, s.calls c = some call → call.query ∈ queries
  version : ∀ c call, s.calls c = some call → ∀ version phase,
    call.stage = .inCache version phase → version ≤ s.version
  entries : ∀ key page, s.redis.entries key = some page → ∃ version ≤ s.version,
    ∃ query ∈ queries, key = eventCacheListKey version (digest query)

theorem Versioned.start (queries : List ListEventsQuery) (base : Database) :
    Versioned digest queries (.start base) := by
  constructor
  · intro c call hcall
    cases hcall
  · intro c call hcall
    cases hcall
  · intro key page hpage
    cases hpage

theorem Versioned.step {queries : List ListEventsQuery} (hs : Versioned digest queries s)
    (hgood : ListsOnly queries s a) (h : listStep ops digest s a = some t) :
    Versioned digest queries t := by
  cases listStep_change h with
  | @began c query token hnew =>
      have hquery : query ∈ queries := hgood c query token rfl
      exact ⟨calls_update hs.query hquery, calls_update hs.version nofun, hs.entries⟩
  | @versioned c query token hcall =>
      have hquery : query ∈ queries := hs.query c _ hcall
      refine ⟨calls_update hs.query hquery, calls_update hs.version ?_, hs.entries⟩
      intro version phase hstage
      obtain ⟨rfl, -⟩ := ListStage.inCache.inj hstage
      exact le_rfl
  | @moved _ c query token version phase phase' redis' hcall hmoves =>
      have hquery : query ∈ queries := hs.query c _ hcall
      have hversion : version ≤ s.version := hs.version c _ hcall version phase rfl
      refine ⟨calls_update hs.query hquery, calls_update hs.version ?_, ?_⟩
      · intro version' phase'' hstage
        obtain ⟨rfl, -⟩ := ListStage.inCache.inj hstage
        exact hversion
      · intro key page hpage
        have htrue := hmoves (fun _ => True) (fun _ => True) trivial (fun _ _ => trivial)
          (fun _ => trivial) (fun _ _ => trivial) phase.holds_true
        rcases htrue.2 key page hpage with hold | ⟨rfl, -⟩
        · exact hs.entries key page hold
        · exact ⟨version, hversion, query, hquery, rfl⟩
  | expired hentries =>
      refine ⟨hs.query, hs.version, ?_⟩
      intro key page hpage
      exact hs.entries key page (hentries key page hpage)
  | committed => exact ⟨hs.query, hs.version, hs.entries⟩
  | incremented =>
      refine ⟨hs.query, ?_, ?_⟩
      · intro c call hcall version phase hstage
        exact (hs.version c call hcall version phase hstage).trans (Nat.le_succ _)
      · intro key page hpage
        obtain ⟨version, hversion, hkey⟩ := hs.entries key page hpage
        exact ⟨version, hversion.trans (Nat.le_succ _), hkey⟩

/-- A committed state of the history `now`, no older than `since`. -/
def CommittedSince (since now : List Database) (db : Database) : Prop :=
  ∃ older, since <:+ db :: older ∧ db :: older <:+ now

theorem CommittedSince.mono {since now later : List Database} {db : Database}
    (h : CommittedSince since now db) (hlater : now <:+ later) :
    CommittedSince since later db := by
  obtain ⟨older, hsince, hnow⟩ := h
  exact ⟨older, hsince, hnow.trans hlater⟩

theorem CommittedSince.current {since : List Database} (hne : since ≠ [])
    (h : since <:+ s.history) : CommittedSince since s.history s.db := by
  cases hhistory : s.history with
  | nil => exact absurd (List.suffix_nil.mp (hhistory ▸ h)) hne
  | cons db older =>
      refine ⟨older, ?_, ?_⟩
      · simpa [ListSystem.db, hhistory] using h
      · simp [ListSystem.db, hhistory]

def RowsSince (ops : TextOps) (since now : List Database) (query : ListEventsQuery)
    (rows : List EventDetail) : Prop :=
  ∃ db soonestFirst, CommittedSince since now db ∧ rows = db.listRows ops soonestFirst query

/-- The rows and the total of the page were read in committed states no older
than `since`; the two statements of the loader may see two of them. -/
def PageSince (ops : TextOps) (since now : List Database) (query : ListEventsQuery)
    (page : EventPage) : Prop :=
  ∃ rows db, RowsSince ops since now query rows ∧ CommittedSince since now db ∧
    page = eventPage query rows (db.listTotal ops query)

theorem RowsSince.mono {since now later : List Database} {query : ListEventsQuery}
    {rows : List EventDetail} (h : RowsSince ops since now query rows) (hlater : now <:+ later) :
    RowsSince ops since later query rows := by
  obtain ⟨db, soonestFirst, hdb, hrows⟩ := h
  exact ⟨db, soonestFirst, hdb.mono hlater, hrows⟩

theorem PageSince.mono {since now later : List Database} {query : ListEventsQuery}
    {page : EventPage} (h : PageSince ops since now query page) (hlater : now <:+ later) :
    PageSince ops since later query page := by
  obtain ⟨rows, db, hrows, hdb, hpage⟩ := h
  exact ⟨rows, db, hrows.mono hlater, hdb.mono hlater, hpage⟩

def LoadedSince (ops : TextOps) (since now : List Database) (query : ListEventsQuery) :
    CachePhase (Option (List EventDetail)) EventPage → Prop :=
  CachePhase.Holds (fun progress => ∀ rows ∈ progress, RowsSince ops since now query rows)
    (PageSince ops since now query)

theorem LoadedSince.mono {since now later : List Database} {query : ListEventsQuery}
    {phase : CachePhase (Option (List EventDetail)) EventPage}
    (h : LoadedSince ops since now query phase) (hlater : now <:+ later) :
    LoadedSince ops since later query phase :=
  h.imp (fun _ hprogress rows hrows => (hprogress rows hrows).mono hlater)
    fun _ hpage => hpage.mono hlater

/-- From the version `k` on, whatever is stored or held was loaded since. -/
structure FreshFrom (ops : TextOps) (digest : ListEventsQuery → String)
    (queries : List ListEventsQuery) (since : List Database) (k : ℕ) (s : ListSystem) : Prop
    extends Versioned digest queries s where
  reached : k ≤ s.version
  commits : since <:+ s.history
  calls : ∀ c call, s.calls c = some call → ∀ version phase,
    call.stage = .inCache version phase → k ≤ version →
      LoadedSince ops since s.history call.query phase
  stored : ∀ version, k ≤ version → ∀ query ∈ queries, ∀ page,
    s.redis.entries (eventCacheListKey version (digest query)) = some page →
      PageSince ops since s.history query page

theorem FreshFrom.opened {queries : List ListEventsQuery} {since : List Database} {w : ℕ}
    (hs : Versioned digest queries s) (hgood : ListsOnly queries s (.increment w))
    (hsince : since <:+ s.history) (h : listStep ops digest s (.increment w) = some t) :
    FreshFrom ops digest queries since t.version t := by
  have ht := hs.step hgood h
  simp only [listStep] at h
  split at h
  · cases h
    refine ⟨ht, le_rfl, hsince, ?_, ?_⟩
    · intro c call hcall version phase hstage hversion
      have hold := hs.version c call hcall version phase hstage
      exact absurd (hversion.trans hold) (Nat.not_succ_le_self _)
    · intro version hversion query _ page hpage
      obtain ⟨version', hold, query', -, hkey⟩ := hs.entries _ page hpage
      obtain ⟨rfl, -⟩ := eventCacheListKey_inj.mp hkey
      exact absurd (hversion.trans hold) (Nat.not_succ_le_self _)
  · simp at h

theorem FreshFrom.step {queries : List ListEventsQuery} {since : List Database} {k : ℕ}
    (hdigest : Set.InjOn digest {query | query ∈ queries}) (hne : since ≠ [])
    (hs : FreshFrom ops digest queries since k s) (hgood : ListsOnly queries s a)
    (h : listStep ops digest s a = some t) : FreshFrom ops digest queries since k t := by
  have ht := hs.toVersioned.step hgood h
  cases listStep_change h with
  | @began c query token hnew =>
      exact ⟨ht, hs.reached, hs.commits, calls_update hs.calls nofun, hs.stored⟩
  | @versioned c query token hcall =>
      refine ⟨ht, hs.reached, hs.commits, calls_update hs.calls ?_, hs.stored⟩
      intro version phase hstage _
      obtain ⟨-, rfl⟩ := ListStage.inCache.inj hstage
      trivial
  | @moved _ c query token version phase phase' redis' hcall hmoves =>
      have hquery : query ∈ queries := hs.query c _ hcall
      by_cases hversion : k ≤ version
      · have hcurrent := CommittedSince.current hne hs.commits
        -- the call may load now, and finds and stores only what is fresh
        obtain ⟨hphase', hentries⟩ := hmoves
          (fun progress => ∀ rows ∈ progress, RowsSince ops since s.history query rows)
          (PageSince ops since s.history query) (by simp)
          (hs.stored version hversion query hquery)
          (fun soonestFirst rows hrows =>
            ⟨s.db, soonestFirst, hcurrent, (Option.some.inj hrows).symm⟩)
          (fun rows hrows => ⟨rows, s.db, hrows rows rfl, hcurrent, rfl⟩)
          (hs.calls c _ hcall version phase rfl hversion)
        refine ⟨ht, hs.reached, hs.commits, calls_update hs.calls ?_, ?_⟩
        · intro version' phase'' hstage _
          obtain ⟨-, rfl⟩ := ListStage.inCache.inj hstage
          exact hphase'
        · intro version' hversion' query' hquery' page hpage
          rcases hentries _ page hpage with hold | ⟨hkey, hfresh⟩
          · exact hs.stored version' hversion' query' hquery' page hold
          · obtain ⟨-, hsame⟩ := eventCacheListKey_inj.mp hkey
            obtain rfl := hdigest hquery' hquery hsame
            exact hfresh
      · -- a call of an older version reaches no key from `k` on
        obtain ⟨-, hentries⟩ := hmoves (fun _ => True) (fun _ => True) trivial (fun _ _ => trivial)
          (fun _ => trivial) (fun _ _ => trivial) phase.holds_true
        refine ⟨ht, hs.reached, hs.commits, calls_update hs.calls ?_, ?_⟩
        · intro version' phase'' hstage hversion'
          obtain ⟨rfl, -⟩ := ListStage.inCache.inj hstage
          exact absurd hversion' hversion
        · intro version' hversion' query' hquery' page hpage
          rcases hentries _ page hpage with hold | ⟨hkey, -⟩
          · exact hs.stored version' hversion' query' hquery' page hold
          · obtain ⟨rfl, -⟩ := eventCacheListKey_inj.mp hkey
            exact absurd hversion' hversion
  | expired hentries =>
      refine ⟨ht, hs.reached, hs.commits, hs.calls, ?_⟩
      intro version hversion query hquery page hpage
      exact hs.stored version hversion query hquery page (hentries _ page hpage)
  | @committed w db committed' =>
      have hlater : s.history <:+ db :: s.history := List.suffix_cons db s.history
      refine ⟨ht, hs.reached, hs.commits.trans hlater, ?_, ?_⟩
      · intro c call hcall version phase hstage hversion
        exact (hs.calls c call hcall version phase hstage hversion).mono hlater
      · intro version hversion query hquery page hpage
        exact (hs.stored version hversion query hquery page hpage).mono hlater
  | incremented =>
      exact ⟨ht, hs.reached.trans (Nat.le_succ _), hs.commits, hs.calls, hs.stored⟩

def HasRead (c k : ℕ) (s : ListSystem) : Prop :=
  ∃ query token version phase,
    s.calls c = some ⟨query, token, .inCache version phase⟩ ∧ k ≤ version

theorem HasRead.step {c k : ℕ} (hs : HasRead c k s) (h : listStep ops digest s a = some t) :
    HasRead c k t := by
  obtain ⟨query, token, version, phase, hcall, hversion⟩ := hs
  cases listStep_change h with
  | @began d query' token' hnew =>
      have hd : c ≠ d := fun hcd => by simp [hcd, hnew] at hcall
      exact ⟨query, token, version, phase, by simpa [ListSystem.withCall, hd] using hcall, hversion⟩
  | @versioned d query' token' hcall' =>
      have hd : c ≠ d := fun hcd => by simp [hcd, hcall'] at hcall
      exact ⟨query, token, version, phase, by simpa [ListSystem.withCall, hd] using hcall, hversion⟩
  | @moved _ d query' token' version' phase' phase'' redis' hcall' hmoves =>
      by_cases hd : c = d
      · subst hd
        obtain ⟨-, -, hstage⟩ : query' = query ∧ token' = token ∧
            ListStage.inCache version' phase' = .inCache version phase := by
          simpa [hcall'] using hcall
        obtain ⟨rfl, -⟩ := ListStage.inCache.inj hstage
        exact ⟨query', token', version', phase'', by simp [ListSystem.withCall], hversion⟩
      · refine ⟨query, token, version, phase, ?_, hversion⟩
        simpa [ListSystem.withCall, hd] using hcall
  | expired | committed | incremented => exact ⟨query, token, version, phase, hcall, hversion⟩

theorem listsOnly_queriesOf {acts : List ListAction} (ha : a ∈ acts) (s : ListSystem) :
    ListsOnly (queriesOf acts) s a := by
  rintro c query token rfl
  exact List.mem_filterMap.mpr ⟨_, ha, rfl⟩

theorem listStep_commit {w : ℕ} {db : Database}
    (h : listStep ops digest s (.commit w db) = some t) : t.history = db :: s.history := by
  simp only [listStep] at h
  split at h
  · simp at h
  · cases h
    rfl

theorem listStep_readVersion {c : ℕ}
    (h : listStep ops digest s (.readVersion c) = some t) : HasRead c s.version t := by
  simp only [listStep] at h
  split at h
  next query token hcall =>
    cases h
    exact ⟨query, token, s.version, .reading, by simp [ListSystem.withCall], le_rfl⟩
  · simp at h

section Runs

variable {acts part : List ListAction}

theorem along_listsOnly (hpart : part ⊆ acts) :
    Along (listStep ops digest) (ListsOnly (queriesOf acts)) s part :=
  along_of_forall_mem fun _ ha u => listsOnly_queriesOf (hpart ha) u

theorem Versioned.exec (hpart : part ⊆ acts) (hs : Versioned digest (queriesOf acts) s)
    (h : exec (listStep ops digest) s part = some t) : Versioned digest (queriesOf acts) t :=
  exec_invariant_along (fun _ _ _ hs hgood hstep => hs.step hgood hstep) hs
    (along_listsOnly hpart) h

theorem FreshFrom.exec {since : List Database} {k : ℕ}
    (hdigest : Set.InjOn digest {query | query ∈ queriesOf acts}) (hne : since ≠ [])
    (hpart : part ⊆ acts) (hs : FreshFrom ops digest (queriesOf acts) since k s)
    (h : exec (listStep ops digest) s part = some t) :
    FreshFrom ops digest (queriesOf acts) since k t :=
  exec_invariant_along (fun _ _ _ hs hgood hstep => hs.step hdigest hne hgood hstep) hs
    (along_listsOnly hpart) h

theorem history_suffix (h : exec (listStep ops digest) s part = some t) :
    s.history <:+ t.history := by
  refine exec_relation (I := fun _ => True) (R := fun s t => s.history <:+ t.history)
    (fun _ => List.suffix_rfl) (fun _ _ _ => List.IsSuffix.trans) (fun _ _ _ _ _ => trivial) ?_
    trivial h
  intro s a t _ hstep
  cases listStep_change hstep with
  | committed => exact List.suffix_cons _ _
  | began | versioned | moved | expired | incremented => exact List.suffix_rfl

end Runs

/-- A list call that reads the version after a writer's increment returns a
page whose rows and total were read in states that contain the writer's commit. -/
theorem list_read_contains_commit (ops : TextOps) (digest : ListEventsQuery → String)
    (base : Database) {pre between mid post : List ListAction} {w c : ℕ} {db : Database}
    {u t : ListSystem} {query : ListEventsQuery} {token : String} {version : ℕ} {page : EventPage}
    (hdigest : Set.InjOn digest {query | query ∈ queriesOf
      (pre ++ .commit w db :: (between ++ .increment w :: (mid ++ .readVersion c :: post)))})
    (hcommit : exec (listStep ops digest) (.start base) (pre ++ [.commit w db]) = some u)
    (hrun : exec (listStep ops digest) u
      (between ++ .increment w :: (mid ++ .readVersion c :: post)) = some t)
    (hreturned : t.calls c = some ⟨query, token, .inCache version (.finished (.ok page))⟩) :
    PageSince ops u.history t.history query page := by
  generalize hacts :
    pre ++ ListAction.commit w db :: (between ++ .increment w :: (mid ++ .readVersion c :: post)) =
      acts at hdigest
  have hparts : pre ++ [.commit w db] ⊆ acts ∧ between ⊆ acts ∧ mid ⊆ acts ∧ post ⊆ acts := by
    subst hacts
    refine ⟨?_, ?_, ?_, ?_⟩ <;> intro b hb <;> simp_all
    tauto
  obtain ⟨hupTo, hinBetween, hinMid, hinPost⟩ := hparts
  obtain ⟨u₀, hpre, hlast⟩ := exec_append_iff.mp hcommit
  have hne : u.history ≠ [] := by
    rw [exec_singleton] at hlast
    rw [listStep_commit hlast]
    exact List.cons_ne_nil _ _
  -- up to the increment every version in use is past
  have hu : Versioned digest (queriesOf acts) u :=
    (Versioned.start _ base).exec hupTo hcommit
  obtain ⟨v, hbetween, hafter⟩ := exec_append_iff.mp hrun
  obtain ⟨v', hincrement, hrest⟩ := exec_cons_iff.mp hafter
  have hv := hu.exec hinBetween hbetween
  have hv' : FreshFrom ops digest (queriesOf acts) u.history v'.version v' :=
    FreshFrom.opened hv (listsOnly_queriesOf (by subst hacts; simp) v)
      (history_suffix hbetween) hincrement
  -- from there on the version read is one of the fresh ones
  obtain ⟨x, hmid, hread⟩ := exec_append_iff.mp hrest
  obtain ⟨y, hreadVersion, hpost⟩ := exec_cons_iff.mp hread
  have hx := hv'.exec hdigest hne hinMid hmid
  have hy := hx.step hdigest hne (listsOnly_queriesOf (by subst hacts; simp) x) hreadVersion
  have ht := hy.exec hdigest hne hinPost hpost
  have hhas : HasRead c v'.version t := by
    obtain ⟨query', token', version', phase, hcall, hle⟩ := listStep_readVersion hreadVersion
    have hstart : HasRead c v'.version y :=
      ⟨query', token', version', phase, hcall, hx.reached.trans hle⟩
    exact exec_invariant (fun _ _ _ hs hstep => hs.step hstep) hstart hpost
  obtain ⟨query', token', version', phase, hcall, hle⟩ := hhas
  obtain ⟨rfl, rfl, hstage⟩ : query = query' ∧ token = token' ∧
      ListStage.inCache version (.finished (.ok page)) = .inCache version' phase := by
    simpa [hreturned] using hcall
  obtain ⟨rfl, rfl⟩ := ListStage.inCache.inj hstage
  exact ht.calls c _ hreturned version _ rfl hle

def defaultQuery : ListEventsQuery := { page := 1, limit := 20 }

/-- `queryDigest` of the default query. -/
def defaultDigest (_ : ListEventsQuery) : String := "d867aee8cbc73af1f7a4442e"

def plainText : TextOps := ⟨fun text part => decide (part = text), fun _ => 0⟩

/-- A call has loaded the page of the empty database, and not stored it yet. -/
def overtaken : List ListAction :=
  [.begin 0 defaultQuery "slow", .readVersion 0, .advance 0, .advance 0, .advance 0,
    .loadRows 0 (.stable _), .loadTotal 0]

/-- The call stores its page only now, under the version it has read. -/
def caughtUp : List ListAction :=
  [.advance 0, .advance 0, .advance 1, .advance 1, .advance 1, .loadRows 1 (.stable _),
    .loadTotal 1, .advance 1, .advance 1]

/-- A page that is stored late does not reach a call that read a later version. -/
theorem list_read_contains_commit_solo : ∃ u t,
    exec (listStep plainText defaultDigest) (.start ⟨.empty, .empty, .empty⟩)
        (overtaken ++ [.commit 0 soloDatabase]) = some u ∧
      exec (listStep plainText defaultDigest) u ([] ++ .increment 0 ::
        ([.begin 1 defaultQuery "reader"] ++ .readVersion 1 :: caughtUp)) = some t ∧
      t.redis.entries (eventCacheListKey 0 (defaultDigest defaultQuery)) =
        some (eventPage defaultQuery [] 0) ∧
      u.history = [soloDatabase] ∧
      PageSince plainText u.history t.history defaultQuery
        (eventPage defaultQuery [enrichAvailability soloEvent 0] 1) := by
  obtain ⟨u, t, hcommit, hrun, hlate, hhistory, hreturned⟩ : ∃ u t,
      exec (listStep plainText defaultDigest) (.start ⟨.empty, .empty, .empty⟩)
          (overtaken ++ [.commit 0 soloDatabase]) = some u ∧
        exec (listStep plainText defaultDigest) u ([] ++ .increment 0 ::
          ([.begin 1 defaultQuery "reader"] ++ .readVersion 1 :: caughtUp)) = some t ∧
        t.redis.entries (eventCacheListKey 0 (defaultDigest defaultQuery)) =
          some (eventPage defaultQuery [] 0) ∧
        u.history = [soloDatabase] ∧
        t.calls 1 = some ⟨defaultQuery, "reader", .inCache 1 (.finished (.ok
          (eventPage defaultQuery [enrichAvailability soloEvent 0] 1)))⟩ :=
    ⟨_, _, rfl, rfl, rfl, rfl, rfl⟩
  refine ⟨u, t, hcommit, hrun, hlate, hhistory,
    list_read_contains_commit plainText defaultDigest _ ?_ hcommit hrun hreturned⟩
  have hone : ∀ q ∈ queriesOf (overtaken ++ .commit 0 soloDatabase :: ([] ++ .increment 0 ::
      ([.begin 1 defaultQuery "reader"] ++ .readVersion 1 :: caughtUp))), q = defaultQuery := by
    simp [overtaken, caughtUp, queriesOf]
  intro query hquery query' hquery' _
  exact (hone query hquery).trans (hone query' hquery').symm

end Eventify
