import Eventify.Cache.ListReads
import Eventify.Library.Json

/-!
# Whose page a list key holds

A page is stored under the list version and a digest of the JSON text of its
query. Different queries have different texts, so whatever Redis loses or
fails to do, a call is never given the page of another query.
-/

namespace Eventify

open Library

inductive QueryLeaf where
  | number (n : ℕ)
  | text (value : String)

def QueryLeaf.json : QueryLeaf → List Char
  | .number n => Nat.toDigits 10 n
  | .text value => JsonTree.quote value

theorem digits_start (n : ℕ) : ∃ c rest, Nat.toDigits 10 n = c :: rest ∧ c.isDigit = true := by
  have hne : Nat.toDigits 10 n ≠ [] := Nat.toDigits_ne_nil
  obtain ⟨c, rest, hdigits⟩ := List.exists_cons_of_ne_nil hne
  have hc : c ∈ Nat.toDigits 10 n := hdigits ▸ List.mem_cons_self
  exact ⟨c, rest, hdigits, Nat.isDigit_of_mem_toDigits (by decide) (by decide) hc⟩

theorem digits_ne_quote (n : ℕ) (value : String) (r s : List Char) :
    Nat.toDigits 10 n ++ r ≠ JsonTree.quote value ++ s := by
  intro h
  obtain ⟨c, rest, hdigits, hc⟩ := digits_start n
  rw [hdigits] at h
  obtain rfl : c = '"' := (List.cons.inj h).1
  exact absurd hc (by decide)

/-- Numbers and strings can be told apart in a text. -/
def queryTexts : JsonTree.LeafCode QueryLeaf where
  text := QueryLeaf.json
  printable _ := True
  start a _ := by
    cases a with
    | number n =>
        obtain ⟨c, rest, hdigits, hc⟩ := digits_start n
        refine ⟨c, rest, hdigits, fun hmem => ?_⟩
        simp only [List.mem_cons, List.not_mem_nil, or_false] at hmem
        rcases hmem with rfl | rfl | rfl | rfl | rfl <;> exact absurd hc (by decide)
    | text value => exact ⟨'"', _, rfl, by decide⟩
  cut a b _ _ := by
    intro r s hr hs h
    cases a with
    | number n =>
        cases b with
        | number m =>
            have hdigit : ∀ n, ∀ c ∈ Nat.toDigits 10 n, c.isDigit = true := fun n c hc =>
              Nat.isDigit_of_mem_toDigits (by decide) (by decide) hc
            obtain ⟨hdigits, hrest⟩ :=
              JsonTree.words_cut (by simp) (hdigit n) (hdigit m) hr hs h
            have hnumber := congrArg (fun digits => Nat.ofDigitChars 10 digits 0) hdigits
            exact ⟨congrArg QueryLeaf.number (by simpa using hnumber), hrest⟩
        | text value => exact (digits_ne_quote n value r s h).elim
    | text value =>
        cases b with
        | number m => exact (digits_ne_quote m value s r h.symm).elim
        | text value' =>
            obtain ⟨rfl, hrest⟩ := JsonTree.quote_cut h
            exact ⟨rfl, hrest⟩

/-- An absent filter is no key of the object. -/
def filterEntry (name : String) (value : Option String) : List (String × JsonTree QueryLeaf) :=
  value.toList.map fun text => (name, .leaf (.text text))

/-- A parsed query, its keys in the order of the schema. -/
def ListEventsQuery.json (query : ListEventsQuery) : JsonTree QueryLeaf :=
  .object (("page", .leaf (.number query.page)) :: ("limit", .leaf (.number query.limit)) ::
    (filterEntry "q" query.q ++ (filterEntry "venue" query.venue ++
      (filterEntry "from" query.from_ ++ filterEntry "to" query.to_))))

def ListEventsQuery.jsonText (query : ListEventsQuery) : String :=
  String.ofList (query.json.write QueryLeaf.json)

theorem filterEntry_names {name : String} {value : Option String} :
    ∀ entry ∈ filterEntry name value, entry.1 = name := by
  intro entry hentry
  obtain ⟨text, -, rfl⟩ := List.mem_map.mp hentry
  rfl

theorem filterEntry_cut {name : String} {value value' : Option String}
    {rest rest' : List (String × JsonTree QueryLeaf)} (hrest : ∀ entry ∈ rest, entry.1 ≠ name)
    (hrest' : ∀ entry ∈ rest', entry.1 ≠ name)
    (h : filterEntry name value ++ rest = filterEntry name value' ++ rest') :
    value = value' ∧ rest = rest' := by
  cases value with
  | none =>
      cases value' with
      | none => exact ⟨rfl, h⟩
      | some text' =>
          obtain rfl : rest = _ := h
          exact absurd rfl (hrest _ List.mem_cons_self)
  | some text =>
      cases value' with
      | none =>
          obtain rfl : _ = rest' := h
          exact absurd rfl (hrest' _ List.mem_cons_self)
      | some text' =>
          obtain ⟨hentry, hrests⟩ := List.cons.inj h
          simp only [Prod.mk.injEq, JsonTree.leaf.injEq, QueryLeaf.text.injEq, true_and] at hentry
          exact ⟨congrArg some hentry, hrests⟩

theorem filterEntry_ne {name name' : String} (hne : name' ≠ name) (value : Option String)
    {rest : List (String × JsonTree QueryLeaf)} (hrest : ∀ entry ∈ rest, entry.1 ≠ name) :
    ∀ entry ∈ filterEntry name' value ++ rest, entry.1 ≠ name := by
  intro entry hentry
  rcases List.mem_append.mp hentry with hfilter | hlater
  · exact filterEntry_names entry hfilter ▸ hne
  · exact hrest entry hlater

theorem ListEventsQuery.json_injective : Function.Injective ListEventsQuery.json := by
  rintro ⟨page, limit, q, venue, from_, to_⟩ ⟨page', limit', q', venue', from', to'⟩ h
  simp only [ListEventsQuery.json, JsonTree.object.injEq, List.cons.injEq, Prod.mk.injEq,
    JsonTree.leaf.injEq, QueryLeaf.number.injEq, true_and] at h
  obtain ⟨rfl, rfl, hfilters⟩ := h
  have hto {name : String} (hne : "to" ≠ name) (value : Option String) :
      ∀ entry ∈ filterEntry "to" value, entry.1 ≠ name := fun entry hentry =>
    filterEntry_names entry hentry ▸ hne
  have hfrom {name : String} (hne : "from" ≠ name ∧ "to" ≠ name) (value value' : Option String) :=
    filterEntry_ne hne.1 value (hto hne.2 value')
  have hvenue {name : String} (hne : "venue" ≠ name ∧ "from" ≠ name ∧ "to" ≠ name)
      (value value' value'' : Option String) :=
    filterEntry_ne hne.1 value (hfrom hne.2 value' value'')
  obtain ⟨rfl, hvenues⟩ :=
    filterEntry_cut (@hvenue "q" (by decide) _ _ _) (@hvenue "q" (by decide) _ _ _) hfilters
  obtain ⟨rfl, hdates⟩ :=
    filterEntry_cut (@hfrom "venue" (by decide) _ _) (@hfrom "venue" (by decide) _ _) hvenues
  obtain ⟨rfl, hlast⟩ :=
    filterEntry_cut (@hto "from" (by decide) _) (@hto "from" (by decide) _) hdates
  have hends : filterEntry "to" to_ ++ [] = filterEntry "to" to' ++ [] := by rw [hlast]
  obtain ⟨rfl, -⟩ := filterEntry_cut (by simp) (by simp) hends
  rfl

theorem ListEventsQuery.jsonText_injective : Function.Injective ListEventsQuery.jsonText := by
  intro query query' h
  have htexts : query.json.write QueryLeaf.json = query'.json.write QueryLeaf.json :=
    String.ofList_injective h
  exact ListEventsQuery.json_injective
    (queryTexts.write_injective (fun _ _ => trivial) (fun _ _ => trivial) htexts)

/-- `sha256Hex` is the digest of a text in hexadecimal digits. -/
def queryDigest (sha256Hex : String → String) (query : ListEventsQuery) : String :=
  String.ofList ((sha256Hex query.jsonText).toList.take 24)

/-! ### Runs with faults -/

/-- `ListAction`s and what Redis may do beside them. A version that cannot be
read is version `0`; a command may fail, or take effect with its reply lost. -/
inductive FaultyListAction where
  | step (a : ListAction)
  | versionFails (c : ℕ)
  | commandFails (c : ℕ)
  | replyLost (c : ℕ)
  | wiped

section Steps

variable (ops : TextOps) (digest : ListEventsQuery → String)

def faultyListStep (s : ListSystem) : FaultyListAction → Option ListSystem
  | .step a => listStep ops digest s a
  | .versionFails c =>
      match s.calls c with
      | some ⟨query, token, .start⟩ =>
          some (s.withCall c ⟨query, token, .inCache 0 .reading⟩ s.redis)
      | _ => none
  | .commandFails c =>
      match s.calls c with
      | some ⟨query, token, .inCache version phase⟩ =>
          (phase.afterFailure none).map fun phase' =>
            s.withCall c ⟨query, token, .inCache version phase'⟩ s.redis
      | _ => none
  | .replyLost c =>
      match s.calls c with
      | some ⟨query, token, .inCache version phase⟩ =>
          (advance none (eventCacheListKey version (digest query)) token s.redis phase).bind
            fun next => (phase.afterFailure none).map fun phase' =>
              s.withCall c ⟨query, token, .inCache version phase'⟩ next.2
      | _ => none
  | .wiped => some { s with redis := .empty, version := 0 }

end Steps

def queriesAsked (acts : List FaultyListAction) : List ListEventsQuery :=
  acts.filterMap fun
    | .step (.begin _ query _) => some query
    | _ => none

def ListSystem.states (s : ListSystem) : List Database := s.history ++ [s.base]

def RowsOf (ops : TextOps) (states : List Database) (query : ListEventsQuery)
    (rows : List EventDetail) : Prop :=
  ∃ db ∈ states, ∃ soonestFirst, rows = db.listRows ops soonestFirst query

/-- The rows and the total were each read for the query in one of the states. -/
def PageOf (ops : TextOps) (states : List Database) (query : ListEventsQuery)
    (page : EventPage) : Prop :=
  ∃ rows, RowsOf ops states query rows ∧
    ∃ db ∈ states, page = eventPage query rows (db.listTotal ops query)

structure OwnPages (ops : TextOps) (digest : ListEventsQuery → String)
    (queries : List ListEventsQuery) (s : ListSystem) : Prop where
  query : ∀ c call, s.calls c = some call → call.query ∈ queries
  calls : ∀ c call, s.calls c = some call → ∀ version phase,
    call.stage = .inCache version phase →
      phase.Holds (fun progress => ∀ rows ∈ progress, RowsOf ops s.states call.query rows)
        (PageOf ops s.states call.query)
  stored : ∀ version, ∀ query ∈ queries, ∀ page,
    s.redis.entries (eventCacheListKey version (digest query)) = some page →
      PageOf ops s.states query page

variable {queries : List ListEventsQuery} {b : FaultyListAction}

theorem RowsOf.mono {states later : List Database} {query : ListEventsQuery}
    {rows : List EventDetail} (h : RowsOf ops states query rows) (hlater : states ⊆ later) :
    RowsOf ops later query rows := by
  obtain ⟨db, hdb, soonestFirst, hrows⟩ := h
  exact ⟨db, hlater hdb, soonestFirst, hrows⟩

theorem PageOf.mono {states later : List Database} {query : ListEventsQuery} {page : EventPage}
    (h : PageOf ops states query page) (hlater : states ⊆ later) : PageOf ops later query page := by
  obtain ⟨rows, hrows, db, hdb, hpage⟩ := h
  exact ⟨rows, hrows.mono hlater, db, hlater hdb, hpage⟩

/-- A page of a query is one of its own: its numbers, its size and its filters. -/
theorem PageOf.fits {states : List Database} {query : ListEventsQuery} {page : EventPage}
    (h : PageOf ops states query page) :
    page.page = query.page ∧ page.limit = query.limit ∧ page.data.length ≤ query.limit ∧
      ∀ row ∈ page.data, listWhere ops query row.toEvent = true := by
  obtain ⟨rows, ⟨db, -, soonestFirst, rfl⟩, db', -, rfl⟩ := h
  refine ⟨rfl, rfl, ?_, ?_⟩
  · simp [eventPage, Database.listRows]
  · intro row hrow
    obtain ⟨event, hevent, rfl⟩ := List.mem_map.mp hrow
    have hfound := List.mem_of_mem_drop (List.mem_of_mem_take hevent)
    exact (List.mem_filter.mp ((soonestFirst.perm _).mem_iff.mp hfound)).2

theorem ListSystem.db_mem_states (s : ListSystem) : s.db ∈ s.states := by
  cases hhistory : s.history with
  | nil => simp [ListSystem.db, ListSystem.states, hhistory]
  | cons db older => simp [ListSystem.db, ListSystem.states, hhistory]

/-- What a step under faults can do; all but the first are no `listStep`. -/
inductive FaultyChange (ops : TextOps) (digest : ListEventsQuery → String) (s : ListSystem) :
    FaultyListAction → ListSystem → Prop
  | stepped {a : ListAction} {t : ListSystem} (hchange : ListChange ops digest s a t) :
      FaultyChange ops digest s (.step a) t
  | unversioned {c : ℕ} {query : ListEventsQuery} {token : String}
      (hcall : s.calls c = some ⟨query, token, .start⟩) :
      FaultyChange ops digest s (.versionFails c)
        (s.withCall c ⟨query, token, .inCache 0 .reading⟩ s.redis)
  | failed {b : FaultyListAction} {c : ℕ} {query : ListEventsQuery} {token : String} {version : ℕ}
      {phase phase' : CachePhase (Option (List EventDetail)) EventPage} {redis' : Redis EventPage}
      (hcall : s.calls c = some ⟨query, token, .inCache version phase⟩)
      (hmoves : Moves ops digest s version query phase phase' redis') :
      FaultyChange ops digest s b (s.withCall c ⟨query, token, .inCache version phase'⟩ redis')
  | wiped : FaultyChange ops digest s .wiped { s with redis := .empty, version := 0 }

theorem faultyListStep_change (h : faultyListStep ops digest s b = some t) :
    FaultyChange ops digest s b t := by
  cases b with
  | step a => exact .stepped (listStep_change h)
  | versionFails c =>
      simp only [faultyListStep] at h
      split at h
      next query token hcall =>
        cases h
        exact .unversioned hcall
      · simp at h
  | commandFails c =>
      simp only [faultyListStep] at h
      split at h
      next query token version phase hcall =>
        obtain ⟨phase', hfailed, rfl⟩ := Option.map_eq_some_iff.mp h
        exact .failed hcall fun good fresh hnone _ _ _ hphase =>
          ⟨afterFailure_holds hfailed hnone hphase, fun _ _ hpage => .inl hpage⟩
      · simp at h
  | replyLost c =>
      simp only [faultyListStep] at h
      split at h
      next query token version phase hcall =>
        obtain ⟨⟨reached, redis'⟩, hnext, hlost⟩ := Option.bind_eq_some_iff.mp h
        obtain ⟨phase', hfailed, rfl⟩ := Option.map_eq_some_iff.mp hlost
        exact .failed hcall fun good fresh hnone hkey _ _ hphase =>
          ⟨afterFailure_holds hfailed hnone hphase, (advance_holds hnext hnone hkey hphase).2⟩
      · simp at h
  | wiped =>
      cases h
      exact .wiped

namespace OwnPages

theorem start (queries : List ListEventsQuery) (base : Database) :
    OwnPages ops digest queries (.start base) := by
  constructor
  · intro c call hcall
    cases hcall
  · intro c call hcall
    cases hcall
  · intro version query hquery page hpage
    cases hpage

/-- A call that has read nothing yet. -/
theorem opened {c : ℕ} {query : ListEventsQuery} {token : String} {stage : ListStage}
    (hs : OwnPages ops digest queries s) (hquery : query ∈ queries)
    (hstage : ∀ version phase, stage = .inCache version phase → phase = .reading) :
    OwnPages ops digest queries (s.withCall c ⟨query, token, stage⟩ s.redis) := by
  refine ⟨calls_update hs.query hquery, calls_update hs.calls ?_, hs.stored⟩
  intro version phase h
  obtain rfl := hstage version phase h
  trivial

theorem moved {c : ℕ} {query : ListEventsQuery} {token : String} {version : ℕ}
    {phase phase' : CachePhase (Option (List EventDetail)) EventPage} {redis' : Redis EventPage}
    (hdigest : Set.InjOn digest {query | query ∈ queries}) (hs : OwnPages ops digest queries s)
    (hcall : s.calls c = some ⟨query, token, .inCache version phase⟩)
    (hmoves : Moves ops digest s version query phase phase' redis') :
    OwnPages ops digest queries
      (s.withCall c ⟨query, token, .inCache version phase'⟩ redis') := by
  have hquery : query ∈ queries := hs.query c _ hcall
  obtain ⟨hphase', hentries⟩ := hmoves
    (fun progress => ∀ rows ∈ progress, RowsOf ops s.states query rows)
    (PageOf ops s.states query) (by simp) (hs.stored version query hquery)
    (fun soonestFirst rows hrows =>
      ⟨s.db, s.db_mem_states, soonestFirst, (Option.some.inj hrows).symm⟩)
    (fun rows hrows => ⟨rows, hrows rows rfl, s.db, s.db_mem_states, rfl⟩)
    (hs.calls c _ hcall version phase rfl)
  refine ⟨calls_update hs.query hquery, calls_update hs.calls ?_, ?_⟩
  · intro version' phase'' hstage
    obtain ⟨-, rfl⟩ := ListStage.inCache.inj hstage
    exact hphase'
  · intro version' query' hquery' page hpage
    rcases hentries _ page hpage with hold | ⟨hkey, hfresh⟩
    · exact hs.stored version' query' hquery' page hold
    · -- the key that was written is the key of no other query
      obtain ⟨-, hsame⟩ := eventCacheListKey_inj.mp hkey
      obtain rfl := hdigest hquery' hquery hsame
      exact hfresh

theorem forgot {redis' : Redis EventPage} {version : ℕ} (hs : OwnPages ops digest queries s)
    (hentries : ∀ key page, redis'.entries key = some page → s.redis.entries key = some page) :
    OwnPages ops digest queries { s with redis := redis', version } :=
  ⟨hs.query, hs.calls, fun version query hquery page hpage =>
    hs.stored version query hquery page (hentries _ page hpage)⟩

theorem committed {db : Database} {committed' : ℕ → Bool} (hs : OwnPages ops digest queries s) :
    OwnPages ops digest queries
      { s with history := db :: s.history, committed := committed' } := by
  have hlater : s.states ⊆ db :: s.states := List.subset_cons_self db s.states
  refine ⟨hs.query, ?_, ?_⟩
  · intro c call hcall version phase hstage
    exact (hs.calls c call hcall version phase hstage).imp
      (fun _ hprogress rows hrows => (hprogress rows hrows).mono hlater)
      fun _ hpage => hpage.mono hlater
  · intro version query hquery page hpage
    exact (hs.stored version query hquery page hpage).mono hlater

/-- A call that has read its version holds nothing yet. -/
theorem readVersion {c version : ℕ} {query : ListEventsQuery} {token : String}
    (hs : OwnPages ops digest queries s) (hcall : s.calls c = some ⟨query, token, .start⟩) :
    OwnPages ops digest queries
      (s.withCall c ⟨query, token, .inCache version .reading⟩ s.redis) := by
  refine hs.opened (hs.query c _ hcall) ?_
  intro version' phase hstage
  exact (ListStage.inCache.inj hstage).2.symm

theorem step (hdigest : Set.InjOn digest {query | query ∈ queries})
    (hs : OwnPages ops digest queries s)
    (hasked : ∀ c query token, b = .step (.begin c query token) → query ∈ queries)
    (h : faultyListStep ops digest s b = some t) : OwnPages ops digest queries t := by
  cases faultyListStep_change h with
  | stepped hchange =>
      cases hchange with
      | @began c query token hnew => exact hs.opened (hasked c query token rfl) nofun
      | versioned hcall => exact hs.readVersion hcall
      | moved hcall hmoves => exact hs.moved hdigest hcall hmoves
      | expired hentries => exact hs.forgot hentries
      | committed => exact hs.committed
      | incremented => exact ⟨hs.query, hs.calls, hs.stored⟩
  | unversioned hcall => exact hs.readVersion hcall
  | failed hcall hmoves => exact hs.moved hdigest hcall hmoves
  | wiped => exact hs.forgot nofun

end OwnPages

theorem mem_queriesAsked {acts : List FaultyListAction} {c : ℕ} {query : ListEventsQuery}
    {token : String} (h : .step (.begin c query token) ∈ acts) : query ∈ queriesAsked acts :=
  List.mem_filterMap.mpr ⟨_, h, rfl⟩

/-- Whatever Redis loses, refuses or forgets, and however calls and commits
interleave: a call that returns a page returns one of its own query, with the
query's page and limit and only events its filters let through, listed and counted
in committed states. This needs that no two texts of queries agree in their digest. -/
theorem list_pages_match_query (ops : TextOps) (sha256Hex : String → String) (base : Database)
    {acts : List FaultyListAction} {t : ListSystem}
    (hdigest : ∀ query ∈ queriesAsked acts, ∀ query' ∈ queriesAsked acts,
      queryDigest sha256Hex query = queryDigest sha256Hex query' →
        query.jsonText = query'.jsonText)
    (hrun : exec (faultyListStep ops (queryDigest sha256Hex)) (.start base) acts = some t)
    {c version : ℕ} {query : ListEventsQuery} {token : String} {page : EventPage}
    (hreturned : t.calls c = some ⟨query, token, .inCache version (.finished (.ok page))⟩) :
    PageOf ops t.states query page ∧ page.page = query.page ∧ page.limit = query.limit ∧
      page.data.length ≤ query.limit ∧
        ∀ row ∈ page.data, listWhere ops query row.toEvent = true := by
  have hinj : Set.InjOn (queryDigest sha256Hex) {query | query ∈ queriesAsked acts} :=
    fun query hquery query' hquery' hsame =>
      ListEventsQuery.jsonText_injective (hdigest query hquery query' hquery' hsame)
  have ht : OwnPages ops (queryDigest sha256Hex) (queriesAsked acts) t := by
    have hasked : Along (faultyListStep ops (queryDigest sha256Hex)) (fun _ b =>
        ∀ c query token, b = .step (.begin c query token) → query ∈ queriesAsked acts)
        (.start base) acts := by
      refine along_of_forall_mem fun b hb _ => ?_
      rintro c query token rfl
      exact mem_queriesAsked hb
    exact exec_invariant_along (fun _ _ _ hs hgood hstep => hs.step hinj hgood hstep)
      (.start _ base) hasked hrun
  have hpage : PageOf ops t.states query page := ht.calls c _ hreturned version _ rfl
  exact ⟨hpage, hpage.fits⟩

def jazzQuery : ListEventsQuery := { page := 1, limit := 20, q := some "jazz" }

/-- The digests of the texts of `jazzQuery` and `defaultQuery`. -/
def sampleSha256 (text : String) : String :=
  if text = jazzQuery.jsonText then
    "02e30bc44a8eda9a23513412b56e2c57ad162abcfb31ededc55d5979983d8d1e"
  else "d867aee8cbc73af1f7a4442eaab27479e9ebfccc9220052e595a9c84d8d2de77"

def jazzRun : List FaultyListAction :=
  [.step (.begin 1 defaultQuery "first"), .versionFails 1, .step (.advance 1), .step (.advance 1),
    .commandFails 1, .step (.loadRows 1 (.stable _)), .step (.loadTotal 1), .step (.advance 1),
    .replyLost 1, .step (.begin 2 jazzQuery "second"), .step (.readVersion 2), .step (.advance 2),
    .step (.advance 2), .step (.advance 2), .step (.loadRows 2 (.stable _)), .step (.loadTotal 2),
    .step (.advance 2), .step (.advance 2)]

theorem list_pages_match_query_jazz :
    ∃ t, exec (faultyListStep plainText (queryDigest sampleSha256)) (.start soloDatabase) jazzRun =
        some t ∧
      PageOf plainText t.states jazzQuery (eventPage jazzQuery [] 0) := by
  obtain ⟨t, hrun, hreturned⟩ : ∃ t,
      exec (faultyListStep plainText (queryDigest sampleSha256)) (.start soloDatabase) jazzRun =
        some t ∧
      t.calls 2 = some ⟨jazzQuery, "second",
        .inCache 0 (.finished (.ok (eventPage jazzQuery [] 0)))⟩ := ⟨_, rfl, rfl⟩
  refine ⟨t, hrun, (list_pages_match_query plainText sampleSha256 soloDatabase ?_ hrun
    hreturned).1⟩
  have hne : queryDigest sampleSha256 defaultQuery ≠ queryDigest sampleSha256 jazzQuery := by
    decide
  have hasked : ∀ query ∈ queriesAsked jazzRun, query = defaultQuery ∨ query = jazzQuery := by
    intro query hquery
    simpa using (show query ∈ [defaultQuery, jazzQuery] from hquery)
  intro query hquery query' hquery' hsame
  rcases hasked query hquery with rfl | rfl
  · rcases hasked query' hquery' with rfl | rfl
    · rfl
    · exact absurd hsame hne
  · rcases hasked query' hquery' with rfl | rfl
    · exact absurd hsame.symm hne
    · rfl

end Eventify
