import Eventify.Web.Shell

/-!
# Revalidatable files

The worker serves its static paths from the caches first, and these were filled
at the installation. Here is what that makes of the files that the server marks
`no-cache`, over deployments that leave the worker in place: a stock that keeps
no responses, but only which build each URL was stored from, decides it.
-/

namespace Eventify

open Library

/-- A file of the build that browsers are told to revalidate. -/
def WebResponse.noCache (response : WebResponse) : Bool :=
  response.source ≠ .api && (response.cacheControl == some "no-cache" ||
    response.cacheControl == some "no-cache, no-store, must-revalidate")

/-- With the network up, a file marked `no-cache` comes as the server has it
now, and only `/assets/` is answered without the server. -/
def AnswersCurrent (server : WebServer) (s : Pwa) : PwaEvent → Prop
  | .fetch true api request =>
      let answer := s.onFetch server true api request
      let fresh := server.fetch s.deployment api request
      (fresh.noCache = true → ∃ response, answer.response = some response ∧
        response.body = fresh.body) ∧
      (answer.contacted = false → startsWith "/assets/" request.url.pathname = true)
  | _ => True

/-! ### The stock -/

/-- The latest build, and the build that each static URL was stored from. -/
structure Stock where
  deployment : Deployment
  caches : Caches Url Deployment

namespace Stock

variable (server : WebServer) (s : Stock)

def start (d : Deployment) : Stock := ⟨d, []⟩

/-- An installation stores the precached files and the assets of its build. -/
def install (network : InstallNetwork) : Caches Url Deployment :=
  let caches := s.caches.openCache shellCacheName
  if network.page && (network.shellUrls &&
      shellUrls.all fun url => (server.answer s.deployment ⟨url, ""⟩).ok) then
    let caches := (shellUrls.foldl (fun caches url =>
      caches.put shellCacheName ⟨url, ""⟩ s.deployment) caches).openCache staticCacheName
    (assetUrls s.deployment.index).foldl (fun caches url =>
      if network.asset url && (server.answer s.deployment ⟨url, ""⟩).ok then
        caches.put staticCacheName ⟨url, ""⟩ s.deployment
      else caches) caches
  else caches

/-- A static URL that has not been stored is stored from the build of now. -/
def fetch (online : Bool) (api : ApiAnswer) (request : WebRequest) : Caches Url Deployment :=
  if online = false ∨ startsWith "/api/" request.url.pathname then s.caches
  else if request.navigate then
    -- the page goes under `/`, which is no static path, to a cache that may be new
    if (server.fetch s.deployment api request).ok then s.caches.openCache shellCacheName
    else s.caches
  else if isStaticPath request.url.pathname ∧ s.caches.matchKey request.url = none ∧
      (server.answer s.deployment request.url).ok then
    (s.caches.openCache staticCacheName).put staticCacheName request.url s.deployment
  else s.caches

end Stock

def stockStep (server : WebServer) (s : Stock) : PwaEvent → Option Stock
  | .deploy d => some { s with deployment := d }
  | .install network => some { s with caches := s.install server network }
  | .activate => some { s with caches := s.caches.filter fun cache =>
      cache.1 == shellCacheName || cache.1 == staticCacheName }
  | .fetch online api request => some { s with caches := s.fetch server online api request }

/-- The request goes to the network, or its path is below `/assets/` and either
immutable in the latest build, or answered there with the same text as by the
build that the URL was stored from. -/
def Revalidates (server : WebServer) (s : Stock) : PwaEvent → Prop
  | .fetch true _ request =>
      request.navigate = false → isStaticPath request.url.pathname = true →
        ∀ build, s.caches.matchKey request.url = some build →
          startsWith "/assets/" request.url.pathname = true ∧
            ((server.answer s.deployment request.url).noCache = true →
              (server.answer build request.url).body =
                (server.answer s.deployment request.url).body)
  | _ => True

/-! ### Answers -/

theorem startsWith_api_of_static {pathname : String} (h : isStaticPath pathname = true) :
    startsWith "/api/" pathname = false := by
  obtain ⟨c, hc, hne⟩ := static_third h
  by_contra hapi
  rw [Bool.not_eq_false, startsWith, List.isPrefixOf_iff_prefix] at hapi
  obtain ⟨rest, hrest⟩ := hapi
  rw [← hrest] at hc
  cases hc
  exact hne rfl

section Fetch

variable {server : WebServer} {s : Pwa} {api : ApiAnswer} {request : WebRequest}

/-- A response that comes over the network is current. -/
theorem answersCurrent_of_network
    (hresponse : (s.onFetch server true api request).response =
      some (server.fetch s.deployment api request))
    (hcontacted : (s.onFetch server true api request).contacted = true) :
    AnswersCurrent server s (.fetch true api request) := by
  refine ⟨fun _ => ⟨_, hresponse, rfl⟩, fun hcache => ?_⟩
  rw [hcontacted] at hcache
  cases hcache

theorem answersCurrent_navigate (h : request.navigate = true) :
    AnswersCurrent server s (.fetch true api request) := by
  have hfetch : s.onFetch server true api request =
      if startsWith "/api/" request.url.pathname then s.passThrough server true api request
      else s.networkFirstNavigation server true api request := by
    simp only [Pwa.onFetch, h, if_true]
  apply answersCurrent_of_network
  · rw [hfetch]
    split <;> rfl
  · rw [hfetch]
    split <;> rfl

theorem answersCurrent_unhandled (hnavigate : request.navigate = false)
    (h : isStaticPath request.url.pathname = false) :
    AnswersCurrent server s (.fetch true api request) := by
  have hfetch : s.onFetch server true api request = s.passThrough server true api request := by
    simp [Pwa.onFetch, hnavigate, h]
  apply answersCurrent_of_network
  · rw [hfetch]
    rfl
  · rw [hfetch]
    rfl

theorem onFetch_static (hnavigate : request.navigate = false)
    (h : isStaticPath request.url.pathname = true) :
    s.onFetch server true api request = s.cacheFirstStatic server true api request := by
  simp [Pwa.onFetch, hnavigate, h, startsWith_api_of_static h]

/-- A static path: the caches come before the network. -/
theorem answersCurrent_static (hnavigate : request.navigate = false)
    (h : isStaticPath request.url.pathname = true) :
    AnswersCurrent server s (.fetch true api request) ↔
      ∀ cached, s.caches.matchKey request.url = some cached →
        startsWith "/assets/" request.url.pathname = true ∧
          ((server.fetch s.deployment api request).noCache = true →
            cached.body = (server.fetch s.deployment api request).body) := by
  have hfetch : s.onFetch server true api request = s.cacheFirstStatic server true api request :=
    onFetch_static hnavigate h
  cases hmatch : s.caches.matchKey request.url with
  | none =>
      refine iff_of_true ?_ (by simp)
      apply answersCurrent_of_network
      · rw [hfetch, Pwa.cacheFirstStatic, hmatch]
        rfl
      · rw [hfetch, Pwa.cacheFirstStatic, hmatch]
        rfl
  | some cached =>
      have hanswer : s.onFetch server true api request = ⟨some cached, false, s.caches⟩ := by
        rw [hfetch, Pwa.cacheFirstStatic, hmatch]
      simp only [AnswersCurrent, hanswer, Option.some.injEq, true_implies]
      constructor
      · rintro ⟨hcurrent, hassets⟩ _ rfl
        refine ⟨hassets, fun hmarked => ?_⟩
        obtain ⟨_, rfl, hbody⟩ := hcurrent hmarked
        exact hbody
      · intro hall
        obtain ⟨hassets, hcurrent⟩ := hall cached rfl
        exact ⟨fun hmarked => ⟨cached, rfl, hcurrent hmarked⟩, hassets⟩

end Fetch

/-- The API has no part in the answer for a static path. -/
theorem fetch_of_static {server : WebServer} {d : Deployment} {api : ApiAnswer}
    {request : WebRequest} (hnavigate : request.navigate = false)
    (h : isStaticPath request.url.pathname = true) :
    server.fetch d api request = server.answer d request.url := by
  have hget : ∀ ending, server.get d api (request.url.pathname ++ ending) =
      server.get d ⟨502, none, ""⟩ (request.url.pathname ++ ending) := by
    intro ending
    simp [WebServer.get, isApiPath_of_static h ending]
  have hplain := hget ""
  rw [String.append_empty] at hplain
  simp only [WebServer.answer, WebServer.fetch, hnavigate, Bool.false_eq_true, if_false]
  split
  · next location hredirect =>
    rw [redirect_of_static h hredirect]
    exact hget "/"
  · exact hplain

/-! ### The caches and the stock -/

def isStaticUrl (url : Url) : Bool := isStaticPath url.pathname

/-- The static URLs have the responses of the builds that the stock names. -/
def Alike (server : WebServer) (caches : CacheStorage) (builds : Caches Url Deployment) : Prop :=
  caches.view isStaticUrl (fun _ response => response) =
    builds.view isStaticUrl fun url d => server.answer d url

namespace Alike

variable {server : WebServer} {caches : CacheStorage} {builds : Caches Url Deployment}

theorem openCache (h : Alike server caches builds) (name : String) :
    Alike server (caches.openCache name) (builds.openCache name) := by
  rw [Alike, Caches.view_openCache, Caches.view_openCache, h]

theorem put (h : Alike server caches builds) (name : String) {url : Url}
    (hstatic : isStaticUrl url = true) (d : Deployment) :
    Alike server (caches.put name url (server.answer d url)) (builds.put name url d) := by
  rw [Alike, Caches.view_put hstatic, Caches.view_put hstatic, h]

theorem put_other (h : Alike server caches builds) (name : String) {url : Url}
    (hother : isStaticUrl url = false) (response : WebResponse) :
    Alike server (caches.put name url response) builds := by
  rw [Alike, Caches.view_put_of_not hother, h]

theorem activate (h : Alike server caches builds) :
    Alike server
      (caches.filter fun cache => cache.1 == shellCacheName || cache.1 == staticCacheName)
      (builds.filter fun cache => cache.1 == shellCacheName || cache.1 == staticCacheName) := by
  let kept (name : String) : Bool := name == shellCacheName || name == staticCacheName
  rw [Alike, Caches.view_filter caches kept, Caches.view_filter builds kept, h]

theorem foldl {urls : List String} {f : CacheStorage → String → CacheStorage}
    {g : Caches Url Deployment → String → Caches Url Deployment}
    (hstep : ∀ caches builds, Alike server caches builds → ∀ url ∈ urls,
      Alike server (f caches url) (g builds url))
    (h : Alike server caches builds) :
    Alike server (urls.foldl f caches) (urls.foldl g builds) := by
  induction urls generalizing caches builds with
  | nil => exact h
  | cons url urls ih =>
      refine ih (fun caches builds h other hother => ?_) (hstep caches builds h url (by simp))
      exact hstep caches builds h other (List.mem_cons_of_mem url hother)

theorem matchKey (h : Alike server caches builds) {url : Url}
    (hstatic : isStaticPath url.pathname = true) :
    caches.matchKey url = (builds.matchKey url).map fun d => server.answer d url := by
  have hview := congrArg (fun caches => Caches.matchKey caches url) h
  simpa [Caches.matchKey_view (p := isStaticUrl) hstatic] using hview

end Alike

/-- The worker and the stock beside it. -/
structure Stocked (server : WebServer) (s : Pwa) (k : Stock) : Prop where
  deployment : s.deployment = k.deployment
  caches : Alike server s.caches k.caches

section Simulation

variable {server : WebServer} {s : Pwa} {k : Stock}

theorem Stocked.install (h : Stocked server s k) (network : InstallNetwork) :
    Alike server (s.precacheAppShell server network) (k.install server network) := by
  have hfile : ∀ url, s.fetchFile server url = server.answer k.deployment ⟨url, ""⟩ := by
    intro url
    rw [← h.deployment]
    rfl
  have hroot : Alike server ((s.caches.openCache shellCacheName).put shellCacheName ⟨"/", ""⟩
      (s.fetchFile server "/")) (k.caches.openCache shellCacheName) :=
    (h.caches.openCache _).put_other _ (by decide) _
  have hok : (server.answer k.deployment ⟨"/", ""⟩).ok = true := by
    rw [answer_root]
    rfl
  have hbody : (server.answer k.deployment ⟨"/", ""⟩).body = k.deployment.index := by
    rw [answer_root]
    rfl
  cases hpage : network.page with
  | false =>
      simp only [Pwa.precacheAppShell, Stock.install, hpage, Bool.false_and, Bool.false_eq_true,
        if_false]
      exact h.caches.openCache _
  | true =>
      simp only [Pwa.precacheAppShell, Stock.install, hpage, hok, hbody, hfile, Bool.true_and,
        if_true]
      simp only [hfile] at hroot
      split
      · refine Alike.foldl ?_ (Alike.openCache (Alike.foldl ?_ hroot) _)
        · intro caches builds hcaches url hurl
          rw [hfile]
          split
          · refine hcaches.put _ ?_ _
            rw [isStaticUrl, isStaticPath, mem_assetUrls hurl, Bool.true_or]
          · exact hcaches
        · intro caches builds hcaches url hurl
          rw [hfile]
          refine hcaches.put _ ?_ _
          revert hurl
          revert url
          decide
      · exact hroot

theorem Stocked.fetch (h : Stocked server s k) (online : Bool) (api : ApiAnswer)
    (request : WebRequest) :
    Alike server (s.onFetch server online api request).caches
      (k.fetch server online api request) := by
  cases hpath : startsWith "/api/" request.url.pathname with
  | true => simpa [Pwa.onFetch, Pwa.passThrough, Stock.fetch, hpath] using h.caches
  | false =>
      cases hnavigate : request.navigate with
      | true =>
          cases online with
          | false =>
              simpa [Pwa.onFetch, Pwa.networkFirstNavigation, Stock.fetch, hpath, hnavigate]
                using h.caches
          | true =>
              simp only [Pwa.onFetch, Pwa.networkFirstNavigation, Stock.fetch, hpath, hnavigate,
                h.deployment, Bool.false_eq_true, if_false, if_true, reduceCtorEq, or_self]
              split
              · exact (h.caches.openCache _).put_other _ (by decide) _
              · exact h.caches
      | false =>
          cases hstatic : isStaticPath request.url.pathname with
          | false =>
              simpa [Pwa.onFetch, Pwa.passThrough, Stock.fetch, hpath, hnavigate, hstatic]
                using h.caches
          | true =>
              have hfetch : server.fetch s.deployment api request =
                  server.answer k.deployment request.url := by
                rw [fetch_of_static hnavigate hstatic, h.deployment]
              have hmatch := h.caches.matchKey hstatic
              simp only [Pwa.onFetch, Pwa.cacheFirstStatic, Stock.fetch, hpath, hnavigate, hstatic,
                hfetch, hmatch, Bool.false_eq_true, if_false, if_true, true_and, or_false]
              cases hbuild : k.caches.matchKey request.url with
              | some build =>
                  cases online with
                  | false => simpa using h.caches
                  | true => simpa using h.caches
              | none =>
                  cases online with
                  | false => simpa using h.caches
                  | true =>
                      simp only [Option.map_none, if_true, reduceCtorEq, if_false, true_and]
                      split
                      · exact (h.caches.openCache _).put _ hstatic _
                      · exact h.caches

theorem Stocked.step (h : Stocked server s k) (event : PwaEvent) :
    ∃ t k', pwaStep server s event = some t ∧ stockStep server k event = some k' ∧
      Stocked server t k' := by
  cases event with
  | deploy d => exact ⟨_, _, rfl, rfl, rfl, h.caches⟩
  | install network => exact ⟨_, _, rfl, rfl, h.deployment, h.install network⟩
  | activate => exact ⟨_, _, rfl, rfl, h.deployment, h.caches.activate⟩
  | fetch online api request =>
      exact ⟨_, _, rfl, rfl, h.deployment, h.fetch online api request⟩

theorem Stocked.answersCurrent_iff (h : Stocked server s k) (event : PwaEvent) :
    AnswersCurrent server s event ↔ Revalidates server k event := by
  cases event with
  | deploy d => exact Iff.rfl
  | install network => exact Iff.rfl
  | activate => exact Iff.rfl
  | fetch online api request =>
      cases online with
      | false => exact Iff.rfl
      | true =>
          cases hnavigate : request.navigate with
          | true =>
              refine iff_of_true (answersCurrent_navigate hnavigate) ?_
              intro hsubresource
              rw [hnavigate] at hsubresource
              cases hsubresource
          | false =>
              cases hstatic : isStaticPath request.url.pathname with
              | false =>
                  refine iff_of_true (answersCurrent_unhandled hnavigate hstatic) ?_
                  intro _ hpath
                  rw [hstatic] at hpath
                  cases hpath
              | true =>
                  have hmatch := h.caches.matchKey hstatic
                  rw [answersCurrent_static hnavigate hstatic]
                  simp [Revalidates, hnavigate, hstatic, hmatch, h.deployment,
                    fetch_of_static hnavigate hstatic]

end Simulation

/-! ### The precached files -/

def Precached (caches : CacheStorage) : Prop :=
  ∀ pathname ∈ shellUrls, (caches.stored shellCacheName ⟨pathname, ""⟩).isSome = true

namespace Precached

variable {server : WebServer} {s t : Pwa} {caches : CacheStorage}

theorem openCache (h : Precached caches) (name : String) : Precached (caches.openCache name) := by
  intro pathname hmem
  rw [Caches.stored_openCache]
  exact h pathname hmem

theorem put (h : Precached caches) (name : String) (url : Url) (r : WebResponse) :
    Precached (caches.put name url r) :=
  fun pathname hmem => Caches.stored_put_isSome (h pathname hmem)

theorem addAssets (h : Precached caches) (network : InstallNetwork) (urls : List String) :
    Precached (s.addAssets server caches network urls) := by
  unfold Pwa.addAssets
  apply List.foldlRecOn
  · exact h
  · intro caches hcaches url _
    split
    · exact hcaches.put _ _ _
    · exact hcaches

theorem precache (h : Precached s.caches) (network : InstallNetwork) :
    Precached (s.precacheAppShell server network) := by
  have hroot := (h.openCache shellCacheName).put shellCacheName ⟨"/", ""⟩ (s.fetchFile server "/")
  simp only [Pwa.precacheAppShell]
  split
  · split
    · refine (openCache ?_ _).addAssets network _
      unfold Pwa.addAll
      apply List.foldlRecOn
      · exact hroot
      · intro caches hcaches url _
        exact hcaches.put _ _ _
    · exact hroot
  · exact h.openCache shellCacheName

theorem onFetch (h : Precached s.caches) (online : Bool) (api : ApiAnswer) (request : WebRequest) :
    Precached (s.onFetch server online api request).caches := by
  simp only [Pwa.onFetch, Pwa.passThrough, Pwa.networkFirstNavigation, Pwa.cacheFirstStatic]
  split
  · exact h
  · split
    · split
      · dsimp only
        split
        · exact (h.openCache _).put _ _ _
        · exact h
      · exact h
    · split
      · split
        · exact h
        · split
          · dsimp only
            split
            · exact (h.openCache _).put _ _ _
            · exact h
          · exact h
      · exact h

theorem step (h : Precached s.caches) {event : PwaEvent} (hstep : pwaStep server s event = some t) :
    Precached t.caches := by
  cases event with
  | deploy d =>
      cases hstep
      exact h
  | install network =>
      cases hstep
      exact h.precache network
  | activate =>
      cases hstep
      intro pathname hmem
      rw [stored_activate (.inl rfl)]
      exact h pathname hmem
  | fetch online api request =>
      cases hstep
      exact h.onFetch online api request

/-- The files that `addAll` writes are in the cache, which has been opened. -/
theorem addAll {caches : CacheStorage}
    (hopen : (caches.find? fun cache => cache.1 == shellCacheName).isSome = true) :
    Precached (s.addAll server caches shellCacheName shellUrls) := by
  have hall : ∀ (urls : List String) (caches : CacheStorage),
      (caches.find? fun cache => cache.1 == shellCacheName).isSome = true →
      ∀ url, url ∈ urls ∨ (caches.stored shellCacheName ⟨url, ""⟩).isSome = true →
        ((s.addAll server caches shellCacheName urls).stored shellCacheName ⟨url, ""⟩).isSome =
          true := by
    intro urls
    induction urls with
    | nil => exact fun caches _ url h => h.resolve_left (by simp)
    | cons first rest ih =>
        intro caches hopen url h
        refine ih (caches.put shellCacheName ⟨first, ""⟩ (s.fetchFile server first)) ?_ url ?_
        · rwa [Caches.find_put, Option.isSome_map]
        · rcases h with hmem | hold
          · rcases List.mem_cons.mp hmem with rfl | hmem
            · exact .inr (Caches.stored_put_of_open hopen)
            · exact .inl hmem
          · exact .inr (Caches.stored_put_isSome hold)
  exact fun pathname hmem => hall shellUrls caches hopen pathname (.inl hmem)

end Precached

/-- Once the five files are stored, no run brings them from the server again,
except in a navigation. -/
theorem precached_not_current {server : WebServer} {s t : Pwa} {events : List PwaEvent}
    (h : Precached s.caches) (hrun : exec (pwaStep server) s events = some t) {pathname : String}
    (hmem : pathname ∈ shellUrls) (api : ApiAnswer) :
    ¬ AnswersCurrent server t (.fetch true api ⟨⟨pathname, ""⟩, false⟩) := by
  have hstatic : isStaticPath pathname = true := by
    revert pathname
    decide
  have hassets : startsWith "/assets/" pathname = false := by
    revert pathname
    decide
  have hstored : Precached t.caches :=
    exec_invariant (I := fun s : Pwa => Precached s.caches) (fun _ _ _ hs h => hs.step h) h hrun
  obtain ⟨cached, hcached⟩ :=
    Option.isSome_iff_exists.mp (Caches.matchKey_isSome (hstored pathname hmem))
  rw [answersCurrent_static rfl hstatic]
  intro hall
  rw [(hall cached hcached).1] at hassets
  cases hassets

/-- The installation goes through up to its assets. -/
def Pwa.Installs (server : WebServer) (s : Pwa) (network : InstallNetwork) : Prop :=
  network.page = true ∧ network.shellUrls = true ∧
    ∀ url ∈ shellUrls, (server.answer s.deployment ⟨url, ""⟩).ok = true

theorem Pwa.Installs.precached {server : WebServer} {s : Pwa} {network : InstallNetwork}
    (h : s.Installs server network) : Precached (s.precacheAppShell server network) := by
  obtain ⟨hpage, hshell, hfiles⟩ := h
  have hok : (s.fetchFile server "/").ok = true := by
    rw [Pwa.fetchFile, answer_root]
    rfl
  have hall : (shellUrls.all fun url => (s.fetchFile server url).ok) = true :=
    List.all_eq_true.mpr hfiles
  simp only [Pwa.precacheAppShell, hpage, hshell, hok, hall, Bool.and_self, if_true]
  refine (Precached.openCache (.addAll ?_) _).addAssets network _
  rw [Caches.find_put, Option.isSome_map]
  exact Caches.find_openCache _ _

/-- In every run, over all its deployments, the files stay revalidatable exactly
when they do by the stock of builds; and when the installation of the worker
goes through, only as long as no page asks for a precached file. -/
theorem revalidation_iff (server : WebServer) (d : Deployment) (events : List PwaEvent) :
    (Along (pwaStep server) (AnswersCurrent server) (.start d) events ↔
      Along (stockStep server) (Revalidates server) (.start d) events) ∧
    ∀ before network after s, events = before ++ .install network :: after →
      exec (pwaStep server) (.start d) before = some s → s.Installs server network →
      Along (pwaStep server) (AnswersCurrent server) (.start d) events →
      ∀ pathname ∈ shellUrls, ∀ api, .fetch true api ⟨⟨pathname, ""⟩, false⟩ ∉ after := by
  have hstart : Stocked server (.start d) (.start d) := ⟨rfl, rfl⟩
  constructor
  · exact along_iff_lockstep (fun _ _ event h => h.answersCurrent_iff event)
      (fun _ _ event h => h.step event) hstart events
  · rintro before network after s rfl hs hinstalls hcurrent pathname hmem api hasked
    obtain ⟨mid, rest, rfl⟩ := List.append_of_mem hasked
    obtain ⟨-, hinstall⟩ := (along_append_iff.mp hcurrent).2 s hs
    obtain ⟨t, ht⟩ := exec_total (pwaStep_total server)
      { s with caches := s.precacheAppShell server network } mid
    obtain ⟨hfetch, -⟩ := (along_append_iff.mp (hinstall _ rfl)).2 t ht
    exact precached_not_current hinstalls.precached ht hmem api hfetch

/-- The manifest of the first deployment is served after the second one. -/
theorem revalidation_fails :
    ¬ ∀ (server : WebServer) (d : Deployment) (events : List PwaEvent),
      Along (pwaStep server) (AnswersCurrent server) (.start d)
        (.install ⟨true, true, fun _ => true⟩ :: .activate :: events) := by
  intro hall
  obtain ⟨-, hinstalled⟩ := hall plainServer (hallBuild "old") [.deploy (hallBuild "new"),
    .fetch true ⟨502, none, ""⟩ ⟨⟨"/manifest.webmanifest", ""⟩, false⟩]
  obtain ⟨-, hactivated⟩ := hinstalled _ rfl
  obtain ⟨-, hdeployed⟩ := hactivated _ rfl
  obtain ⟨⟨hcurrent, -⟩, -⟩ := hdeployed _ rfl
  obtain ⟨response, hresponse, hbody⟩ := hcurrent (by decide)
  cases hresponse
  exact absurd hbody (by decide)

end Eventify
