import Eventify.Web.ServiceWorker

/-!
# The stored shell

What stands under `/` in the shell cache, and where the responses of the static
cache come from. The worker skips `/api/` only, in this spelling, while the
server routes by more.
-/

namespace Eventify

open Library

theorem stored_activate {s : Pwa} {name : String} {url : Url}
    (h : name = shellCacheName ∨ name = staticCacheName) :
    Caches.stored s.activate name url = s.caches.stored name url := by
  have hkept : (fun cache : String × (Url → Option WebResponse) =>
      decide ((cache.1 == shellCacheName || cache.1 == staticCacheName) = true ∧
        (cache.1 == name) = true)) = fun cache => cache.1 == name := by
    funext cache
    by_cases hname : cache.1 = name
    · rcases h with rfl | rfl
      · simp [hname]
      · simp [hname]
    · simp [hname]
  rw [Caches.stored, Pwa.activate, List.find?_filter, hkept]
  rfl

/-! ### Two routing functions -/

theorem isApiPath_third {path : String} (h : isApiPath path = true) :
    (path.toList[2]?).map Char.toLower = some 'p' := by
  rw [← List.getElem?_map]
  simp only [isApiPath, lowerCase, Bool.or_eq_true, beq_iff_eq] at h
  rcases h with h | h
  · have hchars := congrArg String.toList h
    rw [String.toList_ofList] at hchars
    rw [hchars]
    rfl
  · rw [startsWith, List.isPrefixOf_iff_prefix] at h
    obtain ⟨rest, hrest⟩ := h
    rw [@String.toList_ofList (path.toList.map Char.toLower)] at hrest
    rw [← hrest]
    rfl

theorem static_third {path : String} (h : isStaticPath path = true) :
    ∃ c, path.toList[2]? = some c ∧ c.toLower ≠ 'p' := by
  simp only [isStaticPath, Bool.or_eq_true, List.contains_iff_mem] at h
  rcases h with h | h
  · rw [startsWith, List.isPrefixOf_iff_prefix] at h
    obtain ⟨rest, hrest⟩ := h
    exact ⟨'s', by rw [← hrest]; rfl, by decide⟩
  · simp only [List.mem_cons, List.not_mem_nil, or_false] at h
    rcases h with rfl | rfl | rfl | rfl | rfl
    · exact ⟨'c', rfl, by decide⟩
    · exact ⟨'a', rfl, by decide⟩
    · exact ⟨'f', rfl, by decide⟩
    · exact ⟨'w', rfl, by decide⟩
    · exact ⟨'w', rfl, by decide⟩

/-- No path that the worker serves from its static cache is proxied. -/
theorem isApiPath_of_static {path : String} (h : isStaticPath path = true) (ending : String) :
    isApiPath (path ++ ending) = false := by
  obtain ⟨c, hc, hne⟩ := static_third h
  by_contra hapi
  have hp := isApiPath_third (by simpa using hapi)
  have hlength : 2 < path.toList.length := by
    by_contra hshort
    rw [List.getElem?_eq_none (by omega)] at hc
    cases hc
  rw [String.toList_append, List.getElem?_append_left hlength, hc, Option.map_some] at hp
  exact hne (Option.some.inj hp)

theorem not_doubled_of_static {path : String} (h : isStaticPath path = true) :
    startsWith "//" path = false := by
  by_contra hdoubled
  rw [Bool.not_eq_false, startsWith, List.isPrefixOf_iff_prefix] at hdoubled
  obtain ⟨rest, hrest⟩ := hdoubled
  have hsecond : path.toList[1]? = some '/' := by
    rw [← hrest]
    rfl
  simp only [isStaticPath, Bool.or_eq_true, List.contains_iff_mem] at h
  rcases h with h | h
  · rw [startsWith, List.isPrefixOf_iff_prefix] at h
    obtain ⟨rest, hrest⟩ := h
    rw [← hrest] at hsecond
    cases hsecond
  · simp only [List.mem_cons, List.not_mem_nil, or_false] at h
    rcases h with rfl | rfl | rfl | rfl | rfl <;> cases hsecond

theorem redirect_of_static {server : WebServer} {d : Deployment} {path location : String}
    (h : isStaticPath path = true) (hredirect : server.redirect d path = some location) :
    location = path ++ "/" := by
  simp only [WebServer.redirect] at hredirect
  split at hredirect
  · cases hredirect
  · split at hredirect
    · next hfind =>
      cases hredirect
      exact server.find_directory _ _ _ hfind (not_doubled_of_static h)
    · cases hredirect

theorem fetch_source_of_static {server : WebServer} {d : Deployment} {api : ApiAnswer}
    {request : WebRequest} (h : isStaticPath request.url.pathname = true) :
    (server.fetch d api request).source ≠ .api := by
  have hplain : isApiPath request.url.pathname = false := by
    simpa using isApiPath_of_static h ""
  intro hsource
  simp only [WebServer.fetch] at hsource
  split at hsource
  · next location hredirect =>
    split at hsource
    · have hapi := get_source_api hsource
      rw [hplain] at hapi
      cases hapi
    · have hapi := get_source_api hsource
      rw [redirect_of_static h hredirect, isApiPath_of_static h] at hapi
      cases hapi
  · have hapi := get_source_api hsource
    rw [hplain] at hapi
    cases hapi

theorem matchAssetUrl_prefix {text rest : List Char} {url : String}
    (h : matchAssetUrl text = some (url, rest)) : startsWith "/assets/" url = true := by
  simp only [matchAssetUrl, Option.bind_eq_some_iff] at h
  obtain ⟨value, -, h⟩ := h
  split at h
  · cases h
  · split at h
    · cases h
    · cases h
      rw [startsWith, List.isPrefixOf_iff_prefix, String.toList_append]
      exact List.prefix_append _ _

theorem mem_assetUrls {html url : String} (h : url ∈ assetUrls html) :
    startsWith "/assets/" url = true := by
  rw [assetUrls, List.mem_dedup] at h
  generalize html.toList.length = n at h
  generalize html.toList = text at h
  induction n, text using matchAssetUrls.induct with
  | case1 text => simp [matchAssetUrls] at h
  | case2 n => simp [matchAssetUrls] at h
  | case3 n c text first rest hmatch ih =>
      rw [matchAssetUrls, hmatch] at h
      rcases List.mem_cons.mp h with rfl | h
      · exact matchAssetUrl_prefix hmatch
      · exact ih h
  | case4 n c text hmatch ih =>
      rw [matchAssetUrls, hmatch] at h
      exact ih h

/-! ### The invariant -/

/-- The shell is `index.html`, and nothing of the API is in the static cache. -/
structure ShellSound (caches : CacheStorage) : Prop where
  shell : ∀ r, caches.stored shellCacheName ⟨"/", ""⟩ = some r → r.source = .dist "/index.html"
  static : ∀ url r, caches.stored staticCacheName url = some r → r.source ≠ .api

namespace ShellSound

variable {caches : CacheStorage} {server : WebServer} {s : Pwa}

theorem openCache (h : ShellSound caches) (name : String) : ShellSound (caches.openCache name) := by
  constructor
  · intro r hr
    rw [Caches.stored_openCache] at hr
    exact h.shell r hr
  · intro url r hr
    rw [Caches.stored_openCache] at hr
    exact h.static url r hr

/-- A `put` that respects the two caches. -/
theorem put (h : ShellSound caches) {name : String} {url : Url} {r : WebResponse}
    (hshell : name = shellCacheName → url = ⟨"/", ""⟩ → r.source = .dist "/index.html")
    (hstatic : name = staticCacheName → r.source ≠ .api) :
    ShellSound (caches.put name url r) := by
  constructor
  · intro x hx
    rcases Caches.stored_put hx with ⟨hname, hurl, rfl⟩ | hx
    · exact hshell hname.symm hurl.symm
    · exact h.shell x hx
  · intro url' x hx
    rcases Caches.stored_put hx with ⟨hname, -, rfl⟩ | hx
    · exact hstatic hname.symm
    · exact h.static url' x hx

theorem addAll (h : ShellSound caches) {urls : List String} (hurls : ∀ url ∈ urls, url ≠ "/") :
    ShellSound (s.addAll server caches shellCacheName urls) := by
  unfold Pwa.addAll
  induction urls generalizing caches with
  | nil => exact h
  | cons url urls ih =>
      obtain ⟨hurl, hrest⟩ := List.forall_mem_cons.mp hurls
      refine ih (h.put ?_ ?_) hrest
      · intro _ hroot
        exact (hurl (congrArg Url.pathname hroot)).elim
      · intro hname
        exact absurd hname (by decide)

theorem addAssets (h : ShellSound caches) (network : InstallNetwork) {urls : List String}
    (hurls : ∀ url ∈ urls, isStaticPath url = true) :
    ShellSound (s.addAssets server caches network urls) := by
  unfold Pwa.addAssets
  induction urls generalizing caches with
  | nil => exact h
  | cons url urls ih =>
      obtain ⟨hurl, hrest⟩ := List.forall_mem_cons.mp hurls
      rw [List.foldl_cons]
      refine ih ?_ hrest
      split
      · refine h.put ?_ ?_
        · intro hname
          exact absurd hname (by decide)
        · intro _
          exact fetch_source_of_static hurl
      · exact h

/-- An installation stores the page of `/` and the files it asks for. -/
theorem precache (h : ShellSound s.caches) (network : InstallNetwork) :
    ShellSound (s.precacheAppShell server network) := by
  have hpage : s.fetchFile server "/" = s.deployment.indexPage := answer_root server s.deployment
  have hroot : ShellSound ((s.caches.openCache shellCacheName).put shellCacheName ⟨"/", ""⟩
      (s.fetchFile server "/")) := by
    refine (h.openCache shellCacheName).put ?_ ?_
    · intro _ _
      rw [hpage]
      rfl
    · intro hname
      exact absurd hname (by decide)
  simp only [Pwa.precacheAppShell]
  split
  · split
    · refine ((hroot.addAll ?_).openCache staticCacheName).addAssets network ?_
      · decide
      · intro url hurl
        rw [isStaticPath, mem_assetUrls hurl, Bool.true_or]
    · exact hroot
  · exact h.openCache shellCacheName

theorem activate (h : ShellSound s.caches) : ShellSound s.activate := by
  constructor
  · intro r hr
    rw [stored_activate (.inl rfl)] at hr
    exact h.shell r hr
  · intro url r hr
    rw [stored_activate (.inr rfl)] at hr
    exact h.static url r hr

end ShellSound

/-! ### Navigations -/

/-- A page loaded from the path does not replace the shell by another document:
under the API the answer is no success, and elsewhere the path is neither the
worker's script nor one that names a file other than `index.html`. -/
def KeepsShell (server : WebServer) (d : Deployment) (api : ApiAnswer) (path : String) : Prop :=
  (isApiPath path = true → ¬ (200 ≤ api.status ∧ api.status < 300)) ∧
    (isApiPath path = false → isWorkerPath path = false ∧
      ∀ name, server.find d.names path = .file name → name = "/index.html")

theorem keepsShell_iff {server : WebServer} {d : Deployment} {api : ApiAnswer} {path : String} :
    KeepsShell server d api path ↔ ((server.get d api path).ok = true →
      (server.get d api path).source = .dist "/index.html") := by
  simp only [KeepsShell, WebServer.get]
  cases hapi : isApiPath path with
  | true => simp [WebResponse.ok]
  | false =>
      cases hworker : isWorkerPath path with
      | true => simp [WebResponse.ok, Deployment.workerPage]
      | false =>
          cases hfind : server.find d.names path with
          | file name => simp [WebResponse.ok, Deployment.serve]
          | directory location => simp [WebResponse.ok, Deployment.serve]
          | malformed => simp [WebResponse.ok, Deployment.serve]
          | nothing => simp [Deployment.serve, Deployment.indexPage]

/-- The condition on the events of a run. -/
def NavigationKeepsShell (server : WebServer) (s : Pwa) : PwaEvent → Prop
  | .fetch true api request =>
      request.navigate = true → startsWith "/api/" request.url.pathname = false →
        KeepsShell server s.deployment api request.url.pathname
  | _ => True

theorem fetch_navigate {server : WebServer} {d : Deployment} {api : ApiAnswer}
    {request : WebRequest} (h : request.navigate = true) :
    server.fetch d api request = server.get d api request.url.pathname := by
  simp only [WebServer.fetch, h, if_true]
  split <;> rfl

section Fetch

variable {server : WebServer} {s : Pwa} {online : Bool} {api : ApiAnswer} {request : WebRequest}

/-- What a navigation stores. -/
theorem ShellSound.navigation_iff (h : ShellSound s.caches) (hnavigate : request.navigate = true) :
    ShellSound (s.networkFirstNavigation server true api request).caches ↔
      KeepsShell server s.deployment api request.url.pathname := by
  rw [keepsShell_iff]
  simp only [Pwa.networkFirstNavigation, if_true, fetch_navigate hnavigate]
  cases hok : (server.get s.deployment api request.url.pathname).ok with
  | false => simpa using h
  | true =>
      simp only [if_true, true_implies]
      constructor
      · intro hsound
        exact hsound.shell _ (Caches.stored_put_self _ _ _ _)
      · intro hindex
        refine (h.openCache shellCacheName).put (fun _ _ => hindex) ?_
        intro hname
        exact absurd hname (by decide)

theorem ShellSound.cacheFirst (h : ShellSound s.caches)
    (hstatic : isStaticPath request.url.pathname = true) :
    ShellSound (s.cacheFirstStatic server online api request).caches := by
  simp only [Pwa.cacheFirstStatic]
  split
  · exact h
  · split
    · dsimp only
      split
      · refine (h.openCache staticCacheName).put ?_ ?_
        · intro hname
          exact absurd hname (by decide)
        · intro _
          exact fetch_source_of_static hstatic
      · exact h
    · exact h

/-- One request: only a navigation with the network up can break the shell. -/
theorem ShellSound.onFetch_iff (h : ShellSound s.caches) :
    ShellSound (s.onFetch server online api request).caches ↔
      NavigationKeepsShell server s (.fetch online api request) := by
  unfold Pwa.onFetch
  split
  · rename_i hskipped
    refine iff_of_true h ?_
    cases online with
    | false => trivial
    | true =>
        intro _ hpath
        rw [hskipped] at hpath
        cases hpath
  · rename_i hpath
    split
    · rename_i hnavigate
      cases online with
      | false => exact iff_of_true h trivial
      | true =>
          rw [h.navigation_iff hnavigate]
          simp [NavigationKeepsShell, hnavigate, hpath]
    · rename_i hsubresource
      have hmeets : NavigationKeepsShell server s (.fetch online api request) := by
        cases online with
        | false => trivial
        | true => exact fun hnavigate => (hsubresource hnavigate).elim
      split
      · rename_i hstatic
        exact iff_of_true (h.cacheFirst hstatic) hmeets
      · exact iff_of_true h hmeets

end Fetch

theorem ShellSound.step_iff {server : WebServer} {s t : Pwa} {event : PwaEvent}
    (h : ShellSound s.caches) (hstep : pwaStep server s event = some t) :
    NavigationKeepsShell server s event ↔ ShellSound t.caches := by
  cases event with
  | deploy d =>
      cases hstep
      exact iff_of_true trivial h
  | install network =>
      cases hstep
      exact iff_of_true trivial (h.precache network)
  | activate =>
      cases hstep
      exact iff_of_true trivial h.activate
  | fetch online api request =>
      cases hstep
      exact h.onFetch_iff.symm

/-- The shell stays the shell in every state of a run exactly when every
navigation of the run keeps it. -/
theorem shell_sound_iff (server : WebServer) (d : Deployment) (events : List PwaEvent) :
    Along (pwaStep server) (NavigationKeepsShell server) (.start d) events ↔
      ∀ pre post s, events = pre ++ post → exec (pwaStep server) (.start d) pre = some s →
        ShellSound s.caches := by
  have hstart : ShellSound (Pwa.start d).caches := by
    constructor
    · intro r hr
      cases hr
    · intro url r hr
      cases hr
  refine along_iff_invariant (I := fun s : Pwa => ShellSound s.caches) (pwaStep_total server) ?_
    hstart events
  intro s event t hs hstep
  exact hs.step_iff hstep

def hallBuild (manifest : String) : Deployment where
  files := [("/index.html", "<script src=\"/assets/app.js\"></script>"),
    ("/service-worker.js", "importScripts"), ("/offline.html", "<p>Offline</p>"),
    ("/manifest.webmanifest", manifest), ("/icon.svg", "<svg/>"),
    ("/pwa-install.js", "install"), ("/pwa-install.css", "p"), ("/assets/app.js", "render")]
  index := "<script src=\"/assets/app.js\"></script>"
  workerScript := "importScripts"
  hasIndex := rfl
  hasWorkerScript := rfl

/-- For paths of plain names: no percent signs, dot segments or doubled slashes. -/
def plainFind (names : List String) (path : String) : Found :=
  if endsWith "/" path then
    if path ++ "index.html" ∈ names then .file (path ++ "index.html") else .nothing
  else if path ∈ names then .file path
  else if names.any (startsWith (path ++ "/")) then .directory (path ++ "/")
  else .nothing

def plainServer : WebServer where
  find := plainFind
  find_root names h := by
    have hroot : endsWith "/" "/" = true := by decide
    have hname : "/" ++ "index.html" = "/index.html" := by decide
    simp [plainFind, hroot, hname, h]
  find_listed names path name h := by
    simp only [plainFind] at h
    split at h
    · split at h <;> cases h
      assumption
    · split at h
      · cases h
        assumption
      · split at h <;> cases h
  find_directory names path location h _ := by
    simp only [plainFind] at h
    split at h
    · split at h <;> cases h
    · split at h
      · cases h
      · split at h <;> cases h
        rfl
  find_slash names path location h := by
    have hslash : endsWith "/" (path ++ "/") = true := by
      simp [endsWith, List.isSuffixOf_iff_suffix]
    simp only [plainFind, hslash, if_true] at h
    split at h <;> cases h

/-- After an installation, opening `/api` in the address bar stores what the API
answers as the shell. -/
theorem shell_not_sound :
    ¬ ∀ (server : WebServer) (d : Deployment) (events : List PwaEvent) (s : Pwa),
      exec (pwaStep server) (.start d) events = some s → ShellSound s.caches := by
  intro hsound
  have hshell := (hsound plainServer (hallBuild "") [.install ⟨true, true, fun _ => true⟩,
    .activate, .fetch true ⟨200, none, "OK"⟩ ⟨⟨"/api", ""⟩, true⟩] _ rfl).shell
  have hstored := hshell ⟨.api, 200, none, "OK"⟩ rfl
  cases hstored

end Eventify
