import Eventify.Library.Caches
import Eventify.Library.Machine
import Eventify.Web.Server
import Mathlib.Data.List.Dedup

/-!
# The service worker

`service-worker.js` in front of the web server: the caches by name, in the
order of their creation, and the events of the worker between deployments.
-/

namespace Eventify

open Library

structure Url where
  pathname : String
  search : String
  deriving DecidableEq, Repr

/-- A same-origin GET request. -/
structure WebRequest where
  url : Url
  navigate : Bool
  deriving DecidableEq, Repr

/-- The network follows the redirect of a directory, except in a navigation. -/
def WebServer.fetch (server : WebServer) (d : Deployment) (api : ApiAnswer)
    (request : WebRequest) : WebResponse :=
  match server.redirect d request.url.pathname with
  | some location =>
      if request.navigate then server.get d api request.url.pathname
      else server.get d api location
  | none => server.get d api request.url.pathname

/-- What a build answers for a URL that the worker itself asks for, which is
never one of the API. -/
def WebServer.answer (server : WebServer) (d : Deployment) (url : Url) : WebResponse :=
  server.fetch d ⟨502, none, ""⟩ ⟨url, false⟩

theorem answer_root (server : WebServer) (d : Deployment) :
    server.answer d ⟨"/", ""⟩ = d.indexPage := by
  simp only [WebServer.answer, WebServer.fetch, redirect_root]
  exact get_root

/-- `caches`; the URLs are those of GET requests. -/
abbrev CacheStorage := Caches Url WebResponse

def shellCacheName : String := "eventify-shell-v1"

def staticCacheName : String := "eventify-static-v1"

/-! ### The worker -/

def shellUrls : List String :=
  ["/offline.html", "/manifest.webmanifest", "/icon.svg", "/pwa-install.js", "/pwa-install.css"]

/-- A match of `(?:src|href)="(\/assets\/[^\"]+)"` at this place, and the text
behind it. -/
def matchAssetUrl (text : List Char) : Option (String × List Char) :=
  let value := (List.isPrefixOf? "src=\"/assets/".toList text).or
    (List.isPrefixOf? "href=\"/assets/".toList text)
  value.bind fun value =>
    let name := value.takeWhile (· ≠ '"')
    if name = [] then none
    else
      match value.dropWhile (· ≠ '"') with
      | [] => none
      | _ :: rest => some ("/assets/" ++ String.ofList name, rest)

/-- `matchAll` from left to right, over at most so many characters. -/
def matchAssetUrls : ℕ → List Char → List String
  | 0, _ => []
  | _ + 1, [] => []
  | n + 1, c :: text =>
      match matchAssetUrl (c :: text) with
      | some (url, rest) => url :: matchAssetUrls n rest
      | none => matchAssetUrls n text

def assetUrls (html : String) : List String :=
  (matchAssetUrls html.toList.length html.toList).dedup

structure Pwa where
  deployment : Deployment
  caches : CacheStorage

/-- Which of the fetches of an installation get through. -/
structure InstallNetwork where
  page : Bool
  shellUrls : Bool
  asset : String → Bool

/-- An event; what the API answers comes with the requests that may reach it. -/
inductive PwaEvent where
  | deploy (d : Deployment)
  | install (network : InstallNetwork)
  | activate
  | fetch (online : Bool) (api : ApiAnswer) (request : WebRequest)

/-- What a page gets for its request: no response is a network error. -/
structure FetchResult where
  response : Option WebResponse
  contacted : Bool
  caches : CacheStorage

namespace Pwa

variable (server : WebServer) (s : Pwa)

def start (d : Deployment) : Pwa := ⟨d, []⟩

def fetchFile (pathname : String) : WebResponse := server.answer s.deployment ⟨pathname, ""⟩

/-- `cache.addAll` stores all responses or none. -/
def addAll (caches : CacheStorage) (name : String) (urls : List String) : CacheStorage :=
  urls.foldl (fun caches url => caches.put name ⟨url, ""⟩ (s.fetchFile server url)) caches

/-- The fetches of `cache.add` are independent of each other. -/
def addAssets (caches : CacheStorage) (network : InstallNetwork) (urls : List String) :
    CacheStorage :=
  urls.foldl (fun caches url =>
    if network.asset url && (s.fetchFile server url).ok then
      caches.put staticCacheName ⟨url, ""⟩ (s.fetchFile server url)
    else caches) caches

def precacheAppShell (network : InstallNetwork) : CacheStorage :=
  let caches := s.caches.openCache shellCacheName
  let page := s.fetchFile server "/"
  if network.page && page.ok then
    let caches := caches.put shellCacheName ⟨"/", ""⟩ page
    if network.shellUrls && shellUrls.all fun url => (s.fetchFile server url).ok then
      let caches := (s.addAll server caches shellCacheName shellUrls).openCache staticCacheName
      s.addAssets server caches network (assetUrls page.body)
    else caches
  else caches

/-- Caches of other names are deleted. -/
def activate : CacheStorage :=
  s.caches.filter fun cache => cache.1 == shellCacheName || cache.1 == staticCacheName

def networkFirstNavigation (online : Bool) (api : ApiAnswer) (request : WebRequest) :
    FetchResult :=
  let response := server.fetch s.deployment api request
  if online then
    let caches :=
      if response.ok then
        (s.caches.openCache shellCacheName).put shellCacheName ⟨"/", ""⟩ response
      else s.caches
    ⟨some response, true, caches⟩
  else
    ⟨(s.caches.matchKey ⟨"/", ""⟩).or (s.caches.matchKey ⟨"/offline.html", ""⟩), false, s.caches⟩

def cacheFirstStatic (online : Bool) (api : ApiAnswer) (request : WebRequest) : FetchResult :=
  match s.caches.matchKey request.url with
  | some cached => ⟨some cached, false, s.caches⟩
  | none =>
      let response := server.fetch s.deployment api request
      if online then
        let caches :=
          if response.ok then
            (s.caches.openCache staticCacheName).put staticCacheName request.url response
          else s.caches
        ⟨some response, true, caches⟩
      else ⟨none, false, s.caches⟩

/-- A request that the worker leaves to the browser. -/
def passThrough (online : Bool) (api : ApiAnswer) (request : WebRequest) : FetchResult :=
  ⟨if online then some (server.fetch s.deployment api request) else none, online, s.caches⟩

end Pwa

def isStaticPath (pathname : String) : Bool :=
  startsWith "/assets/" pathname ||
    ["/icon.svg", "/manifest.webmanifest", "/offline.html", "/pwa-install.js",
      "/pwa-install.css"].contains pathname

/-- The `fetch` handler. -/
def Pwa.onFetch (server : WebServer) (s : Pwa) (online : Bool) (api : ApiAnswer)
    (request : WebRequest) : FetchResult :=
  if startsWith "/api/" request.url.pathname then s.passThrough server online api request
  else if request.navigate then s.networkFirstNavigation server online api request
  else if isStaticPath request.url.pathname then s.cacheFirstStatic server online api request
  else s.passThrough server online api request

def pwaStep (server : WebServer) (s : Pwa) : PwaEvent → Option Pwa
  | .deploy d => some { s with deployment := d }
  | .install network => some { s with caches := s.precacheAppShell server network }
  | .activate => some { s with caches := s.activate }
  | .fetch online api request =>
      some { s with caches := (s.onFetch server online api request).caches }

theorem pwaStep_total (server : WebServer) (s : Pwa) (event : PwaEvent) :
    ∃ t, pwaStep server s event = some t := by
  cases event with
  | deploy | install | activate | fetch => exact ⟨_, rfl⟩

end Eventify
