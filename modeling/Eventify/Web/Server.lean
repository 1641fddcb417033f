import Mathlib.Data.List.Infix

/-!
# The web server

How `server.mjs` answers a GET request: the proxy under `/api`, the script of
the service worker, the files of the build, and `index.html` for every other
path. Which file a path names is up to `express.static`. A response keeps where
it comes from.
-/

namespace Eventify

def startsWith (start text : String) : Bool := start.toList.isPrefixOf text.toList

def endsWith (ending text : String) : Bool := ending.toList.isSuffixOf text.toList

def includes (part text : String) : Bool := decide (part.toList <:+: text.toList)

/-- The proxied API, a file of the build, or Express itself. -/
inductive Source where
  | api
  | dist (file : String)
  | express
  deriving DecidableEq, Repr

structure WebResponse where
  source : Source
  status : ℕ
  cacheControl : Option String
  body : String
  deriving DecidableEq, Repr

def WebResponse.ok (response : WebResponse) : Bool :=
  decide (200 ≤ response.status) && decide (response.status < 300)

/-- What comes back through the proxy. -/
structure ApiAnswer where
  status : ℕ
  cacheControl : Option String
  body : String
  deriving DecidableEq, Repr

/-- The files under `dist`, by their paths there. -/
structure Deployment where
  files : List (String × String)
  index : String
  workerScript : String
  hasIndex : files.lookup "/index.html" = some index
  hasWorkerScript : files.lookup "/service-worker.js" = some workerScript

def Deployment.names (d : Deployment) : List String := d.files.map Prod.fst

/-- What `express.static` makes of a request path. A path whose percent-encoding
is malformed is refused by the router behind it. -/
inductive Found where
  | file (name : String)
  | directory (location : String)
  | malformed
  | nothing
  deriving DecidableEq, Repr

/-- `express.static` by the names of a build's files, with what its documentation
says: the root is `index.html`, only files of the build are served, and a path
that names a directory is redirected to the path with a slash, once. -/
structure WebServer where
  find : List String → String → Found
  find_root : ∀ names, "/index.html" ∈ names → find names "/" = .file "/index.html"
  find_listed : ∀ names path name, find names path = .file name → name ∈ names
  find_directory : ∀ names path location, find names path = .directory location →
    startsWith "//" path = false → location = path ++ "/"
  find_slash : ∀ names path location, find names (path ++ "/") ≠ .directory location

/-- `setHeaders` of the static files. -/
def setHeaders (filePath : String) : String :=
  if includes "/assets/" filePath then "public, max-age=31536000, immutable"
  else if endsWith ".html" filePath || endsWith ".webmanifest" filePath ||
      endsWith "pwa-install.js" filePath then "no-cache"
  else "public, max-age=3600"

namespace Deployment

variable (d : Deployment)

def text (name : String) : String := (d.files.lookup name).getD ""

def indexPage : WebResponse := ⟨.dist "/index.html", 200, some "no-cache", d.index⟩

def workerPage : WebResponse :=
  ⟨.dist "/service-worker.js", 200, some "no-cache, no-store, must-revalidate", d.workerScript⟩

/-- `express.static`, and behind it the route of all paths. -/
def serve : Found → WebResponse
  | .file name => ⟨.dist name, 200, some (setHeaders name), d.text name⟩
  | .directory location => ⟨.express, 301, none, "Redirecting to " ++ location⟩
  | .malformed => ⟨.express, 400, none, "Bad Request"⟩
  | .nothing => d.indexPage

end Deployment

def lowerCase (path : String) : String := String.ofList (path.toList.map Char.toLower)

/-- `app.use` matches the bare path too, and ignores letter case. -/
def isApiPath (path : String) : Bool :=
  lowerCase path == "/api" || startsWith "/api/" (lowerCase path)

/-- `app.get` ignores letter case and a slash at the end. -/
def isWorkerPath (path : String) : Bool :=
  lowerCase path == "/service-worker.js" || lowerCase path == "/service-worker.js/"

namespace WebServer

variable (server : WebServer)

def get (d : Deployment) (api : ApiAnswer) (path : String) : WebResponse :=
  if isApiPath path then ⟨.api, api.status, api.cacheControl, api.body⟩
  else if isWorkerPath path then d.workerPage
  else d.serve (server.find d.names path)

/-- The `Location` of the answer. -/
def redirect (d : Deployment) (path : String) : Option String :=
  if isApiPath path || isWorkerPath path then none
  else
    match server.find d.names path with
    | .directory location => some location
    | _ => none

end WebServer

section Answers

variable {server : WebServer} {d : Deployment} {api : ApiAnswer} {path : String}

theorem mem_names {name body : String} (h : d.files.lookup name = some body) : name ∈ d.names := by
  rw [Deployment.names, List.mem_map]
  obtain ⟨front, back, hsplit, -⟩ := List.lookup_eq_some_iff.mp h
  exact ⟨(name, body), by rw [hsplit]; simp, rfl⟩

theorem serve_source (found : Found) : (d.serve found).source ≠ .api := by
  cases found with
  | file | directory | malformed | nothing => simp [Deployment.serve, Deployment.indexPage]

theorem get_source_api (h : (server.get d api path).source = .api) : isApiPath path = true := by
  by_contra hpath
  rw [WebServer.get, if_neg hpath] at h
  split at h
  · cases h
  · exact serve_source _ h

/-- The root is answered with `index.html`. -/
theorem get_root : server.get d api "/" = d.indexPage := by
  have hheader : setHeaders "/index.html" = "no-cache" := by decide
  have hapi : isApiPath "/" = false := by decide
  have hworker : isWorkerPath "/" = false := by decide
  simp [WebServer.get, hapi, hworker, server.find_root _ (mem_names d.hasIndex), Deployment.serve,
    Deployment.text, d.hasIndex, hheader, Deployment.indexPage]

theorem redirect_root : server.redirect d "/" = none := by
  simp [WebServer.redirect, server.find_root _ (mem_names d.hasIndex)]

end Answers

end Eventify
