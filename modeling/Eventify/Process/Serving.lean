import Eventify.Process.Polling

/-!
# The stop of the API process

`shutdown` of the server with the connections it drains. A server that closes
accepts no connection and drops the idle ones; its callback comes when the last
one has ended, and a connection that is left may bring requests until then.
-/

namespace Eventify

open Library

/-- `server.close` fails where the server does not listen yet. -/
inductive ListenState where
  | opening
  | listening
  | closed
  deriving DecidableEq, Repr

/-- A fresh connection has sent no request yet, an idle one waits for a further
one, on a pending one a request is under way. -/
inductive Connection where
  | fresh
  | idle
  | pending
  deriving DecidableEq, Repr

structure HttpServer where
  state : ListenState
  connections : List Connection
  deriving DecidableEq, Repr

inductive ServeAction where
  | listens
  | connects
  | requests (i : ℕ)
  | responds (i : ℕ)
  | ends (i : ℕ)

def serveStep (_now : ℤ) (server : HttpServer) : ServeAction → Option HttpServer
  | .listens =>
      match server.state with
      | .opening => some { server with state := .listening }
      | _ => none
  | .connects =>
      match server.state with
      | .listening => some { server with connections := server.connections ++ [.fresh] }
      | _ => none
  | .requests i =>
      match server.connections[i]? with
      | some .fresh | some .idle =>
          some { server with connections := server.connections.set i .pending }
      | _ => none
  | .responds i =>
      match server.connections[i]? with
      | some .pending => some { server with connections := server.connections.set i .idle }
      | _ => none
  | .ends i =>
      match server.connections[i]? with
      | some _ => some { server with connections := server.connections.eraseIdx i }
      | none => none

/-- `server.close` and `server.closeIdleConnections`, which spare a connection on
which a first request may still come. -/
def HttpServer.takeDown (server : HttpServer) : HttpServer :=
  match server.state with
  | .listening => ⟨.closed, server.connections.filter (· ≠ .idle)⟩
  | _ => server

def HttpServer.drained (server : HttpServer) : Bool :=
  server.state == .closed && server.connections.isEmpty

def StopTrigger.exitCode : StopTrigger → ℕ
  | .sigterm | .sigint => 0
  | .unhandledRejection | .uncaughtException => 1

/-- The callback of `server.close`, and the connections to Redis and the database. -/
def serverPlan (shutdownGraceMs : ℤ) : StopPlan StopTrigger HttpServer where
  graceMs := shutdownGraceMs
  parts := [⟨.exitsWith 1, HttpServer.drained⟩, ⟨.passedOver, fun _ => true⟩]
  exitCode := StopTrigger.exitCode

abbrev ServerProcess := Stoppable StopTrigger HttpServer

abbrev ServerAction := StopAction StopTrigger ServeAction

def serverStep (shutdownGraceMs : ℤ) : ServerProcess → ServerAction → Option ServerProcess :=
  stopStep (serverPlan shutdownGraceMs) serveStep (fun _ => true) HttpServer.takeDown

def ServerProcess.start (now : ℤ) : ServerProcess := ⟨now, .running, ⟨.opening, []⟩⟩

section Drain

variable {shutdownGraceMs : ℤ} {s s' : ServerProcess} {a : ServerAction}
variable {acts : List ServerAction} {server : HttpServer} {now : ℤ}

theorem HttpServer.drained_iff : server.drained ↔ server = ⟨.closed, []⟩ := by
  cases server
  simp [HttpServer.drained]

/-- Nothing comes to a server that has drained. -/
theorem serveStep_drained (h : server.drained) (b : ServeAction) :
    serveStep now server b = none := by
  obtain rfl := HttpServer.drained_iff.mp h
  cases b <;> rfl

theorem HttpServer.drained_takeDown (h : server.drained) : server.takeDown.drained := by
  obtain rfl := HttpServer.drained_iff.mp h
  rfl

/-- What holds after a run: the parts have closed as they settled, and a server
that has closed without an error has drained. -/
structure Draining (shutdownGraceMs : ℤ) (acts : List ServerAction) (s : ServerProcess) :
    Prop where
  closed : s.stop.Closed (serverPlan shutdownGraceMs) (settles acts)
  drained : (settles acts).head? = some true → s.rest.drained

/-- The first part that settles is the callback of `server.close`. -/
theorem Draining.drained_of_settle (hs : Draining shutdownGraceMs acts s)
    (hfirst : settles acts = []) (h : serverStep shutdownGraceMs s (.settle true) = some s') :
    s.rest.drained := by
  cases stopStep_moves h with
  | kept _ _ _ hsettle => exact absurd rfl (hsettle true)
  | @settled ok t since part left code hclosing hready =>
      have hclosed := hs.closed
      rw [hclosing, hfirst] at hclosed
      obtain ⟨done, hparts, hcode⟩ := hclosed
      cases done with
      | nil =>
          obtain ⟨rfl, -⟩ := List.cons.inj hparts
          exact hready rfl
      | cons => cases hcode

theorem Draining.step (hs : Draining shutdownGraceMs acts s)
    (h : serverStep shutdownGraceMs s a = some s') :
    Draining shutdownGraceMs (acts ++ [a]) s' := by
  have hclosed := (stopStep_moves h).closed hs.closed
  rw [← settles_append] at hclosed
  refine ⟨hclosed, fun hhead => ?_⟩
  have hold : s.rest.drained := by
    cases hsettles : settles acts with
    | cons ok oks =>
        refine hs.drained ?_
        rw [settles_append, hsettles] at hhead
        rw [hsettles]
        exact hhead
    | nil =>
        rw [settles_append, hsettles] at hhead
        cases a with
        | settle ok =>
            obtain rfl := Option.some.inj hhead
            exact hs.drained_of_settle hsettles h
        | wait | work | trigger | force => cases hhead
  cases stopStep_rest h with
  | worked _ hwork =>
      rw [serveStep_drained hold] at hwork
      cases hwork
  | takenDown => exact HttpServer.drained_takeDown hold
  | unmoved hrest => exact hrest ▸ hold

theorem draining_run {start : ServerProcess} (hstart : start.stop = .running)
    (hrun : exec (serverStep shutdownGraceMs) start acts = some s) :
    Draining shutdownGraceMs acts s := by
  refine exec_trace (I := Draining shutdownGraceMs) ⟨?_, nofun⟩ ?_ hrun
  · rw [hstart]
    rfl
  · exact fun _ _ _ _ _ hu hstep => hu.step hstep

theorem closingCode_server {oks : List Bool} {first code : ℕ}
    (h : closingCode (serverPlan shutdownGraceMs).parts oks first = some code) :
    ∃ closed quit, oks = [closed, quit] ∧ code = if closed then first else 1 := by
  obtain ⟨closed, afterClose, rfl, hclose⟩ := exists_of_closingCode_exitsWith h
  obtain ⟨quit, afterQuit, rfl, hquit⟩ := exists_of_closingCode_passedOver hclose
  obtain ⟨rfl, rfl⟩ := eq_of_closingCode_nil hquit
  exact ⟨closed, quit, rfl, rfl⟩

theorem server_exited {now : ℤ} {t : StopTrigger} {since at_ : ℤ} {code : ℕ}
    (hrun : exec (serverStep shutdownGraceMs) (ServerProcess.start now) acts = some s)
    (hexit : s.stop = .exited t since at_ code) :
    FirstTrigger (serverStep shutdownGraceMs) (ServerProcess.start now) acts t since ∧
      ((∃ quit, settles acts = [true, quit]) ∧ code = t.exitCode ∧ s.rest = ⟨.closed, []⟩ ∨
        (∃ quit, settles acts = [false, quit]) ∧ code = 1 ∨
        code = 1 ∧ since + shutdownGraceMs ≤ at_) := by
  obtain ⟨hfirst, hforced | hclosed⟩ := exec_exited rfl hrun hexit
  · exact ⟨hfirst, .inr (.inr hforced)⟩
  · obtain ⟨closed, quit, hsettles, rfl⟩ := closingCode_server hclosed
    cases closed with
    | false => exact ⟨hfirst, .inr (.inl ⟨⟨quit, hsettles⟩, rfl⟩)⟩
    | true =>
        have hdrained := (draining_run rfl hrun).drained (by rw [hsettles]; rfl)
        exact ⟨hfirst, .inl ⟨⟨quit, hsettles⟩, rfl, HttpServer.drained_iff.mp hdrained⟩⟩

/-- The API process goes by its first trigger. It exits with the code of that
trigger only after the server has closed with no connection left, whatever
becomes of Redis and the database; with `1` where `server.close` fails, or
when the grace period is over and not before. Where its timer is on time it
does not outlive the grace period. -/
theorem server_drains {shutdownGraceMs : ℤ} (hgrace : 0 ≤ shutdownGraceMs) (now : ℤ)
    {acts : List ServerAction} {s : ServerProcess}
    (hrun : exec (serverStep shutdownGraceMs) (ServerProcess.start now) acts = some s) :
    (∀ t since at_ code, s.stop = .exited t since at_ code →
      FirstTrigger (serverStep shutdownGraceMs) (ServerProcess.start now) acts t since ∧
        ((∃ quit, settles acts = [true, quit]) ∧ code = t.exitCode ∧ s.rest = ⟨.closed, []⟩ ∨
          (∃ quit, settles acts = [false, quit]) ∧ code = 1 ∨
          code = 1 ∧ since + shutdownGraceMs ≤ at_)) ∧
      (Along (serverStep shutdownGraceMs) (OnTime (serverPlan shutdownGraceMs))
        (ServerProcess.start now) acts → s.stop.Prompt (serverPlan shutdownGraceMs) s.now) :=
  ⟨fun _ _ _ _ hexit => server_exited hrun hexit,
    fun hontime => exec_prompt hgrace rfl hontime hrun⟩

/-- A signal while one connection is idle, one has a request and one is fresh: the
idle one is dropped, the others are served. A rejection comes while the server drains. -/
def drainingRun : List ServerAction :=
  [.work .listens, .work .connects, .work .connects, .work .connects, .work (.requests 0),
    .work (.responds 0), .work (.requests 1), .trigger .sigterm, .wait 300,
    .trigger .unhandledRejection, .work (.responds 0), .work (.ends 0), .work (.requests 0),
    .wait 40, .work (.responds 0), .work (.ends 0), .settle true, .settle false]

theorem server_drains_request : ∃ s,
    exec (serverStep 10000) (ServerProcess.start 0) drainingRun = some s ∧
    s.stop = .exited .sigterm 0 340 0 ∧ s.stop.Prompt (serverPlan 10000) s.now := by
  obtain ⟨s, hrun, hexit⟩ : ∃ s,
      exec (serverStep 10000) (ServerProcess.start 0) drainingRun = some s ∧
      s.stop = .exited .sigterm 0 340 0 := ⟨_, rfl, rfl⟩
  exact ⟨s, hrun, hexit, (server_drains (by decide) 0 hrun).2 (by decide)⟩

end Drain

end Eventify
