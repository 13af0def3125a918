/-
**The sessions of a server as the application of a registry.**

Whatever the registry does, each of its sessions goes on by paths from `resting` to `resting`; so what holds of a new
session and is kept along such paths holds of every session of a server.

* `SessionState`, `SharedState` — what belongs to one connection, and what all of them share.
* `httpApplication` — **the callbacks of `HttpMessageHandler`, over a registry**; `serverRun` — what a server does.
* `serverRun_all` — what holds of every session.
-/

import HpServer.App.SessionSteps
import HpServer.Net.RegistryRuns

namespace HpServer.App

open Base Business Http Metrics Net Programs

structure SessionState where
  session : Session := {}
  created : Bool := false
  log : List SessionEvent := []

structure SharedState where
  metrics : ServerMetrics := {}
  backend : TaskBackend
  executions : List Execution := []
  interference : List (List WorkerAction) := []

def httpApplication (config : HttpConfig) : Application HttpState SessionState SharedState where
  join own shared :=
    { session := own.session
      created := own.created
      metrics := shared.metrics
      backend := shared.backend
      executions := shared.executions
      interference := shared.interference
      log := own.log }
  ofConnection app := { session := app.session, created := app.created, log := app.log }
  ofAll app :=
    { metrics := app.metrics
      backend := app.backend
      executions := app.executions
      interference := app.interference }
  fresh := {}
  callbacks := callbacks config
  onContinuation := onTaskContinuation
  destroy := destroySession
  onMessage_uses := (handleMessage_runs config).uses
  onWriteComplete_uses := (onWriteComplete_runs config).uses
  onContinuation_uses generation := (onTaskContinuation_runs config generation).uses
  destroy_uses := (destroySession_runs config).uses

/-- What a session has of its own. -/
def HttpState.own (s : HttpState) : SessionState := { session := s.session, created := s.created, log := s.log }

/-- The registry of a server after some steps, each with the callbacks the server has then. -/
def serverRun (r : Registry SessionState SharedState) (steps : List (HttpConfig × RegistryAction HttpState SharedState)) :
    Registry SessionState SharedState :=
  steps.foldl (fun r step => r.act (httpApplication step.1) step.2) r

/-- **What holds of a new session and is kept by its callbacks holds of every session of a server.** -/
theorem serverRun_all {P : SessionState → Prop} (good : HttpConfig → Prop) (fresh : P {})
    (kept : ∀ {config s t}, good config → Path config (.resting, s) (.resting, t) → P s.own → P t.own)
    (steps : List (HttpConfig × RegistryAction HttpState SharedState)) :
    ∀ {r : Registry SessionState SharedState}, (∀ step ∈ steps, good step.1 ∧ step.2.Own) → r.All P →
      (serverRun r steps).All P := by
  induction steps with
  | nil => exact fun _ all => all
  | cons step steps ih =>
    intro r each all
    obtain ⟨fine, own⟩ := each step List.mem_cons_self
    refine ih (fun other member => each other (List.mem_cons_of_mem _ member)) ?_
    have moves : ∀ {x : HttpRun Unit}, Runs step.1 .resting x (fun _ => .resting) .resting →
        Moves (fun c t => P ((httpApplication step.1).ofConnection c.app) → P ((httpApplication step.1).ofConnection t.app))
          x := fun runs c =>
      wp_mono (runs.path c) (fun _ _ path => kept fine path) fun _ _ path => kept fine path
    exact all.act (fun _ _ => rfl) fresh (moves (handleMessage_runs step.1)) (moves (onWriteComplete_runs step.1))
      (fun generation => moves (onTaskContinuation_runs step.1 generation)) own

end HpServer.App
