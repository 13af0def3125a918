/-
**The management server's start and stop.**

A section under `mutex_` is one step; the steps interleave freely. The `TcpServer` is the environment.
-/

import HpServer.Library.Machine

namespace HpServer.App

open Machines

/-- Where `runManagement` is. -/
inductive ManagementThread where
  | absent | constructing | published | serving | leaving (thrown : Bool) | unwinding (thrown : Bool) | failing
  | finished

inductive StartError where
  | thread | timeout | failure | stopped

/-- The one call of `start` that gets past `attempted_`. -/
inductive Starter where
  | idle | waiting | recording (error : StartError) | joining (error : StartError)
  | done (result : Except StartError Nat)

/-- `control`: `server_` is set; `alive`: its object exists; `stopping`: it was told to stop. -/
structure ManagementServer where
  (stopRequested startupComplete startupSucceeded failure control alive stopping : Bool := false)
  boundPort : Nat := 0
  thread : ManagementThread := .absent
  starter : Starter := .idle

inductive ManagementAction where
  | start (created : Bool) | wake | timeout | record | join | requestStop | construct (made : Bool)
  | onStarted (port : Nat) | leave (thrown : Bool) | clearControl | destroy | recordFailure

namespace ManagementServer

def requestStop (s : ManagementServer) : ManagementServer :=
  { s with stopRequested := true, stopping := s.stopping || s.control }

def recordFailure (s : ManagementServer) : ManagementServer := { s with failure := true, startupComplete := true }

def woken (s : ManagementServer) : Starter :=
  if s.startupSucceeded then .done (.ok s.boundPort) else .joining (if s.failure then .failure else .stopped)

def step (s : ManagementServer) (a : ManagementAction) : ManagementServer :=
  match a, s.starter, s.thread with
  | .start true, .idle, _ => { s with thread := .constructing, starter := .waiting }
  | .start false, .idle, _ => { s with starter := .recording .thread }
  | .wake, .waiting, _ => if s.startupComplete then { s with starter := s.woken } else s
  | .timeout, .waiting, _ =>
    if s.startupComplete then s else { s.requestStop with starter := .recording .timeout }
  | .record, .recording error, _ => { s.recordFailure with starter := .joining error }
  | .join, .joining error, .finished | .join, .joining error, .absent => { s with starter := .done (.error error) }
  | .requestStop, _, _ => s.requestStop
  | .construct false, _, .constructing => { s with thread := .failing }
  | .construct true, _, .constructing =>
    { s with thread := .published, control := true, alive := true, stopping := s.stopRequested }
  | .onStarted port, _, .published =>
    if s.stopRequested then { s with stopping := true, thread := .serving }
    else { s with boundPort := port, startupSucceeded := true, startupComplete := true, thread := .serving }
  | .leave thrown, _, .published | .leave thrown, _, .serving =>
    { s with startupComplete := s.startupComplete || !thrown, thread := .leaving thrown }
  | .clearControl, _, .leaving thrown => { s with control := false, thread := .unwinding thrown }
  | .destroy, _, .unwinding thrown => { s with alive := false, thread := if thrown then .failing else .finished }
  | .recordFailure, _, .failing => { s.recordFailure with thread := .finished }
  | _, _, _ => s

def management : Machine ManagementServer ManagementAction Empty where
  step s a := (s.step a, [])

structure Managed (s : ManagementServer) : Prop where
  live : s.control → s.alive ∧ ∀ thrown, s.thread ≠ .unwinding thrown
  heard : s.stopRequested → s.control → s.stopping
  ended : s.thread = .leaving false ∨ s.thread = .unwinding false ∨ s.thread = .finished → s.startupComplete
  success : ∀ port, s.starter = .done (.ok port) → s.startupSucceeded

theorem Managed.step {s : ManagementServer} (managed : Managed s) (a : ManagementAction) : Managed (s.step a) := by
  unfold ManagementServer.step requestStop recordFailure woken
  split <;> try exact managed
  -- a row that changes something
  all_goals
    obtain ⟨live, heard, ended, success⟩ := managed
    constructor <;> first | assumption | grind

theorem stopped_step {s : ManagementServer} (stopped : s.stopRequested ∧ ¬ s.startupSucceeded)
    (a : ManagementAction) : (s.step a).stopRequested ∧ ¬ (s.step a).startupSucceeded := by
  unfold step requestStop recordFailure
  split <;> first | exact stopped | grind

/-- **No stop is lost, no destroyed server is called, no `start` waits for a finished thread, and a stop before
the report leaves it without a port.** -/
theorem management_protocol (actions : List ManagementAction) :
    let s := (management.run {} actions).1
    (s.control → s.alive ∧ (s.stopRequested → s.stopping)) ∧ (s.thread = .finished → s.startupComplete)
      ∧ (s.stopRequested → ¬ s.startupSucceeded → ∀ later port,
        (management.run s later).1.starter ≠ .done (.ok port)) := by
  intro s
  have keeps t a (holds : Managed t) : Managed (management.step t a).1 := holds.step a
  have managed := Machine.run_invariant keeps actions (s := {}) (by constructor <;> simp)
  refine ⟨fun control => ⟨(managed.live control).1, fun stop => managed.heard stop control⟩,
    fun finished => managed.ended (.inr (.inr finished)), fun stop fresh later port done => ?_⟩
  have stopped := Machine.run_invariant (m := management) (P := fun t => t.stopRequested ∧ ¬ t.startupSucceeded)
    (fun _ a holds => stopped_step holds a) later ⟨stop, fresh⟩
  exact stopped.2 ((Machine.run_invariant keeps later managed).success port done)

end ManagementServer

end HpServer.App
