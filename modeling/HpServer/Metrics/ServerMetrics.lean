/-
**`metrics/ServerMetrics`: counters that saturate.**

Every counter is an atomic `uint64_t` that stops at its maximum. `finishRequest` counts one request in one
outcome, in one status bucket, in `latency_count` and, if it failed, in `errors`.
-/

import Mathlib.Algebra.BigOperators.Group.Finset.Basic
import Mathlib.Algebra.BigOperators.Fin
import Mathlib.Tactic

namespace HpServer.Metrics

/-- The largest `uint64_t`. -/
def counterMax : Nat := 2 ^ 64 - 1

def addSaturated (counter value : Nat) : Nat :=
  if counterMax - counter < value then counterMax else counter + value

def kStatusCodes : Fin 16 → Nat :=
  ![0, 200, 400, 403, 404, 405, 500, 413, 417, 501, 206, 304, 416, 201, 415, 503]

structure ServerMetrics where
  requestsStarted : Nat := 0
  responsesCompleted : Nat := 0
  requestsAborted : Nat := 0
  responseStatus : Fin 16 → Nat := fun _ => 0
  errors : Nat := 0
  parseErrors : Nat := 0
  providerErrors : Nat := 0
  latencyCount : Nat := 0
  latencySumUs : Nat := 0
  latencyMaxUs : Nat := 0
  connectionsTotal : Nat := 0
  connectionsActive : Nat := 0

/-- The loop over `kStatusCodes` from index 1; the last match counts. -/
def bucketOf (status : Nat) : Fin 16 :=
  (List.finRange 16).foldl (fun bucket i => if 1 ≤ i.val ∧ status = kStatusCodes i then i else bucket) 0

namespace ServerMetrics

variable (m : ServerMetrics)

def beginRequest : ServerMetrics := { m with requestsStarted := addSaturated m.requestsStarted 1 }

def finishRequest (aborted : Bool) (status durationUs : Nat) : ServerMetrics :=
  { m with
    requestsAborted := if aborted then addSaturated m.requestsAborted 1 else m.requestsAborted
    responsesCompleted :=
      if aborted then m.responsesCompleted else addSaturated m.responsesCompleted 1
    responseStatus :=
      Function.update m.responseStatus (bucketOf status)
        (addSaturated (m.responseStatus (bucketOf status)) 1)
    errors := if aborted || 400 ≤ status then addSaturated m.errors 1 else m.errors
    latencyCount := addSaturated m.latencyCount 1
    latencySumUs := addSaturated m.latencySumUs durationUs
    latencyMaxUs := max m.latencyMaxUs durationUs }

def recordParseError : ServerMetrics := { m with parseErrors := addSaturated m.parseErrors 1 }

def recordProviderError : ServerMetrics := { m with providerErrors := addSaturated m.providerErrors 1 }

def registerConnection : ServerMetrics :=
  { m with
    connectionsTotal := addSaturated m.connectionsTotal 1
    connectionsActive := addSaturated m.connectionsActive 1 }

def removeConnection : ServerMetrics := { m with connectionsActive := m.connectionsActive - 1 }

end ServerMetrics

end HpServer.Metrics
