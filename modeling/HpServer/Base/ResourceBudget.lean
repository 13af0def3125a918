/-
**`base/ResourceBudget`: the ledger of connections, input bytes and output bytes.**

The mutex makes every operation one step on the ledger. Amounts are `size_t`, so all arithmetic is that of
machine words and is recorded (`Sized`). A lease has its three amounts and is attached to the ledger or
not; a moved-from or reset lease is neither.

* `tryAcquire` — admission of three amounts at once, with the peak and the rejection counters.
* `reset`, `releaseOutput`, `absorb`, moving — what leases do to the ledger and to each other.
* `ledger` — the machine of any number of leases on one ledger.
* `tryAcquire_spec` — **an acquisition is rejected for the first resource that does not fit, and then
  only that rejection counter moves**.
* `ledger_exact` — **what is current is what the live leases hold, no operation wraps, and the peak is the
  largest amount there ever was.**
-/

import HpServer.Library.Machine
import HpServer.Library.Table
import HpServer.Library.Words
import Mathlib.Order.Bounds.Basic

namespace HpServer.Base

open Machines Tables Words

def kTransportInputBytes : Nat := 16 * 1024
def kRequestInputBytes : Nat := 1040 * 1024

/-- The three resources, in the order of admission. -/
inductive Resource where
  | connections | inputBytes | outputBytes
  deriving DecidableEq, Repr

structure ResourceLimits where
  connections : Nat := 128
  inputBytes : Nat := 64 * 1024 * 1024
  outputBytes : Nat := 64 * 1024 * 1024
  deriving DecidableEq, Repr

structure ResourceUsage where
  current : Nat := 0
  peak : Nat := 0
  rejected : Nat := 0
  deriving DecidableEq, Repr

inductive ResourceRejection where
  | none | connections | inputBytes | outputBytes
  deriving DecidableEq, Repr

/-- `attached` is whether `state_` points to the ledger. -/
structure ResourceLease where
  attached : Bool := false
  connections : Nat := 0
  inputBytes : Nat := 0
  outputBytes : Nat := 0
  deriving DecidableEq, Repr

structure ResourceAcquisition where
  rejection : ResourceRejection := .none
  lease : ResourceLease := {}
  deriving DecidableEq, Repr

structure ResourceBudget where
  limits : ResourceLimits := {}
  connections : ResourceUsage := {}
  inputBytes : ResourceUsage := {}
  outputBytes : ResourceUsage := {}
  deriving DecidableEq, Repr

def ResourceLimits.of (limits : ResourceLimits) : Resource → Nat
  | .connections => limits.connections
  | .inputBytes => limits.inputBytes
  | .outputBytes => limits.outputBytes

def ResourceLease.amount (lease : ResourceLease) : Resource → Nat
  | .connections => lease.connections
  | .inputBytes => lease.inputBytes
  | .outputBytes => lease.outputBytes

def ResourceBudget.usage (b : ResourceBudget) : Resource → ResourceUsage
  | .connections => b.connections
  | .inputBytes => b.inputBytes
  | .outputBytes => b.outputBytes

/-! ### The operations -/

namespace ResourceUsage

/-- One more rejection; the counter is a `uint64_t`. -/
def reject (u : ResourceUsage) : ResourceUsage := { u with rejected := (u.rejected + 1) % modulus }

def take (u : ResourceUsage) (amount : Nat) : Sized ResourceUsage := do
  let current ← addSize u.current amount
  pure { u with current := current, peak := max u.peak current }

def drop (u : ResourceUsage) (amount : Nat) : Sized ResourceUsage := do
  let current ← subSize u.current amount
  pure { u with current := current }

end ResourceUsage

namespace ResourceBudget

variable (b : ResourceBudget)

def tryAcquire (connections inputBytes outputBytes : Nat) :
    Sized (ResourceBudget × ResourceAcquisition) := do
  let free ← subSize b.limits.connections b.connections.current
  if free < connections then
    pure ({ b with connections := b.connections.reject }, { rejection := .connections })
  else
    let free ← subSize b.limits.inputBytes b.inputBytes.current
    if free < inputBytes then
      pure ({ b with inputBytes := b.inputBytes.reject }, { rejection := .inputBytes })
    else
      let free ← subSize b.limits.outputBytes b.outputBytes.current
      if free < outputBytes then
        pure ({ b with outputBytes := b.outputBytes.reject }, { rejection := .outputBytes })
      else
        let connectionUsage ← b.connections.take connections
        let inputUsage ← b.inputBytes.take inputBytes
        let outputUsage ← b.outputBytes.take outputBytes
        pure
          ({ b with connections := connectionUsage, inputBytes := inputUsage, outputBytes := outputUsage },
            { lease := ⟨true, connections, inputBytes, outputBytes⟩ })

def tryAcquireConnection : Sized (ResourceBudget × ResourceAcquisition) :=
  b.tryAcquire 1 kTransportInputBytes 0

def tryAcquireInput (bytes : Nat) : Sized (ResourceBudget × ResourceAcquisition) := b.tryAcquire 0 bytes 0

def tryAcquireOutput (bytes : Nat) : Sized (ResourceBudget × ResourceAcquisition) := b.tryAcquire 0 0 bytes

/-- `ResourceLease::reset`: the ledger and the lease afterwards. -/
def reset (lease : ResourceLease) : Sized (ResourceBudget × ResourceLease) :=
  if lease.attached then do
    let connectionUsage ← b.connections.drop lease.connections
    let inputUsage ← b.inputBytes.drop lease.inputBytes
    let outputUsage ← b.outputBytes.drop lease.outputBytes
    pure
      ({ b with connections := connectionUsage, inputBytes := inputUsage, outputBytes := outputUsage }, {})
  else pure (b, lease)

/-- `ResourceLease::releaseOutput`, for at most what the lease holds. -/
def releaseOutput (lease : ResourceLease) (bytes : Nat) : Sized (ResourceBudget × ResourceLease) :=
  if bytes = 0 then pure (b, lease)
  else do
    let left ← subSize lease.outputBytes bytes
    let usage ← b.outputBytes.drop bytes
    pure ({ b with outputBytes := usage }, { lease with outputBytes := left })

end ResourceBudget

/-- `absorb`: both leases afterwards. -/
def ResourceLease.absorb (lease other : ResourceLease) : Sized (ResourceLease × ResourceLease) :=
  if other.attached then do
    let connections ← addSize lease.connections other.connections
    let inputBytes ← addSize lease.inputBytes other.inputBytes
    let outputBytes ← addSize lease.outputBytes other.outputBytes
    pure (⟨true, connections, inputBytes, outputBytes⟩, {})
  else pure (lease, other)

/-! ### Leases on one ledger -/

/-- One ledger and every lease object there has been; `none` once it is destroyed. -/
structure Ledger where
  budget : ResourceBudget
  leases : List (Option ResourceLease) := []

/-- What a thread may do with the leases it owns. A `size_t` argument is a word. -/
inductive LeaseAction where
  | create
  | acquireConnection
  | acquireInput (bytes : UInt64)
  | acquireOutput (bytes : UInt64)
  | moveConstruct (source : Nat)
  | moveAssign (target source : Nat)
  | releaseOutput (lease : Nat) (bytes : Nat)
  | absorb (target source : Nat)
  | reset (lease : Nat)
  | destroy (lease : Nat)

namespace Ledger

variable (l : Ledger)

/-- The lease object at a place, if it is alive. -/
def lease (i : Nat) : Option ResourceLease := (l.leases[i]?).join

def acquire (x : Sized (ResourceBudget × ResourceAcquisition)) : Sized Ledger := do
  let result ← x
  pure { budget := result.1, leases := l.leases ++ [some result.2.lease] }

/-- One operation. An object that is not alive is not operated on; `releaseOutput` of more than is held
and `absorb` of a lease by itself are assertions in the source. -/
def act : LeaseAction → Sized Ledger
  | .create => pure { l with leases := l.leases ++ [some {}] }
  | .acquireConnection => l.acquire l.budget.tryAcquireConnection
  | .acquireInput bytes => l.acquire (l.budget.tryAcquireInput bytes.toNat)
  | .acquireOutput bytes => l.acquire (l.budget.tryAcquireOutput bytes.toNat)
  | .moveConstruct source =>
    match l.lease source with
    | none => pure l
    | some other => pure { l with leases := l.leases.set source (some {}) ++ [some other] }
  | .moveAssign target source =>
    match l.lease target, l.lease source with
    | some lease, some other =>
      if target = source then pure l
      else do
        let result ← l.budget.reset lease
        pure { budget := result.1, leases := (l.leases.set source (some {})).set target (some other) }
    | _, _ => pure l
  | .releaseOutput i bytes =>
    match l.lease i with
    | none => pure l
    | some lease =>
      if lease.outputBytes < bytes then pure l
      else do
        let result ← l.budget.releaseOutput lease bytes
        pure { budget := result.1, leases := l.leases.set i (some result.2) }
  | .absorb target source =>
    match l.lease target, l.lease source with
    | some lease, some other =>
      if target = source then pure l
      else do
        let result ← lease.absorb other
        pure { l with leases := (l.leases.set source (some result.2)).set target (some result.1) }
    | _, _ => pure l
  | .reset i =>
    match l.lease i with
    | none => pure l
    | some lease => do
      let result ← l.budget.reset lease
      pure { budget := result.1, leases := l.leases.set i (some result.2) }
  | .destroy i =>
    match l.lease i with
    | none => pure l
    | some lease => do
      let result ← l.budget.reset lease
      pure { budget := result.1, leases := l.leases.set i none }

/-- What all live leases hold of a resource. -/
def held (leases : List (Option ResourceLease)) (r : Resource) : Nat :=
  (leases.map fun lease => (lease.map (·.amount r)).getD 0).sum

end Ledger

/-- The machine of one ledger; it reports the arithmetic it does. -/
def ledger : Machine Ledger LeaseAction SizeOp := ⟨fun l a => ((l.act a).value, (l.act a).ops)⟩

/-! ### Admission -/

/-- The ledger is in order: words everywhere, and nothing past its limit. -/
structure ResourceBudget.Ordered (b : ResourceBudget) : Prop where
  peak : ∀ r, (b.usage r).current ≤ (b.usage r).peak
  limit : ∀ r, (b.usage r).peak ≤ b.limits.of r
  word : ∀ r, b.limits.of r < modulus

/-- The amounts of a request. -/
def request (connections inputBytes outputBytes : Nat) : ResourceLease :=
  { attached := true, connections := connections, inputBytes := inputBytes, outputBytes := outputBytes }

/-- A request for a resource goes past its limit. -/
def ResourceBudget.misfits (b : ResourceBudget) (lease : ResourceLease) (r : Resource) : Bool :=
  b.limits.of r < (b.usage r).current + lease.amount r

/-- The first resource, in the order of admission, that a request does not fit. -/
def ResourceBudget.firstMisfit (b : ResourceBudget) (lease : ResourceLease) : Option Resource :=
  [Resource.connections, .inputBytes, .outputBytes].find? (b.misfits lease)

/-- The ledger with one more rejection of a resource. -/
def ResourceBudget.rejectFor (b : ResourceBudget) : Resource → ResourceBudget
  | .connections => { b with connections := b.connections.reject }
  | .inputBytes => { b with inputBytes := b.inputBytes.reject }
  | .outputBytes => { b with outputBytes := b.outputBytes.reject }

def Resource.rejection : Resource → ResourceRejection
  | .connections => .connections
  | .inputBytes => .inputBytes
  | .outputBytes => .outputBytes

/-- A usage with an amount more. -/
def ResourceUsage.grow (u : ResourceUsage) (amount : Nat) : ResourceUsage :=
  { u with current := u.current + amount, peak := max u.peak (u.current + amount) }

def ResourceUsage.shrink (u : ResourceUsage) (amount : Nat) : ResourceUsage :=
  { u with current := u.current - amount }

/-- The ledger with a lease more, in natural numbers. -/
def ResourceBudget.grow (b : ResourceBudget) (lease : ResourceLease) : ResourceBudget :=
  { b with
    connections := b.connections.grow lease.connections
    inputBytes := b.inputBytes.grow lease.inputBytes
    outputBytes := b.outputBytes.grow lease.outputBytes }

def ResourceBudget.shrink (b : ResourceBudget) (lease : ResourceLease) : ResourceBudget :=
  { b with
    connections := b.connections.shrink lease.connections
    inputBytes := b.inputBytes.shrink lease.inputBytes
    outputBytes := b.outputBytes.shrink lease.outputBytes }

theorem ResourceUsage.take_spec (u : ResourceUsage) (amount : Nat) (fits : u.current + amount < modulus) :
    (u.take amount).Exact ∧ (u.take amount).value = u.grow amount := by
  refine ⟨by simp [take, fits], ?_⟩
  simp only [take, Sized.value_bind, Sized.value_pure, addSize_value fits]
  rfl

theorem ResourceUsage.drop_spec (u : ResourceUsage) (amount : Nat) (word : u.current < modulus)
    (held : amount ≤ u.current) : (u.drop amount).Exact ∧ (u.drop amount).value = u.shrink amount := by
  refine ⟨by simp [drop, held], ?_⟩
  simp only [drop, Sized.value_bind, Sized.value_pure, subSize_value word held]
  rfl

namespace ResourceBudget

variable {b : ResourceBudget}

theorem Ordered.current_le (ordered : b.Ordered) (r : Resource) :
    (b.usage r).current ≤ b.limits.of r :=
  Nat.le_trans (ordered.peak r) (ordered.limit r)

/-- What is free of a resource is computed without a wrap, and compares as it should. -/
theorem Ordered.free (ordered : b.Ordered) (r : Resource) (amount : Nat) :
    (subSize (b.limits.of r) (b.usage r).current).Exact ∧
      ((subSize (b.limits.of r) (b.usage r).current).value < amount
        ↔ b.limits.of r < (b.usage r).current + amount) := by
  have le := ordered.current_le r
  refine ⟨by simpa using le, ?_⟩
  rw [subSize_value (ordered.word r) le]
  omega

end ResourceBudget

/-- **Admission.** Nothing wraps. The request is rejected for the first resource it does not fit, and then
only the counter of that rejection moves and the lease is empty; else the request is the lease. -/
theorem tryAcquire_spec {b : ResourceBudget} (ordered : b.Ordered) (connections inputBytes outputBytes : Nat) :
    (b.tryAcquire connections inputBytes outputBytes).Exact ∧
      (b.tryAcquire connections inputBytes outputBytes).value =
        match b.firstMisfit (request connections inputBytes outputBytes) with
        | some r => (b.rejectFor r, { rejection := r.rejection })
        | none =>
          (b.grow (request connections inputBytes outputBytes),
            { lease := request connections inputBytes outputBytes }) := by
  obtain ⟨exact1, free1⟩ := ordered.free .connections connections
  obtain ⟨exact2, free2⟩ := ordered.free .inputBytes inputBytes
  obtain ⟨exact3, free3⟩ := ordered.free .outputBytes outputBytes
  simp only [ResourceLimits.of, ResourceBudget.usage] at exact1 exact2 exact3 free1 free2 free3
  have found : b.firstMisfit (request connections inputBytes outputBytes) =
      if b.limits.connections < b.connections.current + connections then some .connections
      else if b.limits.inputBytes < b.inputBytes.current + inputBytes then some .inputBytes
      else if b.limits.outputBytes < b.outputBytes.current + outputBytes then some .outputBytes
      else none := by
    simp only [ResourceBudget.firstMisfit, ResourceBudget.misfits, List.find?, ResourceLimits.of,
      ResourceBudget.usage, ResourceLease.amount, request]
    by_cases first : b.limits.connections < b.connections.current + connections
    · simp [first]
    · by_cases second : b.limits.inputBytes < b.inputBytes.current + inputBytes
      · simp [first, second]
      · by_cases third : b.limits.outputBytes < b.outputBytes.current + outputBytes
        · simp [first, second, third]
        · simp [first, second, third]
  rw [found]
  unfold ResourceBudget.tryAcquire
  simp only [Sized.value_bind, Sized.exact_bind, Sized.exact_ite, Sized.value_ite, free1, free2, free3]
  have word1 := ordered.word .connections
  have word2 := ordered.word .inputBytes
  have word3 := ordered.word .outputBytes
  simp only [ResourceLimits.of] at word1 word2 word3
  split
  · exact ⟨⟨exact1, fun _ => Sized.exact_pure _, fun no => by contradiction⟩, rfl⟩
  case isFalse first =>
    split
    · exact ⟨⟨exact1, fun no => by contradiction, fun _ => ⟨exact2, fun _ => Sized.exact_pure _,
        fun no => by contradiction⟩⟩, rfl⟩
    case isFalse second =>
      split
      · exact ⟨⟨exact1, fun no => by contradiction, fun _ => ⟨exact2, fun no => by contradiction, fun _ =>
          ⟨exact3, fun _ => Sized.exact_pure _, fun no => by contradiction⟩⟩⟩, rfl⟩
      case isFalse third =>
        obtain ⟨take1, value1⟩ := b.connections.take_spec connections (by omega)
        obtain ⟨take2, value2⟩ := b.inputBytes.take_spec inputBytes (by omega)
        obtain ⟨take3, value3⟩ := b.outputBytes.take_spec outputBytes (by omega)
        refine ⟨⟨exact1, fun no => by contradiction, fun _ => ⟨exact2, fun no => by contradiction, fun _ =>
          ⟨exact3, fun no => by contradiction, fun _ => ⟨take1, take2, take3, Sized.exact_pure _⟩⟩⟩⟩, ?_⟩
        rw [value1, value2, value3]
        rfl

/-! ### Giving back -/

/-- A lease that is not attached holds nothing. -/
def ResourceLease.Plain (lease : ResourceLease) : Prop := lease.attached = false → lease = {}

/-- Two leases in one. -/
def ResourceLease.join (lease other : ResourceLease) : ResourceLease :=
  { attached := lease.attached || other.attached
    connections := lease.connections + other.connections
    inputBytes := lease.inputBytes + other.inputBytes
    outputBytes := lease.outputBytes + other.outputBytes }

theorem ResourceLease.amount_join (lease other : ResourceLease) (r : Resource) :
    (lease.join other).amount r = lease.amount r + other.amount r := by cases r <;> rfl

theorem ResourceLease.amount_empty (r : Resource) : ({} : ResourceLease).amount r = 0 := by cases r <;> rfl

theorem ResourceBudget.usage_grow (b : ResourceBudget) (lease : ResourceLease) (r : Resource) :
    (b.grow lease).usage r = (b.usage r).grow (lease.amount r) := by cases r <;> rfl

theorem ResourceBudget.usage_shrink (b : ResourceBudget) (lease : ResourceLease) (r : Resource) :
    (b.shrink lease).usage r = (b.usage r).shrink (lease.amount r) := by cases r <;> rfl

theorem ResourceBudget.Ordered.word_current {b : ResourceBudget} (ordered : b.Ordered) (r : Resource) :
    (b.usage r).current < modulus :=
  Nat.lt_of_le_of_lt (ordered.current_le r) (ordered.word r)

theorem reset_spec {b : ResourceBudget} (ordered : b.Ordered) {lease : ResourceLease}
    (plain : lease.Plain) (held : ∀ r, lease.amount r ≤ (b.usage r).current) :
    (b.reset lease).Exact ∧ (b.reset lease).value = (b.shrink lease, {}) := by
  obtain ⟨exact1, value1⟩ :=
    b.connections.drop_spec lease.connections (ordered.word_current .connections) (held .connections)
  obtain ⟨exact2, value2⟩ :=
    b.inputBytes.drop_spec lease.inputBytes (ordered.word_current .inputBytes) (held .inputBytes)
  obtain ⟨exact3, value3⟩ :=
    b.outputBytes.drop_spec lease.outputBytes (ordered.word_current .outputBytes) (held .outputBytes)
  unfold ResourceBudget.reset
  split
  · refine ⟨by simp [exact1, exact2, exact3], ?_⟩
    simp only [Sized.value_bind, Sized.value_pure, value1, value2, value3]
    rfl
  case isFalse loose =>
    have empty := plain (by simpa using loose)
    subst empty
    exact ⟨Sized.exact_pure _, rfl⟩

theorem releaseOutput_spec {b : ResourceBudget} (ordered : b.Ordered) {lease : ResourceLease} {bytes : Nat}
    (fits : bytes ≤ lease.outputBytes) (held : lease.outputBytes ≤ b.outputBytes.current) :
    (b.releaseOutput lease bytes).Exact ∧
      (b.releaseOutput lease bytes).value =
        (b.shrink { outputBytes := bytes }, { lease with outputBytes := lease.outputBytes - bytes }) := by
  have word := ordered.word_current .outputBytes
  obtain ⟨exact, value⟩ := b.outputBytes.drop_spec bytes word (Nat.le_trans fits held)
  unfold ResourceBudget.releaseOutput
  split
  case isTrue none =>
    subst none
    exact ⟨Sized.exact_pure _, rfl⟩
  case isFalse =>
    refine ⟨by simp [exact, fits], ?_⟩
    simp only [Sized.value_bind, Sized.value_pure, value,
      subSize_value (Nat.lt_of_le_of_lt held word) fits]
    rfl

theorem absorb_spec {lease other : ResourceLease} (plain : other.Plain)
    (fits : ∀ r, lease.amount r + other.amount r < modulus) :
    (lease.absorb other).Exact ∧ (lease.absorb other).value = (lease.join other, {}) := by
  have fits1 := fits .connections
  have fits2 := fits .inputBytes
  have fits3 := fits .outputBytes
  simp only [ResourceLease.amount] at fits1 fits2 fits3
  unfold ResourceLease.absorb
  split
  case isTrue attached =>
    refine ⟨by simp [fits1, fits2, fits3], ?_⟩
    simp only [Sized.value_bind, Sized.value_pure, addSize_value fits1, addSize_value fits2,
      addSize_value fits3, ResourceLease.join, attached, Bool.or_true]
  case isFalse loose =>
    have empty := plain (by simpa using loose)
    subst empty
    refine ⟨Sized.exact_pure _, ?_⟩
    simp [ResourceLease.join]

/-! ### What one operation does -/

namespace Ledger

variable {l : Ledger}

/-- **The ledger is what its live leases hold.** -/
structure Sound (l : Ledger) : Prop where
  ordered : l.budget.Ordered
  sum : ∀ r, (l.budget.usage r).current = held l.leases r
  plain : ∀ lease, some lease ∈ l.leases → lease.Plain

/-- How the ledger and what is held may change together. -/
inductive Moved (l next : Ledger) : Prop
  | kept (budget : next.budget = l.budget) (held : ∀ r, held next.leases r = held l.leases r)
  | rejected (r : Resource) (budget : next.budget = l.budget.rejectFor r)
      (held : ∀ r, held next.leases r = held l.leases r)
  | grown (lease : ResourceLease) (budget : next.budget = l.budget.grow lease)
      (fits : ∀ r, (l.budget.usage r).current + lease.amount r ≤ l.budget.limits.of r)
      (held : ∀ r, held next.leases r = held l.leases r + lease.amount r)
  | shrunk (part : ResourceLease) (budget : next.budget = l.budget.shrink part)
      (held : ∀ r, held next.leases r + part.amount r = held l.leases r)

theorem lease_eq_some {i : Nat} {lease : ResourceLease} :
    l.lease i = some lease ↔ l.leases[i]? = some (some lease) := Option.join_eq_some_iff

theorem held_set {leases : List (Option ResourceLease)} {i : Nat} {old : Option ResourceLease}
    (found : leases[i]? = some old) (new : Option ResourceLease) (r : Resource) :
    held (leases.set i new) r + (old.map (·.amount r)).getD 0
      = held leases r + (new.map (·.amount r)).getD 0 :=
  sum_set_add _ new found

theorem held_append (leases : List (Option ResourceLease)) (new : ResourceLease) (r : Resource) :
    held (leases ++ [some new]) r = held leases r + new.amount r := by
  simp [held]

theorem amount_le_held {leases : List (Option ResourceLease)} {i : Nat} {lease : ResourceLease}
    (found : leases[i]? = some (some lease)) (r : Resource) : lease.amount r ≤ held leases r := by
  have gone := held_set found none r
  simp only [Option.map_some, Option.getD_some, Option.map_none, Option.getD_none] at gone
  omega

theorem Sound.plain_at (sound : l.Sound) {i : Nat} {lease : ResourceLease} (found : l.lease i = some lease) :
    lease.Plain :=
  sound.plain lease (List.mem_of_getElem? (lease_eq_some.mp found))

theorem Sound.holds (sound : l.Sound) {i : Nat} {lease : ResourceLease} (found : l.lease i = some lease)
    (r : Resource) : lease.amount r ≤ (l.budget.usage r).current :=
  sound.sum r ▸ amount_le_held (lease_eq_some.mp found) r

/-- What two leases at different places hold together after both are changed. -/
theorem held_pair {leases : List (Option ResourceLease)} {target source : Nat} (apart : target ≠ source)
    {lease other : ResourceLease} (found : leases[target]? = some (some lease))
    (found' : leases[source]? = some (some other)) (mine its : ResourceLease) (r : Resource) :
    held ((leases.set source (some its)).set target (some mine)) r + (lease.amount r + other.amount r)
      = held leases r + (its.amount r + mine.amount r) := by
  have first := held_set found' (some its) r
  have still : (leases.set source (some its))[target]? = some (some lease) :=
    (set_other apart.symm _).trans found
  have second := held_set still (some mine) r
  simp only [Option.map_some, Option.getD_some] at first second
  omega

/-- What two live leases at different places hold together is current. -/
theorem Sound.holds_pair (sound : l.Sound) {target source : Nat} (apart : target ≠ source)
    {lease other : ResourceLease} (found : l.lease target = some lease) (found' : l.lease source = some other)
    (r : Resource) : lease.amount r + other.amount r ≤ (l.budget.usage r).current := by
  have gone := held_pair apart (lease_eq_some.mp found) (lease_eq_some.mp found') {} {} r
  rw [ResourceLease.amount_empty, ← sound.sum r] at gone
  omega

theorem plain_empty : ({} : ResourceLease).Plain := fun _ => rfl

theorem plain_append {leases : List (Option ResourceLease)} (plain : ∀ lease, some lease ∈ leases → lease.Plain)
    {new : ResourceLease} (fresh : new.Plain) : ∀ lease, some lease ∈ leases ++ [some new] → lease.Plain := by
  intro lease member
  rcases List.mem_append.mp member with old | last
  · exact plain lease old
  · cases List.mem_singleton.mp last
    exact fresh

theorem plain_set {leases : List (Option ResourceLease)} (plain : ∀ lease, some lease ∈ leases → lease.Plain)
    (i : Nat) {new : Option ResourceLease} (fresh : ∀ lease, new = some lease → lease.Plain) :
    ∀ lease, some lease ∈ leases.set i new → lease.Plain := by
  intro lease member
  rcases List.mem_or_eq_of_mem_set member with old | same
  · exact plain lease old
  · exact fresh lease same.symm

theorem plain_set_some {leases : List (Option ResourceLease)}
    (plain : ∀ lease, some lease ∈ leases → lease.Plain) (i : Nat) {new : ResourceLease} (fresh : new.Plain) :
    ∀ lease, some lease ∈ leases.set i (some new) → lease.Plain :=
  plain_set plain i fun _ same => Option.some.inj same ▸ fresh

/-- One operation wraps nothing, moves the ledger with what is held, and leaves every lease plain. -/
structure Stepped (l : Ledger) (x : Sized Ledger) : Prop where
  exact : x.Exact
  moved : l.Moved x.value
  plain : ∀ lease, some lease ∈ x.value.leases → lease.Plain

theorem Sound.stay (sound : l.Sound) : l.Stepped (pure l) :=
  ⟨Sized.exact_pure _, .kept rfl fun _ => rfl, sound.plain⟩

theorem Sound.acquire (sound : l.Sound) (connections inputBytes outputBytes : Nat) :
    l.Stepped (l.acquire (l.budget.tryAcquire connections inputBytes outputBytes)) := by
  obtain ⟨exact, value⟩ := tryAcquire_spec sound.ordered connections inputBytes outputBytes
  have whole : (l.acquire (l.budget.tryAcquire connections inputBytes outputBytes)).Exact := by
    simp [Ledger.acquire, exact]
  cases misfit : l.budget.firstMisfit (request connections inputBytes outputBytes) with
  | some r =>
    rw [misfit] at value
    have result : (l.acquire (l.budget.tryAcquire connections inputBytes outputBytes)).value
        = { budget := l.budget.rejectFor r, leases := l.leases ++ [some {}] } := by
      simp only [Ledger.acquire, Sized.value_bind, Sized.value_pure, value]
    refine ⟨whole, ?_, result ▸ plain_append sound.plain plain_empty⟩
    rw [result]
    refine .rejected r rfl fun r => ?_
    rw [held_append, ResourceLease.amount_empty, Nat.add_zero]
  | none =>
    rw [misfit] at value
    have fits : ∀ r, (l.budget.usage r).current + (request connections inputBytes outputBytes).amount r
        ≤ l.budget.limits.of r := by
      intro r
      have free := List.find?_eq_none.mp misfit r (by cases r <;> decide)
      simp only [ResourceBudget.misfits, decide_eq_true_eq] at free
      omega
    have result : (l.acquire (l.budget.tryAcquire connections inputBytes outputBytes)).value
        = { budget := l.budget.grow (request connections inputBytes outputBytes)
            leases := l.leases ++ [some (request connections inputBytes outputBytes)] } := by
      simp only [Ledger.acquire, Sized.value_bind, Sized.value_pure, value]
    refine ⟨whole, ?_, result ▸ plain_append sound.plain (fun loose => by cases loose)⟩
    rw [result]
    exact .grown _ rfl fits fun r => held_append _ _ r

/-- Every operation on a sound ledger. -/
theorem Sound.act (sound : l.Sound) (a : LeaseAction) : l.Stepped (l.act a) := by
  cases a with
  | create =>
    refine ⟨Sized.exact_pure _, .kept rfl fun r => ?_, plain_append sound.plain plain_empty⟩
    show held (l.leases ++ [some ({} : ResourceLease)]) r = held l.leases r
    rw [held_append, ResourceLease.amount_empty, Nat.add_zero]
  | acquireConnection => exact sound.acquire _ _ _
  | acquireInput bytes => exact sound.acquire _ _ _
  | acquireOutput bytes => exact sound.acquire _ _ _
  | moveConstruct source =>
    simp only [Ledger.act]
    cases found : l.lease source with
    | none => exact sound.stay
    | some other =>
      refine ⟨Sized.exact_pure _, .kept rfl fun r => ?_,
        plain_append (plain_set_some sound.plain source plain_empty) (sound.plain_at found)⟩
      have gone := held_set (lease_eq_some.mp found) (some {}) r
      simp only [Option.map_some, Option.getD_some, ResourceLease.amount_empty] at gone
      rw [Sized.value_pure, held_append]
      exact gone
  | moveAssign target source =>
    simp only [Ledger.act]
    cases found : l.lease target with
    | none => exact sound.stay
    | some lease =>
      cases found' : l.lease source with
      | none => exact sound.stay
      | some other =>
        dsimp only
        split
        · exact sound.stay
        case isFalse apart =>
          obtain ⟨exact, value⟩ := reset_spec sound.ordered (sound.plain_at found) (sound.holds found)
          refine ⟨by simp [exact], .shrunk lease ?_ fun r => ?_, ?_⟩
          · simp only [Sized.value_bind, Sized.value_pure, value]
          · have pair := held_pair apart (lease_eq_some.mp found) (lease_eq_some.mp found') other {} r
            rw [ResourceLease.amount_empty] at pair
            simp only [Sized.value_bind, Sized.value_pure]
            omega
          · exact plain_set_some (plain_set_some sound.plain source plain_empty) target
              (sound.plain_at found')
  | releaseOutput i bytes =>
    simp only [Ledger.act]
    cases found : l.lease i with
    | none => exact sound.stay
    | some lease =>
      dsimp only
      split
      · exact sound.stay
      case isFalse fits =>
        obtain ⟨exact, value⟩ :=
          releaseOutput_spec sound.ordered (Nat.le_of_not_lt fits) (sound.holds found .outputBytes)
        refine ⟨by simp [exact], .shrunk { outputBytes := bytes } ?_ fun r => ?_, ?_⟩
        · simp only [Sized.value_bind, Sized.value_pure, value]
        · have part := held_set (lease_eq_some.mp found)
            (some { lease with outputBytes := lease.outputBytes - bytes }) r
          simp only [Sized.value_bind, Sized.value_pure, value]
          cases r with
          | connections => simpa [ResourceLease.amount] using part
          | inputBytes => simpa [ResourceLease.amount] using part
          | outputBytes =>
            simp only [Option.map_some, Option.getD_some, ResourceLease.amount] at part ⊢
            omega
        · simp only [Sized.value_bind, Sized.value_pure, value]
          refine plain_set_some sound.plain i fun loose => ?_
          have empty := sound.plain_at found loose
          subst empty
          simp
  | absorb target source =>
    simp only [Ledger.act]
    cases found : l.lease target with
    | none => exact sound.stay
    | some lease =>
      cases found' : l.lease source with
      | none => exact sound.stay
      | some other =>
        dsimp only
        split
        · exact sound.stay
        case isFalse apart =>
          obtain ⟨exact, value⟩ := absorb_spec (sound.plain_at found') fun r =>
            Nat.lt_of_le_of_lt (sound.holds_pair apart found found' r) (sound.ordered.word_current r)
          refine ⟨by simp [exact], .kept rfl fun r => ?_, ?_⟩
          · have pair := held_pair apart (lease_eq_some.mp found) (lease_eq_some.mp found')
              (lease.join other) {} r
            rw [ResourceLease.amount_empty, ResourceLease.amount_join] at pair
            simp only [Sized.value_bind, Sized.value_pure, value]
            omega
          · simp only [Sized.value_bind, Sized.value_pure, value]
            refine plain_set_some (plain_set_some sound.plain source plain_empty) target fun loose => ?_
            simp only [ResourceLease.join, Bool.or_eq_false_iff] at loose
            have first := sound.plain_at found loose.1
            have second := sound.plain_at found' loose.2
            subst first second
            rfl
  | reset i =>
    simp only [Ledger.act]
    cases found : l.lease i with
    | none => exact sound.stay
    | some lease =>
      obtain ⟨exact, value⟩ := reset_spec sound.ordered (sound.plain_at found) (sound.holds found)
      refine ⟨by simp [exact], .shrunk lease ?_ fun r => ?_, ?_⟩
      · simp only [Sized.value_bind, Sized.value_pure, value]
      · have gone := held_set (lease_eq_some.mp found) (some {}) r
        simp only [Option.map_some, Option.getD_some, ResourceLease.amount_empty, Nat.add_zero] at gone
        simpa only [Sized.value_bind, Sized.value_pure, value] using gone
      · simp only [Sized.value_bind, Sized.value_pure, value]
        exact plain_set_some sound.plain i plain_empty
  | destroy i =>
    simp only [Ledger.act]
    cases found : l.lease i with
    | none => exact sound.stay
    | some lease =>
      obtain ⟨exact, value⟩ := reset_spec sound.ordered (sound.plain_at found) (sound.holds found)
      refine ⟨by simp [exact], .shrunk lease ?_ fun r => ?_, ?_⟩
      · simp only [Sized.value_bind, Sized.value_pure, value]
      · have gone := held_set (lease_eq_some.mp found) none r
        simpa only [Sized.value_bind, Sized.value_pure, Option.map_some, Option.getD_some,
          Option.map_none, Option.getD_none, Nat.add_zero] using gone
      · exact plain_set sound.plain i fun lease none => by cases none

theorem usage_rejectFor (b : ResourceBudget) (r s : Resource) :
    ((b.rejectFor r).usage s).current = (b.usage s).current
      ∧ ((b.rejectFor r).usage s).peak = (b.usage s).peak := by
  cases r <;> cases s <;> exact ⟨rfl, rfl⟩

/-- The peak of every resource follows what is current. -/
theorem Moved.peak {next : Ledger} (sound : l.Sound) (moved : l.Moved next) (r : Resource) :
    (next.budget.usage r).peak = max (next.budget.usage r).current (l.budget.usage r).peak := by
  have le := sound.ordered.peak r
  cases moved with
  | kept budget held => rw [budget, Nat.max_eq_right le]
  | rejected s budget held =>
    obtain ⟨current, peak⟩ := usage_rejectFor l.budget s r
    rw [budget, current, peak, Nat.max_eq_right le]
  | grown lease budget fits held =>
    rw [budget, ResourceBudget.usage_grow]
    exact Nat.max_comm _ _
  | shrunk part budget held =>
    rw [budget, ResourceBudget.usage_shrink]
    exact (Nat.max_eq_right (Nat.le_trans (Nat.sub_le _ _) le)).symm

theorem Moved.limits {next : Ledger} (moved : l.Moved next) : next.budget.limits = l.budget.limits := by
  cases moved with
  | kept budget held => rw [budget]
  | rejected r budget held => rw [budget]; cases r <;> rfl
  | grown lease budget fits held => rw [budget]; rfl
  | shrunk part budget held => rw [budget]; rfl

/-- What is current after an operation is what is held, and within the limit. -/
theorem Moved.current {next : Ledger} (sound : l.Sound) (moved : l.Moved next) (r : Resource) :
    (next.budget.usage r).current = held next.leases r
      ∧ (next.budget.usage r).current ≤ l.budget.limits.of r := by
  have sum := sound.sum r
  have le := sound.ordered.current_le r
  cases moved with
  | kept budget held =>
    rw [budget, held r]
    exact ⟨sum, le⟩
  | rejected s budget held =>
    rw [budget, held r, (usage_rejectFor l.budget s r).1]
    exact ⟨sum, le⟩
  | grown lease budget fits held =>
    rw [budget, held r, ResourceBudget.usage_grow, ← sum]
    exact ⟨rfl, fits r⟩
  | shrunk part budget held =>
    have after := held r
    rw [budget, ResourceBudget.usage_shrink]
    show (l.budget.usage r).current - part.amount r = _ ∧ (l.budget.usage r).current - part.amount r ≤ _
    omega

/-- **Every operation keeps the ledger sound.** -/
theorem Sound.step (sound : l.Sound) (a : LeaseAction) : (l.act a).value.Sound := by
  obtain ⟨-, moved, plain⟩ := sound.act a
  refine ⟨⟨fun r => ?_, fun r => ?_, fun r => ?_⟩, fun r => (moved.current sound r).1, plain⟩
  · rw [moved.peak sound r]
    exact Nat.le_max_left _ _
  · rw [moved.peak sound r, moved.limits]
    exact Nat.max_le.mpr ⟨(moved.current sound r).2, sound.ordered.limit r⟩
  · rw [moved.limits]
    exact sound.ordered.word r

/-- The ledger of a new budget. -/
def fresh (limits : ResourceLimits) : Ledger := { budget := { limits := limits } }

theorem fresh_sound {limits : ResourceLimits} (word : ∀ r, limits.of r < modulus) : (fresh limits).Sound where
  ordered := ⟨fun r => by cases r <;> exact Nat.le_refl _, fun r => by cases r <;> exact Nat.zero_le _, word⟩
  sum r := by cases r <;> rfl
  plain lease member := absurd member List.not_mem_nil

theorem run_sound {start : Ledger} (sound : start.Sound) (actions : List LeaseAction) :
    (ledger.run start actions).1.Sound ∧ (ledger.run start actions).1.budget.limits = start.budget.limits := by
  refine Machine.run_invariant (m := ledger)
    (P := fun l => l.Sound ∧ l.budget.limits = start.budget.limits) ?_ actions ⟨sound, rfl⟩
  rintro l a ⟨sound, limits⟩
  exact ⟨sound.step a, (sound.act a).moved.limits.trans limits⟩

/-- No operation of a run wraps. -/
theorem run_exact {start : Ledger} (sound : start.Sound) (actions : List LeaseAction) :
    ∀ op ∈ (ledger.run start actions).2, op.Exact := by
  have all := Machine.run_history (m := ledger) (P := fun l log => l.Sound ∧ ∀ op ∈ log, op.Exact)
    (fun l log a holds => ⟨holds.1.step a, fun op member => ?_⟩) actions start [] ⟨sound, by simp⟩
  · simpa using all.2
  · rcases List.mem_append.mp member with old | new
    · exact holds.2 op old
    · exact (holds.1.act a).exact op new

/-- **The peak is the largest amount that was ever current.** -/
theorem run_peak {start : Ledger} (sound : start.Sound)
    (zero : ∀ r, (start.budget.usage r).peak = (start.budget.usage r).current) (r : Resource)
    (actions : List LeaseAction) :
    IsGreatest {c | ∃ k, c = ((ledger.run start (actions.take k)).1.budget.usage r).current}
      ((ledger.run start actions).1.budget.usage r).peak := by
  induction actions using List.reverseRecOn with
  | nil =>
    simp only [List.take_nil, Machine.run_nil, exists_const, zero r]
    exact isGreatest_singleton
  | append_singleton actions a ih =>
    have before := (run_sound sound actions).1
    have last : (ledger.run start (actions ++ [a])).1
        = ((ledger.run start actions).1.act a).value := by
      rw [Machine.run_append]
      rfl
    have moments : {c | ∃ k, c = ((ledger.run start ((actions ++ [a]).take k)).1.budget.usage r).current}
        = insert ((ledger.run start (actions ++ [a])).1.budget.usage r).current
          {c | ∃ k, c = ((ledger.run start (actions.take k)).1.budget.usage r).current} := by
      ext c
      constructor
      · rintro ⟨k, rfl⟩
        rcases Nat.lt_or_ge actions.length k with late | early
        · left
          rw [List.take_of_length_le (by simp; omega)]
        · right
          exact ⟨k, by rw [List.take_append_of_le_length early]⟩
      · rintro (rfl | ⟨k, rfl⟩)
        · exact ⟨(actions ++ [a]).length, by rw [List.take_length]⟩
        · refine ⟨min k actions.length, ?_⟩
          rw [List.take_append_of_le_length (Nat.min_le_right _ _), ← List.take_eq_take_min]
    rw [moments, last, (before.act a).moved.peak before r]
    exact ih.insert _

end Ledger

/-- **The ledger is exact.** After any operations on a new budget of any limits: what is current of each
resource is what the live leases hold, nothing has wrapped, the peak is the largest amount that was ever
current and is within the limit, and a request that does not fit moves one rejection counter and nothing
else. -/
theorem ledger_exact (connections inputBytes outputBytes : UInt64) (actions : List LeaseAction) :
    let limits : ResourceLimits := ⟨connections.toNat, inputBytes.toNat, outputBytes.toNat⟩
    let start := Ledger.fresh limits
    let reached := (ledger.run start actions).1
    (∀ r, (reached.budget.usage r).current = Ledger.held reached.leases r)
      ∧ (∀ r, (reached.budget.usage r).current ≤ (reached.budget.usage r).peak
          ∧ (reached.budget.usage r).peak ≤ limits.of r)
      ∧ (∀ r, IsGreatest {c | ∃ k, c = ((ledger.run start (actions.take k)).1.budget.usage r).current}
          (reached.budget.usage r).peak)
      ∧ (∀ op ∈ (ledger.run start actions).2, op.Exact)
      ∧ (∀ c i o : UInt64,
          (reached.budget.tryAcquire c.toNat i.toNat o.toNat).Exact
            ∧ (reached.budget.tryAcquire c.toNat i.toNat o.toNat).value =
              match reached.budget.firstMisfit (request c.toNat i.toNat o.toNat) with
              | some r => (reached.budget.rejectFor r, { rejection := r.rejection, lease := {} })
              | none =>
                (reached.budget.grow (request c.toNat i.toNat o.toNat),
                  { rejection := .none, lease := request c.toNat i.toNat o.toNat }))
      ∧ ((∀ lease, some lease ∉ reached.leases) → ∀ r, (reached.budget.usage r).current = 0) := by
  intro limits start reached
  have word : ∀ r, limits.of r < modulus := fun r => by
    cases r
    · exact connections.toNat_lt
    · exact inputBytes.toNat_lt
    · exact outputBytes.toNat_lt
  have sound := Ledger.fresh_sound word
  obtain ⟨after, same⟩ := Ledger.run_sound sound actions
  have zero : ∀ r, ((Ledger.fresh limits).budget.usage r).peak
      = ((Ledger.fresh limits).budget.usage r).current := fun r => by cases r <;> rfl
  refine ⟨after.sum, fun r => ⟨after.ordered.peak r, ?_⟩, fun r => Ledger.run_peak sound zero r actions,
    Ledger.run_exact sound actions, fun c i o => tryAcquire_spec after.ordered _ _ _, fun gone r => ?_⟩
  · have limit := after.ordered.limit r
    rw [same] at limit
    exact limit
  · rw [after.sum r]
    refine List.sum_eq_zero fun amount member => ?_
    obtain ⟨lease, alive, rfl⟩ := List.mem_map.mp member
    cases lease with
    | none => rfl
    | some lease => exact absurd alive (gone lease)

end HpServer.Base
