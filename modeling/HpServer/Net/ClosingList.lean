/-
**The closing list of a registry.**

Every connection has its own descriptor and its own identity (`Keyed`), and from `closingHead_` one comes to exactly
the connections that are marked (`Linked`). So the loop of a cleanup ends, follows no pointer to a destroyed object,
and takes out the marked connections and no other.

* `Linked.change`, `Linked.push`, `Linked.insert`, `Linked.erase`, `Linked.pop` — what happens to the list.
* `Recovered`, `recoverLoop_recovered`, `onCleanup_recovered` — **what a cleanup does.**
-/

import HpServer.Net.ConnectionRegistry

namespace HpServer.Net

open Base Intrusive Metrics Programs Tables

variable {A L S : Type}

/-! ### Objects and pointers -/

/-- Connections by descriptor. -/
abbrev Connections (L : Type) := AList fun _ : Nat => ConnectionObject L

/-- A connection is kept under its descriptor, and no two have the same identity. -/
structure Keyed (connections : Connections L) : Prop where
  own : ∀ {fd : Nat} {o : ConnectionObject L}, connections.lookup fd = some o → o.fd = fd
  distinct : ∀ {fd fd' : Nat} {o o' : ConnectionObject L}, connections.lookup fd = some o →
    connections.lookup fd' = some o' → o.conn.identity = o'.conn.identity → fd = fd'

section Keyed

variable {connections : Connections L} {fd : Nat} {o new : ConnectionObject L}

/-- **A pointer leads to the connection with its identity.** -/
theorem Keyed.objectAt_eq_some (keyed : Keyed connections) {pointer : Nat} :
    objectAt connections pointer = some o ↔ ∃ fd, connections.lookup fd = some o ∧ o.conn.identity = pointer := by
  have forth : ∀ {o : ConnectionObject L}, objectAt connections pointer = some o →
      ∃ fd, connections.lookup fd = some o ∧ o.conn.identity = pointer := by
    intro o found
    unfold objectAt at found
    obtain ⟨⟨fd, _⟩, member, rfl⟩ := List.mem_map.mp (List.mem_of_find?_eq_some found)
    exact ⟨fd, AList.mem_lookup_iff.mpr member, by simpa using List.find?_some found⟩
  refine ⟨forth, ?_⟩
  rintro ⟨fd, held, same⟩
  cases found : objectAt connections pointer with
  | none =>
    have member : o ∈ connections.entries.map Sigma.snd :=
      List.mem_map.mpr ⟨⟨fd, o⟩, AList.mem_lookup_iff.mp held, rfl⟩
    exact absurd same (by simpa using List.find?_eq_none.mp found o member)
  | some other =>
    obtain ⟨fd', held', same'⟩ := forth found
    obtain rfl := keyed.distinct held held' (same.trans same'.symm)
    exact held'.symm.trans held

/-- An entry that takes the place of one with its identity, or is new. -/
theorem Keyed.insert (keyed : Keyed connections) (own : new.fd = fd)
    (fresh : ∀ {fd' : Nat} {o : ConnectionObject L}, connections.lookup fd' = some o →
      o.conn.identity = new.conn.identity → fd' = fd) : Keyed (connections.insert fd new) where
  own {fd'} {o} held := by
    by_cases same : fd' = fd
    · subst same
      rw [AList.lookup_insert] at held
      obtain rfl := Option.some.inj held
      exact own
    · rw [AList.lookup_insert_ne same] at held
      exact keyed.own held
  distinct {first second} {o o'} held held' identity := by
    by_cases same : first = fd
    · by_cases same' : second = fd
      · exact same.trans same'.symm
      · subst same
        rw [AList.lookup_insert] at held
        rw [AList.lookup_insert_ne same'] at held'
        obtain rfl := Option.some.inj held
        exact (fresh held' identity.symm).symm
    · by_cases same' : second = fd
      · subst same'
        rw [AList.lookup_insert] at held'
        rw [AList.lookup_insert_ne same] at held
        obtain rfl := Option.some.inj held'
        exact fresh held identity
      · rw [AList.lookup_insert_ne same] at held
        rw [AList.lookup_insert_ne same'] at held'
        exact keyed.distinct held held' identity

theorem lookup_of_erase {fd' : Nat} (held : (connections.erase fd).lookup fd' = some o) :
    fd' ≠ fd ∧ connections.lookup fd' = some o := by
  by_cases same : fd' = fd
  · subst same
    rw [AList.lookup_erase] at held
    cases held
  · exact ⟨same, by rwa [AList.lookup_erase_ne same] at held⟩

theorem Keyed.erase (keyed : Keyed connections) (fd : Nat) : Keyed (connections.erase fd) where
  own held := keyed.own (lookup_of_erase held).2
  distinct held held' := keyed.distinct (lookup_of_erase held).2 (lookup_of_erase held').2

/-- The objects after an entry is made. -/
theorem objectAt_insert (keyed : Keyed connections) (after : Keyed (connections.insert fd new))
    (place : ∀ {o : ConnectionObject L}, connections.lookup fd = some o → o.conn.identity = new.conn.identity) :
    objectAt (connections.insert fd new) = Function.update (objectAt connections) new.conn.identity (some new) := by
  funext pointer
  by_cases same : pointer = new.conn.identity
  · subst same
    rw [Function.update_self]
    exact after.objectAt_eq_some.mpr ⟨fd, AList.lookup_insert _, rfl⟩
  · rw [Function.update_of_ne same]
    refine Option.ext fun o => ?_
    rw [after.objectAt_eq_some, keyed.objectAt_eq_some]
    refine exists_congr fun fd' => and_congr_left fun identity => ?_
    by_cases here : fd' = fd
    · subst here
      rw [AList.lookup_insert]
      refine iff_of_false (fun held => ?_) fun held => ?_
      · obtain rfl := Option.some.inj held
        exact same identity.symm
      · exact same (identity.symm.trans (place held))
    · rw [AList.lookup_insert_ne here]

theorem objectAt_erase (keyed : Keyed connections) (held : connections.lookup fd = some o) :
    objectAt (connections.erase fd) = Function.update (objectAt connections) o.conn.identity none := by
  funext pointer
  refine Option.ext fun other => ?_
  rw [(keyed.erase fd).objectAt_eq_some]
  by_cases same : pointer = o.conn.identity
  · subst same
    rw [Function.update_self]
    refine iff_of_false ?_ (fun none => nomatch none)
    rintro ⟨fd', held', identity⟩
    obtain ⟨elsewhere, before⟩ := lookup_of_erase held'
    exact elsewhere (keyed.distinct before held identity)
  · rw [Function.update_of_ne same, keyed.objectAt_eq_some]
    refine exists_congr fun fd' => and_congr_left fun identity => ?_
    by_cases here : fd' = fd
    · subst here
      rw [AList.lookup_erase]
      refine iff_of_false (fun none => nomatch none) fun there => ?_
      obtain rfl := Option.some.inj (held.symm.trans there)
      exact same identity.symm
    · rw [AList.lookup_erase_ne here]

end Keyed

/-! ### The list -/

/-- The pointer an object holds. -/
def links (connections : Connections L) (pointer : Nat) : Option (Option Nat) :=
  (objectAt connections pointer).map ConnectionObject.nextClosing

/-- **From the head one comes to exactly the marked connections.** -/
structure Linked (connections : Connections L) (head : Option Nat) : Prop where
  keyed : Keyed connections
  listed : ∃ keys, Chain (links connections) head keys ∧ ∀ pointer, pointer ∈ keys ↔
    ∃ o, objectAt connections pointer = some o ∧ o.conn.queuedForRecovery = true

section Linked

variable {connections : Connections L} {head : Option Nat} {fd : Nat} {o new : ConnectionObject L}

theorem links_update {next : Connections L} {pointer : Nat} {held : Option (ConnectionObject L)}
    (objects : objectAt next = Function.update (objectAt connections) pointer held) :
    links next = Function.update (links connections) pointer (held.map ConnectionObject.nextClosing) := by
  funext other
  unfold links
  rw [objects]
  by_cases same : other = pointer
  · subst same
    rw [Function.update_self, Function.update_self]
  · rw [Function.update_of_ne same, Function.update_of_ne same]

/-- An object with another identity is as it was. -/
theorem marked_update {next : Connections L} {pointer other : Nat} {held : Option (ConnectionObject L)}
    (objects : objectAt next = Function.update (objectAt connections) pointer held) (elsewhere : other ≠ pointer) :
    (∃ o, objectAt next other = some o ∧ o.conn.queuedForRecovery = true)
      ↔ ∃ o, objectAt connections other = some o ∧ o.conn.queuedForRecovery = true := by
  rw [objects, Function.update_of_ne elsewhere]

theorem Keyed.objectAt_held (keyed : Keyed connections) (held : connections.lookup fd = some o) :
    objectAt connections o.conn.identity = some o :=
  keyed.objectAt_eq_some.mpr ⟨fd, held, rfl⟩

/-- What becomes of the list when the object of one identity is replaced. -/
theorem Linked.replace (linked : Linked connections head) (held : connections.lookup fd = some o)
    (own : new.fd = fd) (identity : new.conn.identity = o.conn.identity) :
    Keyed (connections.insert fd new) ∧ objectAt (connections.insert fd new)
      = Function.update (objectAt connections) o.conn.identity (some new) := by
  have keyed : Keyed (connections.insert fd new) :=
    linked.keyed.insert own fun held' same => linked.keyed.distinct held' held (same.trans identity)
  refine ⟨keyed, ?_⟩
  rw [objectAt_insert linked.keyed keyed fun held' => ?_, identity]
  rw [Option.some.inj (held'.symm.trans held), identity]

/-- Whether a connection is in the list is for its mark to say. -/
theorem marked_iff (keyed : Keyed connections) (held : connections.lookup fd = some o) :
    (∃ other, objectAt connections o.conn.identity = some other ∧ other.conn.queuedForRecovery = true)
      ↔ o.conn.queuedForRecovery = true := by
  rw [keyed.objectAt_held held]
  constructor
  · rintro ⟨other, same, marked⟩
    rwa [Option.some.inj same]
  · exact fun marked => ⟨o, rfl, marked⟩

/-- A connection changes and stays where it is. -/
theorem Linked.change (linked : Linked connections head) (held : connections.lookup fd = some o) (own : new.fd = fd)
    (identity : new.conn.identity = o.conn.identity) (mark : new.conn.queuedForRecovery = o.conn.queuedForRecovery)
    (pointer : new.nextClosing = o.nextClosing) : Linked (connections.insert fd new) head := by
  obtain ⟨keyed, objects⟩ := linked.replace held own identity
  obtain ⟨keys, chain, listed⟩ := linked.listed
  have same : links (connections.insert fd new) = links connections := by
    rw [links_update objects]
    refine Function.update_eq_self_iff.mpr ?_
    unfold links
    rw [linked.keyed.objectAt_held held]
    exact congrArg some pointer
  refine ⟨keyed, keys, by rw [same]; exact chain, fun other => ?_⟩
  rw [listed]
  by_cases here : other = o.conn.identity
  · subst here
    rw [marked_iff linked.keyed held, ← identity, marked_iff keyed (AList.lookup_insert _), mark]
  · exact (marked_update objects here).symm

/-- **A connection enters the list**, before the others. -/
theorem Linked.push (linked : Linked connections head) (held : connections.lookup fd = some o) (own : new.fd = fd)
    (identity : new.conn.identity = o.conn.identity) (before : o.conn.queuedForRecovery = false)
    (mark : new.conn.queuedForRecovery = true) (pointer : new.nextClosing = head) :
    Linked (connections.insert fd new) (some o.conn.identity) := by
  obtain ⟨keyed, objects⟩ := linked.replace held own identity
  obtain ⟨keys, chain, listed⟩ := linked.listed
  have outside : o.conn.identity ∉ keys := by
    rw [listed, marked_iff linked.keyed held, before]
    exact Bool.false_ne_true
  refine ⟨keyed, o.conn.identity :: keys, ?_, fun other => ?_⟩
  · rw [links_update objects, Option.map_some, pointer]
    exact chain.push outside
  · rw [List.mem_cons, listed]
    by_cases here : other = o.conn.identity
    · subst here
      refine iff_of_true (.inl rfl) ?_
      rw [← identity, marked_iff keyed (AList.lookup_insert _)]
      exact mark
    · rw [marked_update objects here]
      exact or_iff_right here

/-- A connection is registered. -/
theorem Linked.insert (linked : Linked connections head) (absent : connections.lookup fd = none) (own : new.fd = fd)
    (fresh : ∀ {fd' : Nat} {o : ConnectionObject L}, connections.lookup fd' = some o →
      o.conn.identity ≠ new.conn.identity) (mark : new.conn.queuedForRecovery = false) :
    Linked (connections.insert fd new) head := by
  have keyed : Keyed (connections.insert fd new) :=
    linked.keyed.insert own fun held same => absurd same (fresh held)
  have objects := objectAt_insert linked.keyed keyed fun held => by cases absent.symm.trans held
  obtain ⟨keys, chain, listed⟩ := linked.listed
  have outside : new.conn.identity ∉ keys := by
    rw [listed]
    rintro ⟨o, found, -⟩
    obtain ⟨fd', held, same⟩ := linked.keyed.objectAt_eq_some.mp found
    exact fresh held same
  refine ⟨keyed, keys, ?_, fun other => ?_⟩
  · rw [links_update objects]
    exact chain.congr fun key member => Function.update_of_ne (ne_of_mem_of_not_mem member outside) _ _
  · by_cases here : other = new.conn.identity
    · subst here
      refine iff_of_false outside ?_
      rw [marked_iff keyed (AList.lookup_insert _), mark]
      exact Bool.false_ne_true
    · rw [listed, marked_update objects here]

/-- A connection that is not on the list is erased. -/
theorem Linked.erase (linked : Linked connections head) (held : connections.lookup fd = some o)
    (unmarked : o.conn.queuedForRecovery = false) : Linked (connections.erase fd) head := by
  have objects := objectAt_erase linked.keyed held
  obtain ⟨keys, chain, listed⟩ := linked.listed
  have outside : o.conn.identity ∉ keys := by
    rw [listed, marked_iff linked.keyed held, unmarked]
    exact Bool.false_ne_true
  refine ⟨linked.keyed.erase fd, keys, ?_, fun other => ?_⟩
  · rw [links_update objects]
    exact chain.congr fun key member => Function.update_of_ne (ne_of_mem_of_not_mem member outside) _ _
  · by_cases here : other = o.conn.identity
    · subst here
      refine iff_of_false outside ?_
      rw [objects, Function.update_self]
      exact fun ⟨_, absent, _⟩ => nomatch absent
    · rw [listed, marked_update objects here]

/-- **The first connection of the list is there and marked**; without it the list goes on where it points to. -/
theorem Linked.pop {pointer : Nat} (linked : Linked connections (some pointer)) :
    ∃ o, objectAt connections pointer = some o ∧ connections.lookup o.fd = some o ∧ o.conn.identity = pointer
      ∧ o.conn.queuedForRecovery = true ∧ Linked (connections.erase o.fd) o.nextClosing := by
  obtain ⟨keys, chain, listed⟩ := linked.listed
  obtain ⟨next, rest, rfl, found, outside, later⟩ := chain.pop
  obtain ⟨o, object, marked⟩ := (listed pointer).mp List.mem_cons_self
  obtain ⟨fd, held, rfl⟩ := linked.keyed.objectAt_eq_some.mp object
  obtain rfl := linked.keyed.own held
  obtain rfl : o.nextClosing = next := by
    unfold links at found
    rw [object] at found
    exact Option.some.inj found
  have objects := objectAt_erase linked.keyed held
  refine ⟨o, object, held, rfl, marked, linked.keyed.erase _, rest, ?_, fun other => ?_⟩
  · rw [links_update objects]
    exact later _
  · by_cases here : other = o.conn.identity
    · subst here
      refine iff_of_false outside ?_
      rw [objects, Function.update_self]
      exact fun ⟨_, absent, _⟩ => nomatch absent
    · rw [marked_update objects here, ← listed, List.mem_cons]
      exact (or_iff_right here).symm

/-- With an empty list no connection is marked. -/
theorem Linked.unmarked (linked : Linked connections none) (held : connections.lookup fd = some o) :
    o.conn.queuedForRecovery = false := by
  obtain ⟨keys, chain, listed⟩ := linked.listed
  cases chain
  have outside := mt (listed o.conn.identity).mpr List.not_mem_nil
  rw [marked_iff linked.keyed held] at outside
  exact Bool.eq_false_iff.mpr outside

/-- There are no more connections on the list than there are. -/
theorem Linked.short (linked : Linked connections head) :
    ∃ keys, Chain (links connections) head keys ∧ keys.length ≤ connections.entries.length := by
  obtain ⟨keys, chain, listed⟩ := linked.listed
  refine ⟨keys, chain, ?_⟩
  have inside : keys ⊆ connections.entries.map fun entry => entry.2.conn.identity := by
    intro pointer member
    obtain ⟨o, object, -⟩ := (listed pointer).mp member
    obtain ⟨fd, held, rfl⟩ := linked.keyed.objectAt_eq_some.mp object
    exact List.mem_map.mpr ⟨⟨fd, o⟩, AList.mem_lookup_iff.mp held, rfl⟩
  have few := (chain.nodup.subperm inside).length_le
  rwa [List.length_map] at few

end Linked

/-! ### Cleanup -/

/-- The connections that were counted, all but the one that is being registered. -/
def ActiveCounted (r : Registry L S) : Prop :=
  r.metrics.connectionsActive
    = r.connections.entries.countP fun entry => decide (entry.2.conn.identity ≠ r.registeringIdentity)

def numberedOf (log : List RegistryEvent) : List Nat :=
  log.filterMap fun event => match event with | .numbered identity => some identity | _ => none

def registeredOf (log : List RegistryEvent) : List Nat :=
  log.filterMap fun event => match event with | .registered identity => some identity | _ => none

/-- Nothing was numbered, registered or requested. -/
structure Silent (before later : List RegistryEvent) : Prop where
  numbered : numberedOf later = numberedOf before
  registered : registeredOf later = registeredOf before
  requested : ∀ identity, RegistryEvent.requested identity ∈ later ↔ RegistryEvent.requested identity ∈ before

theorem Silent.refl (log : List RegistryEvent) : Silent log log := ⟨rfl, rfl, fun _ => Iff.rfl⟩

theorem Silent.trans {first second third : List RegistryEvent} (one : Silent first second)
    (two : Silent second third) : Silent first third :=
  ⟨two.numbered.trans one.numbered, two.registered.trans one.registered,
    fun identity => (two.requested identity).trans (one.requested identity)⟩

theorem silent_destroyed (log : List RegistryEvent) (identity : Nat) : Silent log (log ++ [.destroyed identity]) := by
  refine ⟨?_, ?_, fun other => ?_⟩
  · simp [numberedOf]
  · simp [registeredOf]
  · simp

theorem silent_stopped (log : List RegistryEvent) : Silent log (log ++ [.stopped]) := by
  refine ⟨?_, ?_, fun other => ?_⟩
  · simp [numberedOf]
  · simp [registeredOf]
  · simp

/-- What neither a destruction nor a cleanup touches. -/
structure SameOffice (r t : Registry L S) : Prop where
  timeouts : t.timeouts = r.timeouts
  maxInputBytes : t.maxInputBytes = r.maxInputBytes
  draining : t.draining = r.draining
  nextIdentity : t.nextIdentity = r.nextIdentity
  registeringIdentity : t.registeringIdentity = r.registeringIdentity
  dangling : t.dangling = r.dangling
  total : t.metrics.connectionsTotal = r.metrics.connectionsTotal
  active : t.metrics.connectionsActive ≤ r.metrics.connectionsActive
  history : Silent r.log t.log

theorem SameOffice.trans {r t u : Registry L S} (first : SameOffice r t) (second : SameOffice t u) :
    SameOffice r u where
  timeouts := second.timeouts.trans first.timeouts
  maxInputBytes := second.maxInputBytes.trans first.maxInputBytes
  draining := second.draining.trans first.draining
  nextIdentity := second.nextIdentity.trans first.nextIdentity
  registeringIdentity := second.registeringIdentity.trans first.registeringIdentity
  dangling := second.dangling.trans first.dangling
  total := second.total.trans first.total
  active := Nat.le_trans second.active first.active
  history := first.history.trans second.history

/-- **What a cleanup does**: the marked connections are gone, the others are as they were. -/
structure Recovered (r t : Registry L S) : Prop extends SameOffice r t where
  lookup : ∀ fd, t.connections.lookup fd = (r.connections.lookup fd).filter fun o => !o.conn.queuedForRecovery
  head : t.closingHead = none
  linked : Linked t.connections t.closingHead
  counted : ActiveCounted r → ActiveCounted t

theorem destroy_office (app : Application A L S) (r : Registry L S) (o : ConnectionObject L) :
    SameOffice r (r.destroy app o) :=
  ⟨rfl, rfl, rfl, rfl, rfl, rfl, rfl, Nat.le_refl _, silent_destroyed _ _⟩

theorem uncount_office (r : Registry L S) (identity : Nat) :
    SameOffice r (r.uncount identity) ∧ (r.uncount identity).connections = r.connections
      ∧ (r.uncount identity).closingHead = r.closingHead := by
  unfold Registry.uncount
  split
  · exact ⟨⟨rfl, rfl, rfl, rfl, rfl, rfl, rfl, Nat.sub_le _ _, .refl _⟩, rfl, rfl⟩
  · exact ⟨⟨rfl, rfl, rfl, rfl, rfl, rfl, rfl, Nat.le_refl _, .refl _⟩, rfl, rfl⟩

/-- A connection that is taken out is taken out of the count. -/
theorem activeCounted_erase (app : Application A L S) {r : Registry L S} {o : ConnectionObject L} (counted : ActiveCounted r)
    (held : r.connections.lookup o.fd = some o) : ActiveCounted ((r.uncount o.conn.identity).destroy app o) := by
  have count := countP_erase (fun entry => decide (entry.2.conn.identity ≠ r.registeringIdentity)) held
  unfold ActiveCounted at counted ⊢
  unfold Registry.uncount
  split
  case isTrue other =>
    show r.metrics.connectionsActive - 1 = (r.connections.erase o.fd).entries.countP _
    dsimp only at count
    rw [if_pos (by simpa using other)] at count
    rw [counted, ← count, Nat.add_sub_cancel]
    rfl
  case isFalse registering =>
    show r.metrics.connectionsActive = (r.connections.erase o.fd).entries.countP _
    dsimp only at count
    rw [if_neg (by simpa using registering)] at count
    rw [counted, ← count]
    rfl

theorem find_eq_some {r : Registry L S} {fd identity : Nat} {o : ConnectionObject L} :
    r.find fd identity = some o ↔ r.connections.lookup fd = some o ∧ o.conn.identity = identity := by
  unfold Registry.find
  rw [Option.filter_eq_some_iff]
  simp

/-- The loop ends with the list, if it has one turn more than the list is long. -/
theorem recoverLoop_recovered (app : Application A L S) : ∀ (fuel : Nat) (r : Registry L S) (keys : List Nat),
    Linked r.connections r.closingHead → Chain (links r.connections) r.closingHead keys → keys.length < fuel →
    Recovered r (recoverLoop app fuel r) := by
  intro fuel
  induction fuel with
  | zero => exact fun _ _ _ _ none => absurd none (Nat.not_lt_zero _)
  | succ fuel ih =>
    intro r keys linked chain enough
    unfold recoverLoop
    cases head : r.closingHead with
    | none =>
      rw [head] at linked
      refine ⟨⟨rfl, rfl, rfl, rfl, rfl, rfl, rfl, Nat.le_refl _, .refl _⟩, fun fd => ?_, head, ?_, id⟩
      · cases held : r.connections.lookup fd with
        | none => rfl
        | some o => rw [Option.filter_some, linked.unmarked held]; rfl
      · rw [head]
        exact linked
    | some pointer =>
      rw [head] at linked chain
      obtain ⟨o, object, held, same, marked, erased⟩ := linked.pop
      have found : r.find o.fd o.conn.identity = some o := find_eq_some.mpr ⟨held, rfl⟩
      dsimp only
      rw [object]
      dsimp only
      rw [found]
      dsimp only
      generalize shown : ({ r with closingHead := o.nextClosing } : Registry L S) = next
      have office : SameOffice r next := by
        rw [← shown]
        exact ⟨rfl, rfl, rfl, rfl, rfl, rfl, rfl, Nat.le_refl _, .refl _⟩
      have there : next.connections = r.connections ∧ next.closingHead = o.nextClosing := by
        rw [← shown]
        exact ⟨rfl, rfl⟩
      obtain ⟨uncounted, kept, head'⟩ := uncount_office next o.conn.identity
      have connections : ((next.uncount o.conn.identity).destroy app o).connections = r.connections.erase o.fd := by
        show (next.uncount o.conn.identity).connections.erase o.fd = _
        rw [kept, there.1]
      have list : ((next.uncount o.conn.identity).destroy app o).closingHead = o.nextClosing :=
        head'.trans there.2
      have link : Linked ((next.uncount o.conn.identity).destroy app o).connections
          ((next.uncount o.conn.identity).destroy app o).closingHead := by
        rw [connections, list]
        exact erased
      have shorter : ∃ rest, Chain (links ((next.uncount o.conn.identity).destroy app o).connections)
          ((next.uncount o.conn.identity).destroy app o).closingHead rest ∧ rest.length < fuel := by
        obtain ⟨after, rest, rfl, pointed, -, later⟩ := chain.pop
        refine ⟨rest, ?_, Nat.lt_of_succ_lt_succ enough⟩
        have target : o.nextClosing = after := by
          unfold links at pointed
          rw [object] at pointed
          exact Option.some.inj pointed
        rw [connections, list, links_update (objectAt_erase linked.keyed held), target, same]
        exact later _
      obtain ⟨rest, chain', enough'⟩ := shorter
      have done := ih _ rest link chain' enough'
      refine
        { toSameOffice := (office.trans uncounted).trans ((destroy_office app _ o).trans done.toSameOffice)
          lookup := fun fd => ?_
          head := done.head
          linked := done.linked
          counted := fun counted => done.counted (activeCounted_erase app ?_ ?_) }
      · rw [done.lookup, connections]
        by_cases here : fd = o.fd
        · subst here
          rw [AList.lookup_erase, held, Option.filter_some, marked]
          rfl
        · rw [AList.lookup_erase_ne here]
      · rw [← shown]
        exact counted
      · rw [there.1]
        exact held

theorem notifyStop_office (r : Registry L S) :
    SameOffice r r.notifyStop ∧ r.notifyStop.connections = r.connections
      ∧ r.notifyStop.closingHead = r.closingHead ∧ r.notifyStop.metrics = r.metrics := by
  unfold Registry.notifyStop
  split
  · exact ⟨⟨rfl, rfl, rfl, rfl, rfl, rfl, rfl, Nat.le_refl _, silent_stopped _⟩, rfl, rfl, rfl⟩
  · exact ⟨⟨rfl, rfl, rfl, rfl, rfl, rfl, rfl, Nat.le_refl _, .refl _⟩, rfl, rfl, rfl⟩

/-- **A cleanup takes out the marked connections and no other.** -/
theorem onCleanup_recovered (app : Application A L S) {r : Registry L S}
    (linked : Linked r.connections r.closingHead) : Recovered r (r.onCleanup app) := by
  obtain ⟨keys, chain, few⟩ := linked.short
  have done := recoverLoop_recovered app _ r keys linked chain (Nat.lt_succ_of_le few)
  unfold Registry.onCleanup
  generalize recoverLoop app (r.connections.entries.length + 1) r = t at done
  obtain ⟨office, connections, head, metrics⟩ := notifyStop_office t
  refine ⟨done.toSameOffice.trans office, fun fd => ?_, head.trans done.head, ?_, fun counted => ?_⟩
  · rw [connections, done.lookup]
  · rw [connections, head]
    exact done.linked
  · have counted := done.counted counted
    unfold ActiveCounted at counted ⊢
    rw [metrics, connections, office.registeringIdentity]
    exact counted

end HpServer.Net
