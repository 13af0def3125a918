/-
**What holds of a registry after every sequence of calls.**

* `RegistrySound` — the closing list is linked, marks and requests agree, identities were given out once, and both
  counters are right. A connection that is being registered is not counted, and may be shut without a mark.
* `RegistrySound.store` — what a program on a connection keeps; `RegistrySound.recovered` — what a cleanup keeps;
  `onAccepted_outcome` — **everything an acceptance can do.**
* `registry_integrity` — the whole, for every application and every sequence.
-/

import HpServer.Net.ClosingList

namespace HpServer.Net

open Base Intrusive Machines Metrics Numbering Programs Tables

variable {A L S : Type}

structure RegistrySound (r : Registry L S) : Prop where
  linked : Linked r.connections r.closingHead
  shut : ∀ {fd : Nat} {o : ConnectionObject L}, r.connections.lookup fd = some o → o.conn.state = .closing →
    o.conn.queuedForRecovery = true ∨ o.conn.identity = r.registeringIdentity
  requested : ∀ {fd : Nat} {o : ConnectionObject L}, r.connections.lookup fd = some o →
    (o.conn.queuedForRecovery = true ↔ .requested o.conn.identity ∈ r.log)
  given : Given r.nextIdentity (numberedOf r.log)
  known : ∀ {fd : Nat} {o : ConnectionObject L}, r.connections.lookup fd = some o →
    o.conn.identity ∈ numberedOf r.log
  asked : ∀ identity, .requested identity ∈ r.log → identity ∈ numberedOf r.log
  bounded : r.nextIdentity ≤ kLastIdentity ∧ ∀ identity ∈ numberedOf r.log, identity ≤ kLastIdentity
  counted : ActiveCounted r
  total : r.metrics.connectionsTotal = (registeredOf r.log).length
  fewer : r.metrics.connectionsActive ≤ r.metrics.connectionsTotal
  enough : (registeredOf r.log).length ≤ (numberedOf r.log).length
  whole : r.dangling = false

theorem registrySound_initial (timeouts : ConnectionTimeouts) (maxInputBytes : Nat) (host : Host) (shared : S) :
    RegistrySound ({ timeouts := timeouts, maxInputBytes := maxInputBytes, host := host, shared := shared } :
      Registry L S) := by
  have empty : ∀ {fd : Nat} {o : ConnectionObject L}, (∅ : Connections L).lookup fd ≠ some o := by
    intro fd o held
    cases (AList.lookup_empty fd).symm.trans held
  have linked : Linked (∅ : Connections L) none := by
    refine ⟨⟨fun held => absurd held empty, fun held => absurd held empty⟩, [], .nil, fun pointer => ?_⟩
    refine iff_of_false List.not_mem_nil ?_
    rintro ⟨o, found, -⟩
    cases found
  exact
    { linked := linked
      shut := fun held => absurd held empty
      requested := fun held => absurd held empty
      given := given_nil _
      known := fun held => absurd held empty
      asked := fun _ member => absurd member List.not_mem_nil
      bounded := ⟨Nat.one_le_iff_ne_zero.mpr (by decide), fun _ member => absurd member List.not_mem_nil⟩
      counted := rfl
      total := rfl
      fewer := Nat.le_refl _
      enough := Nat.le_refl _
      whole := rfl }

section Steps

variable {r t : Registry L S} {fd : Nat} {o : ConnectionObject L}

/-- Outside a registration every connection is counted. -/
theorem RegistrySound.active (sound : RegistrySound r) (idle : r.registeringIdentity = 0) :
    r.metrics.connectionsActive = r.connections.entries.length := by
  have counted := sound.counted
  unfold ActiveCounted at counted
  rw [counted, List.countP_eq_length]
  rintro ⟨fd, o⟩ member
  have positive := sound.given.positive _ (sound.known (AList.mem_lookup_iff.mpr member))
  rw [idle]
  exact decide_eq_true (Nat.ne_of_gt positive)

/-! ### Cleanup and destruction -/

theorem RegistrySound.recovered (sound : RegistrySound r) (done : Recovered r t) : RegistrySound t := by
  have before : ∀ {fd : Nat} {o : ConnectionObject L}, t.connections.lookup fd = some o →
      r.connections.lookup fd = some o := by
    intro fd o held
    rw [done.lookup] at held
    exact (Option.filter_eq_some_iff.mp held).1
  exact
    { linked := done.linked
      shut := fun held closing => by
        rw [done.registeringIdentity]
        exact sound.shut (before held) closing
      requested := fun held => (sound.requested (before held)).trans (done.history.requested _).symm
      given := by
        rw [done.nextIdentity, done.history.numbered]
        exact sound.given
      known := fun held => by
        rw [done.history.numbered]
        exact sound.known (before held)
      asked := fun identity member => by
        rw [done.history.numbered]
        exact sound.asked identity ((done.history.requested identity).mp member)
      bounded := by
        rw [done.nextIdentity, done.history.numbered]
        exact sound.bounded
      counted := done.counted sound.counted
      total := by
        rw [done.total, done.history.registered]
        exact sound.total
      fewer := by
        rw [done.total]
        exact Nat.le_trans done.active sound.fewer
      enough := by
        rw [done.history.registered, done.history.numbered]
        exact sound.enough
      whole := done.dangling.trans sound.whole }

theorem RegistrySound.onCleanup (app : Application A L S) (sound : RegistrySound r) :
    RegistrySound (r.onCleanup app) :=
  sound.recovered (onCleanup_recovered app sound.linked)

/-! ### A change of one connection -/

/-- The entries are as they were, but for one connection. -/
def Replaced (r : Registry L S) (fd : Nat) (conn : TcpConnection) (connections : Connections L) : Prop :=
  ∀ {other : Nat} {new : ConnectionObject L}, connections.lookup other = some new →
    (other = fd ∧ new.conn = conn) ∨ (other ≠ fd ∧ r.connections.lookup other = some new)

theorem replaced_insert (r : Registry L S) (fd : Nat) (new : ConnectionObject L) :
    Replaced r fd new.conn (r.connections.insert fd new) := by
  intro other entry held
  by_cases here : other = fd
  · subst here
    rw [AList.lookup_insert] at held
    rw [← Option.some.inj held]
    exact .inl ⟨rfl, rfl⟩
  · rw [AList.lookup_insert_ne here] at held
    exact .inr ⟨here, held⟩

theorem activeCounted_insert (counted : ActiveCounted r) (held : r.connections.lookup fd = some o)
    {new : ConnectionObject L} (identity : new.conn.identity = o.conn.identity) :
    r.metrics.connectionsActive = (r.connections.insert fd new).entries.countP
      fun entry => decide (entry.2.conn.identity ≠ r.registeringIdentity) := by
  have without := countP_erase (fun entry => decide (entry.2.conn.identity ≠ r.registeringIdentity)) held
  unfold ActiveCounted at counted
  rw [countP_insert, counted, ← without]
  dsimp only
  rw [identity]

/-- **A connection changes, and its marks and requests still agree.** -/
theorem RegistrySound.replaced (sound : RegistrySound r) (held : r.connections.lookup fd = some o)
    (conn : TcpConnection) (notes : List RegistryEvent) (next : Registry L S)
    (office : next = { r with
      connections := next.connections
      closingHead := next.closingHead
      host := next.host
      shared := next.shared
      log := r.log ++ notes })
    (entries : Replaced r fd conn next.connections) (linked : Linked next.connections next.closingHead)
    (identity : conn.identity = o.conn.identity)
    (shut : conn.state = .closing → conn.queuedForRecovery = true ∨ o.conn.identity = r.registeringIdentity)
    (only : ∀ event ∈ notes, event = .requested o.conn.identity)
    (marks : conn.queuedForRecovery = true ↔ o.conn.queuedForRecovery = true ∨ notes ≠ [])
    (counted : r.metrics.connectionsActive = next.connections.entries.countP
      fun entry => decide (entry.2.conn.identity ≠ r.registeringIdentity)) : RegistrySound next := by
  have silent : numberedOf next.log = numberedOf r.log ∧ registeredOf next.log = registeredOf r.log := by
    rw [show next.log = r.log ++ notes by rw [office]]
    unfold numberedOf registeredOf
    rw [List.filterMap_append, List.filterMap_append]
    refine ⟨?_, ?_⟩
    all_goals
      refine List.append_right_eq_self.mpr (List.filterMap_eq_nil_iff.mpr fun event member => ?_)
      rw [only event member]
  have asked : ∀ {other : Nat}, .requested other ∈ next.log
      ↔ .requested other ∈ r.log ∨ (other = o.conn.identity ∧ notes ≠ []) := by
    intro other
    rw [show next.log = r.log ++ notes by rw [office], List.mem_append]
    refine or_congr_right ⟨fun member => ?_, ?_⟩
    · exact ⟨RegistryEvent.requested.inj (only _ member), List.ne_nil_of_mem member⟩
    · rintro ⟨rfl, some⟩
      obtain ⟨event, rest, rfl⟩ := List.exists_cons_of_ne_nil some
      rw [← only event List.mem_cons_self]
      exact List.mem_cons_self
  have same : next.registeringIdentity = r.registeringIdentity ∧ next.nextIdentity = r.nextIdentity
      ∧ next.metrics = r.metrics ∧ next.dangling = r.dangling := by
    rw [office]
    exact ⟨rfl, rfl, rfl, rfl⟩
  obtain ⟨registering, number, metrics, dangling⟩ := same
  refine
    { linked := linked
      shut := fun held' closing => ?_
      requested := fun {other new} held' => ?_
      given := ?_
      known := fun held' => ?_
      asked := fun other member => ?_
      bounded := ?_
      counted := ?_
      total := ?_
      fewer := ?_
      enough := ?_
      whole := dangling.trans sound.whole }
  · rw [registering]
    rcases entries held' with ⟨rfl, new⟩ | ⟨-, before⟩
    · rw [new] at closing ⊢
      rw [identity]
      exact shut closing
    · exact sound.shut before closing
  · rw [asked]
    rcases entries held' with ⟨rfl, new⟩ | ⟨elsewhere, before⟩
    · rw [new, identity, marks, sound.requested held]
      exact or_congr_right (and_iff_right rfl).symm
    · rw [sound.requested before]
      refine (or_iff_left ?_).symm
      rintro ⟨equal, -⟩
      exact elsewhere (sound.linked.keyed.distinct before held equal)
  · rw [number, silent.1]
    exact sound.given
  · rw [silent.1]
    rcases entries held' with ⟨rfl, new⟩ | ⟨-, before⟩
    · rw [new, identity]
      exact sound.known held
    · exact sound.known before
  · rw [silent.1]
    rcases asked.mp member with before | ⟨rfl, -⟩
    · exact sound.asked other before
    · exact sound.known held
  · rw [number, silent.1]
    exact sound.bounded
  · unfold ActiveCounted
    rw [metrics, registering]
    exact counted
  · rw [metrics, silent.2]
    exact sound.total
  · rw [metrics]
    exact sound.fewer
  · rw [silent.1, silent.2]
    exact sound.enough

/-- **What a program on a connection keeps.** -/
theorem RegistrySound.store (app : Application A L S) (sound : RegistrySound r)
    (held : r.connections.lookup fd = some o) {c : Cell A} (uses : Uses (r.cell app o) c) :
    RegistrySound (r.store app fd o c) := by
  have own : o.fd = fd := sound.linked.keyed.own held
  refine sound.replaced held c.conn _ _ rfl (replaced_insert r fd _) ?_ uses.identity (fun closing => ?_) ?_ ?_
    (activeCounted_insert sound.counted held uses.identity)
  · rcases uses.queue with ⟨closing, same⟩ | ⟨unmarked, marked, closing⟩
    · have out : c.registry.closing = [] := closing
      unfold Registry.store
      simp only [out, if_true]
      exact sound.linked.change held own uses.identity same rfl
    · have entered : c.registry.closing ≠ [] := by
        rw [closing]
        exact List.cons_ne_nil _ _
      unfold Registry.store
      simp only [entered, if_false]
      exact sound.linked.push held own uses.identity unmarked marked rfl
  · rcases uses.noted closing with already | marked
    · exact (sound.shut held already).imp_left fun marked => (uses.marked marked).2
    · exact .inl marked
  · intro event member
    split at member
    · exact List.mem_singleton.mp member
    · exact absurd member List.not_mem_nil
  · refine ⟨fun marked => ?_, ?_⟩
    · rcases uses.marks marked with before | closed
      · exact .inl before
      · rw [if_pos (show o.conn.state ≠ .closing ∧ c.conn.state = .closing from closed)]
        exact .inr (List.cons_ne_nil _ _)
    · rintro (before | noted)
      · exact (uses.marked before).2
      · split at noted
        case isTrue closed => exact (uses.noted closed.2).resolve_left closed.1
        case isFalse => exact absurd rfl noted

theorem RegistrySound.on (app : Application A L S) (sound : RegistrySound r) (fd : Nat) {program : Run A Unit}
    (uses : Moves Uses program) : RegistrySound (r.on app fd program) := by
  unfold Registry.on
  cases held : r.connections.lookup fd with
  | none => exact sound
  | some o => exact sound.store app held (uses.after _)

theorem on_registering (app : Application A L S) (r : Registry L S) (fd : Nat) (program : Run A Unit) :
    (r.on app fd program).registeringIdentity = r.registeringIdentity := by
  unfold Registry.on
  split
  · rfl
  · rfl

theorem RegistrySound.onClose (sound : RegistrySound r) (fd identity : Nat) : RegistrySound (r.onClose fd identity) := by
  unfold Registry.onClose
  cases found : r.find fd identity with
  | none => exact sound
  | some o =>
    obtain ⟨held, rfl⟩ := find_eq_some.mp found
    have own : o.fd = fd := sound.linked.keyed.own held
    have only : ∀ event ∈ [RegistryEvent.requested o.conn.identity], event = .requested o.conn.identity :=
      fun event member => List.mem_singleton.mp member
    have some : [RegistryEvent.requested o.conn.identity] ≠ [] := List.cons_ne_nil _ _
    dsimp only
    split
    case isTrue marked =>
      refine sound.replaced held o.conn _ _ rfl (fun {other new} held' => ?_) sound.linked rfl
        (sound.shut held) only ⟨fun _ => .inr some, fun _ => marked⟩ sound.counted
      by_cases here : other = fd
      · subst here
        rw [Option.some.inj (held.symm.trans held')]
        exact .inl ⟨rfl, rfl⟩
      · exact .inr ⟨here, held'⟩
    case isFalse unmarked =>
      exact sound.replaced held _ _ _ rfl (replaced_insert r fd _)
        (sound.linked.push held own rfl (Bool.eq_false_iff.mpr unmarked) rfl rfl) rfl
        (fun _ => .inl rfl) only ⟨fun _ => .inr some, fun _ => rfl⟩ (activeCounted_insert sound.counted held rfl)

theorem onClose_registering (r : Registry L S) (fd identity : Nat) :
    (r.onClose fd identity).registeringIdentity = r.registeringIdentity := by
  unfold Registry.onClose
  split
  · rfl
  · dsimp only
    split
    · rfl
    · rfl

/-! ### Acceptance -/

/-- An identity is given out. -/
theorem RegistrySound.number (sound : RegistrySound r) {identity next : Nat}
    (allocated : allocate kLastIdentity r.nextIdentity = some (identity, next)) :
    RegistrySound { r with nextIdentity := next, log := r.log ++ [.numbered identity] }
      ∧ identity ∉ numberedOf r.log := by
  obtain ⟨given, -, fresh⟩ := sound.given.allocate allocated
  have numbered : numberedOf (r.log ++ [.numbered identity]) = numberedOf r.log ++ [identity] := by
    simp [numberedOf]
  have registered : registeredOf (r.log ++ [.numbered identity]) = registeredOf r.log := by simp [registeredOf]
  have asked : ∀ {other : Nat}, .requested other ∈ r.log ++ [.numbered identity] ↔ .requested other ∈ r.log := by simp
  have range : identity ≤ kLastIdentity ∧ next ≤ kLastIdentity := by
    unfold allocate at allocated
    split at allocated
    · cases allocated
    · obtain ⟨rfl, rfl⟩ := Prod.mk.inj (Option.some.inj allocated)
      refine ⟨sound.bounded.1, ?_⟩
      split
      · exact Nat.zero_le _
      · exact Nat.lt_of_le_of_ne sound.bounded.1 ‹_›
  refine ⟨?_, fresh⟩
  exact
    { linked := sound.linked
      shut := sound.shut
      requested := fun held => (sound.requested held).trans asked.symm
      given := by
        dsimp only
        rw [numbered]
        exact given
      known := fun held => by
        dsimp only
        rw [numbered]
        exact List.mem_append_left _ (sound.known held)
      asked := fun other member => by
        dsimp only
        rw [numbered]
        exact List.mem_append_left _ (sound.asked other (asked.mp member))
      bounded := by
        dsimp only
        rw [numbered]
        refine ⟨range.2, fun other member => ?_⟩
        rcases List.mem_append.mp member with before | new
        · exact sound.bounded.2 other before
        · rw [List.mem_singleton.mp new]
          exact range.1
      counted := sound.counted
      total := by
        dsimp only
        rw [registered]
        exact sound.total
      fewer := sound.fewer
      enough := by
        dsimp only
        rw [registered, numbered, List.length_append]
        exact Nat.le_add_right_of_le sound.enough
      whole := sound.whole }

/-- Two counts agree where every connection is counted by both. -/
theorem countP_other {connections : Connections L} {first second : Nat}
    (other : ∀ {fd : Nat} {o : ConnectionObject L}, connections.lookup fd = some o →
      o.conn.identity ≠ first ∧ o.conn.identity ≠ second) :
    connections.entries.countP (fun entry => decide (entry.2.conn.identity ≠ first))
      = connections.entries.countP fun entry => decide (entry.2.conn.identity ≠ second) := by
  refine List.countP_congr fun entry member => ?_
  obtain ⟨left, right⟩ := other (AList.mem_lookup_iff.mpr member)
  simp [left, right]

theorem RegistrySound.positive (sound : RegistrySound r) (held : r.connections.lookup fd = some o) :
    o.conn.identity ≠ 0 :=
  Nat.ne_of_gt (sound.given.positive _ (sound.known held))

/-- A new connection is entered under its descriptor. -/
theorem RegistrySound.enter (sound : RegistrySound r) (idle : r.registeringIdentity = 0)
    (absent : r.connections.lookup fd = none) (new : ConnectionObject L) (own : new.fd = fd)
    (state : new.conn.state = .unregistered) (mark : new.conn.queuedForRecovery = false)
    (known : new.conn.identity ∈ numberedOf r.log)
    (fresh : ∀ {fd' : Nat} {o : ConnectionObject L}, r.connections.lookup fd' = some o →
      o.conn.identity ≠ new.conn.identity)
    (unasked : .requested new.conn.identity ∉ r.log) :
    RegistrySound { r with
      connections := r.connections.insert fd new, registeringIdentity := new.conn.identity } := by
  have entries := @replaced_insert L S r fd new
  refine
    { linked := sound.linked.insert absent own fresh mark
      shut := fun held closing => ?_
      requested := fun held => ?_
      given := sound.given
      known := fun held => ?_
      asked := sound.asked
      bounded := sound.bounded
      counted := ?_
      total := sound.total
      fewer := sound.fewer
      enough := sound.enough
      whole := sound.whole }
  · rcases entries held with ⟨-, same⟩ | ⟨-, before⟩
    · rw [same, state] at closing
      cases closing
    · refine .inl ((sound.shut before closing).resolve_right fun registering => ?_)
      exact sound.positive before (registering.trans idle)
  · rcases entries held with ⟨-, same⟩ | ⟨-, before⟩
    · rw [same, mark]
      exact iff_of_false Bool.false_ne_true unasked
    · exact sound.requested before
  · rcases entries held with ⟨-, same⟩ | ⟨-, before⟩
    · rw [same]
      exact known
    · exact sound.known before
  · have counted := sound.counted
    unfold ActiveCounted at counted ⊢
    dsimp only
    rw [countP_insert, erase_absent absent, counted, idle]
    simp only [ne_eq, not_true_eq_false, decide_false, Bool.false_eq_true, if_false, Nat.add_zero]
    exact countP_other fun held => ⟨sound.positive held, fresh held⟩

/-- The connection that is being registered. -/
structure Registering (r : Registry L S) (fd : Nat) (o : ConnectionObject L) : Prop where
  sound : RegistrySound r
  held : r.connections.lookup fd = some o
  identity : o.conn.identity = r.registeringIdentity

/-- No other connection has its identity. -/
theorem Registering.other (entering : Registering r fd o) {fd' : Nat} {o' : ConnectionObject L}
    (held : r.connections.lookup fd' = some o') (elsewhere : fd' ≠ fd) :
    o'.conn.identity ≠ r.registeringIdentity :=
  fun same => elsewhere (entering.sound.linked.keyed.distinct held entering.held (same.trans entering.identity.symm))

/-- The identity that is being registered is forgotten when no connection has it. -/
theorem RegistrySound.forget (sound : RegistrySound r)
    (gone : ∀ {fd : Nat} {o : ConnectionObject L}, r.connections.lookup fd = some o →
      o.conn.identity ≠ r.registeringIdentity) : RegistrySound { r with registeringIdentity := 0 } where
  linked := sound.linked
  shut held closing := .inl ((sound.shut held closing).resolve_right (gone held))
  requested := sound.requested
  given := sound.given
  known := sound.known
  asked := sound.asked
  bounded := sound.bounded
  counted := by
    have counted := sound.counted
    unfold ActiveCounted at counted ⊢
    rw [counted]
    exact countP_other fun held => ⟨gone held, sound.positive held⟩
  total := sound.total
  fewer := sound.fewer
  enough := sound.enough
  whole := sound.whole

/-- A connection that is not marked and not counted is erased. -/
theorem Registering.erase (app : Application A L S) (entering : Registering r fd o)
    (unmarked : o.conn.queuedForRecovery = false) :
    RegistrySound { r.destroy app o with registeringIdentity := 0 } := by
  have own : o.fd = fd := entering.sound.linked.keyed.own entering.held
  have silent := silent_destroyed r.log o.conn.identity
  have sound : RegistrySound (r.destroy app o) := by
    have before : ∀ {fd' : Nat} {o' : ConnectionObject L}, (r.connections.erase o.fd).lookup fd' = some o' →
        r.connections.lookup fd' = some o' := fun held => (lookup_of_erase held).2
    exact
      { linked := by
          show Linked (r.connections.erase o.fd) r.closingHead
          rw [own]
          exact entering.sound.linked.erase entering.held unmarked
        shut := fun held => entering.sound.shut (before held)
        requested := fun held => (entering.sound.requested (before held)).trans (silent.requested _).symm
        given := by
          show Given r.nextIdentity (numberedOf (r.log ++ [.destroyed o.conn.identity]))
          rw [silent.numbered]
          exact entering.sound.given
        known := fun held => by
          show _ ∈ numberedOf (r.log ++ [.destroyed o.conn.identity])
          rw [silent.numbered]
          exact entering.sound.known (before held)
        asked := fun identity member => by
          show identity ∈ numberedOf (r.log ++ [.destroyed o.conn.identity])
          rw [silent.numbered]
          exact entering.sound.asked identity ((silent.requested identity).mp member)
        bounded := by
          show r.nextIdentity ≤ _ ∧ ∀ other ∈ numberedOf (r.log ++ [.destroyed o.conn.identity]), _
          rw [silent.numbered]
          exact entering.sound.bounded
        counted := by
          have counted := activeCounted_erase app entering.sound.counted (own.symm ▸ entering.held)
          unfold Registry.uncount at counted
          rwa [if_neg (not_not.mpr entering.identity)] at counted
        total := by
          show _ = (registeredOf (r.log ++ [.destroyed o.conn.identity])).length
          rw [silent.registered]
          exact entering.sound.total
        fewer := entering.sound.fewer
        enough := by
          show (registeredOf (r.log ++ [.destroyed o.conn.identity])).length
            ≤ (numberedOf (r.log ++ [.destroyed o.conn.identity])).length
          rw [silent.numbered, silent.registered]
          exact entering.sound.enough
        whole := entering.sound.whole }
  refine sound.forget fun held => ?_
  obtain ⟨elsewhere, before⟩ := lookup_of_erase held
  exact entering.other before (own ▸ elsewhere)

/-- **A registration that fails leaves the others, without those that were closing.** -/
theorem Registering.abandon (app : Application A L S) (entering : Registering r fd o) :
    RegistrySound (r.abandon app fd) ∧ (r.abandon app fd).registeringIdentity = 0
      ∧ (r.abandon app fd).metrics.connectionsTotal = r.metrics.connectionsTotal
      ∧ ∀ other, (r.abandon app fd).connections.lookup other
        = if other = fd then none else (r.connections.lookup other).filter fun o => !o.conn.queuedForRecovery := by
  unfold Registry.abandon
  rw [entering.held]
  dsimp only
  have own : o.fd = fd := entering.sound.linked.keyed.own entering.held
  have shut : RegistrySound { r with
      connections := r.connections.insert fd { o with conn := o.conn.deactivate } } := by
    refine entering.sound.replaced entering.held _ [] _ ?_ (replaced_insert r fd _)
      (entering.sound.linked.change entering.held own rfl rfl rfl) rfl (fun _ => .inr entering.identity)
      (fun _ member => absurd member List.not_mem_nil) ?_ (activeCounted_insert entering.sound.counted entering.held rfl)
    · rw [List.append_nil]
    · exact (or_iff_left (fun some => absurd rfl some)).symm
  have done := onCleanup_recovered app shut.linked
  have cleaned := shut.recovered done
  generalize Registry.onCleanup app { r with
    connections := r.connections.insert fd { o with conn := o.conn.deactivate } } = t at done cleaned ⊢
  have there : ∀ {other : Nat}, other ≠ fd →
      t.connections.lookup other = (r.connections.lookup other).filter fun o => !o.conn.queuedForRecovery := by
    intro other elsewhere
    rw [done.lookup]
    dsimp only
    rw [AList.lookup_insert_ne elsewhere]
  cases left : t.connections.lookup fd with
  | none =>
    have gone : ∀ {fd' : Nat} {o' : ConnectionObject L}, t.connections.lookup fd' = some o' →
        o'.conn.identity ≠ t.registeringIdentity := by
      intro fd' o' held
      have elsewhere : fd' ≠ fd := by
        rintro rfl
        cases left.symm.trans held
      rw [there elsewhere] at held
      rw [done.registeringIdentity]
      exact entering.other (Option.filter_eq_some_iff.mp held).1 elsewhere
    refine ⟨cleaned.forget gone, rfl, done.total, fun other => ?_⟩
    dsimp only
    split
    case isTrue here =>
      rw [here]
      exact left
    case isFalse elsewhere => exact there elsewhere
  | some last =>
    have before : last.conn.identity = o.conn.identity ∧ last.conn.queuedForRecovery = false := by
      have held := left
      rw [done.lookup] at held
      dsimp only at held
      rw [AList.lookup_insert] at held
      obtain ⟨same, unmarked⟩ := Option.filter_eq_some_iff.mp held
      rw [← Option.some.inj same] at unmarked ⊢
      exact ⟨rfl, by simpa using unmarked⟩
    have leaving : Registering t fd last :=
      ⟨cleaned, left, before.1.trans (entering.identity.trans done.registeringIdentity.symm)⟩
    refine ⟨leaving.erase app before.2, rfl, done.total, fun other => ?_⟩
    have key : last.fd = fd := cleaned.linked.keyed.own left
    show (t.connections.erase last.fd).lookup other = _
    rw [key]
    split
    case isTrue here =>
      rw [here]
      exact AList.lookup_erase _ _
    case isFalse elsewhere =>
      rw [AList.lookup_erase_ne elsewhere]
      exact there elsewhere

/-- **A registration that succeeds counts one connection more.** -/
theorem Registering.register (entering : Registering r fd o)
    (open1 : o.conn.state = .closing → o.conn.queuedForRecovery = true)
    (room : (registeredOf r.log).length < (numberedOf r.log).length) :
    RegistrySound { r with
      registeringIdentity := 0
      metrics := r.metrics.registerConnection
      log := r.log ++ [.registered o.conn.identity] } := by
  have sound := entering.sound
  have numbered : numberedOf (r.log ++ [.registered o.conn.identity]) = numberedOf r.log := by simp [numberedOf]
  have registered : registeredOf (r.log ++ [.registered o.conn.identity]) = registeredOf r.log ++ [o.conn.identity] := by
    simp [registeredOf]
  have asked : ∀ {other : Nat}, .requested other ∈ r.log ++ [.registered o.conn.identity]
      ↔ .requested other ∈ r.log := by simp
  -- neither counter is full: there are no more registrations than identities
  have free : r.metrics.connectionsTotal < counterMax := by
    have few := sound.given.length_le sound.bounded.2
    rw [sound.total]
    exact Nat.lt_of_lt_of_le room few
  have total : r.metrics.registerConnection.connectionsTotal = r.metrics.connectionsTotal + 1 := by
    show addSaturated r.metrics.connectionsTotal 1 = _
    exact if_neg (by omega)
  have active : r.metrics.registerConnection.connectionsActive = r.metrics.connectionsActive + 1 := by
    have fewer := sound.fewer
    show addSaturated r.metrics.connectionsActive 1 = _
    exact if_neg (by omega)
  refine
    { linked := sound.linked
      shut := fun {fd' o'} held closing => .inl ?_
      requested := fun held => (sound.requested held).trans asked.symm
      given := ?_
      known := fun held => ?_
      asked := fun other member => ?_
      bounded := ?_
      counted := ?_
      total := ?_
      fewer := ?_
      enough := ?_
      whole := sound.whole }
  · by_cases here : fd' = fd
    · subst here
      obtain rfl := Option.some.inj (entering.held.symm.trans held)
      exact open1 closing
    · exact (sound.shut held closing).resolve_right (entering.other held here)
  · dsimp only
    rw [numbered]
    exact sound.given
  · dsimp only
    rw [numbered]
    exact sound.known held
  · dsimp only
    rw [numbered]
    exact sound.asked other (asked.mp member)
  · dsimp only
    rw [numbered]
    exact sound.bounded
  · have counted := sound.counted
    have without := countP_erase (fun entry => decide (entry.2.conn.identity ≠ r.registeringIdentity)) entering.held
    have with0 := countP_erase (fun entry => decide (entry.2.conn.identity ≠ 0)) entering.held
    have others : (r.connections.erase fd).entries.countP
          (fun entry => decide (entry.2.conn.identity ≠ r.registeringIdentity))
        = (r.connections.erase fd).entries.countP fun entry => decide (entry.2.conn.identity ≠ 0) := by
      refine countP_other fun held => ?_
      obtain ⟨elsewhere, before⟩ := lookup_of_erase held
      exact ⟨entering.other before elsewhere, sound.positive before⟩
    dsimp only at without with0
    rw [if_neg (by simp [entering.identity])] at without
    rw [if_pos (by simpa using sound.positive entering.held)] at with0
    unfold ActiveCounted at counted ⊢
    dsimp only
    rw [active, counted, ← without, others, ← with0]
  · dsimp only
    rw [total, registered, List.length_append, sound.total]
    rfl
  · dsimp only
    rw [total, active]
    exact Nat.succ_le_succ sound.fewer
  · dsimp only
    rw [registered, numbered, List.length_append]
    exact room

/-- **Everything an acceptance can do.** -/
structure Accepted (r : Registry L S) (result : Registry L S × Option Failure) : Prop where
  sound : RegistrySound result.1
  idle : result.1.registeringIdentity = 0
  failed : result.2 ≠ none → result.1.metrics.connectionsTotal = r.metrics.connectionsTotal
    ∧ ((result.1.connections = r.connections ∧ result.1.metrics.connectionsActive = r.metrics.connectionsActive)
      ∨ ∀ fd, result.1.connections.lookup fd
        = (r.connections.lookup fd).filter fun o => !o.conn.queuedForRecovery)

theorem RegistrySound.refuse (sound : RegistrySound r) (lease : ResourceLease) : RegistrySound (r.refuse lease) :=
  ⟨sound.linked, sound.shut, sound.requested, sound.given, sound.known, sound.asked, sound.bounded, sound.counted,
    sound.total, sound.fewer, sound.enough, sound.whole⟩

theorem onAccepted_outcome (app : Application A L S) (sound : RegistrySound r) (idle : r.registeringIdentity = 0)
    (fd : Nat) (lease : ResourceLease) (fault : Option AcceptFault) :
    Accepted r (r.onAccepted app fd lease fault) := by
  unfold Registry.onAccepted
  split
  case isTrue => exact ⟨sound.refuse lease, idle, fun failed => absurd rfl failed⟩
  case isFalse =>
  cases allocated : allocate kLastIdentity r.nextIdentity with
  | none => exact ⟨sound.refuse lease, idle, fun _ => ⟨rfl, .inl ⟨rfl, rfl⟩⟩⟩
  | some numbers =>
  obtain ⟨identity, next⟩ := numbers
  dsimp only
  obtain ⟨numbered, fresh⟩ := sound.number allocated
  split
  case isTrue => exact ⟨numbered.refuse lease, idle, fun _ => ⟨rfl, .inl ⟨rfl, rfl⟩⟩⟩
  case isFalse =>
  split
  case isTrue => exact ⟨numbered.refuse lease, idle, fun _ => ⟨rfl, .inl ⟨rfl, rfl⟩⟩⟩
  case isFalse free =>
  have absent : r.connections.lookup fd = none := by simpa using free
  have known : identity ∈ numberedOf (r.log ++ [.numbered identity]) := by simp [numberedOf]
  have unasked : .requested identity ∉ r.log ++ [.numbered identity] := by
    intro member
    rcases List.mem_append.mp member with before | new
    · exact fresh (sound.asked identity before)
    · cases List.mem_singleton.mp new
  generalize made : ({
    fd := fd
    io := makeConnectionIo r.maxInputBytes
    conn := { identity := identity }
    lease := lease
    app := app.fresh } : ConnectionObject L) = o
  have new : o.fd = fd ∧ o.conn = { identity := identity } := by
    rw [← made]
    exact ⟨rfl, rfl⟩
  have number : o.conn.identity = identity := by rw [new.2]
  have entered := numbered.enter idle absent o new.1 (by rw [new.2]) (by rw [new.2])
    (by rw [number]; exact known) (fun held same => fresh (number ▸ same ▸ sound.known held))
    (by rw [number]; exact unasked)
  rw [number] at entered
  -- the rest runs on the registry that holds the new connection
  generalize shown : ({ r with
    nextIdentity := next
    log := r.log ++ [.numbered identity]
    connections := r.connections.insert fd o
    registeringIdentity := identity } : Registry L S) = e at entered ⊢
  have held : e.connections.lookup fd = some o := by
    rw [← shown]
    exact AList.lookup_insert _
  have uses := moves_of_called Called.toUses (called_startConnection (decide (fault = some .activating))) (e.cell app o)
  unfold wp at uses
  cases ended : startConnection (decide (fault = some .activating)) (e.cell app o) with
  | error failure c =>
    rw [ended] at uses
    have entering : Registering (e.store app fd o c) fd _ :=
      ⟨entered.store app held uses, AList.lookup_insert _, by
        show c.conn.identity = e.registeringIdentity
        rw [show c.conn.identity = o.conn.identity from uses.identity, number, ← shown]⟩
    obtain ⟨kept, settled, total, lookup⟩ := entering.abandon app
    refine ⟨kept, settled, fun _ => ⟨total.trans ?_, .inr fun other => ?_⟩⟩
    · show e.metrics.connectionsTotal = _
      rw [← shown]
    · rw [lookup]
      split
      case isTrue here =>
        rw [here, absent]
        rfl
      case isFalse elsewhere =>
        show Option.filter _ ((e.connections.insert fd _).lookup other) = _
        rw [AList.lookup_insert_ne elsewhere, ← shown]
        dsimp only
        rw [AList.lookup_insert_ne elsewhere]
  | ok value c =>
    rw [ended] at uses
    have same : c.conn.identity = identity := (show c.conn.identity = o.conn.identity from uses.identity).trans number
    have entering : Registering (e.store app fd o c) fd _ :=
      ⟨entered.store app held uses, AList.lookup_insert _, by
        show c.conn.identity = e.registeringIdentity
        rw [same, ← shown]⟩
    have registered := entering.register ?_ ?_
    · dsimp only at registered ⊢
      rw [same] at registered
      exact ⟨registered, rfl, fun failed => absurd rfl failed⟩
    · intro closing
      refine (uses.noted closing).resolve_left ?_
      show o.conn.state ≠ .closing
      rw [new.2]
      intro other
      cases other
    · obtain ⟨silent, registered⟩ : numberedOf (e.store app fd o c).log = numberedOf e.log
          ∧ registeredOf (e.store app fd o c).log = registeredOf e.log := by
        show numberedOf (e.log ++ _) = _ ∧ registeredOf (e.log ++ _) = _
        split
        · simp [numberedOf, registeredOf]
        · simp
      rw [silent, registered, ← shown]
      have enough := sound.enough
      simp only [numberedOf, registeredOf, List.filterMap_append, List.filterMap_cons, List.filterMap_nil,
        List.append_nil, List.length_append, List.length_singleton] at enough ⊢
      exact Nat.lt_succ_of_le enough

/-! ### Runs -/

/-- Between two calls nothing is being registered. -/
structure Settled (r : Registry L S) : Prop where
  sound : RegistrySound r
  idle : r.registeringIdentity = 0

theorem Settled.on (app : Application A L S) (settled : Settled r) (fd : Nat) {program : Run A Unit}
    (uses : Moves Uses program) : Settled (r.on app fd program) :=
  ⟨settled.sound.on app fd uses, (on_registering app r fd program).trans settled.idle⟩

theorem Settled.onCleanup (app : Application A L S) (settled : Settled r) : Settled (r.onCleanup app) :=
  ⟨settled.sound.onCleanup app,
    (onCleanup_recovered app settled.sound.linked).registeringIdentity.trans settled.idle⟩

theorem Settled.drain (app : Application A L S) (force : Bool) (fds : List Nat) : ∀ {r : Registry L S}, Settled r →
    Settled (fds.foldl (fun (r : Registry L S) fd => r.on app fd (drainConnection force)) r) := by
  induction fds with
  | nil => exact fun settled => settled
  | cons fd fds ih => exact fun settled => ih (settled.on app fd (moves_of_called Called.toUses (called_drainConnection force)))

/-- **What one call keeps.** -/
theorem Settled.act (app : Application A L S) (settled : Settled r) (action : RegistryAction A S) :
    Settled (r.act app action) := by
  have sound := settled.sound
  have idle := settled.idle
  cases action with
  | onAccepted fd lease fault =>
    have outcome := onAccepted_outcome app sound idle fd lease fault
    exact ⟨outcome.sound, outcome.idle⟩
  | event fd mask =>
    exact settled.on app fd
      (handleConnectionEvent_moves Called.toUses app.onMessage_uses app.onWriteComplete_uses mask)
  | call fd program uses => exact settled.on app fd uses
  | expireConnection fd identity =>
    show Settled (r.expireConnection app fd identity)
    unfold Registry.expireConnection
    split
    · exact settled
    · split
      · exact settled
      · exact settled.on app fd (moves_of_called Called.toUses called_expireConnection)
  | deliverContinuation fd identity =>
    show Settled (r.deliverContinuation app fd identity)
    unfold Registry.deliverContinuation
    split
    · exact settled
    · exact settled.on app fd (deliverContinuation_moves Called.toUses app.onContinuation_uses)
  | onClose fd identity => exact ⟨sound.onClose fd identity, (onClose_registering r fd identity).trans idle⟩
  | onCleanup => exact settled.onCleanup app
  | beginConnectionsDrain force =>
    have draining : Settled { r with draining := true } :=
      ⟨⟨sound.linked, sound.shut, sound.requested, sound.given, sound.known, sound.asked, sound.bounded,
        sound.counted, sound.total, sound.fewer, sound.enough, sound.whole⟩, idle⟩
    exact (draining.drain app force _).onCleanup app
  | environment host shared =>
    exact ⟨⟨sound.linked, sound.shut, sound.requested, sound.given, sound.known, sound.asked, sound.bounded,
      sound.counted, sound.total, sound.fewer, sound.enough, sound.whole⟩, idle⟩

/-- Two registries with the same connections have as many. -/
theorem length_of_lookup {first second : Connections L} (same : ∀ fd, first.lookup fd = second.lookup fd) :
    first.entries.length = second.entries.length := by
  refine (List.lookup_ext first.nodupKeys second.nodupKeys fun fd o => ?_).length_eq
  show first.lookup fd = some o ↔ second.lookup fd = some o
  rw [same]

/-- A notification for a connection that is not registered. -/
theorem unknown_ignored (app : Application A L S) (r : Registry L S) {fd identity : Nat}
    (unknown : r.find fd identity = none) : r.onClose fd identity = r ∧ r.expireConnection app fd identity = r
      ∧ r.deliverContinuation app fd identity = r := by
  refine ⟨?_, ?_, ?_⟩
  · unfold Registry.onClose
    rw [unknown]
  · unfold Registry.expireConnection
    rw [unknown]
    exact ite_self r
  · unfold Registry.deliverContinuation
    rw [unknown]

end Steps

/-- **The registry after any sequence of calls.** Identities are given out in increasing order, and no two connections
have the same. From the head of the closing list one comes to exactly the marked connections, to each once, and no
pointer to a destroyed one is followed. A cleanup leaves the connections whose close was not requested. Both counters
are right. An acceptance that throws leaves what was there, or what a cleanup leaves of it. A notification for a
connection that is not registered does nothing. -/
theorem registry_integrity (app : Application A L S) (timeouts : ConnectionTimeouts) (maxInputBytes : Nat) (host : Host)
    (shared : S) (actions : List (RegistryAction A S)) :
    let r : Registry L S := ((connectionRegistry app).run
      { timeouts := timeouts, maxInputBytes := maxInputBytes, host := host, shared := shared } actions).1
    ((numberedOf r.log).Pairwise (· < ·)
        ∧ (∀ (fd : Nat) (o : ConnectionObject L), r.connections.lookup fd = some o →
          o.conn.identity ∈ numberedOf r.log)
        ∧ ∀ (fd fd' : Nat) (o o' : ConnectionObject L), r.connections.lookup fd = some o →
          r.connections.lookup fd' = some o' → o.conn.identity = o'.conn.identity → fd = fd')
      ∧ ((∃ keys : List Nat, Chain (links r.connections) r.closingHead keys ∧ keys.Nodup
          ∧ ∀ identity : Nat, identity ∈ keys ↔ ∃ (fd : Nat) (o : ConnectionObject L),
            r.connections.lookup fd = some o ∧ o.conn.identity = identity ∧ o.conn.queuedForRecovery = true)
        ∧ r.dangling = false)
      ∧ (∀ fd : Nat, (r.onCleanup app).connections.lookup fd = (r.connections.lookup fd).filter
          fun o => decide (.requested o.conn.identity ∉ r.log))
      ∧ (r.metrics.connectionsActive = r.connections.entries.length
        ∧ r.metrics.connectionsTotal = (registeredOf r.log).length)
      ∧ (∀ (fd : Nat) (lease : ResourceLease) (fault : Option AcceptFault),
          (r.onAccepted app fd lease fault).2 ≠ none →
          let t : Registry L S := (r.onAccepted app fd lease fault).1
          t.metrics.connectionsTotal = r.metrics.connectionsTotal
            ∧ ((t.connections = r.connections ∧ t.metrics.connectionsActive = r.metrics.connectionsActive)
              ∨ ((∀ other : Nat, t.connections.lookup other = (r.onCleanup app).connections.lookup other)
                ∧ t.metrics.connectionsActive = (r.onCleanup app).metrics.connectionsActive)))
      ∧ ∀ fd identity : Nat, r.find fd identity = none →
          r.onClose fd identity = r ∧ r.expireConnection app fd identity = r
            ∧ r.deliverContinuation app fd identity = r := by
  intro r
  have settled : Settled r :=
    Machine.run_invariant (P := Settled) (fun _ action kept => kept.act app action) actions
      ⟨registrySound_initial timeouts maxInputBytes host shared, rfl⟩
  clear_value r
  obtain ⟨sound, idle⟩ := settled
  have cleaned := onCleanup_recovered app sound.linked
  refine ⟨⟨sound.given.increasing, fun _ _ held => sound.known held,
      fun _ _ _ _ held held' same => sound.linked.keyed.distinct held held' same⟩, ⟨?_, sound.whole⟩, fun fd => ?_,
    ⟨sound.active idle, sound.total⟩, fun fd lease fault failed => ?_, fun fd identity => unknown_ignored app r⟩
  · obtain ⟨keys, chain, listed⟩ := sound.linked.listed
    refine ⟨keys, chain, chain.nodup, fun identity => ?_⟩
    rw [listed]
    constructor
    · rintro ⟨o, object, marked⟩
      obtain ⟨fd, held, same⟩ := sound.linked.keyed.objectAt_eq_some.mp object
      exact ⟨fd, o, held, same, marked⟩
    · rintro ⟨fd, o, held, same, marked⟩
      exact ⟨o, sound.linked.keyed.objectAt_eq_some.mpr ⟨fd, held, same⟩, marked⟩
  · rw [cleaned.lookup]
    cases held : r.connections.lookup fd with
    | none => rfl
    | some o =>
      have marks := sound.requested held
      rw [Option.filter_some, Option.filter_some]
      by_cases marked : o.conn.queuedForRecovery = true
      · simp [marked, marks.mp marked]
      · simp [marked, mt marks.mpr marked]
  · have outcome := onAccepted_outcome app sound idle fd lease fault
    obtain ⟨total, same | recovered⟩ := outcome.failed failed
    · exact ⟨total, .inl same⟩
    · have lookup : ∀ other, (r.onAccepted app fd lease fault).1.connections.lookup other
          = (r.onCleanup app).connections.lookup other :=
        fun other => (recovered other).trans (cleaned.lookup other).symm
      refine ⟨total, .inr ⟨lookup, ?_⟩⟩
      rw [outcome.sound.active outcome.idle, length_of_lookup lookup]
      exact ((sound.onCleanup app).active (cleaned.registeringIdentity.trans idle)).symm

end HpServer.Net
