/-
**The asynchronous task path refines the synchronous one.**

A `TaskSystem` is one task backend with any number of clients. A client sends a request when it has an
answer to the one before, waits for its job, polls it as `Session::onTaskContinuation` does, or leaves. What
the clients and the worker threads do interleaves freely.

* `sequential` — the router on one store, one request after another: the specification.
* `Refines` — **the store is that of the executed requests one after another, each answered as then**; kept
  by every step.
* `async_refines_sync` — **dispatch, immediate answers, delivered answers and the store are those of
  `RequestRouter::onResponse`**, in an order that respects each client's own.

The order is that of the calls of the store. A client's next job is admitted when all its earlier ones are
retired (`Refines.settled`), and a retired job is executed no more.
-/

import HpServer.App.TaskBackend
import HpServer.Http.HeaderAdmission

namespace HpServer.App

open Business Http Machines Tables

structure ApiCall where
  request : HttpRequest
  policy : ConnectionPolicy

def Execution.call (run : Execution) : ApiCall := { request := run.request, policy := run.policy }

def ResponseTaskWork.call (work : ResponseTaskWork) : ApiCall := { request := work.request, policy := work.policy }

/-! ### The two systems -/

/-- **The router on one store, one request after another.** -/
def sequential (service : StaticFileService) (clock : Int) : Machine TaskService ApiCall (Option ResponseResult) where
  step tasks call :=
    let answer := RequestRouter.onResponse service call.request call.policy clock tasks
    (answer.2, [answer.1])

/-- What a connection is about with the task API. -/
inductive Client where
  | idle
  | waiting (job : JobId)
  | gone
  deriving DecidableEq, Repr

/-- A connection goes on behind an answer that keeps it. -/
def Client.after : Option ResponseResult → Client
  | none => .gone
  | some answer => if answer.effectivePolicy = .keepAlive then .idle else .gone

structure TaskSystem where
  backend : TaskBackend
  clients : Nat → Client := fun _ => .idle

inductive SystemAction where
  | request (client : Nat) (call : ApiCall) (now : Nat) (clock : Int)
  | poll (client first second : Nat)
  | leave (client : Nat)
  | work (action : WorkerAction)

inductive SystemEvent where
  | admitted (client : Nat) (job : JobId) (call : ApiCall)
  | answered (client : Nat) (call : ApiCall) (answer : Option ResponseResult)
  | executed (run : Execution)
  | delivered (client : Nat) (job : JobId) (late : Bool) (answer : ResponseResult)

namespace TaskSystem

/-- `Session::onMessage` on a complete request, where there is an asynchronous handler. -/
def request (service : StaticFileService) (s : TaskSystem) (client : Nat) (call : ApiCall) (now : Nat)
    (clock : Int) : TaskSystem × List SystemEvent :=
  match s.clients client with
  | .idle =>
    let submission := s.backend.submitRequest call.request call.policy now
    match submission.2.dispatch, submission.2.job, submission.2.response with
    | .pending, some job, _ =>
      ({ backend := submission.1, clients := Function.update s.clients client (.waiting job) },
        [.admitted client job call])
    | _, _, some answer =>
      ({ backend := submission.1, clients := Function.update s.clients client (.after (some answer)) },
        [.answered client call (some answer)])
    | _, _, none =>
      let answer := RequestRouter.onResponse service call.request call.policy clock submission.1.store
      ({ backend := { submission.1 with store := answer.2 }
         clients := Function.update s.clients client (.after answer.1) }, [.answered client call answer.1])
  | _ => (s, [])

/-- `Session::onTaskContinuation`, with its two looks at the clock. -/
def poll (s : TaskSystem) (client first second : Nat) : TaskSystem × List SystemEvent :=
  match s.clients client with
  | .waiting job =>
    let deadline := s.backend.deadline job
    let collected := if first < deadline then s.backend.collectResponse (some job) else (s.backend, none)
    let late : Bool := deadline ≤ second
    match if late then some timeoutResponse else collected.2 with
    | none => ({ s with backend := collected.1 }, [])
    | some answer =>
      ({ backend := collected.1.cancelRequest (some job)
         clients := Function.update s.clients client (.after (some answer)) },
        [.delivered client job late answer])
  | _ => (s, [])

/-- A connection that is closed; `Session::~Session`. -/
def leave (s : TaskSystem) (client : Nat) : TaskSystem :=
  { backend :=
      match s.clients client with
      | .waiting job => s.backend.cancelRequest (some job)
      | _ => s.backend
    clients := Function.update s.clients client .gone }

end TaskSystem

def taskSystem (service : StaticFileService) : Machine TaskSystem SystemAction SystemEvent where
  step s
    | .request client call now clock => s.request service client call now clock
    | .poll client first second => s.poll client first second
    | .leave client => (s.leave client, [])
    | .work action => ({ s with backend := (s.backend.work action).1 }, (s.backend.work action).2.map .executed)

/-! ### Reading the history -/

/-- What was executed, in order. -/
def runs (log : List SystemEvent) : List Execution :=
  log.filterMap fun
    | .executed run => some run
    | _ => none

/-- The jobs admitted for a client, in order. -/
def admittedBy (client : Nat) (log : List SystemEvent) : List JobId :=
  log.filterMap fun
    | .admitted owner job _ => if owner = client then some job else none
    | _ => none

def ranJobs (log : List SystemEvent) : List JobId := (runs log).map Execution.job

/-- The jobs of a client that were executed, in the order of execution. -/
def ranBy (client : Nat) (log : List SystemEvent) : List JobId :=
  (ranJobs log).filter fun job => job ∈ admittedBy client log

@[simp] theorem runs_append (log more : List SystemEvent) : runs (log ++ more) = runs log ++ runs more :=
  List.filterMap_append

@[simp] theorem admittedBy_append (client : Nat) (log more : List SystemEvent) :
    admittedBy client (log ++ more) = admittedBy client log ++ admittedBy client more :=
  List.filterMap_append

/-! ### The synchronous side -/

/-- `RequestRouter::onResponse` takes the task branch. -/
def TakesTaskBranch (request : HttpRequest) : Prop := ∃ target, IsTaskTarget request.target target

/-- Where another branch is taken, no task changes. -/
theorem onResponse_store (service : StaticFileService) {request : HttpRequest} (policy : ConnectionPolicy)
    (clock : Int) (tasks : TaskService) (other : ¬ TakesTaskBranch request) :
    (RequestRouter.onResponse service request policy clock tasks).2 = tasks := by
  cases parsed : (parseRequestTarget request.target).target with
  | none => rw [RequestRouter.onResponse_unparsed service policy clock tasks parsed]
  | some target =>
    have route : (classifyTaskRoute target).kind = .other := by
      by_contra found
      exact other ⟨target, parsed, found⟩
    rw [RequestRouter.onResponse_other service policy clock tasks parsed route]
    split
    · rfl
    · rfl
    · split <;> rfl

/-- A work answers as the router does. -/
theorem onTaskResponse_eq (service : StaticFileService) (clock : Int) {request : HttpRequest}
    {target : RequestTarget} (policy : ConnectionPolicy) (tasks : TaskService)
    (found : IsTaskTarget request.target target) :
    RequestRouter.onResponse service request policy clock tasks
      = (some (onTaskResponse (classifyTaskRoute target) request policy tasks).1,
        (onTaskResponse (classifyTaskRoute target) request policy tasks).2) :=
  RequestRouter.onResponse_task service policy clock tasks found.1 found.2

/-- What is refused before it becomes a job is refused so by the router. -/
theorem onTaskResponse_prevalidated {route : TaskRoute} {request : HttpRequest} {policy : ConnectionPolicy}
    {response : ResponseResult} (refused : prevalidateTask route request policy = .ok (some response))
    (tasks : TaskService) : onTaskResponse route request policy tasks = (response, tasks) := by
  unfold onTaskResponse tryTaskResponse
  rw [refused]
  rfl

/-! ### The invariant -/

/-- **An answer that a client got for its job in time**: the one that was computed, or a failure where there
is none or the job was cancelled. -/
def IsDelivery (b : TaskBackend) (log : List SystemEvent) (job : JobId) (answer : ResponseResult) : Prop :=
  (∃ run ∈ runs log, run.job = job ∧ run.answer = answer)
    ∨ answer = failureResponse ∧ (job ∉ ranJobs log ∨ Marked b job)

/-- The clients and what was told of them. -/
structure Served (s : TaskSystem) (log : List SystemEvent) : Prop where
  known : ∀ client, ∀ job ∈ admittedBy client log, job < s.backend.works.length
  increasing : ∀ client, (admittedBy client log).Pairwise (· < ·)
  settled : ∀ client, ∀ i ∈ admittedBy client log, ∀ j ∈ admittedBy client log, i < j → Retired s.backend i
  owner : ∀ client other, ∀ job ∈ admittedBy client log, job ∈ admittedBy other log → client = other
  idle : ∀ client, s.clients client = .idle → ∀ job ∈ admittedBy client log, Retired s.backend job
  waiting : ∀ client job, s.clients client = .waiting job →
    job ∈ admittedBy client log ∧ (∀ i ∈ admittedBy client log, i ≤ job) ∧ ¬ GivenAway s.backend job
  ordered : ∀ client, (ranBy client log).Pairwise (· < ·)
  delivered : ∀ client job late answer, .delivered client job late answer ∈ log →
    job ∈ admittedBy client log ∧ (late = true ∧ answer = timeoutResponse
      ∨ late = false ∧ Retired s.backend job ∧ IsDelivery s.backend log job answer)

/-- **The executed requests, one after another, give the store and the answers.** -/
structure Refines (service : StaticFileService) (clock : Int) (store : TaskService) (s : TaskSystem)
    (log : List SystemEvent) : Prop where
  backed : Backed s.backend (ranJobs log)
  replay : (sequential service clock).run store ((runs log).map Execution.call)
    = (s.backend.store, (runs log).map fun run => some run.answer)
  routed : ∀ (job : JobId) (work : ResponseTaskWork), s.backend.works[job]? = some work →
    ∃ target, IsTaskTarget work.request.target target ∧ work.route = classifyTaskRoute target
  answers : ∀ (job : JobId) (work : ResponseTaskWork), s.backend.works[job]? = some work →
    ∀ answer, work.response = some answer ↔ ∃ run ∈ runs log, run.job = job ∧ run.answer = answer
  calls : ∀ run ∈ runs log, ∃ work, s.backend.works[run.job]? = some work ∧ run.call = work.call
  admitted : ∀ (job : JobId) (work : ResponseTaskWork), s.backend.works[job]? = some work →
    ∃ client, .admitted client job work.call ∈ log
  served : Served s log

section Steps

variable {service : StaticFileService} {clock : Int} {store : TaskService} {s : TaskSystem}
  {log : List SystemEvent}

/-- Events that neither admit nor execute. -/
structure Silent (more : List SystemEvent) : Prop where
  runs : runs more = []
  admitted : ∀ client, admittedBy client more = []

theorem Silent.ranJobs {more : List SystemEvent} (silent : Silent more) :
    ranJobs (log ++ more) = ranJobs log := by
  unfold App.ranJobs
  rw [runs_append, silent.runs, List.append_nil]

theorem Silent.admittedBy {more : List SystemEvent} (silent : Silent more) (client : Nat) :
    admittedBy client (log ++ more) = admittedBy client log := by
  rw [admittedBy_append, silent.admitted, List.append_nil]

/-- **A step that neither admits nor executes**: the executor moves on, one client may change its state, and
what is told is true. -/
theorem Refines.quiet (refines : Refines service clock store s log) {next : TaskBackend}
    {clients : Nat → Client} {more : List SystemEvent} (silent : Silent more)
    (works : next.works = s.backend.works) (same : next.store = s.backend.store)
    {collected : Option JobId} (later : Later collected s.backend next) (backed : Backed next (ranJobs log))
    (busy : ∀ client job, collected = some job → clients client ≠ .waiting job)
    (changed : ∀ client, clients client = s.clients client ∨ clients client = .gone
      ∨ clients client = .idle ∧ ∀ job ∈ admittedBy client log, Retired next job)
    (told : ∀ client job late answer, .delivered client job late answer ∈ more →
      job ∈ admittedBy client log ∧ (late = true ∧ answer = timeoutResponse
        ∨ late = false ∧ Retired next job ∧ IsDelivery next log job answer)) :
    Refines service clock store { backend := next, clients := clients } (log ++ more) := by
  have runsSame : runs (log ++ more) = runs log := by rw [runs_append, silent.runs, List.append_nil]
  obtain ⟨-, replay, routed, answers, calls, admitted, served⟩ := refines
  refine ⟨?_, ?_, ?_, ?_, ?_, ?_, ?_⟩
  · rw [silent.ranJobs]
    exact backed
  · rw [runsSame]
    dsimp only
    rw [same]
    exact replay
  · dsimp only
    rw [works]
    exact routed
  · dsimp only
    rw [works, runsSame]
    exact answers
  · dsimp only
    rw [works, runsSame]
    exact calls
  · intro job work found
    dsimp only at found
    rw [works] at found
    obtain ⟨client, member⟩ := admitted job work found
    exact ⟨client, List.mem_append_left _ member⟩
  · refine ⟨?_, ?_, ?_, ?_, ?_, ?_, ?_, ?_⟩
    · intro client job member
      rw [silent.admittedBy] at member
      dsimp only
      rw [works]
      exact served.known client job member
    · intro client
      rw [silent.admittedBy]
      exact served.increasing client
    · intro client i first j second below
      rw [silent.admittedBy] at first second
      exact later.retired i (served.settled client i first j second below)
    · intro client other job first second
      rw [silent.admittedBy] at first second
      exact served.owner client other job first second
    · intro client idle job member
      rw [silent.admittedBy] at member
      rcases changed client with kept | gone | ⟨-, all⟩
      · exact later.retired job (served.idle client (kept.symm.trans idle) job member)
      · cases gone.symm.trans idle
      · exact all job member
    · intro client job waits
      rw [silent.admittedBy]
      rcases changed client with kept | gone | ⟨idle, -⟩
      · obtain ⟨mine, last, open1⟩ := served.waiting client job (kept.symm.trans waits)
        exact ⟨mine, last, fun given => open1 (later.given job (fun same => busy client job same waits) given)⟩
      · cases gone.symm.trans waits
      · cases idle.symm.trans waits
    · intro client
      unfold ranBy
      rw [silent.ranJobs, silent.admittedBy]
      exact served.ordered client
    · intro client job late answer member
      have delivery : ∀ {job answer}, IsDelivery next log job answer →
          IsDelivery next (log ++ more) job answer := by
        intro job answer delivery
        unfold IsDelivery
        rwa [runsSame, silent.ranJobs]
      rw [silent.admittedBy]
      rcases List.mem_append.mp member with before | last
      · obtain ⟨mine, ⟨lateness, same⟩ | ⟨early, gone, found⟩⟩ := served.delivered client job late answer before
        · exact ⟨mine, .inl ⟨lateness, same⟩⟩
        · refine ⟨mine, .inr ⟨early, later.retired job gone, delivery ?_⟩⟩
          exact found.imp_right fun ⟨failed, why⟩ => ⟨failed, why.imp_right (later.marked job)⟩
      · obtain ⟨mine, ⟨lateness, same⟩ | ⟨early, gone, found⟩⟩ := told client job late answer last
        · exact ⟨mine, .inl ⟨lateness, same⟩⟩
        · exact ⟨mine, .inr ⟨early, gone, delivery found⟩⟩

/-- A worker answers a job. -/
theorem Refines.executed (refines : Refines service clock store s log) {w : Nat} {id : JobId}
    {work : ResponseTaskWork} (found : s.backend.works[id]? = some work) (new : id ∉ ranJobs log)
    (state : Entry s.backend.executor.jobs id fun job => job.state = .running)
    (backed : Backed (s.backend.answered w id work) (ranJobs log ++ [id])) :
    Refines service clock store { s with backend := s.backend.answered w id work }
      (log ++ [.executed (s.backend.execution id work)]) := by
  obtain ⟨target, isTask, route⟩ := refines.routed id work found
  have last : runs (log ++ [.executed (s.backend.execution id work)])
      = runs log ++ [s.backend.execution id work] := runs_append _ _
  have jobs : ranJobs (log ++ [.executed (s.backend.execution id work)]) = ranJobs log ++ [id] := by
    unfold ranJobs
    rw [last, List.map_append]
    rfl
  have admitted : ∀ client, admittedBy client (log ++ [.executed (s.backend.execution id work)])
      = admittedBy client log := fun client => (admittedBy_append client _ _).trans (List.append_nil _)
  have live : ¬ Retired s.backend id := by
    rintro ⟨job, there, retired⟩
    rw [entry_iff there, retired] at state
    cases state
  -- the other objects stay, and the new answer is not theirs
  have objects : ∀ (job : JobId) (other : ResponseTaskWork),
      (s.backend.answered w id work).works[job]? = some other → ∃ old, s.backend.works[job]? = some old
        ∧ other.call = old.call ∧ other.request = old.request ∧ other.route = old.route
        ∧ (job ≠ id → other = old)
        ∧ (job = id → other.response = some (s.backend.execution id work).answer) := by
    intro job other there
    rcases set_eq_some.mp there with ⟨rfl, -, rfl⟩ | ⟨apart, before⟩
    · exact ⟨work, found, rfl, rfl, rfl, fun other => absurd rfl other, fun _ => rfl⟩
    · exact ⟨other, before, rfl, rfl, rfl, fun _ => rfl, fun same => absurd same.symm apart⟩
  refine ⟨jobs ▸ backed, ?_, ?_, ?_, ?_, ?_, ?_⟩
  · have answer := onTaskResponse_eq service clock work.policy s.backend.store isTask
    rw [← route] at answer
    rw [last, List.map_append, List.map_append, Machine.run_append, refines.replay]
    show ((RequestRouter.onResponse service work.request work.policy clock s.backend.store).2,
      _ ++ [(RequestRouter.onResponse service work.request work.policy clock s.backend.store).1]) = _
    rw [answer]
    rfl
  · intro job other there
    obtain ⟨old, before, -, request, sameRoute, -⟩ := objects job other there
    rw [request, sameRoute]
    exact refines.routed job old before
  · intro job other there answer
    obtain ⟨old, before, -, -, -, same, mine⟩ := objects job other there
    rw [last]
    by_cases this : job = id
    · rw [mine this]
      constructor
      · intro equal
        exact ⟨_, List.mem_append_right _ (List.mem_singleton.mpr rfl), this.symm, Option.some.inj equal⟩
      · rintro ⟨run, member, ofJob, ofAnswer⟩
        rcases List.mem_append.mp member with earlier | now
        · exact absurd (List.mem_map.mpr ⟨run, earlier, ofJob.trans this⟩) new
        · rw [← List.mem_singleton.mp now, ofAnswer]
    · rw [same this, refines.answers job old before answer]
      refine exists_congr fun run => and_congr_left fun facts => ?_
      rw [List.mem_append, List.mem_singleton]
      refine ⟨.inl, fun either => either.resolve_right fun equal => this ?_⟩
      rw [← facts.1, equal]
      rfl
  · intro run member
    rw [last] at member
    have lookup : ∀ {job : JobId} {old : ResponseTaskWork}, s.backend.works[job]? = some old →
        ∃ later, (s.backend.answered w id work).works[job]? = some later ∧ later.call = old.call := by
      intro job old before
      by_cases this : job = id
      · subst this
        cases found.symm.trans before
        exact ⟨_, set_same found _, rfl⟩
      · exact ⟨old, (set_other (Ne.symm this) _).trans before, rfl⟩
    rcases List.mem_append.mp member with earlier | now
    · obtain ⟨old, before, call⟩ := refines.calls run earlier
      obtain ⟨later, there, same⟩ := lookup before
      exact ⟨later, there, call.trans same.symm⟩
    · obtain rfl := List.mem_singleton.mp now
      obtain ⟨later, there, same⟩ := lookup found
      exact ⟨later, there, same.symm⟩
  · intro job other there
    obtain ⟨old, before, call, -⟩ := objects job other there
    obtain ⟨client, member⟩ := refines.admitted job old before
    exact ⟨client, List.mem_append_left _ (call ▸ member)⟩
  · obtain ⟨known, increasing, settled, owner, idle, waiting, ordered, delivered⟩ := refines.served
    refine ⟨?_, ?_, ?_, ?_, ?_, ?_, ?_, ?_⟩
    · intro client job member
      rw [admitted] at member
      show job < (s.backend.works.set id _).length
      rw [List.length_set]
      exact known client job member
    · intro client
      rw [admitted]
      exact increasing client
    · intro client i first j second below
      rw [admitted] at first second
      exact settled client i first j second below
    · intro client other job first second
      rw [admitted] at first second
      exact owner client other job first second
    · intro client atRest job member
      rw [admitted] at member
      exact idle client atRest job member
    · intro client job waits
      rw [admitted]
      exact waiting client job waits
    · -- an executed job of the client that is later than this one would have retired it
      intro client
      unfold ranBy
      rw [jobs, admitted, List.filter_append, List.pairwise_append]
      refine ⟨ordered client, List.Pairwise.filter _ (List.pairwise_singleton _ _), fun i before j now => ?_⟩
      obtain ⟨ran, mine⟩ := List.mem_filter.mp before
      obtain ⟨isThis, own⟩ := List.mem_filter.mp now
      obtain rfl := List.mem_singleton.mp isThis
      have apart : i ≠ j := fun same => new (same ▸ ran)
      refine Nat.lt_of_le_of_ne (Nat.le_of_not_lt fun later => ?_) apart
      exact live (settled client j (of_decide_eq_true own) i (of_decide_eq_true mine) later)
    · intro client job late answer member
      rw [admitted]
      have before : .delivered client job late answer ∈ log := by
        rcases List.mem_append.mp member with earlier | now
        · exact earlier
        · cases List.mem_singleton.mp now
      obtain ⟨mine, ⟨lateness, same⟩ | ⟨early, gone, delivery⟩⟩ := delivered client job late answer before
      · exact ⟨mine, .inl ⟨lateness, same⟩⟩
      refine ⟨mine, .inr ⟨early, gone, ?_⟩⟩
      rcases delivery with ⟨run, ran, facts⟩ | ⟨failed, why⟩
      · exact .inl ⟨run, by rw [last]; exact List.mem_append_left _ ran, facts⟩
      · refine .inr ⟨failed, why.imp_left fun never => ?_⟩
        rw [jobs, List.mem_append, List.mem_singleton, not_or]
        exact ⟨never, fun same => live (same ▸ gone)⟩

/-- A client's request becomes a job. -/
theorem Refines.enqueue (refines : Refines service clock store s log) {client : Nat} {call : ApiCall} {now : Nat}
    {target : RequestTarget} (atRest : s.clients client = .idle) (isTask : IsTaskTarget call.request.target target)
    (step : s.backend.executor.act (.submit (some s.backend.works.length) now)
      = (s.backend.executor.enqueue s.backend.works.length now,
        [.submitted s.backend.executor.jobs.length (some s.backend.works.length)])) :
    Refines service clock store
      { backend := s.backend.enqueue (classifyTaskRoute target) call.request call.policy now
        clients := Function.update s.clients client (.waiting s.backend.executor.jobs.length) }
      (log ++ [.admitted client s.backend.executor.jobs.length call]) := by
  have objects := refines.backed.objects
  generalize number : s.backend.executor.jobs.length = id at objects ⊢
  have same : runs (log ++ [.admitted client id call]) = runs log :=
    (runs_append _ _).trans (List.append_nil _)
  have jobs : ranJobs (log ++ [.admitted client id call]) = ranJobs log := by
    unfold ranJobs
    rw [same]
  have own : admittedBy client (log ++ [.admitted client id call]) = admittedBy client log ++ [id] := by
    rw [admittedBy_append]
    unfold admittedBy
    simp
  have others : ∀ {other}, other ≠ client →
      admittedBy other (log ++ [.admitted client id call]) = admittedBy other log := by
    intro other apart
    rw [admittedBy_append]
    unfold admittedBy
    simp [Ne.symm apart]
  have new : id ∉ ranJobs log := by
    intro member
    have below := refines.backed.fresh id member
    rw [number] at below
    exact Nat.lt_irrefl _ below
  have later : Later none s.backend
      (s.backend.enqueue (classifyTaskRoute target) call.request call.policy now) :=
    later_act refines.backed.sound (.submit (some s.backend.works.length) now) _ (by rw [step]; rfl)
  obtain ⟨known, increasing, settled, uniqueOwner, idle, waiting, ordered, delivered⟩ := refines.served
  have below : ∀ owner, ∀ job ∈ admittedBy owner log, job < id := by
    intro owner job member
    rw [← objects]
    exact known owner job member
  have lookup : ∀ {job : JobId} {work : ResponseTaskWork},
      (s.backend.enqueue (classifyTaskRoute target) call.request call.policy now).works[job]? = some work →
      s.backend.works[job]? = some work ∨ job = id
        ∧ work = { route := classifyTaskRoute target, request := call.request, policy := call.policy } := by
    intro job work there
    rw [← objects]
    exact append_eq_some.mp there
  refine ⟨?_, ?_, ?_, ?_, ?_, ?_, ?_⟩
  · rw [jobs]
    exact refines.backed.enqueue _ _ _ now step
  · rw [same]
    exact refines.replay
  · intro job work there
    rcases lookup there with before | ⟨-, rfl⟩
    · exact refines.routed job work before
    · exact ⟨target, isTask, rfl⟩
  · intro job work there answer
    rw [same]
    rcases lookup there with before | ⟨rfl, rfl⟩
    · exact refines.answers job work before answer
    · refine iff_of_false (fun none => nomatch none) ?_
      rintro ⟨run, member, ofJob, -⟩
      exact new (List.mem_map.mpr ⟨run, member, ofJob⟩)
  · intro run member
    rw [same] at member
    obtain ⟨work, there, sameCall⟩ := refines.calls run member
    exact ⟨work, append_eq_some.mpr (.inl there), sameCall⟩
  · intro job work there
    rcases lookup there with before | ⟨rfl, rfl⟩
    · obtain ⟨owner, member⟩ := refines.admitted job work before
      exact ⟨owner, List.mem_append_left _ member⟩
    · exact ⟨client, List.mem_append_right _ (List.mem_singleton.mpr rfl)⟩
  · refine ⟨?_, ?_, ?_, ?_, ?_, ?_, ?_, ?_⟩
    · intro owner job member
      show job < (s.backend.works ++ [_]).length
      rw [List.length_append, List.length_singleton, objects]
      by_cases mine : owner = client
      · rw [mine, own, List.mem_append, List.mem_singleton] at member
        rcases member with before | rfl
        · exact Nat.lt_succ_of_lt (below client job before)
        · exact Nat.lt_succ_self _
      · rw [others mine] at member
        exact Nat.lt_succ_of_lt (below owner job member)
    · intro owner
      by_cases mine : owner = client
      · rw [mine, own, List.pairwise_append]
        refine ⟨increasing client, List.pairwise_singleton _ _, fun i before j last => ?_⟩
        rw [List.mem_singleton.mp last]
        exact below client i before
      · rw [others mine]
        exact increasing owner
    · -- the client was at rest, so its earlier jobs are retired
      intro owner i first j second order
      by_cases mine : owner = client
      · rw [mine, own, List.mem_append, List.mem_singleton] at first second
        rcases first with before | rfl
        · exact later.retired i (idle client atRest i before)
        · rcases second with before | rfl
          · exact absurd order (Nat.not_lt_of_lt (below client j before))
          · exact absurd order (Nat.lt_irrefl _)
      · rw [others mine] at first second
        exact later.retired i (settled owner i first j second order)
    · -- the number is new
      have split : ∀ {owner job}, job ∈ admittedBy owner (log ++ [.admitted client id call]) →
          job ∈ admittedBy owner log ∨ owner = client ∧ job = id := by
        intro owner job member
        by_cases mine : owner = client
        · rw [mine, own, List.mem_append, List.mem_singleton] at member
          exact member.imp (fun before => mine ▸ before) fun last => ⟨mine, last⟩
        · rw [others mine] at member
          exact .inl member
      intro owner other job first second
      rcases split first with before | ⟨rfl, rfl⟩
      · rcases split second with also | ⟨rfl, rfl⟩
        · exact uniqueOwner owner other job before also
        · exact absurd (below owner _ before) (Nat.lt_irrefl _)
      · rcases split second with also | ⟨rfl, -⟩
        · exact absurd (below other _ also) (Nat.lt_irrefl _)
        · rfl
    · intro owner isIdle job member
      by_cases mine : owner = client
      · rw [mine] at isIdle
        dsimp only at isIdle
        rw [Function.update_self] at isIdle
        cases isIdle
      · dsimp only at isIdle
        rw [Function.update_of_ne mine] at isIdle
        rw [others mine] at member
        exact later.retired job (idle owner isIdle job member)
    · intro owner job waits
      by_cases mine : owner = client
      · rw [mine] at waits ⊢
        dsimp only at waits
        rw [Function.update_self] at waits
        obtain rfl := Client.waiting.inj waits
        rw [own]
        refine ⟨List.mem_append_right _ (List.mem_singleton.mpr rfl), fun i member => ?_, fun given => ?_⟩
        · rcases List.mem_append.mp member with before | last
          · exact Nat.le_of_lt (below client i before)
          · exact Nat.le_of_eq (List.mem_singleton.mp last)
        · obtain ⟨entry, there, -⟩ := later.given _ (fun none => nomatch none) given
          exact absurd (lt_of_entry there) (by rw [number]; exact Nat.lt_irrefl _)
      · dsimp only at waits
        rw [Function.update_of_ne mine] at waits
        rw [others mine]
        obtain ⟨member, last, open1⟩ := waiting owner job waits
        exact ⟨member, last, fun given => open1 (later.given job (fun none => nomatch none) given)⟩
    · intro owner
      have filtered : ranBy owner (log ++ [.admitted client id call]) = ranBy owner log := by
        unfold ranBy
        rw [jobs]
        refine List.filter_congr fun job ran => ?_
        by_cases mine : owner = client
        · have apart : job ≠ id := fun equal => new (equal ▸ ran)
          rw [mine, own]
          simp [apart]
        · rw [others mine]
      rw [filtered]
      exact ordered owner
    · intro owner job late answer member
      have before : .delivered owner job late answer ∈ log := by
        rcases List.mem_append.mp member with earlier | last
        · exact earlier
        · cases List.mem_singleton.mp last
      obtain ⟨mine, facts⟩ := delivered owner job late answer before
      refine ⟨by rw [admittedBy_append]; exact List.mem_append_left _ mine, ?_⟩
      rcases facts with late | ⟨early, gone, found⟩
      · exact .inl late
      · refine .inr ⟨early, later.retired job gone, ?_⟩
        unfold IsDelivery
        rw [same, jobs]
        exact found.imp_right fun ⟨failed, why⟩ => ⟨failed, why.imp_right (later.marked job)⟩

/-- What a client becomes behind an answer that was made without a job. -/
theorem changed_after (clients : Nat → Client) (client : Nat) (answer : Option ResponseResult)
    {P : Nat → Prop} (rest : P client) (other : Nat) :
    Function.update clients client (Client.after answer) other = clients other
      ∨ Function.update clients client (Client.after answer) other = .gone
      ∨ Function.update clients client (Client.after answer) other = .idle ∧ P other := by
  by_cases mine : other = client
  · subst mine
    rw [Function.update_self]
    unfold Client.after
    split
    · exact .inr (.inl rfl)
    · split
      · exact .inr (.inr ⟨rfl, rest⟩)
      · exact .inr (.inl rfl)
  · rw [Function.update_of_ne mine]
    exact .inl rfl

theorem silent_answered (client : Nat) (call : ApiCall) (answer : Option ResponseResult) :
    Silent [.answered client call answer] := ⟨rfl, fun _ => rfl⟩

theorem silent_delivered (client : Nat) (job : JobId) (late : Bool) (answer : ResponseResult) :
    Silent [.delivered client job late answer] := ⟨rfl, fun _ => rfl⟩

theorem Refines.request (refines : Refines service clock store s log) (client : Nat) (call : ApiCall)
    (now : Nat) (time : Int) :
    Refines service clock store (s.request service client call now time).1
      (log ++ (s.request service client call now time).2) := by
  unfold TaskSystem.request
  split
  case h_2 =>
    rw [List.append_nil]
    exact refines
  case h_1 atRest =>
    -- an answer at once: the client has no job
    have answered : ∀ answer, Refines service clock store
        { s with clients := Function.update s.clients client (Client.after answer) }
        (log ++ [.answered client call answer]) := fun answer =>
      refines.quiet (silent_answered client call answer) rfl rfl (.refl none _) refines.backed
        (fun _ _ none => nomatch none) (changed_after s.clients client answer (refines.served.idle client atRest))
        (fun _ _ _ _ member => nomatch List.mem_singleton.mp member)
    have outcome := submitRequest_outcome s.backend call.request call.policy now
    dsimp only
    generalize s.backend.submitRequest call.request call.policy now = submission at outcome
    cases outcome with
    | synchronous other =>
      dsimp only
      rw [onResponse_store service call.policy time s.backend.store fun ⟨target, found⟩ => other target found]
      exact answered _
    | @rejected _ _ response => exact answered (some response)
    | overloaded => exact answered (some overloadResponse)
    | pending found admitted step => exact refines.enqueue atRest found step

/-- **What is collected for a job is its answer**, or a failure where it has none or was cancelled. -/
theorem Refines.collected (refines : Refines service clock store s log) {job : JobId} {answer : ResponseResult}
    (known : job < s.backend.works.length) (kept : ¬ GivenAway s.backend job)
    (found : (s.backend.collectResponse (some job)).2 = some answer) :
    Retired (s.backend.collectResponse (some job)).1 job
      ∧ IsDelivery (s.backend.collectResponse (some job)).1 log job answer := by
  have inside : job < s.backend.executor.jobs.length := refines.backed.objects ▸ known
  have there := List.getElem?_eq_getElem inside
  have object := List.getElem?_eq_getElem known
  have answers := refines.answers job _ object
  have outcome := collectResponse_outcome refines.backed.sound job
  generalize s.backend.collectResponse (some job) = result at outcome found
  cases outcome with
  | early => cases found
  | lost retired =>
    -- nobody has collected it, so it was cancelled
    obtain rfl := Option.some.inj found
    refine ⟨⟨_, there, retired _ there⟩, .inr ⟨rfl, .inr ⟨_, there, ?_⟩⟩⟩
    cases mark : s.backend.executor.jobs[job].cancelled with
    | true => exact mark
    | false => exact absurd ⟨_, there, retired _ there, mark⟩ kept
  | @ready entry at1 state retired =>
    refine ⟨retired, ?_⟩
    obtain rfl := Option.some.inj found
    rw [refines.backed.own job entry at1 (by rw [state]; decide)]
    simp only [Option.bind_some, object]
    cases response : s.backend.works[job].response with
    | some answer => exact .inl ((answers answer).mp response)
    | none =>
      refine .inr ⟨rfl, .inl fun ran => ?_⟩
      obtain ⟨run, member, ofJob⟩ := List.mem_map.mp ran
      have given := (answers run.answer).mpr ⟨run, member, ofJob, rfl⟩
      rw [response] at given
      cases given

theorem later_collect {b : TaskBackend} (sound : Sound b.executor) (job : JobId) :
    Later (some job) b (b.collectResponse (some job)).1 := by
  have outcome := collectResponse_outcome sound job
  generalize b.collectResponse (some job) = result at outcome
  cases outcome with
  | early => exact .refl _ _
  | lost => exact .refl _ _
  | ready => exact later_act sound (.collect (some job)) _ rfl

theorem collectResponse_objects {b : TaskBackend} (sound : Sound b.executor) (job : JobId) :
    (b.collectResponse (some job)).1.works = b.works ∧ (b.collectResponse (some job)).1.store = b.store := by
  have outcome := collectResponse_outcome sound job
  generalize b.collectResponse (some job) = result at outcome
  cases outcome <;> exact ⟨rfl, rfl⟩

/-- A collection that gives nothing changes nothing. -/
theorem collectResponse_none {b : TaskBackend} (sound : Sound b.executor) {job : JobId}
    (nothing : (b.collectResponse (some job)).2 = none) : (b.collectResponse (some job)).1 = b := by
  have outcome := collectResponse_outcome sound job
  generalize b.collectResponse (some job) = result at outcome nothing
  cases outcome with
  | early => rfl
  | lost => cases nothing
  | ready => cases nothing

theorem later_cancel {b : TaskBackend} (sound : Sound b.executor) (job : Option JobId) :
    Later none b (b.cancelRequest job) := later_act sound (.cancel job) _ rfl

/-- The client gets an answer, and its job is cancelled in case it still runs. -/
theorem Refines.deliver (refines : Refines service clock store s log) {client : Nat} {job : JobId}
    (waits : s.clients client = .waiting job) {next : TaskBackend} (works : next.works = s.backend.works)
    (same : next.store = s.backend.store) (later : Later (some job) s.backend next)
    (backed : Backed next (ranJobs log)) (late : Bool) (answer : ResponseResult)
    (facts : late = true ∧ answer = timeoutResponse
      ∨ late = false ∧ Retired next job ∧ IsDelivery next log job answer) :
    Refines service clock store
      { backend := next.cancelRequest (some job)
        clients := Function.update s.clients client (.after (some answer)) }
      (log ++ [.delivered client job late answer]) := by
  obtain ⟨mine, last, -⟩ := refines.served.waiting client job waits
  have cancelled := later_cancel backed.sound (some job)
  have all := later.trans (cancelled.weaken (some job))
  refine refines.quiet (silent_delivered client job late answer) works same all (backed.cancel (some job))
    (fun other j isJob waiting => ?_) (fun other => ?_) (fun other j late' answer' member => ?_)
  · -- the job has one owner, and the owner waits no more
    obtain rfl := Option.some.inj isJob
    by_cases this : other = client
    · subst this
      rw [Function.update_self] at waiting
      unfold Client.after at waiting
      dsimp only at waiting
      split at waiting <;> cases waiting
    · rw [Function.update_of_ne this] at waiting
      obtain ⟨also, -⟩ := refines.served.waiting other job waiting
      exact this (refines.served.owner other client job also mine)
  · rcases facts with ⟨-, rfl⟩ | ⟨-, gone, -⟩
    · by_cases this : other = client
      · subst this
        rw [Function.update_self]
        exact .inr (.inl rfl)
      · rw [Function.update_of_ne this]
        exact .inl rfl
    · refine changed_after s.clients client (some answer) (P := fun owner =>
        ∀ j ∈ admittedBy owner log, Retired (next.cancelRequest (some job)) j) (fun j member => ?_) other
      rcases Nat.lt_or_eq_of_le (last j member) with before | rfl
      · exact all.retired j (refines.served.settled client j member job mine before)
      · exact cancelled.retired j gone
  · obtain ⟨rfl, rfl, rfl, rfl⟩ := SystemEvent.delivered.inj (List.mem_singleton.mp member)
    refine ⟨mine, facts.imp_right fun ⟨early, gone, found⟩ => ⟨early, cancelled.retired _ gone, ?_⟩⟩
    exact found.imp_right fun ⟨failed, why⟩ => ⟨failed, why.imp_right (cancelled.marked _)⟩

theorem Refines.poll (refines : Refines service clock store s log) (client first second : Nat) :
    Refines service clock store (s.poll client first second).1 (log ++ (s.poll client first second).2) := by
  unfold TaskSystem.poll
  split
  case h_2 =>
    rw [List.append_nil]
    exact refines
  case h_1 job waits =>
    dsimp only
    have sound := refines.backed.sound
    obtain ⟨mine, -, kept⟩ := refines.served.waiting client job waits
    have known := refines.served.known client job mine
    -- what is collected, where it is still time
    generalize collection : (if first < s.backend.deadline job then s.backend.collectResponse (some job)
      else (s.backend, none)) = collected
    obtain ⟨next, result⟩ := collected
    have step : next.works = s.backend.works ∧ next.store = s.backend.store
        ∧ Later (some job) s.backend next ∧ Backed next (ranJobs log) ∧ (result = none → next = s.backend)
        ∧ ∀ answer, result = some answer → Retired next job ∧ IsDelivery next log job answer := by
      split at collection
      · obtain ⟨works, same⟩ := collectResponse_objects sound job
        have later := later_collect sound job
        have backed := refines.backed.collect job
        have nothing : (s.backend.collectResponse (some job)).2 = none →
            (s.backend.collectResponse (some job)).1 = s.backend := collectResponse_none sound
        have found : ∀ answer, (s.backend.collectResponse (some job)).2 = some answer → _ :=
          fun answer => refines.collected known kept
        rw [collection] at works same later backed nothing found
        exact ⟨works, same, later, backed, nothing, found⟩
      · cases collection
        exact ⟨rfl, rfl, .refl _ _, refines.backed, fun _ => rfl, fun _ none => nomatch none⟩
    obtain ⟨works, same, later, backed, nothing, found⟩ := step
    dsimp only
    cases late : decide (s.backend.deadline job ≤ second) with
    | true => exact refines.deliver waits works same later backed true timeoutResponse (.inl ⟨rfl, rfl⟩)
    | false =>
      cases result with
      | none =>
        rw [nothing rfl]
        simp only [Bool.false_eq_true, if_false, List.append_nil]
        exact refines
      | some answer =>
        exact refines.deliver waits works same later backed false answer (.inr ⟨rfl, found answer rfl⟩)

theorem Refines.leave (refines : Refines service clock store s log) (client : Nat) :
    Refines service clock store (s.leave client) log := by
  have leaves : ∀ {next : TaskBackend}, next.works = s.backend.works → next.store = s.backend.store →
      Later none s.backend next → Backed next (ranJobs log) → Refines service clock store
        { backend := next, clients := Function.update s.clients client .gone } log := by
    intro next works same later backed
    rw [← List.append_nil log]
    refine refines.quiet ⟨rfl, fun _ => rfl⟩ works same later backed (fun _ _ none => nomatch none)
      (fun other => ?_) (fun _ _ _ _ member => absurd member List.not_mem_nil)
    · by_cases this : other = client
      · subst this
        rw [Function.update_self]
        exact .inr (.inl rfl)
      · rw [Function.update_of_ne this]
        exact .inl rfl
  unfold TaskSystem.leave
  split
  · exact leaves rfl rfl (later_cancel refines.backed.sound _) (refines.backed.cancel _)
  · exact leaves rfl rfl (.refl _ _) refines.backed

theorem Refines.work (refines : Refines service clock store s log) (a : WorkerAction) :
    Refines service clock store { s with backend := (s.backend.work a).1 }
      (log ++ (s.backend.work a).2.map .executed) := by
  have outcome := work_cases refines.backed a
  generalize s.backend.work a = result at outcome
  cases outcome with
  | quiet works same later backed =>
    exact refines.quiet ⟨rfl, fun _ => rfl⟩ works same later backed (fun _ _ none => nomatch none)
      (fun _ => .inl rfl) (fun _ _ _ _ member => absurd member List.not_mem_nil)
  | ran found new state backed => exact refines.executed found new state backed

/-- **Every step keeps the refinement.** -/
theorem Refines.step (refines : Refines service clock store s log) (a : SystemAction) :
    Refines service clock store ((taskSystem service).step s a).1 (log ++ ((taskSystem service).step s a).2) := by
  cases a with
  | request client call now time => exact refines.request client call now time
  | poll client first second => exact refines.poll client first second
  | leave client =>
    show Refines service clock store (s.leave client) (log ++ [])
    rw [List.append_nil]
    exact refines.leave client
  | work a => exact refines.work a

end Steps

theorem refines_initial (service : StaticFileService) (clock : Int) {o : TaskExecutorOptions}
    {e : Executor WorkId} (made : makeExecutor o = .ok e) (store : TaskService) :
    Refines service clock store { backend := { executor := e, store := store } } [] := by
  refine ⟨backed_initial made store, rfl, fun job work none => (nomatch none), fun job work none => (nomatch none),
    fun run none => absurd none List.not_mem_nil, fun job work none => (nomatch none), ?_⟩
  exact ⟨fun _ _ none => absurd none List.not_mem_nil, fun _ => List.Pairwise.nil,
    fun _ _ none => absurd none List.not_mem_nil, fun _ _ _ none => absurd none List.not_mem_nil,
    fun _ _ _ none => absurd none List.not_mem_nil, fun _ _ none => (nomatch none), fun _ => List.Pairwise.nil,
    fun _ _ _ _ none => absurd none List.not_mem_nil⟩

/-- A client's executed jobs are in the order of its requests. -/
theorem Served.respects {s : TaskSystem} {log : List SystemEvent} (served : Served s log) (client : Nat) :
    (ranBy client log).Sublist (admittedBy client log) := by
  have ordered := served.ordered client
  have inside : ranBy client log ⊆ admittedBy client log := fun job member =>
    of_decide_eq_true (List.mem_filter.mp member).2
  have distinct : (ranBy client log).Nodup := ordered.imp Nat.ne_of_lt
  exact List.sublist_of_subperm_of_pairwise (List.subperm_of_subset distinct inside)
    (ordered.imp Nat.le_of_lt) ((served.increasing client).imp Nat.le_of_lt)

/-- A list of the tasks is asked for, computed and collected. -/
def sampleActions : List SystemAction :=
  [.request 7 { request := { method := text "GET", target := text "/api/tasks" }, policy := .keepAlive } 0 0,
    .work (.take 0), .work (.execute 0 1), .work (.enter 0 2), .work (.run 0), .work (.finish 0), .poll 7 3 4]

end HpServer.App
