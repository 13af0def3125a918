/-
**`business/TaskService`: the task store.**

`std::map` is an ordered tree map. `TaskService` carries what its own operations keep: a task stands under
its identifier, every identifier in the map has been issued, there are at most `kMaxTasks` of them, and the
next identifier is a 64-bit word.

* `createTask`, `getTask`, `listTasks`, `replaceTask`, `deleteTask` — each is one locked section.
* `lastIssued` — the identifiers issued so far are those from 1 to it.
-/

import HpServer.Base.Bytes
import HpServer.Library.Words

namespace HpServer.Business

open Std (TreeMap)

/-- The largest `TaskId`, which is a `uint64_t`. -/
def maxTaskId : Nat := Words.modulus - 1

def kMaxTasks : Nat := 128

structure TaskInput where
  title : Bytes
  completed : Bool := false
  deriving DecidableEq, Repr

structure Task where
  id : Nat := 0
  input : TaskInput
  deriving DecidableEq, Repr

inductive TaskStatus where
  | success | notFound | capacity | idExhausted
  deriving DecidableEq, Repr

structure TaskResult where
  status : TaskStatus
  task : Option Task := none
  deriving DecidableEq, Repr

abbrev TaskMap := TreeMap Nat Task compare

/-- The identifiers issued so far are those from 1 to this one. -/
def lastIssuedOf (nextId : Nat) (exhausted : Bool) : Nat := if exhausted then nextId else nextId - 1

/-- When an identifier is used up it is the last one issued. -/
theorem lastIssuedOf_next (nextId : Nat) :
    lastIssuedOf (if nextId = maxTaskId then nextId else nextId + 1) (decide (nextId = maxTaskId)) = nextId := by
  unfold lastIssuedOf
  by_cases full : nextId = maxTaskId
  · simp [full]
  · simp [full]

structure TaskService where
  tasks : TaskMap := {}
  nextId : Nat := 1
  exhausted : Bool := false
  keyed : ∀ (id : Nat) (task : Task), tasks[id]? = some task → task.id = id := by simp
  issued : ∀ id, id ∈ tasks → id ≤ lastIssuedOf nextId exhausted := by simp
  few : tasks.size ≤ kMaxTasks := by decide
  word : 1 ≤ nextId ∧ nextId ≤ maxTaskId := by decide
  last : exhausted = true → nextId = maxTaskId := by decide

namespace TaskService

def lastIssued (s : TaskService) : Nat := lastIssuedOf s.nextId s.exhausted

theorem lastIssued_of_more (s : TaskService) (more : s.exhausted = false) : s.lastIssued = s.nextId - 1 := by
  simp [lastIssued, lastIssuedOf, more]

theorem lastIssued_le (s : TaskService) : s.lastIssued ≤ maxTaskId := by
  have word := s.word
  unfold lastIssued lastIssuedOf
  split
  · exact word.2
  · omega

/-- An identifier in use is a word. -/
theorem id_word (s : TaskService) {id : Nat} (present : id ∈ s.tasks) : id ≤ maxTaskId :=
  Nat.le_trans (s.issued id present) s.lastIssued_le

/-- The next identifier is in no use. -/
theorem nextId_fresh (s : TaskService) (more : s.exhausted = false) : s.nextId ∉ s.tasks := by
  intro present
  have old : s.nextId ≤ s.lastIssued := s.issued _ present
  have word := s.word
  rw [s.lastIssued_of_more more] at old
  omega

/-- The end of `createTask`: the task enters the map, then the identifier is used up. -/
def emplaceTask (s : TaskService) (input : TaskInput) (room : s.tasks.size ≠ kMaxTasks)
    (more : s.exhausted = false) : TaskService where
  tasks := s.tasks.insertIfNew s.nextId { id := s.nextId, input := input }
  nextId := if s.nextId = maxTaskId then s.nextId else s.nextId + 1
  exhausted := s.nextId = maxTaskId
  keyed := by
    intro id task found
    rw [TreeMap.getElem?_insertIfNew] at found
    split at found
    case isTrue new =>
      cases found
      exact Nat.compare_eq_eq.mp new.1
    case isFalse => exact s.keyed id task found
  issued := by
    intro id present
    have word := s.word
    rw [lastIssuedOf_next]
    rcases TreeMap.mem_insertIfNew.mp present with new | old
    · exact Nat.le_of_eq (Nat.compare_eq_eq.mp new).symm
    · have below : id ≤ s.lastIssued := s.issued id old
      rw [s.lastIssued_of_more more] at below
      omega
  few := by
    have few := s.few
    rw [TreeMap.size_insertIfNew]
    split
    · exact few
    · omega
  word := by
    have word := s.word
    split
    · exact word
    · omega
  last := by
    intro full
    rw [decide_eq_true_eq] at full
    rw [if_pos full, full]

theorem getElem?_emplace (s : TaskService) (input : TaskInput) (room : s.tasks.size ≠ kMaxTasks)
    (more : s.exhausted = false) (id : Nat) :
    (s.emplaceTask input room more).tasks[id]?
      = if id = s.nextId then some { id := s.nextId, input := input } else s.tasks[id]? := by
  show (s.tasks.insertIfNew s.nextId _)[id]? = _
  rw [TreeMap.getElem?_insertIfNew]
  have fresh := s.nextId_fresh more
  by_cases same : id = s.nextId
  · rw [if_pos same, if_pos ⟨Nat.compare_eq_eq.mpr same.symm, fresh⟩]
  · rw [if_neg same, if_neg fun new => same (Nat.compare_eq_eq.mp new.1).symm]

theorem lastIssued_emplace (s : TaskService) (input : TaskInput) (room : s.tasks.size ≠ kMaxTasks)
    (more : s.exhausted = false) : (s.emplaceTask input room more).lastIssued = s.nextId := by
  show lastIssuedOf (if s.nextId = maxTaskId then s.nextId else s.nextId + 1)
    (decide (s.nextId = maxTaskId)) = s.nextId
  exact lastIssuedOf_next s.nextId

def createTask (s : TaskService) (input : TaskInput) : TaskResult × TaskService :=
  if full : s.tasks.size = kMaxTasks then ({ status := .capacity }, s)
  else if more : s.exhausted = false then
    ({ status := .success, task := some { id := s.nextId, input := input } }, s.emplaceTask input full more)
  else ({ status := .idExhausted }, s)

def getTask (s : TaskService) (id : Nat) : TaskResult :=
  match s.tasks[id]? with
  | none => { status := .notFound }
  | some task => { status := .success, task := some task }

def listTasks (s : TaskService) : List Task := s.tasks.toList.map fun entry => entry.2

/-- The task under `id`, which is there, gets another input. -/
def swapInput (s : TaskService) (id : Nat) (task : Task) (found : s.tasks[id]? = some task)
    (input : TaskInput) : TaskService where
  tasks := s.tasks.insert id { task with input := input }
  nextId := s.nextId
  exhausted := s.exhausted
  keyed := by
    intro other entry held
    rw [TreeMap.getElem?_insert] at held
    split at held
    case isTrue same =>
      cases held
      rw [← Nat.compare_eq_eq.mp same]
      exact s.keyed id task found
    case isFalse => exact s.keyed other entry held
  issued := by
    intro other present
    rcases TreeMap.mem_insert.mp present with same | old
    · rw [← Nat.compare_eq_eq.mp same]
      exact s.issued id (TreeMap.mem_iff_isSome_getElem?.mpr (by simp [found]))
    · exact s.issued other old
  few := by
    have present : s.tasks.contains id = true := by
      rw [TreeMap.contains_eq_isSome_getElem?, found]
      rfl
    rw [TreeMap.size_insert, if_pos present]
    exact s.few
  word := s.word
  last := s.last

theorem getElem?_swap (s : TaskService) {id : Nat} {task : Task} (found : s.tasks[id]? = some task)
    (input : TaskInput) (other : Nat) :
    (s.swapInput id task found input).tasks[other]?
      = if other = id then some { task with input := input } else s.tasks[other]? := by
  show (s.tasks.insert id _)[other]? = _
  rw [TreeMap.getElem?_insert]
  by_cases same : other = id
  · rw [if_pos same, if_pos (Nat.compare_eq_eq.mpr same.symm)]
  · rw [if_neg same, if_neg fun equal => same (Nat.compare_eq_eq.mp equal).symm]

def replaceTask (s : TaskService) (id : Nat) (input : TaskInput) : TaskResult × TaskService :=
  match found : s.tasks[id]? with
  | none => ({ status := .notFound }, s)
  | some task =>
    ({ status := .success, task := some { id := id, input := input } }, s.swapInput id task found input)

/-- The map without `id`. -/
def eraseTask (s : TaskService) (id : Nat) : TaskService where
  tasks := s.tasks.erase id
  nextId := s.nextId
  exhausted := s.exhausted
  keyed := by
    intro other task held
    rw [TreeMap.getElem?_erase] at held
    split at held
    case isTrue => cases held
    case isFalse => exact s.keyed other task held
  issued := fun other present => s.issued other (TreeMap.mem_erase.mp present).2
  few := Nat.le_trans TreeMap.size_erase_le s.few
  word := s.word
  last := s.last

theorem getElem?_erase (s : TaskService) (id other : Nat) :
    (s.eraseTask id).tasks[other]? = if other = id then none else s.tasks[other]? := by
  show (s.tasks.erase id)[other]? = _
  rw [TreeMap.getElem?_erase]
  by_cases same : other = id
  · rw [if_pos same, if_pos (Nat.compare_eq_eq.mpr same.symm)]
  · rw [if_neg same, if_neg fun equal => same (Nat.compare_eq_eq.mp equal).symm]

def deleteTask (s : TaskService) (id : Nat) : TaskResult × TaskService :=
  if id ∈ s.tasks then ({ status := .success }, s.eraseTask id) else ({ status := .notFound }, s)

end TaskService

end HpServer.Business
