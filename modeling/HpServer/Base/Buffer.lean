/-
**`base/Buffer` and `base/FileRegion`: what a connection reads into and writes from.**

A buffer is its storage and three numbers; the structure carries the order of its cursors, so no
operation can leave them crossed. An operation that throws has no result.

* `prepareWritableBytes`, `commitWrittenBytes`, `consumeReadableBytes`, `appendBytes`, `releaseEmpty`.
* `readableView` — the bytes not consumed yet, and what each operation does to them: **preparing moves
  or copies them without changing them** (`view_prepare`), a commit appends the front of the prepared
  tail (`view_commit`), consuming drops from the front (`view_consume`).
* `FileRegion` — a part of an open file of fixed contents that is still to be sent.
-/

import HpServer.Base.Bytes

namespace HpServer.Base

/-- `storage_` is an array of `capacity` cells. -/
structure Buffer where
  limit : Nat
  storage : Nat → UInt8 := fun _ => 0
  capacity : Nat := 0
  read : Nat := 0
  write : Nat := 0
  prepared : Nat := 0
  readable : read ≤ write := by omega
  written : write + prepared ≤ capacity := by omega
  limited : capacity ≤ limit := by omega

/-- A buffer before its first byte. -/
def emptyBuffer (limit : Nat) : Buffer := { limit := limit }

/-- The largest `size_t`. -/
def sizeMax : Nat := 2 ^ 64 - 1

namespace Buffer

variable (b : Buffer)

def readableBytes : Nat := b.write - b.read
def writableBytes : Nat := b.capacity - b.write

def readableView : Bytes := slice b.storage b.read b.readableBytes

theorem readableBytes_le : b.readableBytes ≤ b.capacity := by
  have := b.readable
  have := b.written
  unfold readableBytes
  omega

/-- The capacity after growing for `required` bytes. -/
def grown (required : Nat) : Nat :=
  max required (if b.limit - b.capacity < b.capacity then b.limit else b.capacity * 2)

theorem grown_le {required : Nat} (fits : required ≤ b.limit) : b.grown required ≤ b.limit := by
  have := b.limited
  unfold grown
  split <;> omega

/-- The readable bytes moved to the front of storage of some capacity. -/
def relocate (capacity count : Nat) (room : b.readableBytes + count ≤ capacity)
    (limited : capacity ≤ b.limit) : Buffer :=
  { limit := b.limit
    storage := fun i => b.storage (b.read + i)
    capacity := capacity
    read := 0
    write := b.readableBytes
    prepared := count
    readable := Nat.zero_le _
    written := room
    limited := limited }

/-- Room for `count` bytes behind the readable ones, in place if it is there, else by moving or by
allocating, which may be refused; nothing where the source throws. -/
def prepareWritableBytes (count : Nat) (allocates : Bool) : Option Buffer :=
  if past : b.limit - b.readableBytes < count then none
  else if inPlace : count ≤ b.writableBytes then
    some
      { b with
        prepared := count
        written := by
          have := b.written
          unfold writableBytes at inPlace
          omega }
  else if moved : b.readableBytes + count ≤ b.capacity then
    some (b.relocate b.capacity count moved b.limited)
  else if !allocates then none
  else
    some
      (b.relocate (b.grown (b.readableBytes + count)) count (Nat.le_max_left _ _)
        (b.grown_le (by
          have := b.readableBytes_le
          have := b.limited
          omega)))

/-- Bytes written to the prepared tail by its holder. -/
def fill (bytes : Bytes) : Buffer :=
  { b with storage := fun i => if b.write ≤ i then bytes.getD (i - b.write) (b.storage i) else b.storage i }

def commitWrittenBytes (count : Nat) : Option Buffer :=
  if fits : count ≤ b.prepared then
    some
      { b with
        write := b.write + count
        prepared := 0
        readable := Nat.le_trans b.readable (Nat.le_add_right _ _)
        written := by
          have := b.written
          omega }
  else none

def consumeReadableBytes (count : Nat) : Option Buffer :=
  if fits : count ≤ b.readableBytes then
    if b.read + count = b.write then
      some { b with read := 0, write := 0, prepared := 0, readable := Nat.le_refl _, written := Nat.zero_le _ }
    else
      some
        { b with
          read := b.read + count
          prepared := 0
          readable := by
            have := b.readable
            unfold readableBytes at fits
            omega
          written := Nat.le_trans (Nat.le_add_right _ _) b.written }
  else none

def appendBytes (bytes : Bytes) (allocates : Bool) : Option Buffer := do
  let tail ← b.prepareWritableBytes bytes.length allocates
  (tail.fill bytes).commitWrittenBytes bytes.length

/-- Storage of more than `retainLimit` bytes is given back once nothing is readable. -/
def releaseEmpty (retainLimit : Nat) : Buffer :=
  if b.readableBytes = 0 && retainLimit < b.capacity then { limit := b.limit } else b

/-! ### The readable bytes -/

@[simp] theorem view_length : b.readableView.length = b.readableBytes := slice_length _ _ _

theorem view_empty : b.readableView = [] ↔ b.readableBytes = 0 := by
  rw [← List.length_eq_zero_iff, view_length]

theorem view_relocate (capacity count : Nat) (room : b.readableBytes + count ≤ capacity)
    (limited : capacity ≤ b.limit) :
    (b.relocate capacity count room limited).readableView = b.readableView := by
  show slice (fun i => b.storage (b.read + i)) 0 (b.readableBytes - 0) = _
  refine List.map_congr_left fun i _ => ?_
  show b.storage (b.read + (0 + i)) = b.storage (b.read + i)
  rw [Nat.zero_add]

/-- What `prepareWritableBytes` leaves: the same readable bytes and limit, and the room asked for. -/
theorem view_prepare {count : Nat} {allocates : Bool} {next : Buffer}
    (ready : b.prepareWritableBytes count allocates = some next) :
    next.readableView = b.readableView ∧ next.prepared = count ∧ next.limit = b.limit := by
  unfold prepareWritableBytes at ready
  split at ready
  · cases ready
  · split at ready
    · cases ready
      exact ⟨rfl, rfl, rfl⟩
    · split at ready
      · cases ready
        exact ⟨b.view_relocate _ _ _ _, rfl, rfl⟩
      · split at ready
        · cases ready
        · cases ready
          exact ⟨b.view_relocate _ _ _ _, rfl, rfl⟩

/-- With memory to be had, `prepareWritableBytes` throws only past the limit. -/
theorem prepare_isSome {count : Nat} (fits : b.readableBytes + count ≤ b.limit) :
    ∃ next, b.prepareWritableBytes count true = some next := by
  unfold prepareWritableBytes
  rw [dif_neg (by omega)]
  split
  · exact ⟨_, rfl⟩
  · split <;> exact ⟨_, rfl⟩

/-- The cells behind the readable bytes that are prepared. -/
def tail : Bytes := slice b.storage b.write b.prepared

@[simp] theorem tail_length : b.tail.length = b.prepared := slice_length _ _ _

/-- **A commit moves the front of the tail behind the readable bytes.** -/
theorem view_commit {count : Nat} {next : Buffer} (done : b.commitWrittenBytes count = some next) :
    next.readableView = b.readableView ++ b.tail.take count ∧ next.limit = b.limit := by
  unfold commitWrittenBytes at done
  split at done
  case isFalse => cases done
  case isTrue fits =>
    cases done
    refine ⟨?_, rfl⟩
    have order := b.readable
    have place : ∀ i, b.read + (b.readableBytes + i) = b.write + i := by
      intro i
      unfold readableBytes
      omega
    have size : b.write + count - b.read = b.readableBytes + count := by
      unfold readableBytes
      omega
    have front : b.tail.take count = slice b.storage b.write count := by
      rw [tail, slice, ← List.map_take, List.take_range, Nat.min_eq_left fits]
      rfl
    show slice b.storage b.read (b.write + count - b.read) = _
    rw [front, size, slice, List.range_add, List.map_append, List.map_map]
    congr 1
    exact List.map_congr_left fun i _ => congrArg b.storage (place i)

/-- The holder of the tail writes to its front. -/
theorem fill_tail {bytes : Bytes} (fits : bytes.length ≤ b.prepared) :
    (b.fill bytes).readableView = b.readableView ∧ (b.fill bytes).tail = bytes ++ b.tail.drop bytes.length := by
  have order := b.readable
  constructor
  · refine slice_congr fun i above below => if_neg ?_
    have below : i < b.read + (b.write - b.read) := below
    omega
  · refine List.ext_getElem (by simp [tail, fill]; omega) fun i inside _ => ?_
    have inside : i < b.prepared := by simpa [tail, fill] using inside
    have cell : (b.fill bytes).tail[i]? = some (bytes.getD i (b.storage (b.write + i))) := by
      simp [tail, fill, slice, inside]
    rw [← Option.some_inj, ← List.getElem?_eq_getElem, cell, ← List.getElem?_eq_getElem]
    by_cases front : i < bytes.length
    · rw [List.getElem?_append_left front]
      simp [front]
    · have back : bytes.length + (i - bytes.length) = i := by omega
      rw [List.getElem?_append_right (by omega), List.getElem?_drop, back]
      simp [tail, slice, inside, front]

theorem view_commit_fill {bytes : Bytes} {next : Buffer}
    (done : (b.fill bytes).commitWrittenBytes bytes.length = some next) :
    next.readableView = b.readableView ++ bytes ∧ next.limit = b.limit := by
  have fits : bytes.length ≤ b.prepared := by
    unfold commitWrittenBytes at done
    split at done
    case isTrue fits => exact fits
    case isFalse => cases done
  obtain ⟨view, tail⟩ := b.fill_tail fits
  obtain ⟨added, limit⟩ := (b.fill bytes).view_commit done
  rw [added, view, tail, List.take_left]
  exact ⟨rfl, limit⟩

theorem commit_isSome {bytes : Bytes} (room : bytes.length ≤ b.prepared) :
    ∃ next, (b.fill bytes).commitWrittenBytes bytes.length = some next := by
  unfold commitWrittenBytes
  exact ⟨_, dif_pos room⟩

/-- **What is appended stands behind what was readable.** -/
theorem view_append {bytes : Bytes} {allocates : Bool} {next : Buffer}
    (done : b.appendBytes bytes allocates = some next) :
    next.readableView = b.readableView ++ bytes ∧ next.limit = b.limit := by
  obtain ⟨tail, ready, commit⟩ := Option.bind_eq_some_iff.mp done
  obtain ⟨same, -, limit⟩ := b.view_prepare ready
  obtain ⟨view, kept⟩ := tail.view_commit_fill commit
  exact ⟨by rw [view, same], by rw [kept, limit]⟩

/-- With memory to be had, appending within the limit succeeds. -/
theorem append_isSome {bytes : Bytes} (fits : b.readableBytes + bytes.length ≤ b.limit) :
    ∃ next, b.appendBytes bytes true = some next := by
  obtain ⟨tail, ready⟩ := b.prepare_isSome fits
  obtain ⟨-, room, -⟩ := b.view_prepare ready
  obtain ⟨next, done⟩ := tail.commit_isSome (Nat.le_of_eq room.symm)
  exact ⟨next, Option.bind_eq_some_iff.mpr ⟨tail, ready, done⟩⟩

/-- **Consuming drops from the front**, and never more than is there. -/
theorem view_consume {count : Nat} (fits : count ≤ b.readableBytes) :
    ∃ next, b.consumeReadableBytes count = some next ∧ next.readableView = b.readableView.drop count
      ∧ next.limit = b.limit := by
  have order := b.readable
  unfold consumeReadableBytes
  rw [dif_pos fits]
  split
  case isTrue whole =>
    refine ⟨_, rfl, ?_, rfl⟩
    have all : b.readableView.length ≤ count := by
      rw [view_length]
      unfold readableBytes
      omega
    rw [List.drop_eq_nil_of_le all]
    rfl
  case isFalse part =>
    refine ⟨_, rfl, ?_, rfl⟩
    show slice b.storage (b.read + count) (b.write - (b.read + count)) = _
    refine List.ext_getElem ?_ fun i _ _ => ?_
    · simp [readableBytes]
      omega
    · simp [readableView, slice, Nat.add_assoc]

theorem view_release (retainLimit : Nat) :
    (b.releaseEmpty retainLimit).readableView = b.readableView
      ∧ (b.releaseEmpty retainLimit).limit = b.limit := by
  unfold releaseEmpty
  split
  case isTrue empty =>
    have none : b.readableBytes = 0 := by simpa using (Bool.and_eq_true_iff.mp empty).1
    exact ⟨(b.view_empty.mpr none).symm, rfl⟩
  case isFalse => exact ⟨rfl, rfl⟩

end Buffer

/-! ### Parts of a file -/

/-- A region of a file with the given contents. `file_` is open until everything is sent. -/
structure FileRegion where
  contents : Nat → UInt8
  offset : Nat
  remaining : Nat
  isOpen : Bool := true

namespace FileRegion

/-- The bytes still to be sent. -/
def view (file : FileRegion) : Bytes := slice file.contents file.offset file.remaining

def advanceFileOffset (file : FileRegion) (bytes : Nat) : Option FileRegion :=
  if bytes ≤ file.remaining then
    some
      { file with
        offset := file.offset + bytes
        remaining := file.remaining - bytes
        isOpen := file.isOpen && file.remaining ≠ bytes }
  else none

@[simp] theorem view_length (file : FileRegion) : file.view.length = file.remaining := slice_length _ _ _

theorem view_advance {file : FileRegion} {bytes : Nat} (fits : bytes ≤ file.remaining) :
    ∃ next, file.advanceFileOffset bytes = some next ∧ next.view = file.view.drop bytes
      ∧ next.remaining = file.remaining - bytes := by
  refine ⟨_, if_pos fits, ?_, rfl⟩
  show slice file.contents (file.offset + bytes) (file.remaining - bytes) = _
  refine List.ext_getElem ?_ fun i _ _ => ?_
  · simp
  · simp [view, slice, Nat.add_assoc]

end FileRegion

end HpServer.Base
