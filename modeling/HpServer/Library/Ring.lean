/-
**Rings: a queue in a fixed number of cells.**

The cells are written in place and never cleared, so a cell outside the queue holds what was there before.

* `RingQueue.view` — the queue, oldest first, whatever the position of its head.
* `push_view` — **writing behind the last cell appends**; `take_eq`, `take_view` — **copying from the head takes
  the oldest**.
-/

import Mathlib.Data.List.Basic
import Mathlib.Data.Nat.ModEq
import Mathlib.Tactic

namespace Rings

variable {α : Type*}

structure RingQueue (α : Type*) where
  slots : List α
  head : Nat
  size : Nat
  inside : head < slots.length
  fits : size ≤ slots.length

namespace RingQueue

variable (r : RingQueue α)

/-- An empty ring of so many cells. -/
def empty (slots : List α) (some : 0 < slots.length) : RingQueue α := ⟨slots, 0, 0, some, Nat.zero_le _⟩

/-- Where the cell stands that is so far behind the head. -/
def place (i : Nat) : Nat := (r.head + i) % r.slots.length

theorem place_lt (i : Nat) : r.place i < r.slots.length := Nat.mod_lt _ (Nat.lt_of_le_of_lt (Nat.zero_le _) r.inside)

def cell (i : Nat) : α := r.slots.get ⟨r.place i, r.place_lt i⟩

theorem cell_entry (i : Nat) : r.slots[r.place i]? = some (r.cell i) := by
  rw [List.getElem?_eq_getElem (r.place_lt i)]
  rfl

/-- **The queue, oldest first.** -/
def view : List α := (List.range r.size).map r.cell

@[simp] theorem view_length : r.view.length = r.size := by simp [view]

/-- The cell behind the last is written; it held something already. -/
def push (write : α → α) (room : r.size < r.slots.length) : RingQueue α where
  slots := r.slots.set (r.place r.size) (write (r.cell r.size))
  head := r.head
  size := r.size + 1
  inside := by
    rw [List.length_set]
    exact r.inside
  fits := by
    rw [List.length_set]
    exact room

/-- The head moves on by one cell; the size is left to the end of a loop. -/
def skip : RingQueue α where
  slots := r.slots
  head := (r.head + 1) % r.slots.length
  size := r.size
  inside := r.place_lt 1
  fits := r.fits

/-- The loop that copies cells from the head. -/
def copy : Nat → RingQueue α → List α × RingQueue α
  | 0, r => ([], r)
  | count + 1, r =>
    let rest := copy count r.skip
    (r.cell 0 :: rest.1, rest.2)

def shrink (count : Nat) : RingQueue α where
  slots := r.slots
  head := r.head
  size := r.size - count
  inside := r.inside
  fits := Nat.le_trans (Nat.sub_le _ _) r.fits

/-- So many of the oldest are taken. -/
def take (count : Nat) : List α × RingQueue α := ((copy count r).1, (copy count r).2.shrink count)

/-- Different places of the queue are different cells. -/
theorem place_inj {i j : Nat} (first : i < r.slots.length) (second : j < r.slots.length)
    (same : r.place i = r.place j) : i = j :=
  Nat.ModEq.eq_of_lt_of_lt (Nat.ModEq.add_left_cancel' r.head same) first second

/-- **Writing behind the last cell appends to the queue.** -/
theorem push_view (write : α → α) (room : r.size < r.slots.length) :
    (r.push write room).view = r.view ++ [write (r.cell r.size)] := by
  have cells : ∀ i, (r.push write room).cell i
      = if r.place r.size = r.place i then write (r.cell r.size) else r.cell i := by
    intro i
    have place : (r.push write room).place i = r.place i := by
      show (r.head + i) % (r.slots.set _ _).length = _
      rw [List.length_set]
      rfl
    have entry := (r.push write room).cell_entry i
    rw [place] at entry
    apply Option.some.inj
    rw [← entry]
    show (r.slots.set (r.place r.size) _)[r.place i]? = _
    split
    case isTrue same => rw [← same, List.getElem?_set_self (r.place_lt _)]
    case isFalse other => rw [List.getElem?_set_ne other, r.cell_entry i]
  show (List.range (r.size + 1)).map _ = _
  rw [List.range_succ, List.map_append, List.map_singleton, cells r.size, if_pos rfl]
  congr 1
  apply List.map_congr_left
  intro i below
  have inside := List.mem_range.mp below
  rw [cells i, if_neg]
  intro same
  exact Nat.ne_of_gt inside (r.place_inj room (Nat.lt_trans inside room) same)

theorem skip_cell (i : Nat) : r.skip.cell i = r.cell (i + 1) := by
  have place : r.skip.place i = r.place (i + 1) := by
    show ((r.head + 1) % r.slots.length + i) % r.slots.length = (r.head + (i + 1)) % r.slots.length
    rw [Nat.mod_add_mod]
    congr 1
    omega
  unfold cell
  rw [List.get_eq_getElem, List.get_eq_getElem]
  simp only [place]
  rfl

theorem copy_cell (count : Nat) : ∀ (r : RingQueue α) (i : Nat), (copy count r).2.cell i = r.cell (i + count) := by
  induction count with
  | zero => exact fun r i => rfl
  | succ count ih =>
    intro r i
    rw [copy, ih, skip_cell, Nat.add_assoc]

theorem copy_eq (count : Nat) : ∀ r : RingQueue α, (copy count r).1 = (List.range count).map r.cell := by
  induction count with
  | zero => exact fun r => rfl
  | succ count ih =>
    intro r
    show r.cell 0 :: (copy count r.skip).1 = _
    rw [ih, List.range_succ_eq_map, List.map_cons, List.map_map]
    congr 1
    apply List.map_congr_left
    exact fun i _ => skip_cell r i

theorem copy_size (count : Nat) : ∀ r : RingQueue α, (copy count r).2.size = r.size := by
  induction count with
  | zero => exact fun r => rfl
  | succ count ih => exact fun r => ih r.skip

theorem copy_slots (count : Nat) : ∀ r : RingQueue α, (copy count r).2.slots = r.slots := by
  induction count with
  | zero => exact fun r => rfl
  | succ count ih => exact fun r => ih r.skip

@[simp] theorem take_size (count : Nat) : (r.take count).2.size = r.size - count := by
  show (copy count r).2.size - count = _
  rw [copy_size]

@[simp] theorem take_slots (count : Nat) : (r.take count).2.slots = r.slots := copy_slots count r

/-- **What is copied from the head is the oldest part of the queue**, -/
theorem take_eq {count : Nat} (some : count ≤ r.size) : (r.take count).1 = r.view.take count := by
  show (copy count r).1 = _
  rw [copy_eq, view, ← List.map_take, List.take_range, Nat.min_eq_left some]

/-- and the rest of the queue is what is left. -/
theorem take_view (count : Nat) : (r.take count).2.view = r.view.drop count := by
  have left : (r.take count).2.view = (List.range (r.size - count)).map fun i => r.cell (i + count) := by
    show (List.range ((copy count r).2.size - count)).map _ = _
    rw [copy_size]
    apply List.map_congr_left
    exact fun i _ => copy_cell count r i
  rw [left]
  apply List.ext_getElem
  · simp
  · intro i first second
    simp [view, Nat.add_comm]

end RingQueue

end Rings
