import Mathlib.Data.List.TakeDrop

/-! # Flat memory

A block of memory is the list of its cells. `slice` reads a range of it and `store` copies a
text over a range, which is all that a byte buffer does to its memory. Reading what was stored
gives the text, and reading anywhere else gives what was there before.
-/

namespace MerlinC.Math

variable {α : Type*}

/-- The cells of a range. -/
def slice (mem : List α) (pos len : ℕ) : List α := (mem.drop pos).take len

/-- A text copied over the cells from a position on. -/
def store (mem : List α) (pos : ℕ) (text : List α) : List α :=
  mem.take pos ++ text ++ mem.drop (pos + text.length)

variable {mem text : List α} {pos len : ℕ}

@[simp] theorem slice_zero (mem : List α) (pos : ℕ) : slice mem pos 0 = [] := List.take_zero

theorem length_slice (inside : pos + len ≤ mem.length) : (slice mem pos len).length = len := by
  rw [slice, List.length_take, List.length_drop]
  omega

@[simp] theorem length_store (inside : pos + text.length ≤ mem.length) :
    (store mem pos text).length = mem.length := by
  simp only [store, List.length_append, List.length_take, List.length_drop]
  omega

/-- A range is the ranges of its two parts. -/
theorem slice_add (mem : List α) (pos first second : ℕ) :
    slice mem pos (first + second) = slice mem pos first ++ slice mem (pos + first) second := by
  rw [slice, List.take_add, List.drop_drop]
  rfl

theorem slice_take {count : ℕ} (part : count ≤ len) :
    (slice mem pos len).take count = slice mem pos count := by
  rw [slice, List.take_take, Nat.min_eq_left part]
  rfl

theorem slice_drop (mem : List α) (pos len count : ℕ) :
    (slice mem pos len).drop count = slice mem (pos + count) (len - count) := by
  rw [slice, List.drop_take, List.drop_drop]
  rfl

/-- The memory around a store. -/
theorem take_store (inside : pos ≤ mem.length) : (store mem pos text).take pos = mem.take pos := by
  rw [store, List.append_assoc]
  exact List.take_left' (List.length_take_of_le inside)

theorem drop_store (inside : pos ≤ mem.length) :
    (store mem pos text).drop pos = text ++ mem.drop (pos + text.length) := by
  rw [store, List.append_assoc]
  exact List.drop_left' (List.length_take_of_le inside)

/-- A stored text can be read back. -/
theorem slice_store (inside : pos ≤ mem.length) :
    slice (store mem pos text) pos text.length = text := by
  rw [slice, drop_store inside, List.take_left]

/-- A store leaves what lies before it. -/
theorem slice_store_before {start : ℕ} (inside : pos ≤ mem.length) (before : start + len ≤ pos) :
    slice (store mem pos text) start len = slice mem start len := by
  have read (cells : List α) : slice cells start len = slice (cells.take pos) start len := by
    rw [slice, slice, List.drop_take, List.take_take, Nat.min_eq_left (by omega)]
  rw [read (store mem pos text), take_store inside, ← read mem]

/-- A range that ends in a stored text. -/
theorem slice_store_append {start : ℕ} (inside : start + len ≤ mem.length) :
    slice (store mem (start + len) text) start (len + text.length) =
      slice mem start len ++ text := by
  rw [slice_add, slice_store inside, slice_store_before inside (Nat.le_refl _)]

/-- A range that starts with a stored text. -/
theorem slice_store_prepend (inside : pos + text.length + len ≤ mem.length) :
    slice (store mem pos text) pos (text.length + len) =
      text ++ slice mem (pos + text.length) len := by
  rw [slice, drop_store (by omega), List.take_length_add_append]
  rfl

end MerlinC.Math
