import Mathlib.Logic.Equiv.Basic
import Mathlib.Order.Lattice

/-! # Binary heaps

The keys at positions below `n` form a heap when none is less than the key at its parent. A key
that changes leaves the heap wrong at one position, and then either only over it or only under it.
The rules below move such a position by one exchange, and end when nothing is wrong there.
-/

namespace MerlinC.Math

namespace Heap

def parent (i : ℕ) : ℕ := (i - 1) / 2

variable {κ : Type*} [LinearOrder κ]

/-- No key is less than the key at its parent. -/
def Ordered (key : ℕ → κ) (n : ℕ) : Prop := ∀ i, 0 < i → i < n → key (parent i) ≤ key i

/-- Only the key at `hole` may be less than the key at its parent. -/
structure UpTo (key : ℕ → κ) (n hole : ℕ) : Prop where
  apart : ∀ i, 0 < i → i < n → i ≠ hole → key (parent i) ≤ key i
  around : 0 < hole → ∀ i, 0 < i → i < n → parent i = hole → key (parent hole) ≤ key i

/-- Only the keys at the children of `hole` may be less than the key there. -/
structure DownFrom (key : ℕ → κ) (n hole : ℕ) : Prop where
  apart : ∀ i, 0 < i → i < n → parent i ≠ hole → key (parent i) ≤ key i
  around : 0 < hole → ∀ i, 0 < i → i < n → parent i = hole → key (parent hole) ≤ key i

theorem parent_lt {i : ℕ} (positive : 0 < i) : parent i < i := by
  unfold parent
  omega

/-- The children of a position are the two after twice it. -/
theorem parent_eq_iff {i hole : ℕ} (positive : 0 < i) :
    parent i = hole ↔ i = 2 * hole + 1 ∨ i = 2 * hole + 2 := by
  unfold parent
  omega

/-- An exchange of two positions stays below a bound that is above both. -/
theorem swap_lt_iff {n a b i : ℕ} (first : a < n) (second : b < n) :
    Equiv.swap a b i < n ↔ i < n := by
  rcases eq_or_ne i a with rfl | apart
  · rw [Equiv.swap_apply_left]
    omega
  · rcases eq_or_ne i b with rfl | apart'
    · rw [Equiv.swap_apply_right]
      omega
    · rw [Equiv.swap_apply_of_ne_of_ne apart apart']

variable {key key' : ℕ → κ} {n hole : ℕ}

/-- The first key is the least. -/
theorem Ordered.root_le (ordered : Ordered key n) {i : ℕ} (inside : i < n) : key 0 ≤ key i := by
  induction i using Nat.strongRecOn with
  | _ i ih =>
    rcases Nat.eq_zero_or_pos i with rfl | positive
    · exact le_refl _
    · have below := parent_lt positive
      exact (ih (parent i) below (by omega)).trans (ordered i positive inside)

theorem Ordered.shrink {m : ℕ} (ordered : Ordered key n) (fewer : m ≤ n) : Ordered key m :=
  fun i positive inside => ordered i positive (by omega)

/-- What is around a position of a heap. -/
theorem Ordered.around (ordered : Ordered key n) (positive : 0 < hole) (inside : hole < n) {i : ℕ}
    (later : 0 < i) (inside' : i < n) (child : parent i = hole) : key (parent hole) ≤ key i :=
  (ordered hole positive inside).trans (child ▸ ordered i later inside')

/-- A key that becomes less than the key at its parent is wrong over its position only. -/
theorem Ordered.lowered (ordered : Ordered key n) (positive : 0 < hole) (inside : hole < n)
    (same : ∀ i < n, i ≠ hole → key' i = key i) (less : key' hole < key' (parent hole)) :
    UpTo key' n hole := by
  have above := parent_lt positive
  have unchanged := same (parent hole) (by omega) (by omega)
  constructor
  · intro i later inside' apart
    have below := parent_lt later
    rw [same i inside' apart]
    rcases eq_or_ne (parent i) hole with child | child
    · rw [child]
      rw [unchanged] at less
      exact less.le.trans (ordered.around positive inside later inside' child)
    · rw [same _ (by omega) child]
      exact ordered i later inside'
  · intro _ i later inside' child
    have below := parent_lt later
    rw [unchanged, same i inside' (by omega)]
    exact ordered.around positive inside later inside' child

/-- A key that does not is wrong under its position only. -/
theorem Ordered.raised (ordered : Ordered key n) (inside : hole < n)
    (same : ∀ i < n, i ≠ hole → key' i = key i)
    (high : 0 < hole → key' (parent hole) ≤ key' hole) : DownFrom key' n hole := by
  constructor
  · intro i later inside' child
    have below := parent_lt later
    rcases eq_or_ne i hole with rfl | apart
    · exact high later
    · rw [same _ (by omega) child, same i inside' apart]
      exact ordered i later inside'
  · intro above i later inside' child
    have below := parent_lt later
    have higher := parent_lt above
    rw [same _ (by omega) (by omega), same i inside' (by omega)]
    exact ordered.around above inside later inside' child

/-- A key at the end is wrong over its position only. -/
theorem Ordered.extended (ordered : Ordered key n) (same : ∀ i < n, key' i = key i) :
    UpTo key' (n + 1) n := by
  constructor
  · intro i later inside apart
    have above := parent_lt later
    rw [same i (by omega), same _ (by omega)]
    exact ordered i later (by omega)
  · intro above i later inside child
    have below := parent_lt later
    omega

/-- Moving up ends where the key is not less than the key at its parent. -/
theorem UpTo.done (wrong : UpTo key n hole) (right : 0 < hole → key (parent hole) ≤ key hole) :
    Ordered key n := by
  intro i later inside
  rcases eq_or_ne i hole with rfl | apart
  · exact right later
  · exact wrong.apart i later inside apart

/-- Until then the key goes to the position of its parent. -/
theorem UpTo.swap (wrong : UpTo key n hole) (positive : 0 < hole) (inside : hole < n)
    (less : key hole < key (parent hole)) :
    UpTo (fun i => key (Equiv.swap hole (parent hole) i)) n (parent hole) := by
  have above := parent_lt positive
  constructor
  · intro i later inside' apart
    rcases eq_or_ne i hole with rfl | apart'
    · rw [Equiv.swap_apply_left, Equiv.swap_apply_right]
      exact less.le
    · rw [Equiv.swap_apply_of_ne_of_ne apart' apart]
      have order := wrong.apart i later inside' apart'
      rcases eq_or_ne (parent i) hole with child | child
      · rw [child, Equiv.swap_apply_left]
        exact wrong.around positive i later inside' child
      · rcases eq_or_ne (parent i) (parent hole) with sibling | other
        · rw [sibling, Equiv.swap_apply_right]
          exact less.le.trans (sibling ▸ order)
        · rwa [Equiv.swap_apply_of_ne_of_ne child other]
  · intro above' i later inside' child
    have higher := parent_lt above'
    have order := wrong.apart (parent hole) above' (by omega) (by omega)
    rw [Equiv.swap_apply_of_ne_of_ne (by omega) (by omega)]
    rcases eq_or_ne i hole with rfl | apart
    · rwa [Equiv.swap_apply_left]
    · rw [Equiv.swap_apply_of_ne_of_ne apart (by rintro rfl; omega)]
      exact order.trans (child ▸ wrong.apart i later inside' apart)

/-- Moving down ends where the key is not greater than the keys at its children. -/
theorem DownFrom.done (wrong : DownFrom key n hole)
    (right : ∀ i, 0 < i → i < n → parent i = hole → key hole ≤ key i) : Ordered key n := by
  intro i later inside
  rcases eq_or_ne (parent i) hole with child | apart
  · rw [child]
    exact right i later inside child
  · exact wrong.apart i later inside apart

/-- Until then the key goes to the position of its lesser child. -/
theorem DownFrom.swap (wrong : DownFrom key n hole) {child : ℕ} (later : 0 < child)
    (inside : child < n) (under : parent child = hole)
    (least : ∀ i, 0 < i → i < n → parent i = hole → key child ≤ key i)
    (less : key child < key hole) :
    DownFrom (fun i => key (Equiv.swap hole child i)) n child := by
  have below := parent_lt later
  rw [under] at below
  constructor
  · intro i later' inside' apart
    rcases eq_or_ne i child with rfl | other
    · rw [under, Equiv.swap_apply_left, Equiv.swap_apply_right]
      exact less.le
    · rcases eq_or_ne i hole with rfl | other'
      · have above := parent_lt later'
        rw [Equiv.swap_apply_left, Equiv.swap_apply_of_ne_of_ne (by omega) (by omega)]
        exact wrong.around later' child later inside under
      · rw [Equiv.swap_apply_of_ne_of_ne other' other]
        rcases eq_or_ne (parent i) hole with sibling | distant
        · rw [sibling, Equiv.swap_apply_left]
          exact least i later' inside' sibling
        · rw [Equiv.swap_apply_of_ne_of_ne distant apart]
          exact wrong.apart i later' inside' distant
  · intro _ i later' inside' grand
    have deeper := parent_lt later'
    rw [under, Equiv.swap_apply_left, Equiv.swap_apply_of_ne_of_ne (by omega) (by omega)]
    rw [← grand]
    exact wrong.apart i later' inside' (by omega)

end Heap

end MerlinC.Math
