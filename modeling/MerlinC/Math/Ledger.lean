import Mathlib.Algebra.BigOperators.Group.List.Basic
import Mathlib.Data.List.Nodup
import Mathlib.Tactic.Ring

/-! # Totals over a list of owners

What an event does to one owner, and alike to all others, is what it does to the total. Both
laws are stated without subtraction, so they hold in the natural numbers.
-/

namespace MerlinC.Math

variable {ι : Type*}

/-- The sum of all balances. -/
def total (balance : ι → ℕ) (owners : List ι) : ℕ := (owners.map balance).sum

variable {before after : ι → ℕ} {owner : ι}

@[simp] theorem total_nil (balance : ι → ℕ) : total balance [] = 0 := rfl

@[simp] theorem total_cons (balance : ι → ℕ) (owner : ι) (owners : List ι) :
    total balance (owner :: owners) = balance owner + total balance owners := by
  simp [total]

theorem total_append (balance : ι → ℕ) (first second : List ι) :
    total balance (first ++ second) = total balance first + total balance second := by
  simp [total]

/-- Totals depend on the balances of the owners alone. -/
theorem total_congr {owners : List ι} (same : ∀ other ∈ owners, after other = before other) :
    total after owners = total before owners := by
  rw [total, total, List.map_congr_left same]

theorem total_const {share : ℕ} (owners : List ι) (same : ∀ other ∈ owners, after other = share) :
    total after owners = owners.length * share := by
  rw [total_congr same]
  simp [total]

/-- The same share for everyone. -/
theorem total_share {share : ℕ} {owners : List ι}
    (shared : ∀ other ∈ owners, after other = before other + share) :
    total after owners = total before owners + owners.length * share := by
  induction owners with
  | nil => simp
  | cons other owners ih =>
    have rest := ih fun third member => shared third (List.mem_cons_of_mem _ member)
    rw [total_cons, total_cons, rest, shared other List.mem_cons_self, List.length_cons]
    ring

/-- One owner's balance changes, and all others get the same share. -/
theorem total_change (before after : ι → ℕ) (share : ℕ) {owners : List ι}
    (distinct : owners.Nodup) (member : owner ∈ owners)
    (shared : ∀ other ∈ owners, other ≠ owner → after other = before other + share) :
    total after owners + before owner + share =
      total before owners + after owner + owners.length * share := by
  obtain ⟨front, back, rfl⟩ := List.append_of_mem member
  rw [List.nodup_middle, List.nodup_cons] at distinct
  have others {part : List ι} (inside : part ⊆ front ++ back) :
      total after part = total before part + part.length * share := by
    refine total_share fun other among => shared other ?_ ?_
    · have := inside among
      simp only [List.mem_append, List.mem_cons] at this ⊢
      tauto
    · rintro rfl
      exact distinct.1 (inside among)
  rw [total_append, total_append, total_cons, total_cons,
    others (List.subset_append_left front back), others (List.subset_append_right front back),
    List.length_append, List.length_cons]
  ring

/-- One owner's balance changes, and nobody else's. -/
theorem total_update (before after : ι → ℕ) {owners : List ι}
    (distinct : owners.Nodup) (member : owner ∈ owners)
    (same : ∀ other ∈ owners, other ≠ owner → after other = before other) :
    total after owners + before owner = total before owners + after owner := by
  simpa using total_change before after 0 distinct member same

end MerlinC.Math
