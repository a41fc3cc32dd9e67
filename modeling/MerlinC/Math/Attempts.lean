import Mathlib.Data.List.Count
import Mathlib.Data.List.Range

/-! # Counting attempts that succeed

A call that is made over and over may fail at some of its attempts. What a loop around it has
achieved depends on the number of attempts so far that did not.
-/

namespace MerlinC.Math

/-- The number of attempts among the first ones that do not fail. -/
def successes (fails : ℕ → Bool) (attempts : ℕ) : ℕ :=
  (List.range attempts).countP fun k => !fails k

section Attempts

variable {fails : ℕ → Bool}

theorem successes_zero : successes fails 0 = 0 := rfl

theorem successes_succ_of_fails {attempts : ℕ} (failed : fails attempts = true) :
    successes fails (attempts + 1) = successes fails attempts := by
  simp [successes, List.range_succ, failed]

theorem successes_succ {attempts : ℕ} (succeeded : fails attempts = false) :
    successes fails (attempts + 1) = successes fails attempts + 1 := by
  simp [successes, List.range_succ, succeeded]

theorem successes_le (fails : ℕ → Bool) (attempts : ℕ) : successes fails attempts ≤ attempts := by
  have most := @List.countP_le_length _ (fun k => !fails k) (List.range attempts)
  rwa [List.length_range] at most

theorem successes_mono (fails : ℕ → Bool) {fewer more : ℕ} (le : fewer ≤ more) :
    successes fails fewer ≤ successes fails more :=
  (List.range_sublist.mpr le).countP_le

/-- As long as no attempt fails, all of them count. -/
theorem successes_eq {attempts : ℕ} (succeed : ∀ k < attempts, fails k = false) :
    successes fails attempts = attempts := by
  rw [successes, List.countP_eq_length.mpr, List.length_range]
  intro k member
  rw [succeed k (List.mem_range.mp member)]
  rfl

/-- As long as every attempt fails, none of them counts. -/
theorem successes_eq_zero {attempts : ℕ} (failed : ∀ k < attempts, fails k = true) :
    successes fails attempts = 0 := by
  rw [successes, List.countP_eq_zero]
  intro k member
  rw [failed k (List.mem_range.mp member)]
  exact Bool.false_ne_true

end Attempts

end MerlinC.Math
