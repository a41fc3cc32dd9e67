import Mathlib.Data.Finset.Basic

/-! # Activities that several parties may hold up

An activity runs while its owner has it enabled and no party suspends it. To start it may fail. A
gate keeps its rules when the activity runs only while it may, and also runs whenever it may and
is wanted, as long as nothing failed to start.
-/

namespace MerlinC.Math

/-- Whether an activity is enabled, which parties suspend it, and whether it runs. -/
structure Gate (φ : Type*) where
  enabled : Bool
  suspended : Finset φ
  running : Bool

namespace Gate

variable {φ : Type*}

def disable (gate : Gate φ) : Gate φ := { gate with enabled := false, running := false }

def stop (gate : Gate φ) : Gate φ := { gate with running := false }

/-- The rules of a gate. What is wanted of it runs when `sure` holds. -/
structure Kept (sure wanted : Prop) (gate : Gate φ) : Prop where
  allowed : gate.running = true → gate.enabled = true ∧ gate.suspended = ∅
  prompt : sure → wanted → gate.enabled = true → gate.suspended = ∅ → gate.running = true

variable {sure wanted : Prop} {gate : Gate φ}

theorem disable_kept : gate.disable.Kept sure wanted := by
  constructor
  · simp [disable]
  · simp [disable]

/-- Only what is not wanted may be stopped. -/
theorem stop_kept (idle : ¬wanted) : gate.stop.Kept sure wanted := by
  constructor
  · simp [stop]
  · exact fun _ want => absurd want idle

theorem Kept.mono {sure' wanted' : Prop} (kept : gate.Kept sure wanted) (surer : sure' → sure)
    (less : wanted' → wanted) : gate.Kept sure' wanted' :=
  ⟨kept.allowed, fun certain want => kept.prompt (surer certain) (less want)⟩

variable [DecidableEq φ]

def enable (starts : Bool) (gate : Gate φ) : Gate φ where
  enabled := true
  suspended := gate.suspended
  running := gate.running || decide (gate.suspended = ∅) && starts

def suspend (party : φ) (gate : Gate φ) : Gate φ where
  enabled := gate.enabled
  suspended := insert party gate.suspended
  running := gate.running && decide (gate.suspended ≠ ∅)

def unsuspend (starts : Bool) (party : φ) (gate : Gate φ) : Gate φ where
  enabled := gate.enabled
  suspended := gate.suspended.erase party
  running := gate.running ||
    decide (gate.suspended.erase party = ∅) && gate.enabled && starts

/-- Start an activity that may run and is not running. -/
def start (starts : Bool) (gate : Gate φ) : Gate φ :=
  { gate with
    running := gate.running || gate.enabled && decide (gate.suspended = ∅) && starts }

variable {starts : Bool} {party : φ}

namespace Kept

variable (kept : gate.Kept sure wanted)
include kept

theorem enable (surely : sure → starts = true) : (gate.enable starts).Kept sure wanted := by
  constructor
  · intro running
    simp only [Gate.enable, Bool.or_eq_true, Bool.and_eq_true, decide_eq_true_eq] at running
    refine ⟨rfl, ?_⟩
    rcases running with before | ⟨free, -⟩
    · exact (kept.allowed before).2
    · exact free
  · intro certain _ _ free
    have free : gate.suspended = ∅ := free
    simp [Gate.enable, free, surely certain]

theorem suspend : (gate.suspend party).Kept sure wanted := by
  constructor
  · intro running
    simp only [Gate.suspend, Bool.and_eq_true, decide_eq_true_eq] at running
    exact absurd (kept.allowed running.1).2 running.2
  · intro _ _ _ free
    exact absurd free (Finset.insert_ne_empty party gate.suspended)

theorem unsuspend (surely : sure → starts = true) :
    (gate.unsuspend starts party).Kept sure wanted := by
  constructor
  · intro running
    simp only [Gate.unsuspend, Bool.or_eq_true, Bool.and_eq_true, decide_eq_true_eq] at running
    rcases running with before | ⟨⟨free, enabled⟩, -⟩
    · obtain ⟨enabled, free⟩ := kept.allowed before
      refine ⟨enabled, ?_⟩
      change gate.suspended.erase party = ∅
      rw [free, Finset.erase_empty]
    · exact ⟨enabled, free⟩
  · intro certain _ enabled free
    have free : gate.suspended.erase party = ∅ := free
    have enabled : gate.enabled = true := enabled
    simp [Gate.unsuspend, free, enabled, surely certain]

/-- A start serves whatever comes to be wanted. -/
theorem start {wanted' : Prop} (surely : sure → starts = true) :
    (gate.start starts).Kept sure wanted' := by
  constructor
  · intro running
    simp only [Gate.start, Bool.or_eq_true, Bool.and_eq_true, decide_eq_true_eq] at running
    rcases running with before | ⟨may, -⟩
    · exact kept.allowed before
    · exact may
  · intro certain _ enabled free
    have free : gate.suspended = ∅ := free
    have enabled : gate.enabled = true := enabled
    simp [Gate.start, free, enabled, surely certain]

end Kept

end Gate

end MerlinC.Math
