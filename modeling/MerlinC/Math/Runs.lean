import Mathlib.Data.List.Induction

/-! # Labelled runs of a transition relation

A run lists the events it performed, oldest first, and grows at its end, so an observation of
the history advances together with the state. The rules below are all a development over such
runs needs: an invariant of the steps holds wherever a run arrives, a relation that every step
preserves carries a run of one system to a run of another, every prefix of a run is a run, and so
is what a function computes of calls and the replies they are to give.
-/

namespace MerlinC.Math

variable {σ ε τ δ : Type*}

/-- A finite run from `source`, labelled by the performed events in their order. -/
inductive Run (step : σ → ε → σ → Prop) (source : σ) : List ε → σ → Prop
  | nil : Run step source [] source
  | snoc {events : List ε} {middle target : σ} {event : ε} :
      Run step source events middle → step middle event target →
      Run step source (events ++ [event]) target

/-- Make a call where its caller may, and go on if it gives this reply. -/
def replay {ρ : Type*} [DecidableEq ρ] (pre : σ → δ → Prop) [∀ s call, Decidable (pre s call)]
    (run : σ → δ → Option (ρ × σ)) (s : σ) (event : δ × ρ) : Option σ :=
  if pre s event.1 then
    (run s event.1).bind fun (reply, s') => if reply = event.2 then some s' else none
  else none

theorem of_replay {ρ : Type*} [DecidableEq ρ] {pre : σ → δ → Prop}
    [∀ s call, Decidable (pre s call)] {run : σ → δ → Option (ρ × σ)} {s s' : σ} {event : δ × ρ}
    (done : replay pre run s event = some s') :
    pre s event.1 ∧ run s event.1 = some (event.2, s') := by
  unfold replay at done
  split at done
  · next holds =>
    obtain ⟨⟨reply, after⟩, ran, same⟩ := Option.bind_eq_some_iff.mp done
    simp only [Option.ite_none_right_eq_some, Option.some.injEq] at same
    obtain ⟨rfl, rfl⟩ := same
    exact ⟨holds, ran⟩
  · contradiction

namespace Run

variable {step : σ → ε → σ → Prop} {source middle target : σ} {events first second : List ε}

theorem single {event : ε} (taken : step source event target) :
    Run step source [event] target := .snoc .nil taken

/-- Runs compose at a shared state. -/
theorem append (left : Run step source first middle) (right : Run step middle second target) :
    Run step source (first ++ second) target := by
  induction right with
  | nil => simpa only [List.append_nil] using left
  | snoc _ taken ih =>
    rw [← List.append_assoc]
    exact .snoc ih taken

/-- A run may also be read from its front, one event at a time. -/
theorem cons {event : ε} (taken : step source event middle) (rest : Run step middle events target) :
    Run step source (event :: events) target := (single taken).append rest

/-- Cutting a run anywhere exposes the state reached there. -/
theorem append_iff : Run step source (first ++ second) target ↔
    ∃ middle, Run step source first middle ∧ Run step middle second target := by
  constructor
  · intro run
    induction second using List.reverseRecOn generalizing target with
    | nil => exact ⟨target, by simpa only [List.append_nil] using run, .nil⟩
    | append_singleton rest event ih =>
      rw [← List.append_assoc] at run
      generalize whole : first ++ rest ++ [event] = events at run
      cases run with
      | nil => simp at whole
      | snoc earlier taken =>
        obtain ⟨rfl, same⟩ := List.append_inj' whole rfl
        obtain rfl := (List.cons.inj same).1
        obtain ⟨middle, left, right⟩ := ih earlier
        exact ⟨middle, left, .snoc right taken⟩
  · rintro ⟨middle, left, right⟩
    exact left.append right

/-- Without an event a run stays where it is. -/
theorem nil_iff : Run step source [] target ↔ target = source := by
  constructor
  · intro run
    generalize whole : [] = events at run
    cases run with
    | nil => rfl
    | snoc => simp at whole
  · rintro rfl
    exact .nil

/-- A run of one event is a step. -/
theorem single_iff {event : ε} : Run step source [event] target ↔ step source event target := by
  constructor
  · intro run
    generalize whole : [event] = events at run
    cases run with
    | nil => simp at whole
    | snoc earlier taken =>
      rw [← List.nil_append [event]] at whole
      obtain ⟨rfl, same⟩ := List.append_inj' whole rfl
      obtain rfl := (List.cons.inj same).1
      obtain rfl := nil_iff.mp earlier
      exact taken
  · exact single

/-- Steps that a function performs one after another are a run. -/
theorem of_foldlM {next : σ → ε → Option σ}
    (sound : ∀ {s event s'}, next s event = some s' → step s event s')
    (done : events.foldlM next source = some target) : Run step source events target := by
  induction events generalizing source with
  | nil =>
    obtain rfl := Option.some.inj done
    exact .nil
  | cons event events ih =>
    rw [List.foldlM_cons, Option.bind_eq_bind] at done
    obtain ⟨middle, taken, rest⟩ := Option.bind_eq_some_iff.mp done
    exact .cons (sound taken) (ih rest)

/-- An assertion about the past and the present that every step extends holds after every run.
The step may assume that the run so far was one, and that the new event is allowed. -/
theorem invariant_of_allowed (allowed : ε → Prop) (holds : List ε → σ → Prop)
    (initial : holds [] source)
    (extend : ∀ past middle event target, Run step source past middle → holds past middle →
      allowed event → step middle event target → holds (past ++ [event]) target)
    (run : Run step source events target) (permitted : ∀ event ∈ events, allowed event) :
    holds events target := by
  induction run with
  | nil => exact initial
  | snoc earlier taken ih =>
    apply extend _ _ _ _ earlier _ (permitted _ (by simp)) taken
    exact ih (fun event member => permitted event (List.mem_append_left _ member))

/-- The same rule without a restriction on the events. -/
theorem invariant (holds : List ε → σ → Prop) (initial : holds [] source)
    (extend : ∀ past middle event target, Run step source past middle → holds past middle →
      step middle event target → holds (past ++ [event]) target)
    (run : Run step source events target) : holds events target :=
  run.invariant_of_allowed (fun _ => True) holds initial
    (fun past middle event target earlier known _ taken =>
      extend past middle event target earlier known taken) (fun _ _ => trivial)

/-- A run is a run of every relation that its steps also are steps of, given the run before
them. -/
theorem mono {other : σ → ε → σ → Prop} (run : Run step source events target)
    (also : ∀ past middle event target, Run step source past middle →
      step middle event target → other middle event target) :
    Run other source events target := by
  induction run with
  | nil => exact .nil
  | snoc earlier taken ih => exact .snoc ih (also _ _ _ _ earlier taken)

/-- Two guards that agree on every step that a run can take allow the same runs. -/
theorem guarded_iff {good safe : σ → ε → σ → Prop}
    (agree : ∀ past middle event target, Run step source past middle →
      step middle event target → (good middle event target ↔ safe middle event target)) :
    Run (fun s e t => step s e t ∧ good s e t) source events target ↔
      Run (fun s e t => step s e t ∧ safe s e t) source events target := by
  have plain {guard : σ → ε → σ → Prop} {past : List ε} {middle : σ}
      (run : Run (fun s e t => step s e t ∧ guard s e t) source past middle) :
      Run step source past middle := run.mono fun _ _ _ _ _ taken => taken.1
  constructor
  · intro run
    exact run.mono fun past middle event target earlier taken =>
      ⟨taken.1, (agree past middle event target (plain earlier) taken.1).mp taken.2⟩
  · intro run
    exact run.mono fun past middle event target earlier taken =>
      ⟨taken.1, (agree past middle event target (plain earlier) taken.1).mpr taken.2⟩

/-- A forward simulation: each concrete step is matched by a run of abstract steps whose labels
depend on the concrete event alone. -/
theorem simulate {abstract : τ → δ → τ → Prop} (allowed : ε → Prop) (related : σ → τ → Prop)
    (labels : ε → List δ) {start : τ} (initial : related source start)
    (matched : ∀ s t event s', related s t → allowed event → step s event s' →
      ∃ t', Run abstract t (labels event) t' ∧ related s' t')
    (run : Run step source events target) (permitted : ∀ event ∈ events, allowed event) :
    ∃ final, Run abstract start (events.flatMap labels) final ∧ related target final := by
  refine run.invariant_of_allowed allowed
    (fun past s => ∃ t, Run abstract start (past.flatMap labels) t ∧ related s t)
    ⟨start, .nil, initial⟩ ?_ permitted
  rintro past s event s' _ ⟨t, abstracted, relation⟩ legal taken
  obtain ⟨t', advanced, relation'⟩ := matched s t event s' relation legal taken
  refine ⟨t', ?_, relation'⟩
  rw [List.flatMap_append, List.flatMap_singleton]
  exact abstracted.append advanced

end Run

end MerlinC.Math
