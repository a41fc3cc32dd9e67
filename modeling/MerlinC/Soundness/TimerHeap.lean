import Mathlib.Data.Finset.Card
import MerlinC.Math.Runs
import MerlinC.Model.MinHeap

/-! # The heap of timeouts over whole runs

To its users the heap is a set of events with a time for each. Every call on it is defined, and
events leave it in the order of their times.
-/

namespace MerlinC.Soundness.TimerHeap

open Math Model

variable {ι : Type} [DecidableEq ι]

/-- A call on a heap. An event is given another time just before its place is adjusted. -/
inductive HeapCall (ι : Type) where
  | push (realloc : ℕ → Bool) (e : ι)
  | pop
  | top
  | erase (e : ι)
  | adjust (realloc : ℕ → Bool) (e : ι) (tv : Timeval)

/-- What a call gives back: success, or an event if there is one. -/
inductive HeapReply (ι : Type) where
  | done (ok : Bool)
  | event (e : Option ι)
deriving DecidableEq

/-- The events in a heap, and when each event is due. -/
structure Timers (ι : Type) where
  pending : Finset ι
  timeout : ι → Timeval

def HeapCall.run (s : TimeHeap ι) : HeapCall ι → Option (HeapReply ι × TimeHeap ι)
  | push realloc e => (s.push realloc e).map fun (ok, s) => (.done ok, s)
  | pop => s.pop.map fun (first, s) => (.event first, s)
  | top => s.top.map fun first => (.event first, s)
  | erase e => (s.erase e).map fun (ok, s) => (.done ok, s)
  | adjust realloc e tv =>
    (TimeHeap.adjust realloc { s with timeout := Function.update s.timeout e tv } e).map
      fun (ok, s) => (.done ok, s)

/-- Only an event that has no place in the heap is pushed. -/
def HeapCall.Pre (s : TimeHeap ι) : HeapCall ι → Prop
  | push _ e => s.idx e = -1
  | _ => True

instance (s : TimeHeap ι) : (call : HeapCall ι) → Decidable (call.Pre s)
  | .push _ e => inferInstanceAs (Decidable (s.idx e = -1))
  | .pop | .top | .erase _ | .adjust .. => .isTrue trivial

/-- An event that is due no later than any other. -/
def Timers.First (t : Timers ι) (e : ι) : Prop :=
  e ∈ t.pending ∧ ∀ x ∈ t.pending, t.timeout e ≤ t.timeout x

/-- The events once another one is to be among them, if there was memory. -/
def Timers.insert (t : Timers ι) (e : ι) (ok : Bool) : Timers ι :=
  { t with pending := if ok then Insert.insert e t.pending else t.pending }

def Timers.remove (t : Timers ι) (e : ι) : Timers ι := { t with pending := t.pending.erase e }

/-- What a call may reply and do to the events. -/
def HeapCall.Allows (t : Timers ι) : HeapCall ι → HeapReply ι → Timers ι → Prop
  | push realloc e, .done ok, t' => t' = t.insert e ok ∧ (ok = false → ∃ a, realloc a = false)
  | pop, .event none, t' => t.pending = ∅ ∧ t' = t
  | pop, .event (some e), t' => t.First e ∧ t' = t.remove e
  | top, .event none, t' => t.pending = ∅ ∧ t' = t
  | top, .event (some e), t' => t.First e ∧ t' = t
  | erase e, .done ok, t' => ok = decide (e ∈ t.pending) ∧ t' = t.remove e
  | adjust realloc e tv, .done ok, t' =>
    t' = Timers.insert { t with timeout := Function.update t.timeout e tv } e ok ∧
      (ok = false → e ∉ t.pending ∧ ∃ a, realloc a = false)
  | _, _, _ => False

/-- A call on a heap, with its reply. -/
def Calls (s : TimeHeap ι) (event : HeapCall ι × HeapReply ι) (s' : TimeHeap ι) : Prop :=
  event.1.Pre s ∧ event.1.run s = some (event.2, s')

def Keeps (t : Timers ι) (event : HeapCall ι × HeapReply ι) (t' : Timers ι) : Prop :=
  event.1.Allows t event.2 t'

/-- The heap holds the events and knows their times. -/
def Holds (s : TimeHeap ι) (t : Timers ι) : Prop :=
  s.Represents t.pending ∧ s.timeout = t.timeout

variable {s s' : TimeHeap ι} {t : Timers ι}

theorem Holds.push (holds : Holds s t) (realloc : ℕ → Bool) {e : ι} (fresh : e ∉ t.pending) :
    ∃ ok s', s.push realloc e = some (ok, s') ∧ Holds s' (t.insert e ok) ∧
      (ok = false → ∃ a, realloc a = false) := by
  obtain ⟨represents, timeouts⟩ := holds
  obtain ⟨ok, s', pushed, timeout, represents', refused⟩ :=
    TimeHeap.push_eq realloc represents fresh
  exact ⟨ok, s', pushed, ⟨represents', timeout.trans timeouts⟩, fun failed => (refused failed).2⟩

/-- Every call on a heap is defined and does what it may to the events. -/
theorem Holds.call (holds : Holds s t) (call : HeapCall ι) (pre : call.Pre s) :
    ∃ reply s' t', call.run s = some (reply, s') ∧ Holds s' t' ∧ call.Allows t reply t' := by
  obtain ⟨represents, timeouts⟩ := id holds
  cases call with
  | push realloc e =>
    obtain ⟨ok, s', pushed, holds', refused⟩ := holds.push realloc (represents.idx_eq.mp pre)
    refine ⟨.done ok, s', _, ?_, holds', rfl, refused⟩
    simp only [HeapCall.run, pushed, Option.map_some]
  | pop =>
    obtain ⟨first, s', popped, timeout, outcome⟩ := TimeHeap.pop_eq represents
    have ran : HeapCall.pop.run s = some (.event first, s') := by
      simp only [HeapCall.run, popped, Option.map_some]
    rcases outcome with ⟨rfl, empty, rfl⟩ | ⟨e, rfl, member, least, represents'⟩
    · exact ⟨_, s', t, ran, holds, empty, rfl⟩
    · rw [timeouts] at least timeout
      exact ⟨_, s', t.remove e, ran, ⟨represents', timeout⟩, ⟨member, least⟩, rfl⟩
  | top =>
    rcases represents.top_eq with ⟨empty, -, top⟩ | ⟨e, top, -, member, -, least⟩
    · refine ⟨.event none, s, t, ?_, holds, empty, rfl⟩
      simp only [HeapCall.run, top, Option.map_some]
    · rw [timeouts] at least
      refine ⟨.event (some e), s, t, ?_, holds, ⟨member, least⟩, rfl⟩
      simp only [HeapCall.run, top, Option.map_some]
  | erase e =>
    obtain ⟨s', erased, timeout, -, -, represents'⟩ := TimeHeap.erase_eq represents e
    refine ⟨.done (decide (e ∈ t.pending)), s', t.remove e, ?_,
      ⟨represents', timeout.trans timeouts⟩, rfl, rfl⟩
    simp only [HeapCall.run, erased, Option.map_some]
  | adjust realloc e tv =>
    by_cases member : e ∈ t.pending
    · obtain ⟨s', adjusted, timeout, represents'⟩ :=
        TimeHeap.adjust_eq realloc represents member tv
      refine ⟨.done true, s', Timers.insert { t with
        timeout := Function.update t.timeout e tv } e true, ?_, ⟨?_, ?_⟩, rfl, by simp⟩
      · simp only [HeapCall.run, adjusted, Option.map_some]
      · change s'.Represents (Insert.insert e t.pending)
        rwa [Finset.insert_eq_of_mem member]
      · rw [timeout, timeouts]
        rfl
    · have retimed : Holds { s with timeout := Function.update s.timeout e tv }
          { t with timeout := Function.update t.timeout e tv } :=
        ⟨represents.retime member tv, by rw [timeouts]⟩
      obtain ⟨ok, s', pushed, holds', refused⟩ := retimed.push realloc member
      refine ⟨.done ok, s', _, ?_, holds', rfl, fun failed => ⟨member, refused failed⟩⟩
      have placeless : s.idx e = -1 := represents.others e member
      simp only [HeapCall.run, TimeHeap.adjust, placeless, if_true, pushed, Option.map_some]

theorem Holds.step (holds : Holds s t) {event : HeapCall ι × HeapReply ι}
    (calls : Calls s event s') : ∃ t', Holds s' t' ∧ Keeps t event t' := by
  obtain ⟨reply, target, t', ran, holds', allows⟩ := holds.call event.1 calls.1
  obtain ⟨rfl, rfl⟩ := Prod.mk.inj (Option.some.inj (calls.2.symm.trans ran))
  exact ⟨t', holds', allows⟩

variable [Inhabited ι] {timeout : ι → Timeval} {events : List (HeapCall ι × HeapReply ι)}

theorem runs_hold (run : Run Calls (.new timeout) events s) :
    ∃ t, Run Keeps ⟨∅, timeout⟩ events t ∧ Holds s t := by
  have simulated : ∃ t, Run Keeps ⟨∅, timeout⟩ (events.flatMap fun event => [event]) t ∧
      Holds s t := by
    apply run.simulate (fun _ => True) Holds
    · exact ⟨TimeHeap.new_represents timeout, rfl⟩
    · rintro middle t event target holds - calls
      obtain ⟨t', holds', keeps⟩ := holds.step calls
      exact ⟨t', .single keeps, holds'⟩
    · exact fun _ _ => trivial
  rwa [List.flatMap_singleton'] at simulated

/-- A run of calls on a heap is a run of the same calls on a set of events with the same replies,
and the next call is defined whatever it is. -/
theorem heaps_are_sets (run : Run Calls (.new timeout) events s) :
    (∃ t, Run Keeps ⟨∅, timeout⟩ events t ∧ t.timeout = s.timeout ∧
      ∀ e, e ∈ t.pending ↔ s.idx e ≠ -1) ∧
      ∀ call : HeapCall ι, call.Pre s → ∃ reply s', Calls s (call, reply) s' := by
  obtain ⟨t, keeps, holds⟩ := runs_hold run
  refine ⟨⟨t, keeps, holds.2.symm, fun e => ?_⟩, fun call pre => ?_⟩
  · rw [Ne, holds.1.idx_eq, not_not]
  · obtain ⟨reply, s', t', ran, -⟩ := holds.call call pre
    exact ⟨reply, s', pre, ran⟩

/-- Event `n` is due after `n` seconds. -/
def seconds (n : ℕ) : Timeval := ⟨n, 0⟩

def plenty : ℕ → Bool := fun _ => true

/-- The later of two events is pushed first. -/
def pair : List (HeapCall ℕ × HeapReply ℕ) :=
  [(.push plenty 2, .done true), (.push plenty 1, .done true)]

theorem pair_run : ∃ s : TimeHeap ℕ, Run Calls (.new seconds) pair s ∧ s.idx 2 ≠ -1 := by
  have computed : (pair.foldlM (replay (fun s call => call.Pre s) fun s call => call.run s)
      (.new seconds)).map (·.idx 2) = some 1 := by
    decide +kernel
  obtain ⟨s, done, placed⟩ := Option.map_eq_some_iff.mp computed
  refine ⟨s, .of_foldlM of_replay done, ?_⟩
  rw [placed]
  decide

theorem pair_kept : ∃ t : Timers ℕ, Run Keeps ⟨∅, seconds⟩ pair t ∧ 2 ∈ t.pending := by
  obtain ⟨s, run, placed⟩ := pair_run
  obtain ⟨⟨t, keeps, -, members⟩, -⟩ := heaps_are_sets run
  exact ⟨t, keeps, (members 2).mpr placed⟩

omit [Inhabited ι] in
/-- Events come out of a heap in order. -/
theorem Holds.drained (holds : Holds s t) : ∃ (order : List ι) (s' : TimeHeap ι),
    Run Calls s (order.map fun e => (.pop, .event (some e))) s' ∧ s'.empty = true ∧
      order.Nodup ∧ (∀ e, e ∈ order ↔ e ∈ t.pending) ∧
      order.Pairwise fun e later => t.timeout e ≤ t.timeout later := by
  induction size : t.pending.card generalizing s t with
  | zero =>
    rw [Finset.card_eq_zero] at size
    refine ⟨[], s, .nil, ?_, List.nodup_nil, by simp [size], .nil⟩
    rcases holds.1.top_eq with ⟨-, zero, -⟩ | ⟨e, -, -, member, -, -⟩
    · exact decide_eq_true zero
    · exact absurd (size ▸ member) (Finset.notMem_empty e)
  | succ count ih =>
    obtain ⟨reply, middle, t', ran, holds', allows⟩ := holds.call .pop trivial
    rcases reply with _ | _ | e
    · exact allows.elim
    · have empty : t.pending = ∅ := allows.1
      rw [empty] at size
      exact absurd size (Nat.succ_ne_zero count).symm
    · obtain ⟨⟨member, least⟩, rfl⟩ := allows
      have smaller : (t.remove e).pending.card = count := by
        change (t.pending.erase e).card = count
        have := Finset.card_erase_add_one member
        omega
      obtain ⟨order, s', run, empty, once, members, ordered⟩ := ih holds' smaller
      have others (x : ι) : x ∈ order ↔ x ≠ e ∧ x ∈ t.pending :=
        (members x).trans Finset.mem_erase
      refine ⟨e :: order, s', .cons ⟨trivial, ran⟩ run, empty, ?_, fun x => ?_, ?_⟩
      · exact List.nodup_cons.mpr ⟨fun again => ((others e).mp again).1 rfl, once⟩
      · rw [List.mem_cons, others]
        constructor
        · rintro (rfl | ⟨-, there⟩)
          · exact member
          · exact there
        · intro there
          rcases eq_or_ne x e with rfl | apart
          · exact .inl rfl
          · exact .inr ⟨apart, there⟩
      · exact List.pairwise_cons.mpr ⟨fun x later => least x ((others x).mp later).2, ordered⟩

/-- After any run, events are popped in the order of their times, each that has a place in the heap
once, until the heap is empty. -/
theorem pops_in_order (run : Run Calls (.new timeout) events s) :
    ∃ (order : List ι) (s' : TimeHeap ι),
      Run Calls s (order.map fun e => (.pop, .event (some e))) s' ∧ s'.empty = true ∧
      order.Nodup ∧ (∀ e, e ∈ order ↔ s.idx e ≠ -1) ∧
      order.Pairwise fun e later => s.timeout e ≤ s.timeout later := by
  obtain ⟨t, -, holds⟩ := runs_hold run
  obtain ⟨order, s', pops, empty, once, members, ordered⟩ := holds.drained
  refine ⟨order, s', pops, empty, once, fun e => ?_, ?_⟩
  · rw [members, Ne, holds.1.idx_eq, not_not]
  · rwa [holds.2]

theorem pair_popped : ∃ (s s' : TimeHeap ℕ) (order : List ℕ), Run Calls (.new seconds) pair s ∧
    Run Calls s (order.map fun e => (.pop, .event (some e))) s' ∧ 2 ∈ order := by
  obtain ⟨s, run, placed⟩ := pair_run
  obtain ⟨order, s', pops, -, -, members, -⟩ := pops_in_order run
  exact ⟨s, s', order, run, pops, (members 2).mpr placed⟩

end MerlinC.Soundness.TimerHeap
