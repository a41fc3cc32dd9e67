import Mathlib.Data.Finset.Basic
import Mathlib.Data.Prod.Lex
import MerlinC.Math.Heaps

/-! # The heap of timeouts

`minheap-internal.h`: pointers to events in an array, and in every event its position there, or
`-1`. A read of memory that was not written and a write behind the array have no result. The model
takes an `int` for wide enough for every position.
-/

namespace MerlinC.Model

open Math

/-- `struct timeval`. -/
structure Timeval where
  sec : ℤ
  usec : ℤ
deriving DecidableEq, Repr

namespace Timeval

/-- `evutil_timercmp` with `>`. -/
def greater (a b : Timeval) : Bool :=
  if a.sec = b.sec then decide (b.usec < a.usec) else decide (b.sec < a.sec)

def lex (a : Timeval) : ℤ ×ₗ ℤ := toLex (a.sec, a.usec)

theorem lex_injective : Function.Injective lex := by
  rintro ⟨sec, usec⟩ ⟨sec', usec'⟩ same
  obtain ⟨rfl, rfl⟩ := Prod.mk.inj (toLex.injective same)
  rfl

instance : LinearOrder Timeval := LinearOrder.lift' lex lex_injective

theorem greater_iff {a b : Timeval} : a.greater b = true ↔ b < a := by
  change _ ↔ b.lex < a.lex
  unfold greater lex
  rw [Prod.Lex.toLex_lt_toLex]
  split
  · next same => simp [same]
  · next apart =>
    simp only [decide_eq_true_eq]
    omega

end Timeval

variable {ι : Type} [DecidableEq ι]

/-- `struct min_heap` and what it uses of the events: `ev_timeout` and `min_heap_idx`. -/
structure TimeHeap (ι : Type) where
  p : List (Option ι)
  n : ℕ
  timeout : ι → Timeval
  idx : ι → ℤ

namespace TimeHeap

/-- `min_heap_ctor_`, with events that `min_heap_elem_init_` set up. -/
def new (timeout : ι → Timeval) : TimeHeap ι := ⟨[], 0, timeout, fun _ => -1⟩

def load (s : TimeHeap ι) (i : ℕ) : Option ι := s.p[i]?.join

/-- `(s->p[i] = e)->ev_timeout_pos.min_heap_idx = i`. -/
def store (s : TimeHeap ι) (i : ℕ) (e : ι) : TimeHeap ι :=
  { s with p := s.p.set i (some e), idx := Function.update s.idx e i }

def put (s : TimeHeap ι) (i : ℕ) (e : ι) : Option (TimeHeap ι) :=
  if i < s.p.length then some (s.store i e) else none

/-- `min_heap_elem_greater`. -/
def greater (s : TimeHeap ι) (a b : ι) : Bool := (s.timeout a).greater (s.timeout b)

/-- `e->ev_timeout_pos.min_heap_idx = -1`. -/
def clear (s : TimeHeap ι) (e : ι) : TimeHeap ι := { s with idx := Function.update s.idx e (-1) }

/-- `min_heap_empty_`. -/
def empty (s : TimeHeap ι) : Bool := s.n = 0

/-- `min_heap_top_`. -/
def top (s : TimeHeap ι) : Option (Option ι) :=
  if s.n ≠ 0 then (s.load 0).map some else some none

/-- `min_heap_reserve_`, where `realloc` says whether there is memory. -/
def reserve (realloc : ℕ → Bool) (s : TimeHeap ι) (n : ℕ) : Bool × TimeHeap ι :=
  if s.p.length < n then
    let a := max (if s.p.length ≠ 0 then s.p.length * 2 else 8) n
    if realloc a then (true, { s with p := s.p ++ List.replicate (a - s.p.length) none })
    else (false, s)
  else (true, s)

/-- `min_heap_shift_up_`. -/
def shiftUp (s : TimeHeap ι) (hole : ℕ) (e : ι) : Option (TimeHeap ι) :=
  if _positive : 0 < hole then do
    let above ← s.load (Heap.parent hole)
    if s.greater above e then do
      let s ← s.put hole above
      shiftUp s (Heap.parent hole) e
    else s.put hole e
  else s.put hole e
termination_by hole
decreasing_by exact Heap.parent_lt _positive

/-- `min_heap_shift_up_unconditional_`: once its loop ran, it goes on as the other's would. -/
def shiftUpUnconditional (s : TimeHeap ι) (hole : ℕ) (e : ι) : Option (TimeHeap ι) := do
  let above ← s.load (Heap.parent hole)
  let s ← s.put hole above
  s.shiftUp (Heap.parent hole) e

/-- `min_child` in `min_heap_shift_down_`, when there is a child. -/
def minChild (s : TimeHeap ι) (hole : ℕ) : Option ℕ :=
  if 2 * (hole + 1) = s.n then some (2 * hole + 1)
  else do
    let right ← s.load (2 * (hole + 1))
    let left ← s.load (2 * hole + 1)
    some (if s.greater right left then 2 * hole + 1 else 2 * (hole + 1))

omit [DecidableEq ι] in
theorem minChild_le {s : TimeHeap ι} {hole child : ℕ} (found : s.minChild hole = some child) :
    child = 2 * hole + 1 ∨ child = 2 * (hole + 1) ∧ 2 * (hole + 1) ≠ s.n := by
  unfold minChild at found
  split at found
  · exact .inl (Option.some.inj found).symm
  · next more =>
    simp only [Option.bind_eq_bind, Option.bind_eq_some_iff] at found
    obtain ⟨right, -, left, -, chosen⟩ := found
    have chosen := Option.some.inj chosen
    split at chosen
    · exact .inl chosen.symm
    · exact .inr ⟨chosen.symm, more⟩

/-- `min_heap_shift_down_`. -/
def shiftDown (s : TimeHeap ι) (hole : ℕ) (e : ι) : Option (TimeHeap ι) :=
  if _children : 2 * (hole + 1) ≤ s.n then
    match _found : s.minChild hole with
    | none => none
    | some child =>
      match s.load child with
      | none => none
      | some least =>
        if s.greater e least = false then s.put hole e
        else if s.p.length ≤ hole then none
        else shiftDown (s.store hole least) child e
  else s.put hole e
termination_by s.n - hole
decreasing_by
  have below := minChild_le _found
  change s.n - child < s.n - hole
  omega

/-- `min_heap_push_`. -/
def push (realloc : ℕ → Bool) (s : TimeHeap ι) (e : ι) : Option (Bool × TimeHeap ι) :=
  match s.reserve realloc (s.n + 1) with
  | (false, s) => some (false, s)
  | (true, s) => ({ s with n := s.n + 1 }.shiftUp s.n e).map ((true, ·))

/-- `min_heap_pop_`. -/
def pop (s : TimeHeap ι) : Option (Option ι × TimeHeap ι) :=
  if s.n ≠ 0 then do
    let e ← s.load 0
    let last ← s.load (s.n - 1)
    let s ← { s with n := s.n - 1 }.shiftDown 0 last
    some (some e, s.clear e)
  else some (none, s)

/-- Put `x` in the place of an event, up or down from there. -/
def replace (s : TimeHeap ι) (hole : ℕ) (x : ι) : Option (TimeHeap ι) :=
  if 0 < hole then do
    let above ← s.load (Heap.parent hole)
    if s.greater above x then s.shiftUpUnconditional hole x else s.shiftDown hole x
  else s.shiftDown hole x

/-- `min_heap_erase_`. -/
def erase (s : TimeHeap ι) (e : ι) : Option (Bool × TimeHeap ι) :=
  if s.idx e ≠ -1 then do
    let last ← s.load (s.n - 1)
    let s ← { s with n := s.n - 1 }.replace (s.idx e).toNat last
    some (true, s.clear e)
  else some (false, s)

/-- `min_heap_adjust_`, after the timeout of an event changed. -/
def adjust (realloc : ℕ → Bool) (s : TimeHeap ι) (e : ι) : Option (Bool × TimeHeap ι) :=
  if s.idx e = -1 then s.push realloc e
  else (s.replace (s.idx e).toNat e).map ((true, ·))

/-- The array holds the events `q` at the positions below `m`, but for the one at `hole`, and each
knows its position. -/
structure Holed (s : TimeHeap ι) (q : ℕ → ι) (m hole : ℕ) : Prop where
  room : m ≤ s.p.length
  loaded : ∀ i < m, i ≠ hole → s.load i = some (q i)
  placed : ∀ i < m, i ≠ hole → s.idx (q i) = i
  apart : ∀ i < m, ∀ j < m, q i = q j → i = j

structure Holds (s : TimeHeap ι) (q : ℕ → ι) (m : ℕ) : Prop where
  room : m ≤ s.p.length
  loaded : ∀ i < m, s.load i = some (q i)
  placed : ∀ i < m, s.idx (q i) = i

variable {s s' : TimeHeap ι} {q q' : ℕ → ι} {m hole i : ℕ} {e : ι}

theorem length_store (i : ℕ) (e : ι) (s : TimeHeap ι) : (s.store i e).p.length = s.p.length :=
  List.length_set

theorem load_store (i : ℕ) (e : ι) (s : TimeHeap ι) (j : ℕ) (room : i < s.p.length) :
    (s.store i e).load j = if j = i then some e else s.load j := by
  unfold load store
  rw [List.getElem?_set]
  rcases eq_or_ne i j with rfl | apart
  · simp [room]
  · simp [apart, apart.symm]

omit [DecidableEq ι] in
theorem Holds.apart (holds : s.Holds q m) {i j : ℕ} (inside : i < m) (inside' : j < m)
    (same : q i = q j) : i = j := by
  have first := holds.placed i inside
  rw [same, holds.placed j inside'] at first
  omega

omit [DecidableEq ι] in
theorem Holds.holed (holds : s.Holds q m) (hole : ℕ) : s.Holed q m hole :=
  ⟨holds.room, fun i inside _ => holds.loaded i inside, fun i inside _ => holds.placed i inside,
    fun _ inside _ inside' => holds.apart inside inside'⟩

/-- The event of the hole is stored there. -/
theorem Holed.fill (holed : s.Holed q m hole) (inside : hole < m) :
    (s.store hole (q hole)).Holds q m := by
  have room := holed.room
  constructor
  · rwa [length_store]
  · intro i inside'
    rw [load_store hole _ s i (by omega)]
    split
    · next same => rw [same]
    · next apart => exact holed.loaded i inside' apart
  · intro i inside'
    rcases eq_or_ne i hole with rfl | apart
    · exact Function.update_self ..
    · change Function.update s.idx (q hole) hole (q i) = i
      rw [Function.update_of_ne fun same => apart (holed.apart i inside' hole inside same)]
      exact holed.placed i inside' apart

/-- An event moves into the hole and leaves one. -/
theorem Holed.move (holed : s.Holed q m hole) (inside : hole < m) {other : ℕ}
    (inside' : other < m) (apart : other ≠ hole) :
    (s.store hole (q other)).Holed (fun i => q (Equiv.swap hole other i)) m other := by
  have room := holed.room
  constructor
  · rwa [length_store]
  · intro i below off
    rw [load_store hole _ s i (by omega)]
    rcases eq_or_ne i hole with rfl | off'
    · rw [if_pos rfl, Equiv.swap_apply_left]
    · rw [if_neg off', Equiv.swap_apply_of_ne_of_ne off' off]
      exact holed.loaded i below off'
  · intro i below off
    change Function.update s.idx (q other) hole _ = _
    rcases eq_or_ne i hole with rfl | off'
    · rw [Equiv.swap_apply_left, Function.update_self]
    · rw [Equiv.swap_apply_of_ne_of_ne off' off,
        Function.update_of_ne fun same => off (holed.apart i below other inside' same)]
      exact holed.placed i below off'
  · intro i below j below' same
    have bound {k : ℕ} (below : k < m) := (Heap.swap_lt_iff inside inside').mpr below
    exact (Equiv.swap hole other).injective (holed.apart _ (bound below) _ (bound below') same)

/-- What a shift makes of the array: the same events in the order of a heap. -/
structure Sifted (s : TimeHeap ι) (q : ℕ → ι) (m : ℕ) (s' : TimeHeap ι) : Prop where
  heap : ∃ q', s'.Holds q' m ∧ Heap.Ordered (fun i => s.timeout (q' i)) m ∧
    ∀ x, (∃ i < m, q' i = x) ↔ ∃ i < m, q i = x
  room : s'.p.length = s.p.length
  size : s'.n = s.n
  timeout : s'.timeout = s.timeout
  others : ∀ x, (∀ i < m, q i ≠ x) → s'.idx x = s.idx x

/-- An array that is right but for the hole is right when the hole is filled. -/
theorem Holed.sifted (holed : s.Holed q m hole) (inside : hole < m)
    (ordered : Heap.Ordered (fun i => s.timeout (q i)) m) :
    s.put hole (q hole) = some (s.store hole (q hole)) ∧
      s.Sifted q m (s.store hole (q hole)) := by
  have room := holed.room
  refine ⟨if_pos (by omega), ⟨q, holed.fill inside, ordered, fun _ => Iff.rfl⟩, length_store ..,
    rfl, rfl, ?_⟩
  intro x absent
  exact Function.update_of_ne (absent hole inside).symm ..

/-- What holds after an event moved into the hole held before. -/
theorem Sifted.move {other : ℕ} (inside : hole < m) (inside' : other < m)
    (sifted : (s.store hole (q other)).Sifted (fun i => q (Equiv.swap hole other i)) m s') :
    s.Sifted q m s' := by
  have members (x : ι) : (∃ i < m, q (Equiv.swap hole other i) = x) ↔ ∃ i < m, q i = x := by
    constructor
    · rintro ⟨i, below, same⟩
      exact ⟨_, (Heap.swap_lt_iff inside inside').mpr below, same⟩
    · rintro ⟨i, below, same⟩
      refine ⟨_, (Heap.swap_lt_iff inside inside').mpr below, ?_⟩
      rwa [Equiv.swap_apply_self]
  obtain ⟨q', holds, ordered, same⟩ := sifted.heap
  refine ⟨⟨q', holds, ordered, fun x => (same x).trans (members x)⟩,
    sifted.room.trans (length_store ..), sifted.size, sifted.timeout, fun x absent => ?_⟩
  rw [sifted.others x fun i below => absent _ ((Heap.swap_lt_iff inside inside').mpr below)]
  exact Function.update_of_ne (absent other inside').symm ..

/-- Shifting up makes a heap of an array that is wrong over the hole only. -/
theorem shiftUp_eq (holed : s.Holed q m hole) (inside : hole < m)
    (wrong : Heap.UpTo (fun i => s.timeout (q i)) m hole) :
    ∃ s', s.shiftUp hole (q hole) = some s' ∧ s.Sifted q m s' := by
  have room := holed.room
  induction hole using Nat.strongRecOn generalizing s q with
  | _ hole ih =>
    rw [shiftUp]
    split
    · next positive =>
      have above := Heap.parent_lt positive
      simp only [holed.loaded (Heap.parent hole) (by omega) (by omega), Option.bind_eq_bind,
        Option.bind_some]
      split
      · next less =>
        have less := Timeval.greater_iff.mp less
        rw [put, if_pos (by omega), Option.bind_some]
        have moved := holed.move inside (Nat.lt_trans above inside) (Nat.ne_of_lt above)
        obtain ⟨s', done, sifted⟩ := ih (Heap.parent hole) above moved (Nat.lt_trans above inside)
          (wrong.swap positive inside less) moved.room
        rw [Equiv.swap_apply_right] at done
        exact ⟨s', done, sifted.move inside (Nat.lt_trans above inside)⟩
      · next high =>
        obtain ⟨done, sifted⟩ := holed.sifted inside (wrong.done fun _ =>
          not_lt.mp fun less => high (Timeval.greater_iff.mpr less))
        exact ⟨_, done, sifted⟩
    · next zero =>
      obtain ⟨done, sifted⟩ := holed.sifted inside (wrong.done fun positive =>
        absurd positive zero)
      exact ⟨_, done, sifted⟩

omit [DecidableEq ι] in
/-- The lesser child is found, and is a child. -/
theorem minChild_eq (holed : s.Holed q s.n hole) (children : 2 * (hole + 1) ≤ s.n) :
    ∃ child, s.minChild hole = some child ∧ hole < child ∧ child < s.n ∧
      Heap.parent child = hole ∧
      ∀ i, 0 < i → i < s.n → Heap.parent i = hole →
        s.timeout (q child) ≤ s.timeout (q i) := by
  unfold minChild
  split
  · next one =>
    refine ⟨_, rfl, by omega, by omega, (Heap.parent_eq_iff (by omega)).mpr (.inl rfl), ?_⟩
    intro i positive below under
    rcases (Heap.parent_eq_iff positive).mp under with rfl | rfl
    · exact le_refl _
    · omega
  · next two =>
    rw [holed.loaded _ (by omega) (by omega), holed.loaded _ (by omega) (by omega)]
    simp only [Option.bind_eq_bind, Option.bind_some]
    refine ⟨_, rfl, ?_⟩
    split
    · next greater =>
      have less := Timeval.greater_iff.mp greater
      refine ⟨by omega, by omega, (Heap.parent_eq_iff (by omega)).mpr (.inl rfl), ?_⟩
      intro i positive below under
      rcases (Heap.parent_eq_iff positive).mp under with rfl | rfl
      · exact le_refl _
      · exact less.le
    · next least =>
      have least := not_lt.mp fun less => least (Timeval.greater_iff.mpr less)
      refine ⟨by omega, by omega, (Heap.parent_eq_iff (by omega)).mpr (.inr rfl), ?_⟩
      intro i positive below under
      rcases (Heap.parent_eq_iff positive).mp under with rfl | rfl
      · exact least
      · exact le_refl _

/-- Shifting down makes a heap of an array that is wrong under the hole only. -/
theorem shiftDown_eq (holed : s.Holed q s.n hole) (inside : hole < s.n)
    (wrong : Heap.DownFrom (fun i => s.timeout (q i)) s.n hole) :
    ∃ s', s.shiftDown hole (q hole) = some s' ∧ s.Sifted q s.n s' := by
  have room := holed.room
  induction left : s.n - hole using Nat.strongRecOn generalizing s q hole with
  | _ left ih =>
    rw [shiftDown]
    split
    · next children =>
      obtain ⟨child, found, later, below, under, least⟩ := minChild_eq holed children
      split
      · next missed =>
        rw [missed] at found
        contradiction
      · next child' found' =>
        obtain rfl : child' = child := Option.some.inj (found'.symm.trans found)
        simp only [holed.loaded child' below (Nat.ne_of_gt later)]
        split
        · next right =>
          obtain ⟨done, sifted⟩ := holed.sifted inside (wrong.done fun i positive below' under' =>
            (not_lt.mp fun less => by
              rw [greater, Timeval.greater_iff.mpr less] at right
              contradiction).trans (least i positive below' under'))
          exact ⟨_, done, sifted⟩
        · next less =>
          have less := Timeval.greater_iff.mp ((Bool.not_eq_false _).mp less)
          rw [if_neg (by omega)]
          have moved := holed.move inside below (Nat.ne_of_gt later)
          obtain ⟨s', done, sifted⟩ := ih (s.n - child') (by omega) moved below
            (wrong.swap (by omega) below under least less) moved.room rfl
          rw [Equiv.swap_apply_right] at done
          exact ⟨s', done, sifted.move inside below⟩
    · next none_ =>
      have childless : ∀ i, 0 < i → i < s.n → Heap.parent i = hole →
          s.timeout (q hole) ≤ s.timeout (q i) := by
        intro i positive below under
        rcases (Heap.parent_eq_iff positive).mp under with rfl | rfl
        · omega
        · omega
      obtain ⟨done, sifted⟩ := holed.sifted inside (wrong.done childless)
      exact ⟨_, done, sifted⟩

/-- The heap holds the pending events, each of which knows its position, in the order of a heap;
the other events have none. -/
structure Represents (s : TimeHeap ι) (pending : Finset ι) : Prop where
  heap : ∃ q, s.Holds q s.n ∧ Heap.Ordered (fun i => s.timeout (q i)) s.n ∧
    ∀ x, x ∈ pending ↔ ∃ i < s.n, q i = x
  others : ∀ x, x ∉ pending → s.idx x = -1

variable {pending : Finset ι}

omit [DecidableEq ι] in
theorem new_represents [Inhabited ι] (timeout : ι → Timeval) : (new timeout).Represents ∅ := by
  refine ⟨⟨fun _ => default, ⟨Nat.zero_le _, ?_, ?_⟩, ?_, ?_⟩, fun _ _ => rfl⟩
  · exact fun i inside => absurd inside (Nat.not_lt_zero i)
  · exact fun i inside => absurd inside (Nat.not_lt_zero i)
  · exact fun i _ inside => absurd inside (Nat.not_lt_zero i)
  · simp [new]

namespace Represents

variable (represents : s.Represents pending)
include represents

omit [DecidableEq ι] in
theorem idx_eq : s.idx e = -1 ↔ e ∉ pending := by
  constructor
  · intro none_ member
    obtain ⟨q, holds, -, members⟩ := represents.heap
    obtain ⟨i, inside, rfl⟩ := (members e).mp member
    rw [holds.placed i inside] at none_
    omega
  · exact represents.others e

omit [DecidableEq ι] in
/-- The top is a pending event with the least timeout, when there is one. -/
theorem top_eq : pending = ∅ ∧ s.n = 0 ∧ s.top = some none ∨
    ∃ e, s.top = some (some e) ∧ 0 < s.n ∧ e ∈ pending ∧ s.idx e = 0 ∧
      ∀ x ∈ pending, s.timeout e ≤ s.timeout x := by
  obtain ⟨q, holds, ordered, members⟩ := represents.heap
  unfold top
  rcases Nat.eq_zero_or_pos s.n with zero | positive
  · refine .inl ⟨Finset.eq_empty_of_forall_notMem fun x member => ?_, zero, ?_⟩
    · obtain ⟨i, inside, -⟩ := (members x).mp member
      omega
    · rw [if_neg (by omega)]
  · refine .inr ⟨q 0, ?_, positive, (members _).mpr ⟨0, positive, rfl⟩, holds.placed 0 positive, ?_⟩
    · rw [if_pos (by omega), holds.loaded 0 positive]
      rfl
    · intro x member
      obtain ⟨i, inside, rfl⟩ := (members x).mp member
      exact ordered.root_le inside

end Represents

omit [DecidableEq ι] in
/-- A heap that was sifted holds the events that were to be in it. -/
theorem Sifted.represents (sifted : s.Sifted q s.n s')
    (members : ∀ x, x ∈ pending ↔ ∃ i < s.n, q i = x)
    (others : ∀ x, x ∉ pending → s.idx x = -1) : s'.Represents pending := by
  obtain ⟨q', holds, ordered, same⟩ := sifted.heap
  refine ⟨⟨q', ?_, ?_, fun x => ?_⟩, fun x absent => ?_⟩
  · rwa [sifted.size]
  · rwa [sifted.size, sifted.timeout]
  · rw [members, sifted.size, same]
  · rw [sifted.others x fun i inside same => absent ((members x).mpr ⟨i, inside, same⟩)]
    exact others x absent

omit [DecidableEq ι] in
/-- Growing the array keeps what it holds. -/
theorem reserve_eq (realloc : ℕ → Bool) (represents : s.Represents pending) (n : ℕ) :
    ∃ ok s', s.reserve realloc n = (ok, s') ∧ s'.Represents pending ∧ s'.n = s.n ∧
      s'.timeout = s.timeout ∧ (ok = true → n ≤ s'.p.length) ∧
      (ok = false → s' = s ∧ s.p.length < n ∧ ∃ a, realloc a = false) := by
  unfold reserve
  dsimp only
  generalize wide : max (if s.p.length ≠ 0 then s.p.length * 2 else 8) n = a
  have enough : n ≤ a := wide ▸ Nat.le_max_right ..
  split
  · next short =>
    split
    · refine ⟨true, _, rfl, ⟨?_, represents.others⟩, rfl, rfl, fun _ => ?_, by simp⟩
      · obtain ⟨q, holds, ordered, members⟩ := represents.heap
        have room := holds.room
        refine ⟨q, ⟨?_, fun i inside => ?_, holds.placed⟩, ordered, members⟩
        · rw [List.length_append]
          exact Nat.le_add_right_of_le room
        · have loaded := holds.loaded i inside
          unfold load at loaded ⊢
          rw [List.getElem?_append_left (Nat.lt_of_lt_of_le inside room)]
          exact loaded
      · rw [List.length_append, List.length_replicate]
        omega
    · next refused =>
      exact ⟨false, s, rfl, represents, rfl, rfl, by simp,
        fun _ => ⟨rfl, short, a, by simpa using refused⟩⟩
  · next long => exact ⟨true, s, rfl, represents, rfl, rfl, fun _ => by omega, by simp⟩

/-- `min_heap_push_` adds an event that is not pending, unless there is no memory. -/
theorem push_eq (realloc : ℕ → Bool) (represents : s.Represents pending) (fresh : e ∉ pending) :
    ∃ ok s', s.push realloc e = some (ok, s') ∧ s'.timeout = s.timeout ∧
      s'.Represents (if ok then insert e pending else pending) ∧
      (ok = false → s.p.length < s.n + 1 ∧ ∃ a, realloc a = false) := by
  obtain ⟨ok, grown, reserved, represents', size, timeout, room, refused⟩ :=
    reserve_eq realloc represents (s.n + 1)
  unfold push
  rw [reserved]
  cases ok with
  | false => exact ⟨false, grown, rfl, timeout, represents', fun failed => (refused failed).2⟩
  | true =>
    have room : grown.n + 1 ≤ grown.p.length := size ▸ room rfl
    obtain ⟨q, holds, ordered, members⟩ := represents'.heap
    have same : ∀ i < grown.n, Function.update q grown.n e i = q i := fun i inside =>
      Function.update_of_ne (Nat.ne_of_lt inside) ..
    have last : Function.update q grown.n e grown.n = e := Function.update_self ..
    have distinct : ∀ i < grown.n, q i ≠ e := by
      rintro i inside rfl
      exact fresh ((members _).mpr ⟨i, inside, rfl⟩)
    have holed : Holed { grown with n := grown.n + 1 } (Function.update q grown.n e) (grown.n + 1)
        grown.n := by
      refine ⟨room, fun i inside apart => ?_, fun i inside apart => ?_,
        fun i inside j inside' => ?_⟩
      · rw [same i (by omega)]
        exact holds.loaded i (by omega)
      · rw [same i (by omega)]
        exact holds.placed i (by omega)
      · rcases eq_or_ne i grown.n with rfl | apart
        · rcases eq_or_ne j grown.n with rfl | apart'
          · exact fun _ => rfl
          · rw [last, same j (by omega)]
            exact fun equal => absurd equal.symm (distinct j (by omega))
        · rw [same i (by omega)]
          rcases eq_or_ne j grown.n with rfl | apart'
          · rw [last]
            exact fun equal => absurd equal (distinct i (by omega))
          · rw [same j (by omega)]
            exact holds.apart (by omega) (by omega)
    obtain ⟨s', done, sifted⟩ := shiftUp_eq holed (Nat.lt_succ_self _)
      (ordered.extended fun i inside => by rw [same i inside])
    rw [last] at done
    refine ⟨true, s', by simp only [done, Option.map_some], sifted.timeout.trans timeout, ?_,
      by simp⟩
    apply sifted.represents
    · intro x
      rw [if_pos rfl, Finset.mem_insert, members]
      constructor
      · rintro (rfl | ⟨i, inside, rfl⟩)
        · exact ⟨grown.n, Nat.lt_succ_self _, last⟩
        · exact ⟨i, Nat.lt_succ_of_lt inside, same i inside⟩
      · rintro ⟨i, inside, rfl⟩
        rcases Nat.lt_succ_iff_lt_or_eq.mp inside with inside | rfl
        · exact .inr ⟨i, inside, (same i inside).symm⟩
        · exact .inl last
    · intro x absent
      rw [if_pos rfl, Finset.mem_insert, not_or] at absent
      exact represents'.others x absent.2

theorem shiftUpUnconditional_eq {above : ι} (positive : 0 < hole)
    (loaded : s.load (Heap.parent hole) = some above) (less : s.greater above e = true) :
    s.shiftUpUnconditional hole e = s.shiftUp hole e := by
  rw [shiftUp, dif_pos positive]
  simp only [shiftUpUnconditional, loaded, Option.bind_eq_bind, Option.bind_some, less, if_true]

/-- A heap of which one event was replaced becomes a heap again. -/
theorem replace_eq {key : ℕ → Timeval} (holed : s.Holed q s.n hole) (inside : hole < s.n)
    (ordered : Heap.Ordered key s.n) (same : ∀ i < s.n, i ≠ hole → s.timeout (q i) = key i) :
    ∃ s', s.replace hole (q hole) = some s' ∧ s.Sifted q s.n s' := by
  unfold replace
  split
  · next positive =>
    have above := Heap.parent_lt positive
    have loaded := holed.loaded (Heap.parent hole) (by omega) (by omega)
    simp only [loaded, Option.bind_eq_bind, Option.bind_some]
    split
    · next less =>
      rw [shiftUpUnconditional_eq positive loaded less]
      exact shiftUp_eq holed inside
        (ordered.lowered positive inside same (Timeval.greater_iff.mp less))
    · next high =>
      exact shiftDown_eq holed inside (ordered.raised inside same fun _ =>
        not_lt.mp fun less => high (Timeval.greater_iff.mpr less))
  · next zero =>
    exact shiftDown_eq holed inside (ordered.raised inside same fun positive =>
      absurd positive zero)

/-- Behind the last event there is nothing to shift down from. -/
theorem shiftDown_end (beyond : s.n ≤ hole) (room : hole < s.p.length) (e : ι) :
    s.shiftDown hole e = some (s.store hole e) := by
  rw [shiftDown, dif_neg (by omega), put, if_pos room]

/-- The heap that a shift left, without an event that was not in it. -/
theorem Sifted.cleared {gone : ι} (sifted : s.Sifted q s.n s')
    (members : ∀ x, x ∈ pending.erase gone ↔ ∃ i < s.n, q i = x)
    (others : ∀ x, x ∉ pending → s.idx x = -1) :
    (s'.clear gone).Represents (pending.erase gone) := by
  obtain ⟨q', holds, ordered, same⟩ := sifted.heap
  refine ⟨⟨q', ⟨?_, ?_, ?_⟩, ?_, fun x => ?_⟩, fun x absent => ?_⟩
  · exact sifted.size ▸ holds.room
  · exact sifted.size ▸ holds.loaded
  · intro i inside
    have inside : i < s.n := sifted.size ▸ inside
    have member := (members _).mpr ((same _).mp ⟨i, inside, rfl⟩)
    change Function.update s'.idx gone (-1) (q' i) = i
    rw [Function.update_of_ne (Finset.ne_of_mem_erase member)]
    exact holds.placed i inside
  · change Heap.Ordered (fun i => s'.timeout (q' i)) s'.n
    rwa [sifted.size, sifted.timeout]
  · change _ ↔ ∃ i < s'.n, q' i = x
    rw [members, sifted.size, same]
  · change Function.update s'.idx gone (-1) x = -1
    rcases eq_or_ne x gone with rfl | apart
    · exact Function.update_self ..
    · rw [Function.update_of_ne apart,
        sifted.others x fun i inside equal => absent ((members x).mpr ⟨i, inside, equal⟩)]
      exact others x fun member => absent (Finset.mem_erase.mpr ⟨apart, member⟩)

/-- Without its last event, a heap becomes one again when that event takes the place of another
one. -/
theorem Represents.removed_before (represents : s.Represents pending) {q : ℕ → ι}
    (holds : s.Holds q s.n) (ordered : Heap.Ordered (fun i => s.timeout (q i)) s.n)
    (members : ∀ x, x ∈ pending ↔ ∃ i < s.n, q i = x) (before : hole < s.n - 1) :
    ∃ s', TimeHeap.replace { s with n := s.n - 1 } hole (q (s.n - 1)) = some s' ∧
      s'.timeout = s.timeout ∧ s'.n + 1 = s.n ∧ s'.p.length = s.p.length ∧
      (s'.clear (q hole)).Represents (pending.erase (q hole)) := by
  have room := holds.room
  have same : ∀ i, i ≠ hole → Function.update q hole (q (s.n - 1)) i = q i := fun i apart =>
    Function.update_of_ne apart ..
  have moved : Function.update q hole (q (s.n - 1)) hole = q (s.n - 1) := Function.update_self ..
  have holed : Holed { s with n := s.n - 1 } (Function.update q hole (q (s.n - 1)))
      (s.n - 1) hole := by
    refine ⟨Nat.le_trans (Nat.sub_le ..) room, fun i below apart => ?_, fun i below apart => ?_,
      fun i below j below' => ?_⟩
    · rw [same i apart]
      exact holds.loaded i (by omega)
    · rw [same i apart]
      exact holds.placed i (by omega)
    · rcases eq_or_ne i hole with rfl | apart
      · rcases eq_or_ne j i with rfl | apart'
        · exact fun _ => rfl
        · rw [moved, same j apart']
          intro equal
          have := holds.apart (by omega) (by omega) equal
          omega
      · rw [same i apart]
        rcases eq_or_ne j hole with rfl | apart'
        · rw [moved]
          intro equal
          have := holds.apart (by omega) (by omega) equal
          omega
        · rw [same j apart']
          exact holds.apart (by omega) (by omega)
  have members' (x : ι) : x ∈ pending.erase (q hole) ↔
      ∃ i < s.n - 1, Function.update q hole (q (s.n - 1)) i = x := by
    rw [Finset.mem_erase, members]
    constructor
    · rintro ⟨other, i, below, rfl⟩
      have apart : i ≠ hole := by
        rintro rfl
        exact other rfl
      rcases eq_or_ne i (s.n - 1) with rfl | apart'
      · exact ⟨hole, before, moved⟩
      · exact ⟨i, by omega, same i apart⟩
    · rintro ⟨i, below, rfl⟩
      rcases eq_or_ne i hole with rfl | apart
      · rw [moved]
        refine ⟨fun equal => ?_, s.n - 1, by omega, rfl⟩
        have := holds.apart (by omega) (by omega) equal
        omega
      · rw [same i apart]
        exact ⟨fun equal => apart (holds.apart (by omega) (by omega) equal), i, by omega, rfl⟩
  obtain ⟨s', done, sifted⟩ := replace_eq holed before (ordered.shrink (Nat.sub_le ..))
    fun i _ apart => by rw [same i apart]
  rw [moved] at done
  refine ⟨s', done, sifted.timeout, ?_, sifted.room, sifted.cleared members' represents.others⟩
  rw [sifted.size]
  exact Nat.sub_add_cancel (by omega)

/-- Without its last event, a heap is one. -/
theorem Represents.removed_last (represents : s.Represents pending) {q : ℕ → ι}
    (holds : s.Holds q s.n) (ordered : Heap.Ordered (fun i => s.timeout (q i)) s.n)
    (members : ∀ x, x ∈ pending ↔ ∃ i < s.n, q i = x) (inside : s.n - 1 < s.n) :
    ∃ s', TimeHeap.replace { s with n := s.n - 1 } (s.n - 1) (q (s.n - 1)) = some s' ∧
      s'.timeout = s.timeout ∧ s'.n + 1 = s.n ∧ s'.p.length = s.p.length ∧
      (s'.clear (q (s.n - 1))).Represents (pending.erase (q (s.n - 1))) := by
  have room := holds.room
  have done : TimeHeap.replace { s with n := s.n - 1 } (s.n - 1) (q (s.n - 1)) =
      some (TimeHeap.store { s with n := s.n - 1 } (s.n - 1) (q (s.n - 1))) := by
    have written := @shiftDown_end ι _ { s with n := s.n - 1 } (s.n - 1) (Nat.le_refl _)
      (Nat.lt_of_lt_of_le inside room) (q (s.n - 1))
    unfold replace
    split
    · next positive =>
      have above := Heap.parent_lt positive
      have loaded : TimeHeap.load { s with n := s.n - 1 } (Heap.parent (s.n - 1)) =
          some (q (Heap.parent (s.n - 1))) := holds.loaded _ (by omega)
      simp only [loaded, Option.bind_eq_bind, Option.bind_some]
      rw [if_neg]
      · exact written
      · intro greater
        exact absurd (ordered _ positive inside) (not_le.mpr (Timeval.greater_iff.mp greater))
    · exact written
  refine ⟨_, done, rfl, Nat.sub_add_cancel (by omega), length_store ..,
    ⟨q, ⟨?_, fun i below => ?_, fun i below => ?_⟩, ordered.shrink (Nat.sub_le ..), fun x => ?_⟩,
    fun x absent => ?_⟩
  · rw [clear, length_store]
    exact Nat.le_trans (Nat.sub_le ..) room
  · have below : i < s.n - 1 := below
    have stored := load_store (s.n - 1) (q (s.n - 1)) { s with n := s.n - 1 } i
      (Nat.lt_of_lt_of_le inside room)
    rw [if_neg (Nat.ne_of_lt below)] at stored
    exact stored.trans (holds.loaded i (by omega))
  · have below : i < s.n - 1 := below
    have apart : q i ≠ q (s.n - 1) := fun equal =>
      Nat.ne_of_lt below (holds.apart (Nat.lt_trans below inside) inside equal)
    change Function.update (Function.update s.idx (q (s.n - 1)) _) (q (s.n - 1)) (-1) (q i) = i
    rw [Function.update_of_ne apart, Function.update_of_ne apart]
    exact holds.placed i (Nat.lt_trans below inside)
  · rw [Finset.mem_erase, members]
    change _ ↔ ∃ i < s.n - 1, q i = x
    constructor
    · rintro ⟨other, i, below, rfl⟩
      have apart : i ≠ s.n - 1 := by
        rintro rfl
        exact other rfl
      exact ⟨i, by omega, rfl⟩
    · rintro ⟨i, below, rfl⟩
      exact ⟨fun equal => Nat.ne_of_lt below (holds.apart (by omega) inside equal), i,
        by omega, rfl⟩
  · change Function.update (Function.update s.idx (q (s.n - 1)) _) (q (s.n - 1)) (-1) x = -1
    rcases eq_or_ne x (q (s.n - 1)) with rfl | apart
    · exact Function.update_self ..
    · rw [Function.update_of_ne apart, Function.update_of_ne apart]
      exact represents.others x fun member => absent (Finset.mem_erase.mpr ⟨apart, member⟩)

/-- Any event may be removed. -/
theorem Represents.removed (represents : s.Represents pending) {q : ℕ → ι} (holds : s.Holds q s.n)
    (ordered : Heap.Ordered (fun i => s.timeout (q i)) s.n)
    (members : ∀ x, x ∈ pending ↔ ∃ i < s.n, q i = x) (inside : hole < s.n) :
    ∃ s', TimeHeap.replace { s with n := s.n - 1 } hole (q (s.n - 1)) = some s' ∧
      s'.timeout = s.timeout ∧ s'.n + 1 = s.n ∧ s'.p.length = s.p.length ∧
      (s'.clear (q hole)).Represents (pending.erase (q hole)) := by
  rcases Nat.lt_or_ge hole (s.n - 1) with before | atEnd
  · exact represents.removed_before holds ordered members before
  · obtain rfl : hole = s.n - 1 := by omega
    exact represents.removed_last holds ordered members inside

/-- `min_heap_pop_` takes a pending event with the least timeout. -/
theorem pop_eq (represents : s.Represents pending) :
    ∃ first s', s.pop = some (first, s') ∧ s'.timeout = s.timeout ∧
      (first = none ∧ pending = ∅ ∧ s' = s ∨
        ∃ e, first = some e ∧ e ∈ pending ∧ (∀ x ∈ pending, s.timeout e ≤ s.timeout x) ∧
          s'.Represents (pending.erase e)) := by
  unfold pop
  rcases represents.top_eq with ⟨empty, zero, -⟩ | ⟨e, top_, positive, member, -, least⟩
  · exact ⟨none, s, if_neg (not_not.mpr zero), rfl, .inl ⟨rfl, empty, rfl⟩⟩
  · obtain ⟨q, holds, ordered, members⟩ := represents.heap
    have first : q 0 = e := by
      rw [top, if_pos (by omega), holds.loaded 0 positive] at top_
      simpa using top_
    obtain ⟨s', done, timeout, -, -, represents'⟩ :=
      represents.removed holds ordered members positive
    rw [replace, if_neg (Nat.lt_irrefl 0)] at done
    rw [first] at represents'
    refine ⟨some e, s'.clear e, ?_, timeout, .inr ⟨e, rfl, member, least, represents'⟩⟩
    rw [if_pos (by omega), holds.loaded 0 positive, holds.loaded _ (by omega)]
    simp only [Option.bind_eq_bind, Option.bind_some, done, first]

/-- `min_heap_erase_` takes any pending event. -/
theorem erase_eq (represents : s.Represents pending) (e : ι) :
    ∃ s', s.erase e = some (decide (e ∈ pending), s') ∧ s'.timeout = s.timeout ∧
      (e ∈ pending → s'.n + 1 = s.n) ∧ s'.p.length = s.p.length ∧
      s'.Represents (pending.erase e) := by
  unfold erase
  by_cases member : e ∈ pending
  · obtain ⟨q, holds, ordered, members⟩ := represents.heap
    obtain ⟨i, inside, rfl⟩ := (members e).mp member
    obtain ⟨s', done, timeout, size, length, represents'⟩ :=
      represents.removed holds ordered members inside
    refine ⟨s'.clear (q i), ?_, timeout, fun _ => size, length, represents'⟩
    rw [if_pos (by rw [holds.placed i inside]; omega), holds.loaded _ (by omega),
      holds.placed i inside]
    simp only [Option.bind_eq_bind, Option.bind_some, Int.toNat_natCast, done, member,
      decide_true]
  · refine ⟨s, ?_, rfl, fun inside => absurd inside member, rfl, ?_⟩
    · rw [if_neg (not_not.mpr (represents.others e member)), decide_eq_false member]
    · rwa [Finset.erase_eq_of_notMem member]

/-- The timeout of an event that is not pending does not matter. -/
theorem Represents.retime (represents : s.Represents pending) (absent : e ∉ pending)
    (tv : Timeval) :
    Represents { s with timeout := Function.update s.timeout e tv } pending := by
  obtain ⟨q, holds, ordered, members⟩ := represents.heap
  have same : ∀ i < s.n, Function.update s.timeout e tv (q i) = s.timeout (q i) := by
    intro i inside
    apply Function.update_of_ne
    rintro rfl
    exact absent ((members _).mpr ⟨i, inside, rfl⟩)
  refine ⟨⟨q, ⟨holds.room, holds.loaded, holds.placed⟩, ?_, members⟩, represents.others⟩
  intro i later inside
  have above := Heap.parent_lt later
  dsimp only
  rw [same i inside, same _ (above.trans inside)]
  exact ordered i later inside

/-- `min_heap_adjust_` makes up for a changed timeout. -/
theorem adjust_eq (realloc : ℕ → Bool) (represents : s.Represents pending) (member : e ∈ pending)
    (tv : Timeval) :
    ∃ s', TimeHeap.adjust realloc { s with timeout := Function.update s.timeout e tv } e =
        some (true, s') ∧
      s'.timeout = Function.update s.timeout e tv ∧ s'.Represents pending := by
  obtain ⟨q, holds, ordered, members⟩ := represents.heap
  obtain ⟨i, inside, rfl⟩ := (members e).mp member
  have holed : Holed { s with timeout := Function.update s.timeout (q i) tv } q s.n i :=
    ⟨holds.room, fun j below _ => holds.loaded j below, fun j below _ => holds.placed j below,
      fun _ below _ below' => holds.apart below below'⟩
  obtain ⟨s', done, sifted⟩ := replace_eq holed inside ordered fun j below apart => by
    change Function.update s.timeout (q i) tv (q j) = _
    rw [Function.update_of_ne fun equal => apart (holds.apart below inside equal)]
  refine ⟨s', ?_, sifted.timeout, sifted.represents members represents.others⟩
  unfold adjust
  dsimp only
  rw [if_neg (by rw [holds.placed i inside]; omega), holds.placed i inside, Int.toNat_natCast, done]
  rfl

end TimeHeap

end MerlinC.Model
