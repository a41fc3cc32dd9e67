import Mathlib.Data.List.Basic
import Mathlib.Data.Nat.Notation

/-! # Searching a text

`find what text` is where `what` first occurs in a text. It can be looked for piece by piece: a
piece in which the first cell of `what` does not occur is skipped whole, and so is a place where
the rest of `what` does not follow. `first` merges two searches for single cells, one of which is
cut off where the other succeeds.
-/

namespace MerlinC.Math

variable {α : Type*} [DecidableEq α]

/-- Where the first occurrence of a word in a text begins. -/
def find (what : List α) : List α → Option ℕ
  | [] => if what = [] then some 0 else none
  | cell :: rest =>
      if what <+: cell :: rest then some 0 else (find what rest).map (· + 1)

/-- The smaller of two positions. -/
def first : Option ℕ → Option ℕ → Option ℕ
  | some i, some j => some (min i j)
  | some i, none => some i
  | none, j => j

variable {what text front : List α} {head : α} {pos : ℕ}

theorem find_here (here : what <+: text) : find what text = some 0 := by
  cases text with
  | nil => rw [find, if_pos (List.prefix_nil.mp here)]
  | cons cell rest => rw [find, if_pos here]

/-- Where a word begins nowhere in a part of the text, it is looked for behind it. -/
theorem find_append (absent : ∀ i < front.length, ¬what <+: (front ++ text).drop i) :
    find what (front ++ text) = (find what text).map (· + front.length) := by
  induction front with
  | nil => simp
  | cons cell front ih =>
    have others : ∀ i < front.length, ¬what <+: (front ++ text).drop i := by
      intro i bound
      exact absent (i + 1) (Nat.add_lt_add_right bound 1)
    have elsewhere : ¬what <+: cell :: (front ++ text) := absent 0 (Nat.zero_lt_succ _)
    rw [List.cons_append, find, if_neg elsewhere, ih others, Option.map_map]
    rfl

theorem find_drop (inside : pos ≤ text.length) (absent : ∀ i < pos, ¬what <+: text.drop i) :
    find what text = (find what (text.drop pos)).map (· + pos) := by
  have length : (text.take pos).length = pos := List.length_take_of_le inside
  have split : text.take pos ++ text.drop pos = text := List.take_append_drop pos text
  have skipped : find what (text.take pos ++ text.drop pos) =
      (find what (text.drop pos)).map (· + (text.take pos).length) := by
    apply find_append
    rwa [length, split]
  rwa [split, length] at skipped

omit [DecidableEq α] in
/-- A word does not begin where its first cell is not. -/
theorem not_prefix_of_ne {rest : List α} (other : text[pos]? ≠ some head) :
    ¬head :: rest <+: text.drop pos := by
  intro follows
  apply other
  obtain ⟨more, split⟩ := follows
  rw [← Nat.add_zero pos, ← List.getElem?_drop, ← split]
  rfl

/-- The search stops at the first occurrence. -/
theorem find_eq_some : find what text = some pos →
    what <+: text.drop pos ∧ ∀ i < pos, ¬what <+: text.drop i := by
  induction text generalizing pos with
  | nil =>
    intro found
    rw [find] at found
    split at found
    · next empty =>
      obtain rfl := Option.some.inj found
      exact ⟨by simp [empty], by simp⟩
    · contradiction
  | cons cell rest ih =>
    intro found
    rw [find] at found
    split at found
    · next here =>
      obtain rfl := Option.some.inj found
      exact ⟨here, by simp⟩
    · next elsewhere =>
      obtain ⟨later, further, rfl⟩ := Option.map_eq_some_iff.mp found
      obtain ⟨here, absent⟩ := ih further
      refine ⟨here, fun i bound => ?_⟩
      cases i with
      | zero => exact elsewhere
      | succ i => exact absent i (by omega)

/-- The search fails where the word does not occur. -/
theorem find_eq_none : find what text = none → ∀ i, ¬what <+: text.drop i := by
  induction text with
  | nil =>
    intro failed i
    rw [find] at failed
    split at failed
    · contradiction
    · next some_ => simpa using some_
  | cons cell rest ih =>
    intro failed i
    rw [find] at failed
    split at failed
    · contradiction
    · next elsewhere =>
      cases i with
      | zero => exact elsewhere
      | succ i => exact ih (Option.map_eq_none_iff.mp failed) i

/-- A word is found at a place if it is there and nowhere before. -/
theorem find_eq_some_iff : find what text = some pos ↔
    what <+: text.drop pos ∧ pos ≤ text.length ∧ ∀ i < pos, ¬what <+: text.drop i := by
  constructor
  · intro found
    obtain ⟨here, absent⟩ := find_eq_some found
    refine ⟨here, ?_, absent⟩
    apply Nat.le_of_not_lt
    intro beyond
    rw [List.drop_of_length_le (Nat.le_of_lt beyond)] at here
    apply absent text.length beyond
    rwa [List.drop_length]
  · rintro ⟨here, inside, absent⟩
    rw [find_drop inside absent, find_here here, Option.map_some, Nat.zero_add]

omit [DecidableEq α] in
/-- A single cell is found where the text has it for the first time. -/
theorem findIdx?_eq_some_iff_append {p : α → Bool} : text.findIdx? p = some pos ↔
    ∃ front cell rest, text = front ++ cell :: rest ∧ front.length = pos ∧ p cell = true ∧
      ∀ other ∈ front, p other = false := by
  constructor
  · intro found
    obtain ⟨bound, here, before⟩ := List.findIdx?_eq_some_iff_getElem.mp found
    refine ⟨text.take pos, text[pos], text.drop (pos + 1), ?_, ?_, here, fun other inside => ?_⟩
    · rw [List.getElem_cons_drop, List.take_append_drop]
    · exact List.length_take_of_le (Nat.le_of_lt bound)
    · obtain ⟨i, early, rfl⟩ := List.mem_take_iff_getElem.mp inside
      simpa using before i (by omega)
  · rintro ⟨front, cell, rest, rfl, rfl, here, before⟩
    have none_ : front.findIdx? p = none := List.findIdx?_eq_none_iff.mpr before
    rw [List.findIdx?_append, none_, List.findIdx?_cons, if_pos here, Option.none_or,
      Option.map_some, Nat.zero_add]

omit [DecidableEq α] in
/-- Two searches for single cells are one. -/
theorem first_findIdx? (p q : α → Bool) (text : List α) :
    first (text.findIdx? p) (text.findIdx? q) = text.findIdx? fun cell => p cell || q cell := by
  induction text with
  | nil => rfl
  | cons cell rest ih =>
    simp only [List.findIdx?_cons]
    rw [← ih]
    cases p cell <;> cases q cell <;> cases rest.findIdx? p <;> cases rest.findIdx? q <;>
      simp [first]

end MerlinC.Math
