import Mathlib.Data.List.Chain
import Mathlib.Data.List.Nodup

/-! # Iterating over a list while removing from it

A loop over a list by position that removes the element at hand passes over the element that
moves into its place. Which elements such a loop meets and which are left is computed here
without positions, and so is when it meets all that it is needed for.
-/

namespace MerlinC.Math

variable {α : Type*} [DecidableEq α] (removes : α → Bool)

/-- The loop by position: what is left of the list, and the elements that were met. -/
def sweep (i : ℕ) (l : List α) : List α × List α :=
  if h : i < l.length then
    let x := l[i]
    let rest := sweep (i + 1) (if removes x then l.erase x else l)
    (rest.1, x :: rest.2)
  else (l, [])
termination_by l.length - i
decreasing_by
  split
  · have := l.length_erase_le (a := l[i])
    omega
  · omega

/-- The elements that are met. -/
def met : List α → List α
  | [] => []
  | [x] => [x]
  | x :: y :: rest => if removes x then x :: met rest else x :: met (y :: rest)

/-- The elements that are left. -/
def left : List α → List α
  | [] => []
  | [x] => if removes x then [] else [x]
  | x :: y :: rest => if removes x then y :: left rest else x :: left (y :: rest)

variable {removes} {front l : List α}

theorem sweep_of_lt {i : ℕ} (inside : i < l.length) : sweep removes i l =
    let rest := sweep removes (i + 1) (if removes l[i] then l.erase l[i] else l)
    (rest.1, l[i] :: rest.2) := by
  rw [sweep, dif_pos inside]

/-- One turn of the loop by position. -/
theorem sweep_cons {x : α} (new : x ∉ front) : sweep removes front.length (front ++ x :: l) =
    let rest := sweep removes (front.length + 1) (if removes x then front ++ l else front ++ x :: l)
    (rest.1, x :: rest.2) := by
  have inside : front.length < (front ++ x :: l).length := by simp
  rw [sweep_of_lt inside]
  simp only [List.getElem_append_right (Nat.le_refl _), Nat.sub_self, List.getElem_cons_zero,
    List.erase_append_right _ new, List.erase_cons_head]

theorem sweep_end (front : List α) : sweep removes front.length front = (front, []) := by
  rw [sweep, dif_neg (Nat.lt_irrefl _)]

/-- On distinct elements the loop by position meets and leaves these. -/
theorem sweep_eq (distinct : (front ++ l).Nodup) : sweep removes front.length (front ++ l) =
    (front ++ left removes l, met removes l) := by
  have next (front : List α) (y : α) (rest : List α) :
      sweep removes (front.length + 1) (front ++ y :: rest) =
        sweep removes (front ++ [y]).length ((front ++ [y]) ++ rest) := by simp
  have parts {front : List α} {x : α} {rest : List α} (distinct : (front ++ x :: rest).Nodup) :
      x ∉ front ∧ (front ++ rest).Nodup := by
    obtain ⟨new, others⟩ := List.nodup_cons.mp (List.nodup_middle.mp distinct)
    exact ⟨fun member => new (List.mem_append_left _ member), others⟩
  induction l using met.induct removes generalizing front with
  | case1 =>
    rw [List.append_nil, sweep_end, left, met, List.append_nil]
  | case2 x =>
    rw [sweep_cons (parts distinct).1]
    cases bad : removes x with
    | true => simp [left, met, bad, sweep, Nat.not_lt.mpr (Nat.le_succ _)]
    | false =>
      rw [if_neg Bool.false_ne_true, next, List.append_nil, sweep_end]
      simp [left, met, bad]
  | case3 x y rest bad ih =>
    obtain ⟨new, distinct'⟩ := parts distinct
    rw [← List.singleton_append, ← List.append_assoc] at distinct'
    rw [sweep_cons new, if_pos bad, next, ih distinct', met, if_pos bad, left, if_pos bad,
      List.append_assoc, List.singleton_append]
  | case4 x y rest good ih =>
    have new := (parts distinct).1
    rw [← List.singleton_append, ← List.append_assoc] at distinct
    rw [sweep_cons new, if_neg good, next, ih distinct, met, if_neg good, left, if_neg good,
      List.append_assoc, List.singleton_append]

section Met

variable (removes)

omit [DecidableEq α] in
theorem met_sublist (l : List α) : (met removes l).Sublist l := by
  induction l using met.induct removes with
  | case1 => exact .refl _
  | case2 x => exact .refl _
  | case3 x y rest bad ih =>
    rw [met, if_pos bad]
    exact (ih.cons y).cons_cons x
  | case4 x y rest good ih =>
    rw [met, if_neg good]
    exact ih.cons_cons x

/-- What is left is all but the removed elements that were met. -/
theorem left_eq_filter {l : List α} (distinct : l.Nodup) :
    left removes l = l.filter fun x => !(removes x && (met removes l).contains x) := by
  have shorter {x : α} {rest seen : List α} (new : x ∉ rest) :
      rest.filter (fun z => !(removes z && (x :: seen).contains z)) =
        rest.filter fun z => !(removes z && seen.contains z) := by
    apply List.filter_congr
    intro z member
    have other : z ≠ x := fun same => new (same ▸ member)
    simp [other]
  induction l using met.induct removes with
  | case1 => rfl
  | case2 x => cases bad : removes x <;> simp [left, met, bad]
  | case3 x y rest bad ih =>
    obtain ⟨newX, distinct'⟩ := List.nodup_cons.mp distinct
    obtain ⟨newY, distinct''⟩ := List.nodup_cons.mp distinct'
    have unseen : y ∉ x :: met removes rest := by
      rw [List.mem_cons, not_or]
      refine ⟨fun same => newX (same ▸ List.mem_cons_self), fun seen => newY ?_⟩
      exact (met_sublist removes rest).subset seen
    rw [left, if_pos bad, met, if_pos bad, List.filter_cons_of_neg (by simp [bad]),
      List.filter_cons_of_pos (by simp [unseen]), ih distinct'',
      shorter fun member => newX (List.mem_cons_of_mem _ member)]
  | case4 x y rest good ih =>
    obtain ⟨new, distinct'⟩ := List.nodup_cons.mp distinct
    rw [left, if_neg good, met, if_neg good, List.filter_cons_of_pos (by simp [good]),
      ih distinct', shorter new]

omit [DecidableEq α] in
/-- The loop meets all elements that are needed, among them all that it removes, if and only if no
needed element comes right after a removed one. -/
theorem met_iff {needed : α → Bool} (among : ∀ x, removes x = true → needed x = true) {l : List α}
    (distinct : l.Nodup) : (∀ x ∈ l, needed x = true → x ∈ met removes l) ↔
      l.IsChain fun x y => removes x = true → needed y = false := by
  have later {x z : α} {rest seen : List α} (new : x ∉ rest) (member : z ∈ rest)
      (here : z ∈ x :: seen) : z ∈ seen := by
    rcases List.mem_cons.mp here with rfl | seen_
    · exact absurd member new
    · exact seen_
  induction l using met.induct removes with
  | case1 => exact ⟨fun _ => .nil, fun _ x member => absurd member List.not_mem_nil⟩
  | case2 x => exact ⟨fun _ => .singleton x, fun _ y member _ => member⟩
  | case3 x y rest bad ih =>
    obtain ⟨newX, distinct'⟩ := List.nodup_cons.mp distinct
    obtain ⟨newY, distinct''⟩ := List.nodup_cons.mp distinct'
    have newX' : x ∉ rest := fun member => newX (List.mem_cons_of_mem _ member)
    rw [met, if_pos bad, List.isChain_cons_cons]
    constructor
    · intro all
      have spared : needed y = false := by
        rw [← Bool.not_eq_true]
        intro need
        have seen := later newX List.mem_cons_self (all y (by simp) need)
        exact newY ((met_sublist removes rest).subset seen)
      have rest_ := (ih distinct'').mp fun z member need =>
        later newX' member (all z (by simp [member]) need)
      refine ⟨fun _ => spared, List.isChain_cons.mpr ⟨fun z _ removed => ?_, rest_⟩⟩
      rw [among y removed] at spared
      contradiction
    · rintro ⟨spared, chain⟩ z member need
      rcases List.mem_cons.mp member with rfl | member
      · exact List.mem_cons_self
      · rcases List.mem_cons.mp member with rfl | member
        · rw [spared bad] at need
          contradiction
        · exact List.mem_cons_of_mem _ ((ih distinct'').mpr chain.tail z member need)
  | case4 x y rest good ih =>
    obtain ⟨new, distinct'⟩ := List.nodup_cons.mp distinct
    rw [met, if_neg good, List.isChain_cons_cons]
    constructor
    · intro all
      refine ⟨fun bad => absurd bad good, (ih distinct').mp fun z member need => ?_⟩
      exact later new member (all z (List.mem_cons_of_mem _ member) need)
    · rintro ⟨_, chain⟩ z member need
      rcases List.mem_cons.mp member with rfl | member
      · exact List.mem_cons_self
      · exact List.mem_cons_of_mem _ ((ih distinct').mpr chain z member need)

end Met

end MerlinC.Math
