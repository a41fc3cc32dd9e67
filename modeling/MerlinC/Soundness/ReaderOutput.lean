import MerlinC.Model.FireClientRead

/-! # What the reading client prints

`read_cb` copies its input buffer and does not drain it, so every call prints the whole stream
again. The printed text is the stream only while there is nothing to print again, and only as
long as the stream and its terminator fit the array.
-/

namespace MerlinC.Soundness

open Model Model.FireClientRead

/-- After these arrivals the client has printed each byte exactly once. -/
def PrintedOnce (past : List Bytes) : Prop :=
  ∃ r, Reader.arriveAll past = some r ∧ r.printed = past.flatten

/-- Arrivals without a byte leave everything as it was. -/
theorem arriveAll_empty {past : List Bytes} (nothing : past.flatten = []) :
    ∃ r, Reader.arriveAll past = some r ∧ r.printed = [] := by
  induction past using List.reverseRecOn with
  | nil => exact ⟨_, rfl, rfl⟩
  | append_singleton past data ih =>
    rw [List.flatten_append, List.flatten_singleton] at nothing
    obtain ⟨before, rfl⟩ := List.append_eq_nil_iff.mp nothing
    obtain ⟨r, ran, printed⟩ := ih before
    have kept := Reader.arriveAll_input (by simp [before]) ran
    rw [before] at kept
    refine ⟨⟨r.input.receive [], r.printed ++ (r.input.bytes ++ [])⟩, ?_, by simp [printed, kept]⟩
    rw [Reader.arriveAll_concat, ran, Option.bind_some, Reader.arrive_eq r [] (by simp [kept]),
      if_pos (by simp [kept, msgSize])]

/-- An arrival prints each byte once exactly if it is the first one with bytes in it, and does
not overrun the array. -/
theorem printedOnce_concat {past : List Bytes} {data : Bytes}
    (plain : 0 ∉ (past ++ [data]).flatten) (before : PrintedOnce past) :
    PrintedOnce (past ++ [data]) ↔
      past.flatten = [] ∧ (past ++ [data]).flatten.length < msgSize := by
  obtain ⟨r, ran, printed⟩ := before
  rw [List.flatten_append, List.flatten_singleton] at plain
  have kept := Reader.arriveAll_input (fun member => plain (List.mem_append_left _ member)) ran
  have arrives := Reader.arrive_eq r data (kept.symm ▸ plain)
  rw [kept, printed] at arrives
  rw [PrintedOnce, Reader.arriveAll_concat, ran, Option.bind_some, arrives, List.flatten_append,
    List.flatten_singleton]
  constructor
  · rintro ⟨r', ran', whole⟩
    split at ran'
    · next fits =>
      obtain rfl := Option.some.inj ran'
      exact ⟨List.self_eq_append_left.mp whole.symm, fits⟩
    · contradiction
  · rintro ⟨nothing, fits⟩
    exact ⟨_, if_pos fits, by simp [nothing]⟩

/-- At every point of a run the client has printed each received byte exactly once, if and only
if nothing arrived before the last arrival, and the stream is shorter than the array. -/
theorem printedOnce_iff {arrivals : List Bytes} (plain : 0 ∉ arrivals.flatten) :
    (∀ past, past <+: arrivals → PrintedOnce past) ↔
      arrivals.dropLast.flatten = [] ∧ arrivals.flatten.length < msgSize := by
  rcases List.eq_nil_or_concat' arrivals with rfl | ⟨past, data, rfl⟩
  · refine iff_of_true (fun past front => ?_) ⟨rfl, by decide⟩
    obtain rfl := List.prefix_nil.mp front
    exact ⟨_, rfl, rfl⟩
  · rw [List.dropLast_concat]
    constructor
    · intro once
      exact (printedOnce_concat plain (once past (List.prefix_append ..))).mp
        (once _ (List.prefix_refl _))
    · rintro ⟨nothing, fits⟩ front prefix_
      have emptyFront {front : List Bytes} (prefix_ : front <+: past) : PrintedOnce front := by
        have empty : front.flatten = [] := by
          obtain ⟨rest, rfl⟩ := prefix_
          rw [List.flatten_append] at nothing
          exact (List.append_eq_nil_iff.mp nothing).1
        obtain ⟨r, ran, printed⟩ := arriveAll_empty empty
        exact ⟨r, ran, printed.trans empty.symm⟩
      rcases List.prefix_concat_iff.mp prefix_ with rfl | shorter
      · exact (printedOnce_concat plain (emptyFront (List.prefix_refl _))).mpr ⟨nothing, fits⟩
      · exact emptyFront shorter

/-- One short arrival is printed as it is. -/
theorem printedOnce_iff_short : PrintedOnce [ascii "hi\n"] :=
  (printedOnce_iff (by decide)).mpr ⟨rfl, by decide⟩ _ (List.prefix_refl _)

/-- The second arrival prints the first one again. -/
theorem printedOnce_fails : ¬ ∀ arrivals : List Bytes, 0 ∉ arrivals.flatten →
    ∀ past, past <+: arrivals → PrintedOnce past := by
  intro once
  have plain : 0 ∉ [ascii "a", ascii "b"].flatten := by decide
  have first := once [ascii "a", ascii "b"] plain [ascii "a"] (by decide)
  have both := once [ascii "a", ascii "b"] plain _ (List.prefix_refl _)
  exact absurd ((printedOnce_concat plain first).mp both).1 (by decide)

end MerlinC.Soundness
