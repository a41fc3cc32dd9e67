import Mathlib.Data.List.Basic
import Mathlib.Logic.Function.Basic

/-! # Tables and the owners of their entries

Each owner has a key, and a table has something at the key of every owner and nothing anywhere
else. Both are kept when an owner joins with a new key and when one leaves.
-/

namespace MerlinC.Math

variable {ι κ β : Type*} [DecidableEq κ] (key : ι → κ) {table : κ → β}
  {owners before after : List ι} {owner : ι} {entry : β}

theorem lookup_insert (value : ι → β → Prop) (known : ∀ q ∈ owners, value q (table (key q)))
    (new : ∀ q ∈ owners, key q ≠ key owner) (here : value owner entry) :
    ∀ q ∈ owners ++ [owner], value q (Function.update table (key owner) entry (key q)) := by
  intro q member
  rcases List.mem_append.mp member with old | joined
  · rw [Function.update_of_ne (new q old)]
    exact known q old
  · obtain rfl := List.mem_singleton.mp joined
    rw [Function.update_self]
    exact here

theorem lookup_erase (value : ι → β → Prop) (entry : β)
    (known : ∀ q ∈ before ++ owner :: after, value q (table (key q)))
    (apart : ∀ q ∈ before ++ after, key q ≠ key owner) :
    ∀ q ∈ before ++ after, value q (Function.update table (key owner) entry (key q)) := by
  intro q member
  rw [Function.update_of_ne (apart q member)]
  apply known
  rw [List.mem_append, List.mem_cons]
  exact (List.mem_append.mp member).imp_right .inr

theorem owner_insert (holds : β → Prop) (owner : ι) (entry : β)
    (owned : ∀ k, holds (table k) → ∃ q ∈ owners, key q = k) (k : κ)
    (here : holds (Function.update table (key owner) entry k)) :
    ∃ q ∈ owners ++ [owner], key q = k := by
  rcases eq_or_ne k (key owner) with rfl | other
  · exact ⟨owner, List.mem_append_right _ (List.mem_singleton_self owner), rfl⟩
  · rw [Function.update_of_ne other] at here
    obtain ⟨q, member, same⟩ := owned k here
    exact ⟨q, List.mem_append_left _ member, same⟩

theorem owner_erase (holds : β → Prop) (nothing : ¬ holds entry)
    (owned : ∀ k, holds (table k) → ∃ q ∈ before ++ owner :: after, key q = k) (k : κ)
    (here : holds (Function.update table (key owner) entry k)) :
    ∃ q ∈ before ++ after, key q = k := by
  rcases eq_or_ne k (key owner) with rfl | other
  · rw [Function.update_self] at here
    exact absurd here nothing
  · rw [Function.update_of_ne other] at here
    obtain ⟨q, member, rfl⟩ := owned k here
    refine ⟨q, ?_, rfl⟩
    rw [List.mem_append, List.mem_cons] at member
    rcases member with first | rfl | last
    · exact List.mem_append_left _ first
    · exact absurd rfl other
    · exact List.mem_append_right _ last

end MerlinC.Math
