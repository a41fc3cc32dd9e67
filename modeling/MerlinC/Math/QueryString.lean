import Mathlib.Data.List.Nodup
import MerlinC.Math.Percent

/-! # Query strings

A list of parameters is rendered as `name=value` pairs joined by ampersands, and read back by
splitting and decoding. The canonical query of a list does not depend on its order: it is sorted
by name, and every name and value is percent-encoded down to the unreserved bytes.
-/

namespace MerlinC.Math

/-- `&` -/
def ampersand : UInt8 := 38

/-- `=` -/
def equals : UInt8 := 61

abbrev Params := List (List UInt8 × List UInt8)

/-- Letters, digits, `-`, `_`, `.` and `~`. -/
def unreserved (b : UInt8) : Bool := alphanumeric b || [45, 95, 46, 126].contains b

/-- One parameter, as it is. -/
def renderPair (p : List UInt8 × List UInt8) : List UInt8 := p.1 ++ equals :: p.2

def render (ps : Params) : List UInt8 := [ampersand].intercalate (ps.map renderPair)

/-- A piece between ampersands, split at its first equals sign and decoded. -/
def parsePair (piece : List UInt8) : List UInt8 × List UInt8 :=
  (percentDecode (piece.takeWhile (· ≠ equals)),
    percentDecode ((piece.dropWhile (· ≠ equals)).drop 1))

def parseQuery (query : List UInt8) : Params := (query.splitOn ampersand).map parsePair

/-- The order of the bytes of two names. -/
def nameLe : List UInt8 → List UInt8 → Bool
  | [], _ => true
  | _ :: _, [] => false
  | a :: as, b :: bs => if a = b then nameLe as bs else a.toNat < b.toNat

/-- The order of parameters by name. -/
def byName (p q : List UInt8 × List UInt8) : Bool := nameLe p.1 q.1

/-- A parameter with both parts encoded. -/
def encodePair (p : List UInt8 × List UInt8) : List UInt8 × List UInt8 :=
  (percentEncode unreserved p.1, percentEncode unreserved p.2)

/-- The parameters sorted by name, each encoded. -/
def canonicalQuery (ps : Params) : List UInt8 :=
  render ((ps.mergeSort byName).map encodePair)

section Render

theorem render_cons_cons (p q : List UInt8 × List UInt8) (ps : Params) :
    render (p :: q :: ps) = renderPair p ++ ampersand :: render (q :: ps) := by
  simp [render, List.intercalate_cons_cons]

/-- What a rendered list is made of. -/
theorem mem_render {b : UInt8} {ps : Params} (member : b ∈ render ps) :
    b = ampersand ∨ b = equals ∨ ∃ p ∈ ps, b ∈ p.1 ∨ b ∈ p.2 := by
  induction ps with
  | nil => exact absurd member List.not_mem_nil
  | cons p ps ih =>
    have here (inside : b ∈ renderPair p) :
        b = ampersand ∨ b = equals ∨ ∃ q ∈ p :: ps, b ∈ q.1 ∨ b ∈ q.2 := by
      rw [renderPair, List.mem_append, List.mem_cons] at inside
      rcases inside with name | rfl | value
      · exact .inr (.inr ⟨p, List.mem_cons_self, .inl name⟩)
      · exact .inr (.inl rfl)
      · exact .inr (.inr ⟨p, List.mem_cons_self, .inr value⟩)
    cases ps with
    | nil => exact here (by simpa [render] using member)
    | cons q ps =>
      rw [render_cons_cons, List.mem_append, List.mem_cons] at member
      rcases member with first | rfl | later
      · exact here first
      · exact .inl rfl
      · rcases ih later with amp | eq | ⟨r, inside, part⟩
        · exact .inl amp
        · exact .inr (.inl eq)
        · exact .inr (.inr ⟨r, List.mem_cons_of_mem _ inside, part⟩)

/-- Every value is a part of what is rendered. -/
theorem value_subset_render {p : List UInt8 × List UInt8} {ps : Params} (inside : p ∈ ps) :
    p.2 ⊆ render ps := by
  induction ps with
  | nil => exact absurd inside List.not_mem_nil
  | cons q ps ih =>
    intro b member
    have here : b ∈ renderPair p := by
      rw [renderPair]
      exact List.mem_append_right _ (List.mem_cons_of_mem _ member)
    cases ps with
    | nil =>
      obtain rfl := List.mem_singleton.mp inside
      simpa [render] using here
    | cons r ps =>
      rw [render_cons_cons, List.mem_append, List.mem_cons]
      rcases List.mem_cons.mp inside with rfl | later
      · exact .inl here
      · exact .inr (.inr (ih later member))

/-- The length of an encoded list, if the separator is escaped. -/
theorem length_percentEncode_render_cons {keep : UInt8 → Bool} (escapes : keep ampersand = false)
    (p : List UInt8 × List UInt8) (ps : Params) :
    (percentEncode keep (render (p :: ps))).length = (percentEncode keep (renderPair p)).length +
      (if ps.length = 0 then 0 else 3) + (percentEncode keep (render ps)).length := by
  cases ps with
  | nil => simp [render]
  | cons q ps =>
    rw [render_cons_cons, percentEncode_append, List.length_append, length_percentEncode_cons,
      escapes, if_neg Bool.false_ne_true,
      if_neg (show (q :: ps).length ≠ 0 from Nat.succ_ne_zero _), Nat.add_assoc]

/-- The length of an encoded parameter, if the equals sign is escaped. -/
theorem length_percentEncode_renderPair {keep : UInt8 → Bool} (escapes : keep equals = false)
    (p : List UInt8 × List UInt8) :
    (percentEncode keep (renderPair p)).length =
      (percentEncode keep p.1).length + 3 + (percentEncode keep p.2).length := by
  rw [renderPair, percentEncode_append, List.length_append, length_percentEncode_cons, escapes]
  simp only [Bool.false_eq_true, ↓reduceIte]
  omega

end Render

section Order

theorem nameLe_total (a b : List UInt8) : (nameLe a b || nameLe b a) = true := by
  induction a generalizing b with
  | nil => rfl
  | cons x a ih =>
    cases b with
    | nil => rfl
    | cons y b =>
      by_cases same : x = y
      · simpa [nameLe, same] using ih b
      · have apart : x.toNat ≠ y.toNat := fun eq => same (UInt8.toNat_inj.mp eq)
        simp only [nameLe, same, Ne.symm same, ↓reduceIte, Bool.or_eq_true, decide_eq_true_eq]
        omega

theorem nameLe_antisymm {a b : List UInt8} (le : nameLe a b = true) (ge : nameLe b a = true) :
    a = b := by
  induction a generalizing b with
  | nil =>
    cases b with
    | nil => rfl
    | cons y b => simp [nameLe] at ge
  | cons x a ih =>
    cases b with
    | nil => simp [nameLe] at le
    | cons y b =>
      by_cases same : x = y
      · subst same
        rw [ih (by simpa [nameLe] using le) (by simpa [nameLe] using ge)]
      · simp only [nameLe, same, Ne.symm same, ↓reduceIte, decide_eq_true_eq] at le ge
        omega

theorem nameLe_trans {a b c : List UInt8} (first : nameLe a b = true)
    (second : nameLe b c = true) : nameLe a c = true := by
  induction a generalizing b c with
  | nil => rfl
  | cons x a ih =>
    cases b with
    | nil => simp [nameLe] at first
    | cons y b =>
      cases c with
      | nil => simp [nameLe] at second
      | cons z c =>
        simp only [nameLe] at first second ⊢
        split at first
        · next same =>
          subst same
          split at second
          · next same' =>
            subst same'
            rw [if_pos rfl]
            exact ih first second
          · next apart =>
            rw [if_neg apart]
            exact second
        · next apart =>
          rw [decide_eq_true_eq] at first
          split at second
          · next same' =>
            subst same'
            rw [if_neg apart]
            exact decide_eq_true first
          · rw [decide_eq_true_eq] at second
            have apart' : x ≠ z := by
              rintro rfl
              omega
            rw [if_neg apart']
            exact decide_eq_true (by omega)

end Order

section Canonical

theorem byName_trans (p q r : List UInt8 × List UInt8) (first : byName p q = true)
    (second : byName q r = true) : byName p r = true := nameLe_trans first second

theorem byName_total (p q : List UInt8 × List UInt8) : (byName p q || byName q p) = true :=
  nameLe_total p.1 q.1

/-- Sorted parameters with distinct names are what any list of these parameters is sorted to. -/
theorem mergeSort_perm_eq {ps qs : Params} (perm : qs.Perm ps)
    (sorted : ps.Pairwise fun p q => byName p q = true) (distinct : (ps.map (·.1)).Nodup) :
    qs.mergeSort byName = ps := by
  have perm' : (qs.mergeSort byName).Perm ps := (List.mergeSort_perm qs byName).trans perm
  have sorted' : (qs.mergeSort byName).Pairwise fun p q => byName p q = true :=
    List.pairwise_mergeSort byName_trans byName_total qs
  refine List.Perm.eq_of_pairwise (fun p q inside inside' le ge => ?_) sorted' sorted perm'
  exact List.inj_on_of_nodup_map distinct (perm'.mem_iff.mp inside) inside'
    (nameLe_antisymm le ge)

/-- The canonical query of parameters does not depend on their order. -/
theorem canonicalQuery_perm {ps qs : Params} (perm : qs.Perm ps)
    (sorted : ps.Pairwise fun p q => byName p q = true) (distinct : (ps.map (·.1)).Nodup) :
    canonicalQuery qs = render (ps.map encodePair) := by
  rw [canonicalQuery, mergeSort_perm_eq perm sorted distinct]

end Canonical

section Parse

theorem not_mem_percentEncode {b : UInt8} (reserved : unreserved b = false) (plain : b ≠ percent)
    (s : List UInt8) : b ∉ percentEncode unreserved s := by
  intro member
  rcases of_mem_percentEncode unreserved member with ⟨kept, _⟩ | escaped | digit
  · rw [reserved] at kept
    contradiction
  · exact plain escaped
  · rw [unreserved, digit, Bool.true_or] at reserved
    contradiction

/-- An encoded parameter is read back as it was. -/
theorem parsePair_renderPair (p : List UInt8 × List UInt8) :
    parsePair (renderPair (encodePair p)) = p := by
  have name : ∀ b ∈ percentEncode unreserved p.1, decide (b ≠ equals) = true := by
    intro b member
    rw [decide_eq_true_eq]
    rintro rfl
    exact not_mem_percentEncode rfl (by decide) p.1 member
  have escapes : unreserved percent = false := rfl
  simp only [parsePair, renderPair, encodePair, List.takeWhile_append_of_pos name,
    List.dropWhile_append_of_pos name, List.takeWhile_cons, List.dropWhile_cons, ne_eq,
    not_true_eq_false, decide_false, Bool.false_eq_true, ↓reduceIte, List.append_nil,
    List.drop_one, List.tail_cons, percentDecode_percentEncode escapes]

/-- A further piece is a further parameter. -/
theorem parseQuery_append (query piece : List UInt8) (whole : ampersand ∉ piece) :
    parseQuery (query ++ ampersand :: piece) = parseQuery query ++ [parsePair piece] := by
  rw [parseQuery, parseQuery, List.splitOn_append_cons_self, List.splitOn_eq_singleton whole,
    List.map_append]
  rfl

/-- Rendered and encoded parameters are read back as they were. -/
theorem parseQuery_render {ps : Params} (some_ : ps ≠ []) :
    parseQuery (render (ps.map encodePair)) = ps := by
  have plain : ∀ piece ∈ (ps.map encodePair).map renderPair, ampersand ∉ piece := by
    intro piece member
    obtain ⟨q, inside, rfl⟩ := List.mem_map.mp member
    obtain ⟨p, _, rfl⟩ := List.mem_map.mp inside
    simp only [renderPair, encodePair, List.mem_append, List.mem_cons, not_or]
    exact ⟨not_mem_percentEncode rfl (by decide) p.1, by decide,
      not_mem_percentEncode rfl (by decide) p.2⟩
  rw [parseQuery, render, List.splitOn_intercalate ampersand plain (by simpa using some_),
    List.map_map, List.map_map]
  exact (List.map_congr_left fun p _ => parsePair_renderPair p).trans (List.map_id ps)

end Parse

end MerlinC.Math
