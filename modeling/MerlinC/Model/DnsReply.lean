import MerlinC.Model.UpdateScript

/-! # Replies that list records

A reply is a text in which the id of each record stands in quotes after its name, with other
members and punctuation around it. `get_recordid` is a text search, and it finds the ids of the
listed records in their order whatever else the reply says about them.
-/

namespace MerlinC.Model

open UpdateScript

def quote : UInt8 := 34

/-- `"RecordId":"` -/
def idMarker : Bytes := ascii "\"RecordId\":\""

/-- `[0-9]` -/
def digit (b : UInt8) : Bool := 48 ≤ b.toNat && b.toNat ≤ 57

private theorem idHere?_eq (text : Bytes) : idHere? text =
    if idMarker.isPrefixOf text then
      if (text.drop idMarker.length).takeWhile digit ≠ [] ∧
        ((text.drop idMarker.length).dropWhile digit).head? = some quote
      then some ((text.drop idMarker.length).takeWhile digit) else none
    else none := rfl

/-- `idHere?` finds a marker, digits and a quote. -/
theorem idHere?_eq_some_iff {text digits : Bytes} : idHere? text = some digits ↔
    digits ≠ [] ∧ digits.all digit = true ∧
      ∃ rest, text = idMarker ++ (digits ++ quote :: rest) := by
  rw [idHere?_eq]
  constructor
  · intro found
    split at found
    · next marked =>
      split at found
      · next whole =>
        obtain rfl := Option.some.inj found
        obtain ⟨rest, quoted⟩ := List.head?_eq_some_iff.mp whole.2
        obtain ⟨after, rfl⟩ := List.isPrefixOf_iff_prefix.mp marked
        rw [List.drop_left] at whole quoted ⊢
        refine ⟨whole.1, List.all_eq_true.mpr fun b member => List.mem_takeWhile_imp member,
          rest, ?_⟩
        rw [← quoted, List.takeWhile_append_dropWhile]
      · contradiction
    · contradiction
  · rintro ⟨some_, digits_, rest, rfl⟩
    have all := List.all_eq_true.mp digits_
    have stops : digit quote = false := rfl
    have first : (digits ++ quote :: rest).takeWhile digit = digits := by
      rw [List.takeWhile_append_of_pos all, List.takeWhile_cons, stops, if_neg Bool.false_ne_true,
        List.append_nil]
    have after : (digits ++ quote :: rest).dropWhile digit = quote :: rest := by
      rw [List.dropWhile_append_of_pos all, List.dropWhile_cons, stops, if_neg Bool.false_ne_true]
    have marked : idMarker.isPrefixOf (idMarker ++ (digits ++ quote :: rest)) = true :=
      List.isPrefixOf_iff_prefix.mpr (List.prefix_append _ _)
    rw [if_pos marked, List.drop_left, first, after, if_pos ⟨some_, rfl⟩]

/-- The marker has no second quote with an `R` behind it. -/
private theorem marker_once {front rest : Bytes} (whole : idMarker = front ++ quote :: 82 :: rest) :
    front = [] := by
  have positions : ∀ n < 12, idMarker[n]? = some quote → idMarker[n + 1]? = some 82 → n = 0 := by
    decide
  have length := congrArg List.length whole
  have size : idMarker.length = 12 := by decide
  rw [List.length_append, size] at length
  simp only [List.length_cons] at length
  have first : idMarker[front.length]? = some quote := by
    rw [whole, List.getElem?_append_right (Nat.le_refl _), Nat.sub_self]
    rfl
  have second : idMarker[front.length + 1]? = some 82 := by
    rw [whole, List.getElem?_append_right (Nat.le_add_right _ 1), Nat.add_sub_cancel_left]
    rfl
  exact List.length_eq_zero_iff.mp (positions _ (by omega) first second)

/-- A match that begins in front of a marker ends in front of it, or on its first quote. -/
theorem idHere?_gap {front digits rest : Bytes} (some_ : front ≠ [])
    (found : idHere? (front ++ quote :: 82 :: rest) = some digits) :
    idHere? (front ++ [quote]) = some digits := by
  obtain ⟨some_', digits_, after, whole⟩ := idHere?_eq_some_iff.mp found
  have all := List.all_eq_true.mp digits_
  have notFirst {b : UInt8} {bs more : Bytes} (other : digit b = false)
      (same : b :: bs = digits ++ more) : False := by
    obtain ⟨d, ds, rfl⟩ := List.exists_cons_of_ne_nil some_'
    obtain rfl := List.head_eq_of_cons_eq same
    have is := all b List.mem_cons_self
    rw [other] at is
    contradiction
  rw [idHere?_eq_some_iff]
  refine ⟨some_', digits_, ?_⟩
  rcases List.append_eq_append_iff.mp whole with ⟨mid, marker, tail⟩ | ⟨mid, rfl, tail⟩
  · -- The marker would have to go on into what follows.
    rcases mid with _ | ⟨b, _ | ⟨c, mid⟩⟩
    · exact (notFirst rfl tail).elim
    · rw [List.cons_append, List.nil_append] at tail
      exact (notFirst rfl (List.tail_eq_of_cons_eq tail)).elim
    · obtain rfl := List.head_eq_of_cons_eq tail
      obtain rfl := List.head_eq_of_cons_eq (List.tail_eq_of_cons_eq tail)
      exact absurd (marker_once marker) some_
  · rcases List.append_eq_append_iff.mp tail with ⟨late, rfl, quoted⟩ | ⟨late, rfl, quoted⟩
    · rcases late with _ | ⟨b, late⟩
      · exact ⟨[], by simp⟩
      · obtain rfl := List.head_eq_of_cons_eq quoted
        exact ⟨late ++ [quote], by simp⟩
    · rcases late with _ | ⟨b, late⟩
      · exact ⟨[], by simp⟩
      · obtain rfl := List.head_eq_of_cons_eq quoted
        have is := all quote (List.mem_append_right mid List.mem_cons_self)
        contradiction

/-- One record in a reply: what comes before its id, the id, and the type it has. -/
structure Listed where
  front : Bytes
  id : Bytes
  type : Bytes
  some_ : id ≠ []
  digits : id.all digit = true
  silent : getRecordid (front ++ [quote]) = []

/-- The part of a reply up to the end of an id. -/
def Listed.text (r : Listed) : Bytes := r.front ++ (idMarker ++ (r.id ++ [quote]))

/-- A reply of the provider. An id belongs to one record, and nothing but the records has one. -/
structure Listing where
  records : List Listed
  back : Bytes
  silent : getRecordid back = []
  unique : (records.map (·.id)).Nodup

def Listing.text (l : Listing) : Bytes := l.records.flatMap Listed.text ++ l.back

section Search

/-- The bytes of a match are passed over. -/
theorem recordIds_skip (passed rest : Bytes) :
    recordIds passed.length (passed ++ rest) = recordIds 0 rest := by
  induction passed with
  | nil => rfl
  | cons b passed ih => exact ih

/-- Nothing is found in front of a marker that is not found there without it. -/
theorem recordIds_gap {front : Bytes} (silent : recordIds 0 (front ++ [quote]) = [])
    (rest : Bytes) :
    recordIds 0 (front ++ quote :: 82 :: rest) = recordIds 0 (quote :: 82 :: rest) := by
  induction front with
  | nil => rfl
  | cons b front ih =>
    rw [List.cons_append, recordIds] at silent ⊢
    cases here : idHere? (b :: (front ++ [quote])) with
    | some digits =>
      rw [here] at silent
      contradiction
    | none =>
      rw [here] at silent
      cases found : idHere? (b :: (front ++ quote :: 82 :: rest)) with
      | some digits =>
        rw [← List.cons_append, idHere?_gap (List.cons_ne_nil b front) found] at here
        contradiction
      | none => exact ih silent

/-- A marked id is found. -/
theorem recordIds_marked {id : Bytes} (some_ : id ≠ []) (digits : id.all digit = true)
    (rest : Bytes) :
    recordIds 0 (idMarker ++ (id ++ quote :: rest)) = id :: recordIds 0 rest := by
  have found : idHere? (idMarker ++ (id ++ quote :: rest)) = some id :=
    idHere?_eq_some_iff.mpr ⟨some_, digits, rest, rfl⟩
  have marker : idMarker = quote :: idMarker.tail := rfl
  rw [marker, List.cons_append] at found ⊢
  rw [recordIds, found]
  have passed := recordIds_skip (idMarker.tail ++ (id ++ [quote])) rest
  have length : (idMarker.tail ++ (id ++ [quote])).length = idMarker.length + id.length := by
    rw [List.length_append, List.length_append, List.length_singleton]
    change 11 + (id.length + 1) = 12 + id.length
    omega
  rw [length, List.append_assoc, List.append_assoc, List.singleton_append] at passed
  exact congrArg (id :: ·) passed

/-- The search finds the ids of the listed records, in their order. -/
theorem Listing.getRecordid_text (l : Listing) : getRecordid l.text = l.records.map (·.id) := by
  unfold Listing.text getRecordid
  induction l.records with
  | nil => exact l.silent
  | cons r records ih =>
    have start (rest : Bytes) : idMarker ++ rest = quote :: 82 :: (idMarker.drop 2 ++ rest) := rfl
    rw [List.flatMap_cons, Listed.text, List.append_assoc, List.append_assoc, List.append_assoc,
      start, recordIds_gap r.silent, ← start, List.append_assoc, List.singleton_append,
      recordIds_marked r.some_ r.digits, ih, List.map_cons]

theorem blank_of_digit {b : UInt8} (is : digit b = true) : Shell.blank b = false := by
  rw [← Bool.not_eq_true]
  intro separator
  simp only [Shell.blank, List.contains_eq_mem, decide_eq_true_eq, List.mem_cons, List.not_mem_nil,
    or_false] at separator
  rcases separator with rfl | rfl | rfl
  · contradiction
  · contradiction
  · contradiction

/-- Of all ids, the script passes the first on. -/
theorem Listing.firstWord_recordIdText {l : Listing} {r : Listed} {rest : List Listed}
    (listed : l.records = r :: rest) : Shell.firstWord (recordIdText l.text) = r.id := by
  have solid : ∀ b ∈ r.id, Shell.blank b = false :=
    fun b member => blank_of_digit (List.all_eq_true.mp r.digits b member)
  rw [recordIdText, l.getRecordid_text, listed, List.map_cons]
  cases rest with
  | nil =>
    rw [List.map_nil, List.intercalate_singleton]
    exact Shell.firstWord_solid solid
  | cons next rest =>
    rw [List.map_cons, List.intercalate_cons_cons, List.append_assoc, List.singleton_append]
    exact Shell.firstWord_append_cons r.some_ solid rfl _

end Search

end MerlinC.Model
