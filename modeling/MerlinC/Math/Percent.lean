import Mathlib.Data.List.Basic

/-! # Percent-encoding of byte strings

An encoder is given by the bytes that it keeps; all others become a percent sign and two
upper-case hexadecimal digits. Decoding undoes every encoder that does not keep the percent
sign, and encoding the result of an encoder once more shows how often each byte was escaped.
-/

namespace MerlinC.Math

/-- The percent sign. -/
def percent : UInt8 := 37

/-- An upper-case hexadecimal digit. -/
def hexDigit (n : ℕ) : UInt8 := UInt8.ofNat (if n < 10 then 48 + n else 55 + n)

/-- The value of a hexadecimal digit of either case. -/
def hexValue? (b : UInt8) : Option ℕ :=
  let n := b.toNat
  if 48 ≤ n ∧ n ≤ 57 then some (n - 48)
  else if 65 ≤ n ∧ n ≤ 70 then some (n - 55)
  else if 97 ≤ n ∧ n ≤ 102 then some (n - 87)
  else none

def escape (b : UInt8) : List UInt8 :=
  [percent, hexDigit (b.toNat / 16), hexDigit (b.toNat % 16)]

/-- Keep a byte, or escape it. -/
def encodeByte (keep : UInt8 → Bool) (b : UInt8) : List UInt8 :=
  if keep b then [b] else escape b

def percentEncode (keep : UInt8 → Bool) (s : List UInt8) : List UInt8 :=
  s.flatMap (encodeByte keep)

/-- Replace every complete escape by its byte. -/
def percentDecode : List UInt8 → List UInt8
  | [] => []
  | [b] => [b]
  | [b, c] => [b, c]
  | b :: h :: l :: rest =>
    if b = percent then
      match hexValue? h, hexValue? l with
      | some high, some low => UInt8.ofNat (16 * high + low) :: percentDecode rest
      | _, _ => b :: percentDecode (h :: l :: rest)
    else b :: percentDecode (h :: l :: rest)

/-- No percent sign has two hexadecimal digits behind it. -/
def EscapeFree (s : List UInt8) : Prop := ∀ before h l after,
  s = before ++ percent :: h :: l :: after → hexValue? h = none ∨ hexValue? l = none

/-- Letters and digits. -/
def alphanumeric (b : UInt8) : Bool :=
  let n := b.toNat
  (48 ≤ n && n ≤ 57) || (65 ≤ n && n ≤ 90) || (97 ≤ n && n ≤ 122)

/-- A digit that an escape is written with. -/
def upperHex (b : UInt8) : Bool :=
  let n := b.toNat
  (48 ≤ n && n ≤ 57) || (65 ≤ n && n ≤ 70)

/-- A text of kept bytes, and of percent signs with two upper-case hexadecimal digits each. -/
inductive Encoded (keep : UInt8 → Bool) : List UInt8 → Prop
  | nil : Encoded keep []
  | kept {b : UInt8} {rest : List UInt8} (here : keep b = true) (more : Encoded keep rest) :
      Encoded keep (b :: rest)
  | escaped {high low : UInt8} {rest : List UInt8} (first : upperHex high = true)
      (second : upperHex low = true) (more : Encoded keep rest) :
      Encoded keep (percent :: high :: low :: rest)

theorem hexValue?_hexDigit {n : ℕ} (digit : n < 16) : hexValue? (hexDigit n) = some n := by
  revert n
  decide

theorem alphanumeric_hexDigit {n : ℕ} (digit : n < 16) : alphanumeric (hexDigit n) = true := by
  revert n
  decide

theorem upperHex_hexDigit {n : ℕ} (digit : n < 16) : upperHex (hexDigit n) = true := by
  revert n
  decide

section Encode

variable (keep : UInt8 → Bool)

@[simp] theorem percentEncode_nil : percentEncode keep [] = [] := rfl

theorem percentEncode_cons (b : UInt8) (s : List UInt8) :
    percentEncode keep (b :: s) = encodeByte keep b ++ percentEncode keep s :=
  List.flatMap_cons

theorem percentEncode_append (s t : List UInt8) :
    percentEncode keep (s ++ t) = percentEncode keep s ++ percentEncode keep t :=
  List.flatMap_append

theorem percentEncode_front {s t : List UInt8} (front : s <+: t) :
    percentEncode keep s <+: percentEncode keep t := by
  obtain ⟨rest, rfl⟩ := front
  rw [percentEncode_append]
  exact List.prefix_append _ _

theorem percentEncode_back {s t : List UInt8} (back : s <:+ t) :
    percentEncode keep s <:+ percentEncode keep t := by
  obtain ⟨front, rfl⟩ := back
  rw [percentEncode_append]
  exact List.suffix_append _ _

/-- What an encoder keeps, it leaves alone. -/
theorem percentEncode_kept {s : List UInt8} (kept : ∀ b ∈ s, keep b = true) :
    percentEncode keep s = s := by
  induction s with
  | nil => rfl
  | cons b s ih =>
    rw [percentEncode_cons, ih fun c member => kept c (List.mem_cons_of_mem _ member),
      encodeByte, if_pos (kept b List.mem_cons_self), List.singleton_append]

/-- The result consists of kept bytes and of escapes. -/
theorem of_mem_percentEncode {s : List UInt8} {c : UInt8} (member : c ∈ percentEncode keep s) :
    (keep c = true ∧ c ∈ s) ∨ c = percent ∨ alphanumeric c = true := by
  obtain ⟨b, inside, here⟩ := List.mem_flatMap.mp member
  unfold encodeByte at here
  split at here
  · next kept =>
    obtain rfl := List.mem_singleton.mp here
    exact .inl ⟨kept, inside⟩
  · have bound := b.toNat_lt
    simp only [escape, List.mem_cons, List.not_mem_nil, or_false] at here
    rcases here with rfl | rfl | rfl
    · exact .inr (.inl rfl)
    · exact .inr (.inr (alphanumeric_hexDigit (by omega)))
    · exact .inr (.inr (alphanumeric_hexDigit (by omega)))

/-- An encoder writes nothing but kept bytes and escapes. -/
theorem encoded_percentEncode (s : List UInt8) : Encoded keep (percentEncode keep s) := by
  induction s with
  | nil => exact .nil
  | cons b s ih =>
    have bound := b.toNat_lt
    rw [percentEncode_cons, encodeByte]
    split
    · next kept => exact .kept kept ih
    · exact .escaped (upperHex_hexDigit (by omega)) (upperHex_hexDigit (by omega)) ih

/-- What is written without an escape is the text itself. -/
theorem percentEncode_eq_self {s : List UInt8} (bare : percent ∉ percentEncode keep s) :
    percentEncode keep s = s := by
  refine percentEncode_kept keep fun b member => ?_
  by_contra other
  refine bare (List.mem_flatMap.mpr ⟨b, member, ?_⟩)
  rw [encodeByte, if_neg other]
  exact List.mem_cons_self

/-- Two encoders that treat the bytes of a string alike encode it alike. -/
theorem percentEncode_congr {keep keep' : UInt8 → Bool} {s : List UInt8}
    (same : ∀ b ∈ s, keep b = keep' b) : percentEncode keep s = percentEncode keep' s := by
  induction s with
  | nil => rfl
  | cons b s ih =>
    rw [percentEncode_cons, percentEncode_cons, encodeByte, encodeByte,
      same b List.mem_cons_self, ih fun c member => same c (List.mem_cons_of_mem _ member)]

/-- A kept byte is still there after encoding. -/
theorem mem_percentEncode {s : List UInt8} {b : UInt8} (kept : keep b = true) (inside : b ∈ s) :
    b ∈ percentEncode keep s := by
  refine List.mem_flatMap.mpr ⟨b, inside, ?_⟩
  rw [encodeByte, if_pos kept]
  exact List.mem_singleton_self b

theorem length_encodeByte (b : UInt8) :
    (encodeByte keep b).length = if keep b then 1 else 3 := by
  unfold encodeByte
  split
  · rfl
  · rfl

theorem length_percentEncode_cons (b : UInt8) (s : List UInt8) :
    (percentEncode keep (b :: s)).length =
      (if keep b then 1 else 3) + (percentEncode keep s).length := by
  rw [percentEncode_cons, List.length_append, length_encodeByte]

/-- Encoding shortens nothing. -/
theorem length_le_length_percentEncode (s : List UInt8) :
    s.length ≤ (percentEncode keep s).length := by
  induction s with
  | nil => exact Nat.zero_le _
  | cons b s ih =>
    rw [length_percentEncode_cons, List.length_cons]
    split <;> omega

end Encode

section Twice

variable {keep once : UInt8 → Bool}

/-- Encoded twice, a byte that is not kept becomes longer than encoded once. -/
theorem length_encodeByte_twice (escapes : keep percent = false) (b : UInt8) :
    (if keep b then 1 else 5) ≤ (percentEncode keep (encodeByte keep b)).length := by
  unfold encodeByte
  split
  · rename_i kept
    rw [length_percentEncode_cons, if_pos kept]
    exact Nat.le_add_right _ _
  · have rest := length_le_length_percentEncode keep
      [hexDigit (b.toNat / 16), hexDigit (b.toNat % 16)]
    rw [escape, length_percentEncode_cons, if_neg (by rw [escapes]; exact Bool.false_ne_true)]
    simp only [List.length_cons, List.length_nil] at rest
    omega

/-- A string is not longer when encoded once, and equally long only if all of it is kept. -/
theorem kept_of_length_le (escapes : keep percent = false) {s : List UInt8}
    (alike : ∀ b ∈ s, once b = keep b) :
    (percentEncode once s).length ≤ (percentEncode keep (percentEncode keep s)).length ∧
      ((percentEncode keep (percentEncode keep s)).length ≤ (percentEncode once s).length →
        ∀ b ∈ s, once b = true) := by
  induction s with
  | nil => exact ⟨Nat.le_refl _, fun _ b member => absurd member List.not_mem_nil⟩
  | cons b s ih =>
    obtain ⟨shorter, tight⟩ := ih fun c member => alike c (List.mem_cons_of_mem _ member)
    have here := length_encodeByte_twice escapes b
    rw [length_percentEncode_cons, percentEncode_cons keep, percentEncode_append,
      List.length_append]
    rw [← alike b List.mem_cons_self] at here
    split at here
    · next kept =>
      rw [if_pos kept]
      refine ⟨by omega, fun long c member => ?_⟩
      rcases List.mem_cons.mp member with rfl | later
      · exact kept
      · exact tight (by omega) c later
    · next escaped =>
      rw [if_neg escaped]
      exact ⟨by omega, fun long => by omega⟩

end Twice

section Decode

theorem percentDecode_cons {b : UInt8} (plain : b ≠ percent) (rest : List UInt8) :
    percentDecode (b :: rest) = b :: percentDecode rest := by
  rcases rest with _ | ⟨h, _ | ⟨l, rest⟩⟩
  · rfl
  · rfl
  · rw [percentDecode, if_neg plain]

theorem percentDecode_escape (b : UInt8) (rest : List UInt8) :
    percentDecode (escape b ++ rest) = b :: percentDecode rest := by
  have bound := b.toNat_lt
  have high := hexValue?_hexDigit (n := b.toNat / 16) (by omega)
  have low := hexValue?_hexDigit (n := b.toNat % 16) (by omega)
  have whole : UInt8.ofNat (16 * (b.toNat / 16) + b.toNat % 16) = b := by
    rw [Nat.div_add_mod]
    exact UInt8.ofNat_toNat
  simp only [escape, List.cons_append, List.nil_append, percentDecode, ↓reduceIte, high, low, whole]

/-- Decoding shortens or keeps. -/
theorem length_percentDecode_le (s : List UInt8) : (percentDecode s).length ≤ s.length := by
  induction s using percentDecode.induct with
  | case1 => exact Nat.le_refl _
  | case2 => exact Nat.le_refl _
  | case3 => exact Nat.le_refl _
  | case4 h l rest high low digits digits' ih =>
    simp only [percentDecode, ↓reduceIte, digits, digits', List.length_cons]
    omega
  | case5 h l rest other ih =>
    rw [percentDecode, if_pos rfl]
    split
    · next digits digits' => exact (other _ _ digits digits').elim
    · exact Nat.succ_le_succ ih
  | case6 b h l rest plain ih =>
    rw [percentDecode, if_neg plain]
    exact Nat.succ_le_succ ih

theorem EscapeFree.tail {b : UInt8} {s : List UInt8} (free : EscapeFree (b :: s)) :
    EscapeFree s := by
  intro before h l after whole
  exact free (b :: before) h l after (by rw [whole, List.cons_append])

theorem EscapeFree.cons {b : UInt8} {s : List UInt8} (free : EscapeFree s)
    (here : ∀ h l after, b = percent → s = h :: l :: after →
      hexValue? h = none ∨ hexValue? l = none) : EscapeFree (b :: s) := by
  rintro (_ | ⟨c, before⟩) h l after whole
  · exact here h l after (List.head_eq_of_cons_eq whole) (List.tail_eq_of_cons_eq whole)
  · exact free before h l after (List.tail_eq_of_cons_eq whole)

theorem escapeFree_of_length_lt {s : List UInt8} (short : s.length < 3) : EscapeFree s := by
  intro before h l after whole
  have length := congrArg List.length whole
  simp only [List.length_append, List.length_cons] at length
  omega

/-- Text without escapes is decoded to itself. -/
theorem EscapeFree.percentDecode_eq {s : List UInt8} (free : EscapeFree s) :
    percentDecode s = s := by
  induction s using percentDecode.induct with
  | case1 => rfl
  | case2 => rfl
  | case3 => rfl
  | case4 h l rest high low digits digits' ih =>
    rcases free [] h l rest rfl with no | no
    · rw [digits'] at no
      contradiction
    · rw [digits] at no
      contradiction
  | case5 h l rest other ih =>
    rw [percentDecode, if_pos rfl]
    split
    · next digits digits' => exact (other _ _ digits digits').elim
    · rw [ih free.tail]
  | case6 b h l rest plain ih => rw [percentDecode, if_neg plain, ih free.tail]

/-- An escape makes what is decoded shorter. -/
theorem escapeFree_of_length_le {s : List UInt8} (kept : s.length ≤ (percentDecode s).length) :
    EscapeFree s := by
  induction s using percentDecode.induct with
  | case1 => exact escapeFree_of_length_lt (Nat.zero_lt_succ 2)
  | case2 => exact escapeFree_of_length_lt (Nat.succ_lt_succ (Nat.zero_lt_succ 1))
  | case3 => exact escapeFree_of_length_lt (Nat.lt_succ_self 2)
  | case4 h l rest high low digits digits' ih =>
    have le := length_percentDecode_le rest
    simp only [percentDecode, ↓reduceIte, digits, digits', List.length_cons] at kept
    omega
  | case5 h l rest other ih =>
    rw [percentDecode, if_pos rfl] at kept
    split at kept
    · next digits digits' => exact (other _ _ digits digits').elim
    · next none_ =>
      refine (ih (Nat.le_of_succ_le_succ kept)).cons fun h' l' after _ whole => ?_
      obtain ⟨rfl, rfl, rfl⟩ : h = h' ∧ l = l' ∧ rest = after := by simpa using whole
      cases digits : hexValue? h with
      | none => exact .inl rfl
      | some high =>
        cases digits' : hexValue? l with
        | none => exact .inr rfl
        | some low => exact (none_ high low digits digits').elim
  | case6 b h l rest plain ih =>
    rw [percentDecode, if_neg plain] at kept
    exact (ih (Nat.le_of_succ_le_succ kept)).cons fun _ _ _ is => absurd is plain

/-- A byte that is in no escape separates what is decoded. -/
theorem percentDecode_append_cons {c : UInt8} (plain : c ≠ percent) (other : hexValue? c = none)
    (s t : List UInt8) :
    percentDecode (s ++ c :: t) = percentDecode s ++ c :: percentDecode t := by
  have bare (b : UInt8) : percentDecode (b :: c :: t) = b :: c :: percentDecode t := by
    rcases t with _ | ⟨d, t⟩
    · rfl
    · rw [percentDecode, percentDecode_cons plain, other]
      split
      · rfl
      · rfl
  induction s using percentDecode.induct with
  | case1 => exact percentDecode_cons plain t
  | case2 b => exact bare b
  | case3 b d =>
    simp only [List.cons_append, List.nil_append, percentDecode, other]
    split
    · split
      · next no => contradiction
      · rw [bare]
    · rw [bare]
  | case4 h l rest high low digits digits' ih =>
    simp only [List.cons_append, percentDecode, ↓reduceIte, digits, digits']
    rw [ih]
  | case5 h l rest none_ ih =>
    rw [List.cons_append, List.cons_append, List.cons_append, percentDecode, if_pos rfl,
      percentDecode, if_pos rfl]
    split
    · next digits digits' => exact (none_ _ _ digits digits').elim
    · exact congrArg (percent :: ·) ih
  | case6 b h l rest keep ih =>
    rw [List.cons_append, List.cons_append, List.cons_append, percentDecode, if_neg keep,
      percentDecode, if_neg keep]
    exact congrArg (b :: ·) ih

/-- Decoding undoes encoding. -/
theorem percentDecode_percentEncode {keep : UInt8 → Bool} (escapes : keep percent = false)
    (s : List UInt8) : percentDecode (percentEncode keep s) = s := by
  induction s with
  | nil => rfl
  | cons b s ih =>
    rw [percentEncode_cons, encodeByte]
    split
    · next kept =>
      have plain : b ≠ percent := by
        rintro rfl
        rw [escapes] at kept
        contradiction
      rw [List.singleton_append, percentDecode_cons plain, ih]
    · rw [percentDecode_escape, ih]

end Decode

end MerlinC.Math
