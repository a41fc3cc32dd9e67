import MerlinC.Model.UpdateScript

/-! # What the encoder of the update script gives back

`read` drops backslashes and turns separators into missing characters, and `echo` may take its
argument for options. What the loop is left with is percent-encoded faithfully, so decoding gives
back exactly the strings that get through `echo` and `read` unchanged.
-/

namespace MerlinC.Soundness

open Math Model Model.Shell Model.UpdateScript

/-- The encoding has the right form, and decoding gives back the string. -/
def RoundTrips (s : Bytes) : Prop := Encoded plain (enc s) ∧ percentDecode (enc s) = s

/-- `echo` does not take the string for options, and `read` finds nothing special in it. -/
structure Survives (s : Bytes) : Prop where
  printed : ¬ IsOptions s
  solid : ∀ b ∈ s, b ≠ backslash ∧ blank b = false

/-- A backslash shortens what is read, and a separator leaves a NUL. -/
theorem solid_of_readBytes {s : Bytes} (string : 0 ∉ s) (same : readBytes s = s) :
    ∀ b ∈ s, b ≠ backslash ∧ blank b = false := by
  unfold readBytes at same
  induction s using readEach.induct with
  | case1 => simp
  | case2 => simp [readEach] at same
  | case3 b other here =>
    rw [readEach, if_neg other, if_pos here] at same
    exact absurd (List.head_eq_of_cons_eq same) (List.ne_of_not_mem_cons string)
  | case4 b other solid => simp [other, solid]
  | case5 rest ih =>
    have shorter := length_readBytes_le rest
    have lengths := congrArg List.length same
    rw [readBytes] at shorter
    simp only [readEach, ↓reduceIte, List.length_cons] at lengths
    omega
  | case6 c rest other ih =>
    have shorter := length_readBytes_le rest
    have lengths := congrArg List.length same
    rw [readBytes] at shorter
    simp only [readEach, ↓reduceIte, other, List.map_cons, List.length_cons] at lengths
    omega
  | case7 b c rest other here ih =>
    rw [readEach, if_neg other, if_pos here] at same
    exact absurd (List.head_eq_of_cons_eq same) (List.ne_of_not_mem_cons string)
  | case8 b c rest other solid ih =>
    rw [readEach, if_neg other, if_neg solid, List.map_cons] at same
    have later := ih (fun member => string (List.mem_cons_of_mem b member))
      (List.tail_eq_of_cons_eq same)
    exact List.forall_mem_cons.mpr ⟨⟨other, by simpa using solid⟩, later⟩

theorem percent_not_plain : plain percent = false := rfl

/-- Whatever gets through, its encoding has the right form. -/
theorem encoded_enc (s : Bytes) : Encoded plain (enc s) := by
  rw [enc_eq_echoN]
  rcases echoN_eq_or (percentEncode plain (readBytes (echoN s))) with same | empty
  · rw [same]
    exact encoded_percentEncode plain _
  · rw [empty]
    exact .nil

/-- An encoding is taken for options only if its text is. -/
theorem echoN_percentEncode {s : Bytes} (printed : echoN s = s) :
    echoN (percentEncode plain s) = percentEncode plain s := by
  by_cases escapes : percent ∈ percentEncode plain s
  · exact echoN_eq escapes (by decide)
  · rw [percentEncode_eq_self plain escapes, printed]

theorem Survives.roundTrips {s : Bytes} (survives : Survives s) : RoundTrips s := by
  refine ⟨encoded_enc s, ?_⟩
  have printed := echoN_eq_self_iff.mpr survives.printed
  rw [enc_eq_echoN, printed, readBytes_eq survives.solid, echoN_percentEncode printed]
  exact percentDecode_percentEncode percent_not_plain s

/-- What is given back was printed, and read as it is. -/
theorem survives_of_decode {s : Bytes} (string : 0 ∉ s) (same : percentDecode (enc s) = s) :
    Survives s := by
  have empty : Survives [] := ⟨echoN_eq_self_iff.mp rfl, by simp⟩
  rw [enc_eq_echoN] at same
  rcases echoN_eq_or (percentEncode plain (readBytes (echoN s))) with whole | nothing
  · rw [whole, percentDecode_percentEncode percent_not_plain] at same
    rcases echoN_eq_or s with printed | options
    · rw [printed] at same
      exact ⟨echoN_eq_self_iff.mp printed, solid_of_readBytes string same⟩
    · rw [options] at same
      obtain rfl : s = [] := same.symm
      exact empty
  · rw [nothing] at same
    obtain rfl : s = [] := same.symm
    exact empty

/-- Strings that survive are told apart by their encodings. -/
theorem Survives.injective {s t : Bytes} (survives : Survives s) (survives' : Survives t)
    (same : enc t = enc s) : t = s := by
  rw [← survives'.roundTrips.2, same, survives.roundTrips.2]

/-- `enc` is undone by decoding exactly on the strings that survive `echo` and `read`, and on
those it is injective. -/
theorem enc_round_trip_iff {s : Bytes} (string : 0 ∉ s) :
    (RoundTrips s ↔ Survives s) ∧ ∀ t, Survives s → Survives t → enc t = enc s → t = s :=
  ⟨⟨fun trip => survives_of_decode string trip.2, Survives.roundTrips⟩,
    fun _ survives survives' => survives.injective survives'⟩

/-- A quoted value survives. -/
theorem enc_round_trip_iff_quoted : RoundTrips (ascii "TXT=\"a+b\"") := by
  refine (enc_round_trip_iff (by decide)).1.mpr ⟨echoN_eq_self_iff.mp (by decide), ?_⟩
  have solid : (ascii "TXT=\"a+b\"").all (fun b => b != backslash && !blank b) = true := by decide
  intro b member
  simpa using List.all_eq_true.mp solid b member

/-- A space comes back as a NUL. -/
theorem enc_round_trip_fails : ¬ ((∀ s : Bytes, 0 ∉ s → RoundTrips s) ∧
    ∀ s t : Bytes, 0 ∉ s → 0 ∉ t → enc s = enc t → s = t) := by
  rintro ⟨trips, _⟩
  have back := (trips (ascii "a b") (by decide)).2
  exact absurd back (by decide)

end MerlinC.Soundness
