import MerlinC.Math.QueryString

/-! # Values spliced into a query

A sender writes some text for each parameter into a query and signs that text after encoding it
once with an encoder of its own. The receiver checks the signature against the canonical query
of the parameters that were meant, encoded. Encoding twice is longer than encoding once wherever
a byte is escaped, so the two texts agree only if every value fits its place as it is.
-/

namespace MerlinC.Math

/-- The two encoders treat the bytes of a string alike. -/
def Alike (once : UInt8 → Bool) (s : List UInt8) : Prop := ∀ b ∈ s, once b = unreserved b

/-- A text that is sent for a value, and when it fits. -/
structure Spliced (once : UInt8 → Bool) (sent value : List UInt8) (fits : Prop) : Prop where
  shorter : Alike once value → (percentEncode once sent).length ≤
    (percentEncode unreserved (percentEncode unreserved value)).length
  tight : Alike once value → (percentEncode unreserved (percentEncode unreserved value)).length ≤
    (percentEncode once sent).length → fits
  encoded : fits → Alike once value ∧ sent = percentEncode unreserved value

/-- A parameter with its value, and the text that is sent for it. -/
structure Entry (once : UInt8 → Bool) where
  name : List UInt8
  value : List UInt8
  sent : List UInt8
  fits : Prop
  named : ∀ b ∈ name, once b = true
  spliced : Spliced once sent value fits

/-- An encoder that keeps letters and digits, and no reserved byte. -/
structure Cautious (once : UInt8 → Bool) : Prop where
  keeps : ∀ b, once b = true → unreserved b = true
  alphanumerics : ∀ b, alphanumeric b = true → once b = true

variable {once : UInt8 → Bool}

theorem Alike.append {s t : List UInt8} :
    Alike once (s ++ t) ↔ Alike once s ∧ Alike once t := List.forall_mem_append

namespace Cautious

variable (cautious : Cautious once)
include cautious

theorem alike_of_kept {s : List UInt8} (kept : ∀ b ∈ s, once b = true) : Alike once s := by
  intro b member
  rw [kept b member, cautious.keeps b (kept b member)]

theorem percentEncode_kept {s : List UInt8} (kept : ∀ b ∈ s, once b = true) :
    percentEncode unreserved s = s :=
  Math.percentEncode_kept unreserved fun b member => cautious.keeps b (kept b member)

theorem escapes {b : UInt8} (reserved : unreserved b = false) : once b = false := by
  rw [← Bool.not_eq_true]
  intro kept
  rw [cautious.keeps b kept] at reserved
  contradiction

/-- A value that is sent as it is fits if nothing in it is escaped. -/
theorem spliced_exact (value : List UInt8) :
    Spliced once value value (∀ b ∈ value, once b = true) where
  shorter alike := (kept_of_length_le rfl alike).1
  tight alike := (kept_of_length_le rfl alike).2
  encoded kept := ⟨cautious.alike_of_kept kept, (cautious.percentEncode_kept kept).symm⟩

/-- What an encoder gives is treated alike if the text was. -/
theorem alike_percentEncode {s : List UInt8} (alike : Alike once s) :
    Alike once (percentEncode unreserved s) := by
  intro b member
  rcases of_mem_percentEncode unreserved member with ⟨_, inside⟩ | rfl | letter
  · exact alike b inside
  · rw [cautious.escapes rfl]
    rfl
  · have kept := cautious.alphanumerics b letter
    rw [kept, cautious.keeps b kept]

/-- A value that is sent encoded always fits. -/
theorem spliced_encoded {value : List UInt8} (alike : Alike once value) :
    Spliced once (percentEncode unreserved value) value True where
  shorter _ := Nat.le_of_eq (congrArg List.length
    (percentEncode_congr (cautious.alike_percentEncode alike)))
  tight _ _ := trivial
  encoded _ := ⟨alike, rfl⟩

/-- One escape sent for a value that contains this byte and perhaps more. -/
theorem spliced_escape {b : UInt8} {value : List UInt8} (reserved : unreserved b = false)
    (inside : b ∈ value) : Spliced once (escape b) value (value = [b]) := by
  have alike : Alike once [b] := fun c member => by
    rw [List.mem_singleton.mp member, reserved, cautious.escapes reserved]
  have single : percentEncode unreserved [b] = escape b := by
    rw [percentEncode_cons, encodeByte, reserved, if_neg Bool.false_ne_true]
    rfl
  have one := (cautious.spliced_encoded alike).shorter alike
  rw [single] at one
  obtain ⟨front, back, parts⟩ := List.append_of_mem inside
  have longer (s : List UInt8) :
      s.length ≤ (percentEncode unreserved (percentEncode unreserved s)).length :=
    Nat.le_trans (length_le_length_percentEncode unreserved s)
      (length_le_length_percentEncode unreserved _)
  have before := longer front
  have after := longer back
  have twice : percentEncode unreserved (percentEncode unreserved value) =
      percentEncode unreserved (percentEncode unreserved front) ++
        (percentEncode unreserved (escape b) ++
          percentEncode unreserved (percentEncode unreserved back)) := by
    rw [parts, ← List.singleton_append]
    simp only [percentEncode_append, single]
  refine ⟨fun _ => ?_, fun _ long => ?_, fun whole => ?_⟩
  · rw [twice, List.length_append, List.length_append]
    omega
  · rw [twice, List.length_append, List.length_append] at long
    have first : front = [] := List.eq_nil_of_length_eq_zero (by omega)
    have last : back = [] := List.eq_nil_of_length_eq_zero (by omega)
    rw [parts, first, last]
    rfl
  · rw [whole]
    exact ⟨alike, single.symm⟩

end Cautious

/-- Two texts in a row. -/
theorem Spliced.append {sent sent' value value' : List UInt8} {fits fits' : Prop}
    (first : Spliced once sent value fits) (second : Spliced once sent' value' fits') :
    Spliced once (sent ++ sent') (value ++ value') (fits ∧ fits') where
  shorter alike := by
    obtain ⟨left, right⟩ := Alike.append.mp alike
    have := first.shorter left
    have := second.shorter right
    simp only [percentEncode_append, List.length_append]
    omega
  tight alike long := by
    obtain ⟨left, right⟩ := Alike.append.mp alike
    have := first.shorter left
    have := second.shorter right
    simp only [percentEncode_append, List.length_append] at long
    exact ⟨first.tight left (by omega), second.tight right (by omega)⟩
  encoded both := by
    obtain ⟨left, sent_⟩ := first.encoded both.1
    obtain ⟨right, sent'_⟩ := second.encoded both.2
    exact ⟨Alike.append.mpr ⟨left, right⟩, by rw [percentEncode_append, sent_, sent'_]⟩

/-- What fits may be put in other words. -/
theorem Spliced.congr {sent value : List UInt8} {fits fits' : Prop} (same : fits ↔ fits')
    (spliced : Spliced once sent value fits) : Spliced once sent value fits' :=
  propext same ▸ spliced

/-- What is sent need only be shorter than what fits. -/
theorem Spliced.of_shorter {sent value : List UInt8} {fits : Prop}
    (spliced : Spliced once value value fits)
    (shorter : (percentEncode once sent).length ≤ (percentEncode once value).length)
    (same : fits → sent = value) : Spliced once sent value fits where
  shorter alike := Nat.le_trans shorter (spliced.shorter alike)
  tight alike long := spliced.tight alike (Nat.le_trans long shorter)
  encoded here := by
    obtain ⟨alike, exact_⟩ := spliced.encoded here
    exact ⟨alike, (same here).trans exact_⟩

namespace Entry

/-- The parameters that are meant. -/
def intended (entries : List (Entry once)) : Params :=
  entries.map fun entry => (entry.name, entry.value)

/-- The text that is sent. -/
def query (entries : List (Entry once)) : List UInt8 :=
  render (entries.map fun entry => (entry.name, entry.sent))

/-- The query that the receiver expects to be signed, with its parameters in this order. -/
def expected (entries : List (Entry once)) : List UInt8 :=
  render ((intended entries).map encodePair)

/-- If all values fit, what is sent has no byte that only the receiver would keep. -/
theorem mem_query {entries : List (Entry once)} (fits : ∀ entry ∈ entries, entry.fits) {b : UInt8}
    (member : b ∈ query entries) :
    once b = true ∨ b = ampersand ∨ b = equals ∨ b = percent ∨ alphanumeric b = true := by
  rcases mem_render member with amp | eq | ⟨p, inside, part⟩
  · exact .inr (.inl amp)
  · exact .inr (.inr (.inl eq))
  · obtain ⟨entry, among, rfl⟩ := List.mem_map.mp inside
    obtain ⟨alike, sent⟩ := entry.spliced.encoded (fits entry among)
    rcases part with name | value
    · exact .inl (entry.named b name)
    · dsimp only at value
      rw [sent] at value
      rcases of_mem_percentEncode unreserved value with ⟨kept, here⟩ | rest
      · exact .inl ((alike b here).trans kept)
      · exact .inr (.inr (.inr rest))

variable (cautious : Cautious once)
include cautious

/-- Encoded once, the text sent is not longer than what the receiver expects, and equally long
only if all values fit. -/
theorem fits_of_length_le {entries : List (Entry once)}
    (alike : ∀ entry ∈ entries, Alike once entry.value) :
    (percentEncode once (query entries)).length ≤
        (percentEncode unreserved (expected entries)).length ∧
      ((percentEncode unreserved (expected entries)).length ≤
        (percentEncode once (query entries)).length → ∀ entry ∈ entries, entry.fits) := by
  have separator : unreserved ampersand = false := rfl
  have between : unreserved equals = false := rfl
  induction entries with
  | nil => exact ⟨Nat.le_refl _, fun _ entry member => absurd member List.not_mem_nil⟩
  | cons entry entries ih =>
    obtain ⟨shorter, tight⟩ := ih fun other member => alike other (List.mem_cons_of_mem _ member)
    have here := alike entry List.mem_cons_self
    have short := entry.spliced.shorter here
    have first : (percentEncode once (query (entry :: entries))).length =
        entry.name.length + 3 + (percentEncode once entry.sent).length +
          (if entries.length = 0 then 0 else 3) + (percentEncode once (query entries)).length := by
      rw [query, query, List.map_cons,
        length_percentEncode_render_cons (cautious.escapes separator),
        length_percentEncode_renderPair (cautious.escapes between),
        percentEncode_kept once entry.named, List.length_map]
    have second : (percentEncode unreserved (expected (entry :: entries))).length =
        entry.name.length + 3 +
          (percentEncode unreserved (percentEncode unreserved entry.value)).length +
          (if entries.length = 0 then 0 else 3) +
            (percentEncode unreserved (expected entries)).length := by
      rw [expected, expected, intended, intended, List.map_cons, List.map_cons,
        length_percentEncode_render_cons separator, length_percentEncode_renderPair between,
        encodePair, cautious.percentEncode_kept entry.named,
        cautious.percentEncode_kept entry.named, List.length_map, List.length_map]
    refine ⟨by omega, fun long other member => ?_⟩
    rcases List.mem_cons.mp member with rfl | later
    · exact other.spliced.tight here (by omega)
    · exact tight (by omega) other later

/-- Sent text that is encoded to what the receiver expects has values that fit. The sender's
encoding may drop or mangle bytes, but it neither makes the text longer nor keeps bytes that the
encoder does not keep. -/
theorem fits_of_eq {entries : List (Entry once)} {signed : List UInt8}
    (same : signed = percentEncode unreserved (expected entries))
    (short : signed.length ≤ (percentEncode once (query entries)).length)
    (escaped : ∀ b ∈ signed, unreserved b = true → once b = true) :
    ∀ entry ∈ entries, entry.fits := by
  refine (fits_of_length_le cautious fun entry inside b member => ?_).2 (same ▸ short)
  cases kept : unreserved b with
  | false => exact cautious.escapes kept
  | true =>
    refine escaped b ?_ kept
    rw [same]
    apply mem_percentEncode unreserved kept
    have rendered : encodePair (entry.name, entry.value) ∈ (intended entries).map encodePair :=
      List.mem_map_of_mem (List.mem_map_of_mem inside)
    exact value_subset_render rendered (mem_percentEncode unreserved kept member)

/-- If all values fit, then what is sent is what the receiver expects. -/
theorem query_eq_expected {entries : List (Entry once)} (fits : ∀ entry ∈ entries, entry.fits) :
    query entries = expected entries := by
  rw [query, expected, intended, List.map_map]
  refine congrArg render (List.map_congr_left fun entry inside => ?_)
  rw [Function.comp_apply, encodePair, cautious.percentEncode_kept entry.named,
    ← (entry.spliced.encoded (fits entry inside)).2]

end Entry

end MerlinC.Math
