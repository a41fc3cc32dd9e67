import MerlinC.Model.FireClientSend

/-! # What the sending client reports

The client ends with status 0 whenever `send` does not fail, also when the socket took only a
part, and its array holds an argument of at most 119 bytes between the marker and the newline.
-/

namespace MerlinC.Soundness

open Model Model.FireClientSend

/-- No byte is written outside the array, and status 0 means that the connected socket was handed
the whole message. -/
def SendsExactly (argv1 : Bytes) (o : ConnectOutcome) (taken : Option ℕ) : Prop :=
  ∃ exit, main [argv1] o taken = some exit ∧ (exit.status = 0 →
    (tcpConnectServer o).isSome ∧ exit.handedOver = ascii "[FIRE]:" ++ argv1 ++ [newline])

/-- A connected socket that takes anything takes the whole message. -/
def TakesAll (argv1 : Bytes) (o : ConnectOutcome) (taken : Option ℕ) : Prop :=
  (tcpConnectServer o).isSome → ∀ count, taken = some count → argv1.length + 8 ≤ count

theorem length_message (argv1 : Bytes) :
    (ascii "[FIRE]:" ++ argv1 ++ [newline]).length = argv1.length + 8 := by
  have marker : (ascii "[FIRE]:").length = 7 := by decide
  simp only [List.length_append, marker, List.length_singleton]
  omega

/-- What `main` does with a string that fits. -/
theorem main_eq {argv1 : Bytes} (string : 0 ∉ argv1) (fits : argv1.length + 9 ≤ strSize)
    (o : ConnectOutcome) (taken : Option ℕ) : main [argv1] o taken =
      some (conclude
        (send (tcpConnectServer o) taken (ascii "[FIRE]:" ++ argv1 ++ [newline]))) := by
  simp only [main, message_eq string, if_pos fits, bind, Option.bind_some]

/-- An argument that does not fit is written past the end of the array. -/
theorem main_eq_none {argv1 : Bytes} (string : 0 ∉ argv1) (long : ¬ argv1.length + 9 ≤ strSize)
    (o : ConnectOutcome) (taken : Option ℕ) : main [argv1] o taken = none := by
  simp only [main, message_eq string, if_neg long, bind, Option.bind_none]

/-- Sending is exact or reported if and only if the argument has at most 119 bytes and the socket
is not content with a part of the message. -/
theorem sends_exactly_iff {argv1 : Bytes} (string : 0 ∉ argv1) (o : ConnectOutcome)
    (taken : Option ℕ) :
    SendsExactly argv1 o taken ↔ argv1.length ≤ 119 ∧ TakesAll argv1 o taken := by
  have size : strSize = 128 := rfl
  rcases Nat.lt_or_ge strSize (argv1.length + 9) with long | fits
  · refine ⟨?_, fun ⟨short, _⟩ => absurd short (by omega)⟩
    rintro ⟨exit, ran, _⟩
    rw [main_eq_none string (by omega)] at ran
    contradiction
  unfold SendsExactly TakesAll
  rw [main_eq string fits]
  cases socket : tcpConnectServer o with
  | none =>
    refine ⟨fun _ => ⟨by omega, fun connected => by contradiction⟩, fun _ => ?_⟩
    exact ⟨⟨1, []⟩, rfl, fun no => by contradiction⟩
  | some sockfd =>
    cases taken with
    | none =>
      refine ⟨fun _ => ⟨by omega, fun _ count no => by contradiction⟩, fun _ => ?_⟩
      exact ⟨⟨1, []⟩, rfl, fun no => by contradiction⟩
    | some count =>
      have length := length_message argv1
      constructor
      · rintro ⟨exit, ran, exact_⟩
        obtain rfl := Option.some.inj ran
        have part : ((ascii "[FIRE]:" ++ argv1 ++ [newline]).take count).length = _ :=
          congrArg List.length (exact_ rfl).2
        rw [List.length_take] at part
        refine ⟨by omega, fun _ count' same => ?_⟩
        obtain rfl := Option.some.inj same
        omega
      · rintro ⟨_, all⟩
        have enough := all rfl count rfl
        exact ⟨_, rfl, fun _ => ⟨rfl, List.take_of_length_le (by omega)⟩⟩

/-- The outcome of a connection that is established. -/
def connected : ConnectOutcome := ⟨true, some 3, true⟩

/-- An argument of the greatest length is sent whole by a socket that takes all of it. -/
theorem sends_exactly_iff_longest :
    SendsExactly (List.replicate 119 97) connected (some 127) := by
  refine (sends_exactly_iff (by decide) connected (some 127)).mpr ⟨by simp, fun _ count same => ?_⟩
  obtain rfl := Option.some.inj same
  simp

/-- A socket that takes four bytes of a message makes the client report success. -/
theorem sends_exactly_fails : ¬ ∀ (argv1 : Bytes) (o : ConnectOutcome) (taken : Option ℕ),
    0 ∉ argv1 → SendsExactly argv1 o taken := by
  intro sends
  obtain ⟨exit, ran, exact_⟩ := sends (ascii "hi") connected (some 4) (by decide)
  have short : main [ascii "hi"] connected (some 4) = some ⟨0, ascii "[FIR"⟩ := by decide
  obtain rfl := Option.some.inj (ran.symm.trans short)
  exact absurd (exact_ rfl).2 (by decide)

end MerlinC.Soundness
