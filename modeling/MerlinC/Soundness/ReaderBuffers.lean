import MerlinC.Model.FireClientRead

/-! # The fixed buffers of the reading client

Each of the three functions fills an array from an input of any length. Two of them stay inside
their arrays for inputs that leave room for a terminator, and the third passes an array to
`system` that it never initialises.
-/

namespace MerlinC.Soundness

open Model Model.FireClientRead

/-- A call of one of the functions, with all that its run depends on. -/
inductive Call where
  | readCb (input : Input)
  | cmdMsgCb (result : Option Bytes)
  | doExec (clientMessage : Bytes)

namespace Call

/-- Every element written is inside its array, and every array passed as a string has been
initialised up to a NUL inside it. -/
def Safe : Call → Prop
  | readCb input => (FireClientRead.readCb input).isSome
  | cmdMsgCb result => (FireClientRead.cmdMsgCb result).isSome
  | doExec clientMessage => (FireClientRead.doExec clientMessage).isSome

/-- There is room for a terminator, or one among the bytes that are copied. -/
def Fits : Call → Prop
  | readCb input => input.bytes.length < msgSize ∨ 0 ∈ input.bytes.take msgSize
  | cmdMsgCb result => ∀ stored, result = some stored → stored.length < cmdSize
  | doExec _ => False

end Call

/-- `read_cb` writes inside its array, which was zeroed, so the bytes after those copied are NUL. -/
theorem isSome_readCb (input : Input) : (readCb input).isSome ↔ (Call.readCb input).Fits := by
  obtain ⟨msg, printed, cells⟩ := readCb_msg input
  have zeros (n : ℕ) : (CArray.scan (List.replicate n (some 0))).isSome ↔ 0 < n := by
    cases n with
    | zero => simp [CArray.scan]
    | succ n => simp [CArray.scan, List.replicate_succ]
  rw [printed, Option.isSome_map, CArray.string?, cells, CArray.isSome_scan_append, zeros,
    List.length_take, or_comm]
  refine or_congr_left ?_
  omega

/-- `cmd_msg_cb` writes its terminator behind what `read` stored. -/
theorem isSome_cmdMsgCb (result : Option Bytes) :
    (cmdMsgCb result).isSome ↔ (Call.cmdMsgCb result).Fits := by
  cases result with
  | none => exact ⟨fun _ _ no => by contradiction, fun _ => rfl⟩
  | some stored =>
    have only : (Call.cmdMsgCb (some stored)).Fits ↔ stored.length < cmdSize :=
      ⟨fun fits => fits stored rfl, fun fits _ same => Option.some.inj same ▸ fits⟩
    rw [only]
    rcases Nat.lt_or_ge stored.length cmdSize with fits | long
    · obtain ⟨first, copied, cells⟩ :=
        @CArray.write_eq _ (CArray.uninit cmdSize) 0 stored (by omega)
      obtain ⟨second, ended, cells'⟩ := @CArray.write_eq _ first stored.length [0] fits
      have front : first.cells.take stored.length = stored.map some := by
        rw [cells, List.take_zero, List.nil_append]
        exact List.take_left' (List.length_map some)
      have text : second.string?.isSome := by
        rw [CArray.string?, cells', front, List.append_assoc, CArray.isSome_scan_append]
        exact .inr rfl
      obtain ⟨string, read⟩ := Option.isSome_iff_exists.mp text
      refine iff_of_true ?_ fits
      simp only [cmdMsgCb, copied, ended, read, bind, Option.bind_some, Option.isSome_some]
    · have past : ∀ a : CArray cmdSize, a.write stored.length [0] = none := by
        intro a
        exact dif_neg (by rw [List.length_singleton]; omega)
      refine iff_of_false ?_ (Nat.not_lt.mpr long)
      simp only [cmdMsgCb, past, bind]
      cases (CArray.uninit cmdSize).write 0 stored with
      | none => simp
      | some a => simp

/-- `command` has room for a message of at most 118 bytes. -/
theorem isSome_command (clientMessage : Bytes) :
    (command clientMessage).isSome ↔ clientMessage.length ≤ 118 := by
  have size : commandSize = 128 := rfl
  have plain : 0 ∉ ascii "./script/" := by decide
  have length : (ascii "./script/").length = 9 := by decide
  obtain ⟨first, rest, copied, cells⟩ :=
    (CArray.zeroed commandSize).strcpy_eq (ascii "./script/") (by omega)
  have joined : command clientMessage = first.strcat clientMessage := by
    simp only [command, copied, bind, Option.bind_some]
  rw [joined]
  rcases Nat.lt_or_ge 118 clientMessage.length with long | fits
  · rw [CArray.strcat_eq_none clientMessage cells plain (by omega)]
    exact iff_of_false Bool.false_ne_true (by omega)
  · obtain ⟨second, _, written, _⟩ := CArray.strcat_eq clientMessage cells plain (by omega)
    rw [written]
    exact iff_of_true rfl fits

/-- No message makes `doExec` pass an initialised string. -/
theorem doExec_eq_none (clientMessage : Bytes) : doExec clientMessage = none := by
  simp only [doExec, bind]
  cases command clientMessage with
  | none => rfl
  | some written => rfl

/-- A call stays inside its buffers exactly if there is room for the terminator, and `doExec`
never does. -/
theorem reader_buffers_iff (call : Call) : call.Safe ↔ call.Fits := by
  cases call with
  | readCb input => exact isSome_readCb input
  | cmdMsgCb result => exact isSome_cmdMsgCb result
  | doExec clientMessage =>
    rw [Call.Safe, doExec_eq_none]
    exact iff_of_false Bool.false_ne_true id

/-- A line of 1024 bytes fills the array of `cmd_msg_cb`, and its terminator does not fit. -/
theorem reader_buffers_fail : ¬ ∀ call : Call, call.Safe := by
  intro safe
  have fits := (isSome_cmdMsgCb (some (List.replicate 1024 97))).mp (safe (.cmdMsgCb _))
  have short := fits _ rfl
  rw [List.length_replicate] at short
  exact absurd short (Nat.lt_irrefl 1024)

end MerlinC.Soundness
