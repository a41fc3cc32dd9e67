import Mathlib.Data.List.Basic

/-! # Libevent's chained byte buffers

An evbuffer is a list of chains, and `bytes` is the stream it stands for. The operations follow
`buffer.c` at the level of chains: which of them copy across a chain boundary, which free whole
chains, and which refuse to run at a frozen end. Where `evbuffer_add` would first fill the room
left in the last chain, this model always opens a new one; no operation lets a caller observe
that boundary, as the equations on `bytes` show. Buffers are far below `SIZE_MAX` bytes, and
`none` is the return value -1.
-/

namespace MerlinC.Model

abbrev Bytes := List UInt8

/-- The largest `size_t`, which is also what -1 becomes in one. -/
def sizeMax : ℕ := 0xFFFFFFFFFFFFFFFF

structure EvBuffer where
  chains : List Bytes
  freezeStart : Bool
  freezeEnd : Bool
deriving DecidableEq, Repr

namespace EvBuffer

/-- The buffered stream, oldest byte first. -/
def bytes (buf : EvBuffer) : Bytes := buf.chains.flatten

/-- `evbuffer_get_length`. -/
def getLength (buf : EvBuffer) : ℕ := buf.chains.foldr (fun chain n => chain.length + n) 0

/-- The copying loop of `evbuffer_copyout_from`: whole chains, then part of one. -/
def copyChains : List Bytes → ℕ → Bytes
  | _, 0 => []
  | [], _ + 1 => []
  | chain :: rest, datlen + 1 =>
      if chain.length ≤ datlen + 1 then chain ++ copyChains rest (datlen + 1 - chain.length)
      else chain.take (datlen + 1)

/-- `evbuffer_copyout`, which leaves the buffer as it is. -/
def copyout (buf : EvBuffer) (datlen : ℕ) : Option Bytes :=
  let datlen := min datlen buf.getLength
  if datlen = 0 then some []
  else if buf.freezeStart then none
  else some (copyChains buf.chains datlen)

/-- The freeing loop of `evbuffer_drain`: whole chains, then the front of one. -/
def dropChains : List Bytes → ℕ → List Bytes
  | [], _ => []
  | chain :: rest, remaining =>
      if chain.length ≤ remaining then dropChains rest (remaining - chain.length)
      else chain.drop remaining :: rest

/-- `evbuffer_drain`. -/
def drain (buf : EvBuffer) (len : ℕ) : Option EvBuffer :=
  if buf.getLength = 0 then some buf
  else if buf.freezeStart then none
  else if buf.getLength ≤ len then some { buf with chains := [] }
  else some { buf with chains := dropChains buf.chains len }

/-- `evbuffer_remove`: a copy, then a drain of as many bytes. -/
def remove (buf : EvBuffer) (datlen : ℕ) : Option (Bytes × EvBuffer) := do
  let data ← buf.copyout datlen
  if 0 < data.length then
    let rest ← buf.drain data.length
    some (data, rest)
  else some (data, buf)

/-- `evbuffer_add`. -/
def add (buf : EvBuffer) (data : Bytes) : Option EvBuffer :=
  if buf.freezeEnd then none else some { buf with chains := buf.chains ++ [data] }

/-- `evbuffer_add_buffer`: every chain of the second buffer moves to the first. -/
def addBuffer (outbuf inbuf : EvBuffer) : Option (EvBuffer × EvBuffer) :=
  if inbuf.getLength = 0 then some (outbuf, inbuf)
  else if outbuf.freezeEnd || inbuf.freezeStart then none
  else some ({ outbuf with chains := outbuf.chains ++ inbuf.chains }, { inbuf with chains := [] })

@[simp] theorem getLength_eq (buf : EvBuffer) : buf.getLength = buf.bytes.length := by
  unfold getLength bytes
  induction buf.chains with
  | nil => rfl
  | cons chain rest ih => rw [List.foldr_cons, ih, List.flatten_cons, List.length_append]

theorem copyChains_eq (chains : List Bytes) (datlen : ℕ) :
    copyChains chains datlen = chains.flatten.take datlen := by
  induction chains generalizing datlen with
  | nil => cases datlen <;> simp [copyChains]
  | cons chain rest ih =>
    cases datlen with
    | zero => simp [copyChains]
    | succ datlen =>
      rw [copyChains, List.flatten_cons, List.take_append]
      split
      · next whole => rw [ih, List.take_of_length_le whole]
      · next part => rw [Nat.sub_eq_zero_of_le (by omega), List.take_zero, List.append_nil]

theorem dropChains_eq (chains : List Bytes) (remaining : ℕ) :
    (dropChains chains remaining).flatten = chains.flatten.drop remaining := by
  induction chains generalizing remaining with
  | nil => simp [dropChains]
  | cons chain rest ih =>
    rw [dropChains, List.flatten_cons, List.drop_append]
    split
    · next whole => rw [ih, List.drop_of_length_le whole, List.nil_append]
    · next part =>
      rw [List.flatten_cons, Nat.sub_eq_zero_of_le (by omega), List.drop_zero]

/-- A copy out of an unfrozen buffer is a prefix of its stream, as long as asked if it can be. -/
theorem copyout_eq {buf : EvBuffer} (open_ : buf.freezeStart = false) (datlen : ℕ) :
    buf.copyout datlen = some (buf.bytes.take datlen) := by
  simp only [copyout, open_, getLength_eq, copyChains_eq, Bool.false_eq_true, ↓reduceIte]
  split
  · next none_ =>
    rcases Nat.min_eq_zero_iff.mp none_ with zero | empty
    · simp [zero]
    · rw [List.length_eq_zero_iff.mp empty, List.take_nil]
  · rw [← bytes, ← List.take_eq_take_min]

/-- A drain of an unfrozen buffer drops a prefix of its stream and freezes nothing. -/
theorem drain_eq {buf : EvBuffer} (open_ : buf.freezeStart = false) (len : ℕ) :
    ∃ rest, buf.drain len = some rest ∧ rest.bytes = buf.bytes.drop len ∧
      rest.freezeStart = false ∧ rest.freezeEnd = buf.freezeEnd := by
  simp only [drain, open_, getLength_eq, Bool.false_eq_true, ↓reduceIte]
  split
  · next empty =>
    exact ⟨buf, rfl, by rw [List.length_eq_zero_iff.mp empty, List.drop_nil], open_, rfl⟩
  · split
    · next all => exact ⟨_, rfl, (List.drop_eq_nil_iff.mpr all).symm, rfl, rfl⟩
    · exact ⟨_, rfl, dropChains_eq buf.chains len, rfl, rfl⟩

/-- A removal splits the stream at the asked size. -/
theorem remove_eq {buf : EvBuffer} (open_ : buf.freezeStart = false) (datlen : ℕ) :
    ∃ rest, buf.remove datlen = some (buf.bytes.take datlen, rest) ∧
      rest.bytes = buf.bytes.drop datlen ∧
      rest.freezeStart = false ∧ rest.freezeEnd = buf.freezeEnd := by
  obtain ⟨rest, drained, left, start, end_⟩ := drain_eq open_ (buf.bytes.take datlen).length
  simp only [remove, copyout_eq open_, drained, bind, Option.bind_some]
  split
  · refine ⟨rest, rfl, ?_, start, end_⟩
    rw [left, List.length_take]
    rcases Nat.le_total datlen buf.bytes.length with short | long
    · rw [Nat.min_eq_left short]
    · rw [Nat.min_eq_right long, List.drop_length, List.drop_of_length_le long]
  · next nothing =>
    refine ⟨buf, rfl, ?_, open_, rfl⟩
    have taken : buf.bytes.take datlen = [] := List.length_eq_zero_iff.mp (by omega)
    rw [← List.take_append_drop datlen buf.bytes, taken, List.nil_append, List.drop_drop]
    rcases List.take_eq_nil_iff.mp taken with zero | empty
    · simp [zero]
    · simp [empty]

theorem add_eq {buf : EvBuffer} (open_ : buf.freezeEnd = false) (data : Bytes) :
    ∃ buf', buf.add data = some buf' ∧ buf'.bytes = buf.bytes ++ data ∧
      buf'.freezeStart = buf.freezeStart ∧ buf'.freezeEnd = false := by
  simp only [add, open_, Bool.false_eq_true, ↓reduceIte]
  exact ⟨_, rfl, by simp [bytes], rfl, rfl⟩

theorem addBuffer_eq {outbuf inbuf : EvBuffer} (openOut : outbuf.freezeEnd = false)
    (openIn : inbuf.freezeStart = false) :
    ∃ out' in', outbuf.addBuffer inbuf = some (out', in') ∧
      out'.bytes = outbuf.bytes ++ inbuf.bytes ∧ in'.bytes = [] ∧
      out'.freezeEnd = false ∧ in'.freezeStart = false := by
  simp only [addBuffer, openOut, openIn, getLength_eq, Bool.or_self, Bool.false_eq_true, ↓reduceIte]
  split
  · next empty =>
    have nothing := List.length_eq_zero_iff.mp empty
    exact ⟨outbuf, inbuf, rfl, by rw [nothing, List.append_nil], nothing, openOut, openIn⟩
  · exact ⟨_, _, rfl, by simp [bytes], rfl, rfl, rfl⟩

end EvBuffer

end MerlinC.Model
