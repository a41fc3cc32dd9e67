import MerlinC.Math.Memory
import MerlinC.Model.EvBuffer
import Mathlib.Algebra.GroupWithZero.Nat

/-! # The memory of an evbuffer chain

A chain owns a block of memory, of which the `off` bytes after the first `misalign` ones hold
data. Each access names the bytes it touches: `none` stands for an access outside the block, a
write into memory the chain only refers to, or an assertion of the source that fails. The
allocator is a parameter, and the memory it returns has arbitrary contents.
-/

namespace MerlinC.Model

open Math

/-- `mm_malloc`, which may refuse. -/
structure Malloc where
  block : ℕ → Option Bytes
  sized : ∀ {size mem}, block size = some mem → mem.length = size

/-- `EVBUFFER_CHAIN_MAX`. -/
def chainMax : ℕ := 0x7FFFFFFFFFFFFFFF

/-- `EVBUFFER_CHAIN_SIZE`, the size of the header in front of a chain's memory. -/
def chainSize : ℕ := 48

/-- `MIN_BUFFER_SIZE`. -/
def minBufferSize : ℕ := 1024

structure EvbufferChain where
  buffer : Bytes
  misalign : ℕ
  off : ℕ
  immutable : Bool
  fits : misalign + off ≤ buffer.length
deriving DecidableEq

namespace EvbufferChain

def bufferLen (chain : EvbufferChain) : ℕ := chain.buffer.length

/-- The bytes the chain contributes to the stream. -/
def data (chain : EvbufferChain) : Bytes := slice chain.buffer chain.misalign chain.off

/-- `CHAIN_SPACE_LEN`. -/
def spaceLen (chain : EvbufferChain) : ℕ :=
  if chain.immutable then 0 else chain.bufferLen - (chain.misalign + chain.off)

/-- A write into the chain's own memory. -/
def memcpy (chain : EvbufferChain) (pos : ℕ) (text : Bytes) : Option EvbufferChain :=
  if inside : chain.immutable = false ∧ pos + text.length ≤ chain.bufferLen then
    some { chain with
      buffer := store chain.buffer pos text
      fits := by
        rw [length_store inside.2]
        exact chain.fits }
  else none

/-- A read of `len` data bytes from the one at `pos` on. -/
def read (chain : EvbufferChain) (pos len : ℕ) : Option Bytes :=
  if pos + len ≤ chain.off then some (slice chain.buffer (chain.misalign + pos) len) else none

/-- An assignment to `misalign` and `off`. -/
def place (chain : EvbufferChain) (misalign off : ℕ) : Option EvbufferChain :=
  if fits : misalign + off ≤ chain.bufferLen then some { chain with misalign, off, fits } else none

/-- Copy a text behind the data. -/
def append (chain : EvbufferChain) (text : Bytes) : Option EvbufferChain := do
  let chain ← chain.memcpy (chain.misalign + chain.off) text
  chain.place chain.misalign (chain.off + text.length)

/-- Copy as much of a text behind the data as there is room for, if there is any. -/
def appendPart (chain : EvbufferChain) (remain : ℕ) (text : Bytes) : Option EvbufferChain :=
  if remain = 0 then some chain else chain.append (text.take remain)

/-- An empty chain counts as empty at its beginning. -/
def rewind (chain : EvbufferChain) : Option EvbufferChain :=
  if chain.off = 0 then chain.place chain.bufferLen 0 else some chain

/-- Copy a text in front of the data. -/
def prepend (chain : EvbufferChain) (text : Bytes) : Option EvbufferChain :=
  if text.length ≤ chain.misalign then do
    let chain ← chain.memcpy (chain.misalign - text.length) text
    chain.place (chain.misalign - text.length) (chain.off + text.length)
  else none

/-- Copy a text into the end of an unused chain. -/
def fillEnd (chain : EvbufferChain) (text : Bytes) : Option EvbufferChain := do
  let chain ← chain.place (chain.bufferLen - text.length) text.length
  chain.memcpy chain.misalign text

/-- Drop the first data bytes. -/
def consume (chain : EvbufferChain) (count : ℕ) : Option EvbufferChain :=
  if count ≤ chain.off then chain.place (chain.misalign + count) (chain.off - count) else none

/-- `evbuffer_chain_align`. -/
def align (chain : EvbufferChain) : Option EvbufferChain := do
  let chain ← chain.memcpy 0 (slice chain.buffer chain.misalign chain.off)
  chain.place 0 chain.off

/-- `evbuffer_chain_should_realign`. -/
def shouldRealign (chain : EvbufferChain) (datlen : ℕ) : Bool :=
  datlen ≤ chain.bufferLen - chain.off && chain.off < chain.bufferLen / 2 && chain.off ≤ 2048

/-- The doubling loop of `evbuffer_chain_new`. -/
def growAlloc (toAlloc size : ℕ) : ℕ :=
  if 0 < toAlloc ∧ toAlloc < size then growAlloc (2 * toAlloc) size else toAlloc
termination_by size - toAlloc

/-- How much `evbuffer_chain_new` allocates for a header and its memory. -/
def allocSize (size : ℕ) : ℕ :=
  if size < chainMax / 2 then growAlloc minBufferSize size else size

/-- `evbuffer_chain_new`, where `none` is the null pointer. -/
def new (malloc : Malloc) (size : ℕ) : Option EvbufferChain :=
  if chainMax - chainSize < size then none
  else
    (malloc.block (allocSize (size + chainSize))).map fun block =>
      { buffer := block.drop chainSize, misalign := 0, off := 0, immutable := false,
        fits := Nat.zero_le _ }

/-- A chain has memory of its own that could be allocated. Only `evbuffer_add_reference` and its
like, which are not among the calls here, make chains that refer to the memory of others. -/
structure Sound (chain : EvbufferChain) : Prop where
  room : 0 < chain.bufferLen ∧ chain.bufferLen ≤ chainMax - chainSize
  owned : chain.immutable = false

variable {chain : EvbufferChain} {text : Bytes}

@[simp] theorem length_data (chain : EvbufferChain) : chain.data.length = chain.off :=
  length_slice chain.fits

theorem fits' (chain : EvbufferChain) : chain.misalign + chain.off ≤ chain.bufferLen := chain.fits

/-- An empty chain holds no data. -/
theorem data_eq_nil : chain.data = [] ↔ chain.off = 0 := by
  rw [← List.length_eq_zero_iff, length_data]

theorem sound_of_mutable (free : chain.immutable = false)
    (room : 0 < chain.bufferLen ∧ chain.bufferLen ≤ chainMax - chainSize) : chain.Sound :=
  ⟨room, free⟩

theorem spaceLen_of_mutable (free : chain.immutable = false) :
    chain.spaceLen = chain.bufferLen - (chain.misalign + chain.off) := by
  simp only [spaceLen, free, Bool.false_eq_true, ↓reduceIte]

theorem memcpy_eq {pos : ℕ} (free : chain.immutable = false)
    (inside : pos + text.length ≤ chain.bufferLen) :
    ∃ chain', chain.memcpy pos text = some chain' ∧ chain'.buffer = store chain.buffer pos text ∧
      chain'.misalign = chain.misalign ∧ chain'.off = chain.off ∧ chain'.immutable = false :=
  ⟨_, dif_pos ⟨free, inside⟩, rfl, rfl, rfl, free⟩

theorem place_eq (chain : EvbufferChain) {misalign off : ℕ}
    (fits : misalign + off ≤ chain.bufferLen) :
    ∃ chain', chain.place misalign off = some chain' ∧ chain'.buffer = chain.buffer ∧
      chain'.misalign = misalign ∧ chain'.off = off ∧ chain'.immutable = chain.immutable :=
  ⟨_, dif_pos fits, rfl, rfl, rfl, rfl⟩

/-- A write followed by an assignment, as all that changes a chain does. -/
theorem memcpy_place (pos misalign off : ℕ) (free : chain.immutable = false)
    (inside : pos + text.length ≤ chain.bufferLen) (fits : misalign + off ≤ chain.bufferLen) :
    ∃ wrote chain', chain.memcpy pos text = some wrote ∧ wrote.misalign = chain.misalign ∧
      wrote.off = chain.off ∧ wrote.place misalign off = some chain' ∧
      chain'.data = slice (store chain.buffer pos text) misalign off ∧
      chain'.misalign = misalign ∧ chain'.off = off ∧
      chain'.bufferLen = chain.bufferLen ∧ chain'.immutable = false := by
  obtain ⟨wrote, written, buffer, start, used, free'⟩ := memcpy_eq free inside
  have length : wrote.bufferLen = chain.bufferLen := by
    rw [bufferLen, buffer, length_store inside]
    rfl
  obtain ⟨chain', placed, buffer', misalign', off', same⟩ :=
    wrote.place_eq (length ▸ fits)
  refine ⟨wrote, chain', written, start, used, placed, ?_, misalign', off', ?_, same.trans free'⟩
  · rw [data, buffer', buffer, misalign', off']
  · rw [bufferLen, buffer', ← length]
    rfl

theorem read_eq {pos len : ℕ} (inside : pos + len ≤ chain.off) :
    chain.read pos len = some ((chain.data.drop pos).take len) := by
  rw [read, if_pos inside, data, slice_drop, slice_take (by omega)]

/-- The whole of the data from a position on. -/
theorem read_rest {pos : ℕ} (inside : pos ≤ chain.off) :
    chain.read pos (chain.off - pos) = some (chain.data.drop pos) := by
  rw [read_eq (by omega), List.take_of_length_le (by simp)]

theorem append_eq (text : Bytes) (free : chain.immutable = false)
    (room : chain.misalign + chain.off + text.length ≤ chain.bufferLen) :
    ∃ chain', chain.append text = some chain' ∧ chain'.data = chain.data ++ text ∧
      chain'.misalign = chain.misalign ∧ chain'.off = chain.off + text.length ∧
      chain'.bufferLen = chain.bufferLen ∧ chain'.immutable = false := by
  obtain ⟨wrote, chain', written, start, used, placed, content, rest⟩ :=
    memcpy_place _ chain.misalign (chain.off + text.length) free room (by omega)
  refine ⟨chain', ?_, ?_, rest⟩
  · rw [append, written, Option.bind_eq_bind, Option.bind_some, start, used, placed]
  · rw [content]
    exact slice_store_append chain.fits

theorem prepend_eq (text : Bytes) (free : chain.immutable = false)
    (room : text.length ≤ chain.misalign) :
    ∃ chain', chain.prepend text = some chain' ∧ chain'.data = text ++ chain.data ∧
      chain'.misalign = chain.misalign - text.length ∧ chain'.off = chain.off + text.length ∧
      chain'.bufferLen = chain.bufferLen ∧ chain'.immutable = false := by
  have bound := chain.fits'
  have inside : chain.misalign - text.length + text.length ≤ chain.bufferLen := by omega
  obtain ⟨wrote, chain', written, start, used, placed, content, rest⟩ :=
    memcpy_place (chain.misalign - text.length) (chain.misalign - text.length)
      (chain.off + text.length) free inside (by omega)
  refine ⟨chain', ?_, ?_, rest⟩
  · rw [prepend, if_pos room, written, Option.bind_eq_bind, Option.bind_some, start, used, placed]
  · unfold bufferLen at bound
    rw [content, Nat.add_comm chain.off, slice_store_prepend (by omega), Nat.sub_add_cancel room]
    rfl

theorem fillEnd_eq (free : chain.immutable = false) (room : text.length ≤ chain.bufferLen) :
    ∃ chain', chain.fillEnd text = some chain' ∧ chain'.data = text ∧
      chain'.off = text.length ∧ chain'.bufferLen = chain.bufferLen ∧ chain'.immutable = false := by
  have fits : chain.bufferLen - text.length + text.length ≤ chain.bufferLen := by omega
  obtain ⟨placed, done, buffer, misalign, off, same⟩ := chain.place_eq fits
  have length : placed.bufferLen = chain.bufferLen := congrArg List.length buffer
  have inside : placed.misalign + text.length ≤ placed.bufferLen := by omega
  obtain ⟨chain', written, buffer', misalign', off', free'⟩ := memcpy_eq (same.trans free) inside
  refine ⟨chain', by rw [fillEnd, done, Option.bind_eq_bind, Option.bind_some, written], ?_,
    off'.trans off, ?_, free'⟩
  · rw [data, buffer', misalign', off', off]
    exact slice_store (Nat.le_trans (Nat.le_add_right _ _) inside)
  · rw [bufferLen, buffer', length_store inside]
    exact length

theorem consume_eq (chain : EvbufferChain) {count : ℕ} (part : count ≤ chain.off) :
    ∃ chain', chain.consume count = some chain' ∧ chain'.data = chain.data.drop count ∧
      chain'.misalign = chain.misalign + count ∧ chain'.off = chain.off - count ∧
      chain'.bufferLen = chain.bufferLen ∧ chain'.immutable = chain.immutable := by
  have bound := chain.fits'
  have fits : chain.misalign + count + (chain.off - count) ≤ chain.bufferLen := by omega
  obtain ⟨chain', placed, buffer, misalign, off, same⟩ := chain.place_eq fits
  refine ⟨chain', ?_, ?_, misalign, off, congrArg List.length buffer, same⟩
  · rw [consume, if_pos part, placed]
  · rw [data, buffer, misalign, off, data, slice_drop]

/-- A chain that loses a part of its data keeps the rest. -/
theorem Sound.consume {count : ℕ} {chain' : EvbufferChain} (sound : chain.Sound)
    (part : count < chain.off) (consumed : chain.consume count = some chain') :
    chain'.Sound ∧ 0 < chain'.off := by
  obtain ⟨same, again, -, misalign, off, length, flag⟩ := chain.consume_eq (Nat.le_of_lt part)
  obtain rfl := Option.some.inj (again.symm.trans consumed)
  exact ⟨⟨length ▸ sound.room, flag.trans sound.owned⟩, by omega⟩

theorem align_eq (free : chain.immutable = false) :
    ∃ chain', chain.align = some chain' ∧ chain'.data = chain.data ∧ chain'.misalign = 0 ∧
      chain'.off = chain.off ∧ chain'.bufferLen = chain.bufferLen ∧ chain'.immutable = false := by
  have bound := chain.fits'
  have moved : chain.data.length = chain.off := chain.length_data
  have inside : 0 + chain.data.length ≤ chain.bufferLen := by omega
  obtain ⟨wrote, chain', written, -, used, placed, content, rest⟩ :=
    memcpy_place 0 0 chain.off free inside (by omega)
  refine ⟨chain', ?_, ?_, rest⟩
  · change (chain.memcpy 0 chain.data).bind (fun chain => chain.place 0 chain.off) = _
    rw [written, Option.bind_some, used, placed]
  · rw [content, ← moved]
    exact slice_store (Nat.zero_le _)

theorem appendPart_eq {remain : ℕ} (sound : chain.Sound) (short : remain ≤ text.length)
    (room : remain ≠ 0 → chain.immutable = false ∧
      chain.misalign + chain.off + remain ≤ chain.bufferLen) :
    ∃ chain', chain.appendPart remain text = some chain' ∧ chain'.Sound ∧
      chain'.data = chain.data ++ text.take remain ∧
      chain'.off = chain.off + (text.take remain).length := by
  unfold appendPart
  split
  · next zero => exact ⟨chain, rfl, sound, by simp [zero], by simp [zero]⟩
  · next some_ =>
    obtain ⟨free, enough⟩ := room some_
    have length : (text.take remain).length = remain := List.length_take_of_le short
    rw [← length] at enough
    obtain ⟨chain', appended, grown, -, off, size, free'⟩ := append_eq _ free enough
    exact ⟨chain', appended, sound_of_mutable free' (size ▸ sound.room), grown, off⟩

theorem rewind_eq (sound : chain.Sound) (free : chain.immutable = false) :
    ∃ chain', chain.rewind = some chain' ∧ chain'.data = chain.data ∧ chain'.off = chain.off ∧
      chain'.bufferLen = chain.bufferLen ∧ chain'.immutable = false ∧
      (chain.off = 0 → 0 < chain'.misalign) := by
  unfold rewind
  split
  · next empty =>
    have fits : chain.bufferLen + 0 ≤ chain.bufferLen := Nat.le_refl _
    obtain ⟨chain', placed, buffer, misalign, off, same⟩ := chain.place_eq fits
    refine ⟨chain', placed, ?_, off.trans empty.symm, congrArg List.length buffer,
      same.trans free, fun _ => misalign ▸ sound.room.1⟩
    rw [data_eq_nil.mpr empty, data_eq_nil.mpr off]
  · next filled => exact ⟨chain, rfl, rfl, rfl, rfl, free, fun empty => absurd empty filled⟩

theorem le_growAlloc {toAlloc size : ℕ} (positive : 0 < toAlloc) :
    size ≤ growAlloc toAlloc size := by
  induction toAlloc using growAlloc.induct size with
  | case1 toAlloc small ih =>
    rw [growAlloc, if_pos small]
    exact ih (by omega)
  | case2 toAlloc large =>
    rw [growAlloc, if_neg large]
    omega

theorem le_growAlloc_self (toAlloc size : ℕ) : toAlloc ≤ growAlloc toAlloc size := by
  induction toAlloc using growAlloc.induct size with
  | case1 toAlloc small ih =>
    rw [growAlloc, if_pos small]
    omega
  | case2 toAlloc large => exact Nat.le_of_eq (by rw [growAlloc, if_neg large])

/-- The loop at most doubles what was asked for, beyond the smallest allocation. -/
theorem growAlloc_le (toAlloc size : ℕ) : growAlloc toAlloc size ≤ max toAlloc (2 * size) := by
  induction toAlloc using growAlloc.induct size with
  | case1 toAlloc small ih =>
    rw [growAlloc, if_pos small]
    omega
  | case2 toAlloc large =>
    rw [growAlloc, if_neg large]
    omega

theorem le_allocSize (size : ℕ) : size ≤ allocSize size ∧ minBufferSize ≤ allocSize size := by
  unfold allocSize
  split
  · exact ⟨le_growAlloc (by decide), le_growAlloc_self _ _⟩
  · next large =>
    simp only [chainMax, minBufferSize] at large ⊢
    omega

theorem allocSize_le {size : ℕ} (small : size ≤ chainMax) : allocSize size ≤ chainMax := by
  unfold allocSize
  split
  · have := growAlloc_le minBufferSize size
    simp only [chainMax, minBufferSize] at *
    omega
  · exact small

/-- A new chain is empty and has the asked room, and more. -/
theorem new_eq {malloc : Malloc} {size : ℕ} (allocated : new malloc size = some chain) :
    size ≤ chain.bufferLen ∧ (0 < chain.bufferLen ∧ chain.bufferLen ≤ chainMax - chainSize) ∧
      chain.misalign = 0 ∧ chain.off = 0 ∧ chain.immutable = false := by
  rw [new] at allocated
  split at allocated
  · contradiction
  · next small =>
    obtain ⟨block, found, rfl⟩ := Option.map_eq_some_iff.mp allocated
    have enough := le_allocSize (size + chainSize)
    have most : allocSize (size + chainSize) ≤ chainMax := by
      apply allocSize_le
      simp only [chainMax, chainSize] at *
      omega
    simp only [bufferLen, List.length_drop, malloc.sized found, and_self, and_true]
    simp only [chainSize, minBufferSize] at enough most ⊢
    omega

end EvbufferChain

/-- An allocation that fails. -/
def Malloc.Refuses (malloc : Malloc) : Prop := ∃ size, malloc.block size = none

/-- A chain of so many bytes may fail to be there: an allocation fails, or the chain would be too
large. -/
def OutOfMemory (malloc : Malloc) (asked : ℕ) : Prop :=
  malloc.Refuses ∨ chainMax - chainSize < asked

theorem OutOfMemory.mono {malloc : Malloc} {asked more : ℕ} (out : OutOfMemory malloc asked)
    (le : asked ≤ more) : OutOfMemory malloc more :=
  out.imp_right fun large => Nat.lt_of_lt_of_le large le

theorem OutOfMemory.refuses {malloc : Malloc} {asked : ℕ} (out : OutOfMemory malloc asked)
    (small : asked ≤ chainMax - chainSize) : malloc.Refuses :=
  out.resolve_right (Nat.not_lt.mpr small)

theorem EvbufferChain.new_eq_none {malloc : Malloc} {size : ℕ} (refused : new malloc size = none) :
    OutOfMemory malloc size := by
  rw [new] at refused
  split at refused
  · next large => exact .inr large
  · exact .inl ⟨_, Option.map_eq_none_iff.mp refused⟩

end MerlinC.Model
