import MerlinC.Model.ChainMemory

/-! # Evbuffers as chains of memory

An evbuffer is a linked list of chains with a pointer into the middle of it: `last_with_datap`
points at the link to the last chain that holds data. The list is kept as the chains before
that link and the chains from it on, and `last` is its last chain. As for a single chain, `none`
is an access outside of memory or a failed assertion; a C result of -1 is `false`, with the
buffer it leaves behind. `stream` forgets the chains, and each operation is an operation of the
byte stream.
-/

namespace MerlinC.Model

structure ChainBuffer where
  before : List EvbufferChain
  onward : List EvbufferChain
  totalLen : ℕ
  nAddForCb : ℕ
  nDelForCb : ℕ
  freezeStart : Bool
  freezeEnd : Bool
deriving DecidableEq

/-- An evbuffer as what its users know: the bytes, the counts of bytes that came and went since
the callbacks last ran, and which ends are frozen. -/
@[ext] structure ByteStream where
  bytes : Bytes
  added : ℕ
  deleted : ℕ
  freezeStart : Bool
  freezeEnd : Bool
deriving DecidableEq, Repr

namespace ByteStream

def append (s : ByteStream) (text : Bytes) : ByteStream :=
  { s with bytes := s.bytes ++ text, added := s.added + text.length }

/-- Bytes that are there but not yet counted as added. -/
def extend (s : ByteStream) (text : Bytes) : ByteStream := { s with bytes := s.bytes ++ text }

def credit (s : ByteStream) (added : ℕ) : ByteStream := { s with added := s.added + added }

def prepend (s : ByteStream) (text : Bytes) : ByteStream :=
  { s with bytes := text ++ s.bytes, added := s.added + text.length }

/-- The stream without its first bytes. -/
def drop (s : ByteStream) (count : ℕ) : ByteStream :=
  { s with bytes := s.bytes.drop count, deleted := s.deleted + min count s.bytes.length }

theorem append_append (s : ByteStream) (first second : Bytes) :
    (s.append first).append second = s.append (first ++ second) := by
  simp only [append, List.append_assoc, List.length_append, Nat.add_assoc]

/-- A text that arrives in two parts, of which the second is counted late. -/
theorem append_extend_credit (s : ByteStream) (first second : Bytes) :
    ((s.append first).extend second).credit second.length = s.append (first ++ second) := by
  simp only [append, extend, credit, List.append_assoc, List.length_append, Nat.add_assoc]

theorem prepend_prepend (s : ByteStream) (first second : Bytes) :
    (s.prepend second).prepend first = s.prepend (first ++ second) := by
  simp only [prepend, List.append_assoc, List.length_append, mk.injEq, true_and, and_self, and_true]
  omega

theorem drop_drop (s : ByteStream) (first second : ℕ) :
    (s.drop first).drop second = s.drop (first + second) := by
  simp only [drop, List.drop_drop, List.length_drop, mk.injEq, true_and, and_self, and_true]
  omega

theorem extend_nil (s : ByteStream) : s.extend [] = s := by
  simp only [extend, List.append_nil]

theorem append_nil (s : ByteStream) : s.append [] = s := by
  simp only [append, List.append_nil, List.length_nil, Nat.add_zero]

theorem prepend_nil (s : ByteStream) : s.prepend [] = s := by
  simp only [prepend, List.nil_append, List.length_nil, Nat.add_zero]

/-- Only the empty text leaves a stream as it is. -/
theorem prepend_eq_self {s : ByteStream} {text : Bytes} : s.prepend text = s ↔ text = [] := by
  constructor
  · intro same
    have length := congrArg List.length (congrArg bytes same)
    rw [prepend, List.length_append] at length
    exact List.length_eq_zero_iff.mp (by omega)
  · rintro rfl
    exact prepend_nil s

end ByteStream

/-- The bytes of a list of chains. -/
def content (chains : List EvbufferChain) : Bytes := chains.flatMap (·.data)

@[simp] theorem content_nil : content [] = [] := rfl

@[simp] theorem content_cons (chain : EvbufferChain) (rest : List EvbufferChain) :
    content (chain :: rest) = chain.data ++ content rest := rfl

@[simp] theorem content_append (first second : List EvbufferChain) :
    content (first ++ second) = content first ++ content second := List.flatMap_append

theorem content_of_empty {chains : List EvbufferChain} (empty : ∀ chain ∈ chains, chain.off = 0) :
    content chains = [] :=
  List.flatMap_eq_nil_iff.mpr fun chain member => EvbufferChain.data_eq_nil.mpr (empty chain member)

namespace ChainBuffer

def chains (buf : ChainBuffer) : List EvbufferChain := buf.before ++ buf.onward

def bytes (buf : ChainBuffer) : Bytes := content buf.chains

def stream (buf : ChainBuffer) : ByteStream where
  bytes := buf.bytes
  added := buf.nAddForCb
  deleted := buf.nDelForCb
  freezeStart := buf.freezeStart
  freezeEnd := buf.freezeEnd

/-- `evbuffer_new`. -/
def new : ChainBuffer := ⟨[], [], 0, 0, 0, false, false⟩

/-- `buf->last`. -/
def last (buf : ChainBuffer) : Option EvbufferChain := buf.chains.getLast?

/-- The additions to `total_len` and `n_add_for_cb` that go together. -/
def count (buf : ChainBuffer) (added : ℕ) : ChainBuffer :=
  { buf with totalLen := buf.totalLen + added, nAddForCb := buf.nAddForCb + added }

/-- An addition to `n_add_for_cb` alone. -/
def credit (buf : ChainBuffer) (added : ℕ) : ChainBuffer :=
  { buf with nAddForCb := buf.nAddForCb + added }

/-- `evbuffer_free_trailing_empty_chains`: what is left of the list from the link on. -/
def freeTrailingEmptyChains (buf : ChainBuffer) : Option (List EvbufferChain) :=
  if (buf.onward.dropWhile (0 < ·.off)).all (·.off = 0) then
    some (buf.onward.takeWhile (0 < ·.off))
  else none

/-- `evbuffer_chain_insert`. -/
def chainInsert (buf : ChainBuffer) (chain : EvbufferChain) : Option ChainBuffer :=
  let buf' := { buf with totalLen := buf.totalLen + chain.off }
  match buf.onward with
  | [] => if buf.before = [] then some { buf' with onward := [chain] } else none
  | _ :: _ => do
    let kept ← buf.freeTrailingEmptyChains
    if chain.off = 0 then some { buf' with onward := kept ++ [chain] }
    else some { buf' with before := buf.before ++ kept, onward := [chain] }

/-- What every evbuffer satisfies between calls: the link points at the last chain with data, or
at the first chain if none has any, every chain before the link has data, and `total_len` counts
the bytes. -/
structure Wf (buf : ChainBuffer) : Prop where
  sound : ∀ chain ∈ buf.chains, chain.Sound
  lead : buf.before ≠ [] → ∃ chain rest, buf.onward = chain :: rest ∧ 0 < chain.off
  front : ∀ chain ∈ buf.before, 0 < chain.off
  trailing : ∀ chain ∈ buf.onward.tail, chain.off = 0
  counted : buf.totalLen = buf.bytes.length

variable {buf : ChainBuffer} {chain : EvbufferChain} {rest : List EvbufferChain}

/-- The parts of the invariant around the link. -/
theorem wf_iff (shape : buf.onward = chain :: rest) : buf.Wf ↔
    (∀ chain ∈ buf.before, chain.Sound) ∧ (∀ chain ∈ rest, chain.Sound ∧ chain.off = 0) ∧
      chain.Sound ∧ (buf.before ≠ [] → 0 < chain.off) ∧
      (∀ chain ∈ buf.before, 0 < chain.off) ∧
      buf.totalLen = (content buf.before).length + chain.off := by
  have whole : buf.chains = buf.before ++ chain :: rest := by rw [chains, shape]
  constructor
  · rintro ⟨sound, lead, front, trailing, counted⟩
    rw [whole] at sound
    rw [shape, List.tail_cons] at trailing
    refine ⟨fun c inside => sound c (by simp [inside]),
      fun c inside => ⟨sound c (by simp [inside]), trailing c inside⟩, sound chain (by simp),
      fun some_ => ?_, front, ?_⟩
    · obtain ⟨head, others, same, filled⟩ := lead some_
      obtain ⟨rfl, -⟩ := List.cons.inj (shape.symm.trans same)
      exact filled
    · rw [counted, bytes, whole, content_append, content_cons, content_of_empty trailing]
      simp
  · rintro ⟨owned, empty, sound, lead, front, counted⟩
    refine ⟨?_, fun some_ => ⟨chain, rest, shape, lead some_⟩, front, ?_, ?_⟩
    · intro c inside
      rw [whole, List.mem_append, List.mem_cons] at inside
      rcases inside with inside | rfl | inside
      · exact owned c inside
      · exact sound
      · exact (empty c inside).1
    · rw [shape]
      exact fun c inside => (empty c inside).2
    · rw [counted, bytes, whole, content_append, content_cons,
        content_of_empty fun c inside => (empty c inside).2]
      simp

namespace Wf

variable (wf : buf.Wf)
include wf

theorem before_eq_nil (shape : buf.onward = []) : buf.before = [] := by
  apply Classical.byContradiction
  intro some_
  obtain ⟨_, _, cons, _⟩ := wf.lead some_
  rw [shape] at cons
  contradiction

theorem nothing (zero : buf.totalLen = 0) : buf.bytes = [] :=
  List.length_eq_zero_iff.mp (wf.counted ▸ zero)

theorem chains_eq_nil (shape : buf.onward = []) : buf.chains = [] := by
  rw [chains, wf.before_eq_nil shape, shape, List.nil_append]

theorem bytes_eq (shape : buf.onward = chain :: rest) :
    buf.bytes = content buf.before ++ chain.data := by
  obtain ⟨-, empty, -⟩ := (wf_iff shape).mp wf
  rw [bytes, chains, shape, content_append, content_cons,
    content_of_empty fun c inside => (empty c inside).2, List.append_nil]

/-- The chain at the link of a buffer that is not empty. -/
theorem filled (some_ : buf.bytes ≠ []) :
    ∃ chain rest, buf.onward = chain :: rest ∧ 0 < chain.off := by
  cases shape : buf.onward with
  | nil => exact absurd (by rw [bytes, wf.chains_eq_nil shape, content_nil]) some_
  | cons chain rest =>
    cases front : buf.before with
    | nil =>
      refine ⟨chain, rest, rfl, Nat.pos_of_ne_zero fun blank => some_ ?_⟩
      rw [wf.bytes_eq shape, front, EvbufferChain.data_eq_nil.mpr blank, content_nil,
        List.nil_append]
    | cons first others =>
      obtain ⟨head, others', same, filled⟩ := wf.lead (by simp [front])
      obtain ⟨rfl, rfl⟩ := List.cons.inj (shape.symm.trans same)
      exact ⟨chain, rest, rfl, filled⟩

theorem freeTrailing (shape : buf.onward = chain :: rest) :
    buf.freeTrailingEmptyChains = some (if chain.off = 0 then [] else [chain]) := by
  obtain ⟨-, empty, -⟩ := (wf_iff shape).mp wf
  have none_ : rest.takeWhile (0 < ·.off) = [] := by
    cases rest with
    | nil => rfl
    | cons next others =>
      rw [List.takeWhile_cons, (empty next (by simp)).2]
      rfl
  have left : rest.dropWhile (0 < ·.off) = rest := by
    conv => rhs; rw [← List.takeWhile_append_dropWhile (p := (0 < ·.off)) (l := rest), none_]
    rfl
  have all : rest.all (·.off = 0) = true :=
    List.all_eq_true.mpr fun c inside => decide_eq_true (empty c inside).2
  rw [freeTrailingEmptyChains, shape, List.dropWhile_cons, List.takeWhile_cons]
  split
  · next filled =>
    have := of_decide_eq_true filled
    rw [left, all, if_pos rfl, none_, if_neg (by omega)]
  · next empty =>
    have : chain.off = 0 := by simpa using empty
    rw [List.all_cons, all, this]
    rfl

/-- Inserting a chain appends its bytes. -/
theorem chainInsert (sound : chain.Sound) :
    ∃ buf', buf.chainInsert chain = some buf' ∧ buf'.Wf ∧
      buf'.stream = buf.stream.extend chain.data ∧
      buf'.last = some chain ∧ (buf.onward = [] → buf'.onward = [chain]) := by
  cases shape : buf.onward with
  | nil =>
    have front := wf.before_eq_nil shape
    have counted := wf.counted
    have none_ : buf.bytes = [] := by rw [bytes, wf.chains_eq_nil shape, content_nil]
    refine ⟨{ buf with totalLen := buf.totalLen + chain.off, onward := [chain] }, ?_, ?_, ?_, ?_,
      fun _ => rfl⟩
    · rw [ChainBuffer.chainInsert, shape]
      exact if_pos front
    · apply (wf_iff rfl).mpr
      refine ⟨by simp [front], by simp, sound, absurd front, by simp [front], ?_⟩
      simp only [front, content_nil, counted, none_, List.length_nil]
    · simp [stream, ByteStream.extend, bytes, chains, front, shape]
    · simp [last, chains, front]
  | cons head rest =>
    obtain ⟨owned, empty, headSound, lead, front, counted⟩ := (wf_iff shape).mp wf
    have freed := wf.freeTrailing shape
    have text := wf.bytes_eq shape
    rw [ChainBuffer.chainInsert, shape]
    simp only [freed, Option.bind_eq_bind, Option.bind_some]
    split
    · next blank =>
      refine ⟨_, rfl, ?_, ?_, ?_, nofun⟩
      · split
        · next gone =>
          apply (wf_iff (List.nil_append _)).mpr
          refine ⟨owned, by simp, sound, fun some_ => ?_, front, ?_⟩
          · have := lead some_
            omega
          · simp only [counted]
            omega
        · apply (wf_iff (List.cons_append ..)).mpr
          refine ⟨owned, by simp [sound, blank], headSound, lead, front, ?_⟩
          simp only [counted]
          omega
      · have nothing := EvbufferChain.data_eq_nil.mpr blank
        simp only [stream, ByteStream.extend, text, nothing, List.append_nil]
        simp only [bytes, chains, content_append]
        split
        · next gone => simp [EvbufferChain.data_eq_nil.mpr gone, nothing]
        · simp [nothing]
      · simp [last, chains]
    · next filled =>
      refine ⟨_, rfl, ?_, ?_, ?_, nofun⟩
      · apply (wf_iff rfl).mpr
        refine ⟨?_, by simp, sound, fun _ => by omega, ?_, ?_⟩
        · intro c inside
          rw [List.mem_append] at inside
          rcases inside with inside | inside
          · exact owned c inside
          · split at inside
            · simp at inside
            · obtain rfl := List.mem_singleton.mp inside
              exact headSound
        · intro c inside
          rw [List.mem_append] at inside
          rcases inside with inside | inside
          · exact front c inside
          · split at inside
            · simp at inside
            · obtain rfl := List.mem_singleton.mp inside
              omega
        · simp only [counted, content_append, List.length_append]
          split
          · next gone => simp [gone]
          · simp
      · simp only [stream, ByteStream.extend, text]
        simp only [bytes, chains, content_append]
        split
        · next gone => simp [EvbufferChain.data_eq_nil.mpr gone]
        · simp
      · simp [last, chains]

/-- More bytes in the chain at the link are more bytes of the stream. -/
theorem extend {chain' : EvbufferChain} {text : Bytes} (shape : buf.onward = chain :: rest)
    (sound : chain'.Sound) (grown : chain'.data = chain.data ++ text)
    (off : chain'.off = chain.off + text.length) :
    ({ buf with onward := chain' :: rest }.count text.length).Wf ∧
      ({ buf with onward := chain' :: rest }.count text.length).stream =
        buf.stream.append text := by
  obtain ⟨owned, empty, _, lead, front, counted⟩ := (wf_iff shape).mp wf
  have wf' : ({ buf with onward := chain' :: rest }.count text.length).Wf := by
    apply (wf_iff rfl).mpr
    refine ⟨owned, empty, sound, fun some_ => ?_, front, ?_⟩
    · have := lead some_
      omega
    · simp only [count, counted]
      omega
  refine ⟨wf', ?_⟩
  have text' := wf'.bytes_eq rfl
  simp only [stream, text', wf.bytes_eq shape, ByteStream.append, grown]
  simp [count]

end Wf

/-- What an operation that may fail does to the stream, and what its result says. -/
structure Outcome (buf : ChainBuffer) (done : ByteStream) (blocked : Prop) (ok : Bool)
    (buf' : ChainBuffer) : Prop where
  wf : buf'.Wf
  stream : buf'.stream = if ok then done else buf.stream
  failed : ok = false → blocked

end ChainBuffer

end MerlinC.Model
