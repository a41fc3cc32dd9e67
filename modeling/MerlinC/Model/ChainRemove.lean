import MerlinC.Model.ChainBuffer

/-! # Taking bytes out of an evbuffer

`evbuffer_drain` frees whole chains from the front and shortens the one it stops in, moving the
link to the last chain with data whenever the chain in front of it goes. `evbuffer_copyout` walks
the same chains without freeing them. What leaves is always a prefix of the stream.
-/

namespace MerlinC.Model.ChainBuffer

/-- `ZERO_CHAIN`. -/
def zeroChain (buf : ChainBuffer) : ChainBuffer :=
  { buf with before := [], onward := [], totalLen := 0 }

/-- The loop of `evbuffer_drain`: a chain that goes takes the link with it if the link was in
it or pointed at it. -/
def drainLoop : List EvbufferChain → List EvbufferChain → ℕ →
    Option (List EvbufferChain × List EvbufferChain)
  | chain :: before, onward, remaining =>
      if chain.off ≤ remaining then drainLoop before onward (remaining - chain.off)
      else (chain.consume remaining).map fun chain => (chain :: before, onward)
  | [], chain :: onward, remaining =>
      if chain.off ≤ remaining then drainLoop [] onward (remaining - chain.off)
      else (chain.consume remaining).map fun chain => ([], chain :: onward)
  | [], [], _ => none
termination_by before onward _ => before.length + onward.length

/-- `evbuffer_drain`. -/
def drain (buf : ChainBuffer) (len : ℕ) : Option (Bool × ChainBuffer) :=
  if buf.totalLen = 0 then some (true, buf)
  else if buf.freezeStart then some (false, buf)
  else if buf.totalLen ≤ len then
    some (true, { buf.zeroChain with nDelForCb := buf.nDelForCb + buf.totalLen })
  else do
    let (before, onward) ← drainLoop buf.before buf.onward len
    some (true, { buf with
      before, onward, totalLen := buf.totalLen - len, nDelForCb := buf.nDelForCb + len })

/-- The copying of `evbuffer_copyout_from`, from a position in the first of some chains. -/
def copyLoop : List EvbufferChain → ℕ → ℕ → Option Bytes
  | _, _, 0 => some []
  | [], _, _ + 1 => none
  | chain :: rest, pos, datlen + 1 =>
      if chain.off - pos ≤ datlen + 1 then do
        let text ← chain.read pos (chain.off - pos)
        let more ← copyLoop rest 0 (datlen + 1 - (chain.off - pos))
        some (text ++ more)
      else chain.read pos (datlen + 1)

/-- `evbuffer_copyout`, where the inner `none` is -1. -/
def copyout (buf : ChainBuffer) (datlen : ℕ) : Option (Option Bytes) :=
  let datlen := min datlen buf.totalLen
  if datlen = 0 then some (some [])
  else if buf.freezeStart then some none
  else (copyLoop buf.chains 0 datlen).map some

/-- `evbuffer_remove`. -/
def remove (buf : ChainBuffer) (datlen : ℕ) : Option (Option Bytes × ChainBuffer) := do
  match ← buf.copyout datlen with
  | none => some (none, buf)
  | some data =>
    if 0 < data.length then
      let (ok, buf) ← buf.drain data.length
      some (if ok then some data else none, buf)
    else some (some data, buf)

variable {buf : ChainBuffer} {chain : EvbufferChain} {chains rest : List EvbufferChain}

theorem mem_chains {c : EvbufferChain} : c ∈ buf.chains ↔ c ∈ buf.before ∨ c ∈ buf.onward :=
  List.mem_append

/-- The copy of a range of the stream, which may start in the middle of a chain. -/
theorem copyLoop_eq (chains : List EvbufferChain) (pos datlen : ℕ)
    (inside : ∀ chain ∈ chains.head?, pos ≤ chain.off)
    (enough : pos + datlen ≤ (content chains).length) :
    copyLoop chains pos datlen = some (((content chains).drop pos).take datlen) := by
  induction chains generalizing pos datlen with
  | nil =>
    rw [content_nil, List.length_nil] at enough
    obtain rfl : datlen = 0 := by omega
    rfl
  | cons chain rest ih =>
    have within : pos ≤ chain.off := inside chain rfl
    cases datlen with
    | zero => rw [copyLoop, List.take_zero]
    | succ datlen =>
      have split_ : (content (chain :: rest)).drop pos = chain.data.drop pos ++ content rest := by
        rw [content_cons, List.drop_append_of_le_length (by simpa using within)]
      have length : (chain.data.drop pos).length = chain.off - pos := by simp
      rw [copyLoop, split_]
      split
      · next whole =>
        rw [content_cons, List.length_append, EvbufferChain.length_data] at enough
        have first : (chain.data.drop pos).take (datlen + 1) = chain.data.drop pos :=
          List.take_of_length_le (by omega)
        rw [EvbufferChain.read_rest within, Option.bind_eq_bind, Option.bind_some,
          ih 0 _ (by simp) (by omega), Option.bind_some, List.take_append, length, first,
          List.drop_zero]
      · next part =>
        rw [EvbufferChain.read_eq (by omega), List.take_append_of_le_length (by omega)]

/-- The loop stops in a chain that keeps data, at the link at the latest. -/
theorem drainLoop_eq (rest before : List EvbufferChain) {remaining : ℕ}
    (sound : ∀ c ∈ before, c.Sound) (full : ∀ c ∈ before, 0 < c.off) (sound' : chain.Sound)
    (short : remaining < (content before).length + chain.off) :
    ∃ before' chain', drainLoop before (chain :: rest) remaining = some (before', chain' :: rest) ∧
      content before' ++ chain'.data = (content before ++ chain.data).drop remaining ∧
      (∀ c ∈ before', c.Sound) ∧ chain'.Sound ∧ (∀ c ∈ before', 0 < c.off) ∧
      (before' ≠ [] → chain' = chain ∧ before ≠ []) := by
  induction before generalizing remaining with
  | nil =>
    rw [content_nil, List.length_nil] at short
    obtain ⟨chain', consumed, data, -⟩ :=
      chain.consume_eq (show remaining ≤ chain.off by omega)
    refine ⟨[], chain', ?_, ?_, by simp, (sound'.consume (by omega) consumed).1, by simp, by simp⟩
    · rw [drainLoop, if_neg (by omega), consumed]
      rfl
    · rw [content_nil, List.nil_append, List.nil_append, data]
  | cons first before ih =>
    rw [content_cons, List.length_append, EvbufferChain.length_data] at short
    have soundFirst := sound first (by simp)
    have soundRest : ∀ c ∈ before, c.Sound := fun c inside => sound c (by simp [inside])
    rw [drainLoop]
    split
    · next whole =>
      obtain ⟨before', chain', done, text, kept, keptLast, filled, moved⟩ :=
        ih soundRest (fun c inside => full c (by simp [inside]))
          (show remaining - first.off < _ by omega)
      refine ⟨before', chain', done, ?_, kept, keptLast, filled, fun some_ => ?_⟩
      · have skipped : (first.data ++ (content before ++ chain.data)).drop remaining =
            (content before ++ chain.data).drop (remaining - first.off) := by
          rw [List.drop_append, List.drop_of_length_le (by simpa using whole), List.nil_append,
            EvbufferChain.length_data]
        rw [text, content_cons, List.append_assoc, skipped]
      · exact ⟨(moved some_).1, by simp⟩
    · next part =>
      obtain ⟨first', consumed, data, -⟩ :=
        first.consume_eq (show remaining ≤ first.off by omega)
      have kept := soundFirst.consume (by omega) consumed
      refine ⟨first' :: before, chain, by rw [consumed]; rfl, ?_, ?_, sound', ?_, by simp⟩
      · rw [content_cons, content_cons, data, List.append_assoc, List.append_assoc,
          List.drop_append_of_le_length (by simp; omega)]
      · intro c inside
        rcases List.mem_cons.mp inside with rfl | inside
        · exact kept.1
        · exact soundRest c inside
      · intro c inside
        rcases List.mem_cons.mp inside with rfl | inside
        · exact kept.2
        · exact full c (by simp [inside])

/-- `evbuffer_drain` drops a prefix, unless the start is frozen. -/
theorem drain_eq (wf : buf.Wf) (len : ℕ) :
    ∃ ok buf', buf.drain len = some (ok, buf') ∧
      Outcome buf (buf.stream.drop len) (buf.freezeStart = true ∧ buf.bytes ≠ []) ok buf' ∧
      (ok = true → buf.bytes ≠ [] → buf.freezeStart = false) := by
  have counted := wf.counted
  unfold drain
  split
  · next zero =>
    have none_ : buf.bytes = [] := List.length_eq_zero_iff.mp (by omega)
    refine ⟨true, buf, rfl, ⟨wf, ?_, by simp⟩, fun _ some_ => absurd none_ some_⟩
    simp [ByteStream.drop, stream, none_]
  · next positive =>
    have some_ : buf.bytes ≠ [] := by
      intro none_
      rw [none_] at counted
      exact positive counted
    split
    · next frozen => exact ⟨false, buf, rfl, ⟨wf, rfl, fun _ => ⟨frozen, some_⟩⟩, by simp⟩
    · next thawed =>
      have open_ : buf.freezeStart = false := by simpa using thawed
      split
      · next all =>
        refine ⟨true, _, rfl, ⟨⟨?_, ?_, ?_, ?_, rfl⟩, ?_, by simp⟩, fun _ _ => open_⟩
        · simp [zeroChain, chains]
        · simp [zeroChain]
        · simp [zeroChain]
        · simp [zeroChain]
        · simp only [stream, zeroChain, bytes, chains, ByteStream.drop, if_pos]
          rw [counted, bytes, chains] at all ⊢
          rw [List.drop_of_length_le all, Nat.min_eq_right all]
          rfl
      · next part =>
        cases shape : buf.onward with
        | nil => exact absurd (by rw [bytes, wf.chains_eq_nil shape, content_nil]) some_
        | cons chain rest =>
          obtain ⟨owned, empty, sound, lead, front, count⟩ := (wf_iff shape).mp wf
          obtain ⟨before', chain', done, text, kept, keptLast, filled, moved⟩ :=
            drainLoop_eq rest buf.before owned front sound
              (show len < (content buf.before).length + chain.off by omega)
          have lengths := congrArg List.length text
          simp only [List.length_append, List.length_drop, EvbufferChain.length_data] at lengths
          have wf' : Wf { buf with before := before', onward := chain' :: rest,
                                   totalLen := buf.totalLen - len,
                                   nDelForCb := buf.nDelForCb + len } := by
            refine (wf_iff rfl).mpr ⟨kept, empty, keptLast, fun some_ => ?_, filled, ?_⟩
            · obtain ⟨rfl, some_⟩ := moved some_
              exact lead some_
            · simp only
              omega
          refine ⟨true, _, by rw [done]; rfl, ⟨wf', ?_, by simp⟩, fun _ _ => open_⟩
          rw [if_pos rfl]
          simp only [stream, wf'.bytes_eq rfl, wf.bytes_eq shape, text, ByteStream.drop,
            ByteStream.mk.injEq, true_and, and_true, List.length_append,
            EvbufferChain.length_data]
          omega

theorem copyout_eq (wf : buf.Wf) (datlen : ℕ) :
    buf.copyout datlen = some (if buf.bytes.take datlen ≠ [] ∧ buf.freezeStart then none
      else some (buf.bytes.take datlen)) := by
  have short : (buf.bytes.take (min datlen buf.totalLen)) = buf.bytes.take datlen := by
    rw [wf.counted, ← List.take_eq_take_min]
  simp only [copyout]
  split
  · next zero =>
    rw [zero, List.take_zero] at short
    simp [← short]
  · next positive =>
    have some_ : buf.bytes.take datlen ≠ [] := by
      intro none_
      rw [none_] at short
      have lengths := congrArg List.length short
      rw [List.length_take, List.length_nil, ← wf.counted] at lengths
      omega
    split
    · next frozen => simp [some_, frozen]
    · next thawed =>
      rw [copyLoop_eq buf.chains 0 _ (by simp) (by
        rw [Nat.zero_add, ← bytes, ← wf.counted]
        exact Nat.min_le_right _ _), List.drop_zero, ← bytes, short]
      simp [thawed]

/-- `evbuffer_remove` splits the stream at the asked size, or leaves it if it is frozen. -/
theorem remove_eq (wf : buf.Wf) (datlen : ℕ) :
    ∃ buf', buf.remove datlen = some (if buf.bytes.take datlen ≠ [] ∧ buf.freezeStart then none
        else some (buf.bytes.take datlen), buf') ∧ buf'.Wf ∧
      buf'.stream = if buf.freezeStart then buf.stream else buf.stream.drop datlen := by
  obtain ⟨ok, buf', drained, outcome, thawed⟩ := drain_eq wf (buf.bytes.take datlen).length
  have split_ : buf.stream.drop (buf.bytes.take datlen).length = buf.stream.drop datlen := by
    rw [List.length_take]
    simp only [ByteStream.drop, stream, ← List.drop_eq_drop_min, ByteStream.mk.injEq, true_and,
      and_true]
    omega
  rw [remove, copyout_eq wf, Option.bind_eq_bind, Option.bind_some]
  rcases eq_or_ne (buf.bytes.take datlen) [] with none_ | some_
  · refine ⟨buf, by simp [none_], wf, ?_⟩
    rw [none_] at split_
    rw [← split_]
    simp [ByteStream.drop, stream]
  · have positive : 0 < (buf.bytes.take datlen).length := List.length_pos_iff.mpr some_
    have filled : buf.bytes ≠ [] := by
      intro none_
      rw [none_, List.take_nil] at some_
      exact some_ rfl
    cases frozen : buf.freezeStart with
    | true => exact ⟨buf, by simp [some_], wf, rfl⟩
    | false =>
      cases ok with
      | true =>
        refine ⟨buf', ?_, outcome.wf, outcome.stream.trans split_⟩
        simp only [some_, ne_eq, not_false_eq_true, Bool.false_eq_true, and_false, ↓reduceIte,
          positive, drained, Option.bind_eq_bind, Option.bind_some]
      | false =>
        have closed := (outcome.failed rfl).1
        rw [frozen] at closed
        contradiction

end MerlinC.Model.ChainBuffer
