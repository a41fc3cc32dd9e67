import MerlinC.Model.ChainAdd
import MerlinC.Model.ChainRemove

/-! # Moving chains between evbuffers

`evbuffer_add_buffer` and `evbuffer_prepend_buffer` hand all chains of one buffer to another
without copying a byte, and `evbuffer_remove_buffer` hands over whole chains as far as they go and
copies the rest. The buffers are distinct: the source returns before it does anything if they are
not. No byte is lost or doubled, and both buffers have their link where it belongs.
-/

namespace MerlinC.Model.ChainBuffer

/-- `COPY_CHAIN`. -/
def copyChain (dst src : ChainBuffer) : ChainBuffer :=
  { dst with before := src.before, onward := src.onward, totalLen := src.totalLen }

/-- `APPEND_CHAIN`. -/
def appendChain (dst src : ChainBuffer) : Option ChainBuffer := do
  let kept ← dst.freeTrailingEmptyChains
  some { dst with
    before := dst.before ++ kept ++ src.before
    onward := src.onward
    totalLen := dst.totalLen + src.totalLen }

/-- `PREPEND_CHAIN`. -/
def prependChain (dst src : ChainBuffer) : ChainBuffer :=
  let dst := { dst with totalLen := dst.totalLen + src.totalLen }
  match dst.onward with
  | [] => { dst with before := src.before, onward := src.onward ++ dst.before }
  | _ :: _ => { dst with before := src.chains ++ dst.before }

/-- What `RESTORE_PINNED` leaves of a buffer whose chains are gone. -/
def emptied (buf : ChainBuffer) : ChainBuffer :=
  { buf.zeroChain with nDelForCb := buf.nDelForCb + buf.totalLen }

/-- `evbuffer_add_buffer` of another buffer. -/
def addBuffer (outbuf inbuf : ChainBuffer) : Option (Bool × ChainBuffer × ChainBuffer) :=
  if inbuf.totalLen = 0 then some (true, outbuf, inbuf)
  else if outbuf.freezeEnd || inbuf.freezeStart then some (false, outbuf, inbuf)
  else if outbuf.totalLen = 0 then
    some (true, (outbuf.copyChain inbuf).credit inbuf.totalLen, inbuf.emptied)
  else do
    let joined ← outbuf.appendChain inbuf
    some (true, joined.credit inbuf.totalLen, inbuf.emptied)

/-- `evbuffer_prepend_buffer` of another buffer. -/
def prependBuffer (outbuf inbuf : ChainBuffer) : Bool × ChainBuffer × ChainBuffer :=
  if inbuf.totalLen = 0 then (true, outbuf, inbuf)
  else if outbuf.freezeStart || inbuf.freezeStart then (false, outbuf, inbuf)
  else if outbuf.totalLen = 0 then
    (true, (outbuf.copyChain inbuf).credit inbuf.totalLen, inbuf.emptied)
  else (true, (outbuf.prependChain inbuf).credit inbuf.totalLen, inbuf.emptied)

/-- The loop of `evbuffer_remove_buffer`: the chains that go, those that stay in front of the
link, and how many bytes are still to go. It may not reach the last chain with data. -/
def passChains : List EvbufferChain → List EvbufferChain → ℕ →
    Option (List EvbufferChain × List EvbufferChain × ℕ)
  | chain :: before, onward, datlen =>
      if chain.off ≤ datlen then do
        let (passed, before, left) ← passChains before onward (datlen - chain.off)
        some (chain :: passed, before, left)
      else some ([], chain :: before, datlen)
  | [], chain :: _, datlen => if chain.off ≤ datlen then none else some ([], [], datlen)
  | [], [], _ => none

/-- `advance_last_with_data`, on the chains around the link. -/
def advance : List EvbufferChain → List EvbufferChain → List EvbufferChain × List EvbufferChain
  | before, chain :: next :: rest =>
      if next.off = 0 then (before, chain :: next :: rest)
      else advance (before ++ [chain]) (next :: rest)
  | before, onward => (before, onward)
termination_by _ onward => onward.length

/-- The chains that `evbuffer_remove_buffer` has unlinked from the source, at the end of the
destination. -/
def receiveChains (dst : ChainBuffer) (passed : List EvbufferChain) (nread : ℕ) :
    Option ChainBuffer :=
  if nread = 0 then some dst
  else do
    let kept ← dst.freeTrailingEmptyChains
    let (before, onward) := advance dst.before (kept ++ passed)
    some ({ dst with before, onward }.count nread)

/-- The end of `evbuffer_remove_buffer`: the chain the loop stopped in is copied from and
shortened. Chains the loop passed for nothing stay in front of it. -/
def copyRest (malloc : Malloc) (src dst : ChainBuffer) (skipped before : List EvbufferChain)
    (left : ℕ) : Option (ChainBuffer × ChainBuffer) :=
  match before, src.onward with
  | chain :: before, onward => do
    let text ← chain.read 0 left
    let (_, dst) ← dst.add malloc text
    let chain ← chain.consume left
    some ({ src with before := skipped ++ chain :: before, onward }, dst)
  | [], chain :: onward => do
    let text ← chain.read 0 left
    let (_, dst) ← dst.add malloc text
    let chain ← chain.consume left
    some ({ src with before := [], onward := skipped ++ chain :: onward }, dst)
  | [], [] => none

/-- `evbuffer_remove_buffer` to another buffer, which returns how much it moved. The result of
its `evbuffer_add` is ignored. -/
def removeBuffer (malloc : Malloc) (src dst : ChainBuffer) (datlen : ℕ) :
    Option (Option ℕ × ChainBuffer × ChainBuffer) :=
  if datlen = 0 then some (some 0, src, dst)
  else if dst.freezeEnd || src.freezeStart then some (none, src, dst)
  else if src.totalLen ≤ datlen then do
    let (_, dst, emptied) ← dst.addBuffer src
    some (some src.totalLen, emptied, dst)
  else do
    let (passed, before, left) ← passChains src.before src.onward datlen
    let nread := datlen - left
    let dst ← dst.receiveChains passed nread
    let skipped := if nread = 0 then passed else []
    let src := { src with totalLen := src.totalLen - datlen, nDelForCb := src.nDelForCb + datlen }
    let (src, dst) ← copyRest malloc src dst skipped before left
    some (some datlen, src, dst)

variable {inbuf outbuf src dst : ChainBuffer} {chain : EvbufferChain}

theorem emptied_wf (inbuf : ChainBuffer) : inbuf.emptied.Wf :=
  ⟨by simp [emptied, zeroChain, chains], by simp [emptied, zeroChain],
    by simp [emptied, zeroChain], by simp [emptied, zeroChain], rfl⟩

theorem emptied_stream (wf : inbuf.Wf) :
    inbuf.emptied.stream = inbuf.stream.drop inbuf.bytes.length := by
  have counted := wf.counted
  simp only [emptied, zeroChain, stream, bytes, chains, ByteStream.drop, counted,
    List.append_nil, content_nil, List.drop_length, Nat.min_self]

/-- Chains put behind a buffer that has no empty ones in front of them. -/
theorem copyChain_eq (wf : inbuf.Wf) (empty : outbuf.bytes = []) :
    ((outbuf.copyChain inbuf).credit inbuf.totalLen).Wf ∧
      ((outbuf.copyChain inbuf).credit inbuf.totalLen).stream =
        outbuf.stream.append inbuf.bytes := by
  refine ⟨⟨wf.sound, wf.lead, wf.front, wf.trailing, wf.counted⟩, ?_⟩
  have counted := wf.counted
  rw [bytes] at counted
  simp only [stream, credit, copyChain, bytes, chains, ByteStream.append] at empty counted ⊢
  rw [empty, List.nil_append, counted]

theorem appendChain_eq (wf : outbuf.Wf) (wf' : inbuf.Wf) (some_ : outbuf.bytes ≠ [])
    (some' : inbuf.bytes ≠ []) :
    ∃ joined, outbuf.appendChain inbuf = some joined ∧ (joined.credit inbuf.totalLen).Wf ∧
      (joined.credit inbuf.totalLen).stream = outbuf.stream.append inbuf.bytes := by
  obtain ⟨chain, rest, shape, filled⟩ := wf.filled some_
  obtain ⟨chain', rest', shape', filled'⟩ := wf'.filled some'
  obtain ⟨owned, -, sound, -, front, counted⟩ := (wf_iff shape).mp wf
  obtain ⟨owned', empty', sound', -, front', counted'⟩ := (wf_iff shape').mp wf'
  have freed := wf.freeTrailing shape
  rw [if_neg (by omega)] at freed
  have joined : Wf { outbuf with before := outbuf.before ++ [chain] ++ inbuf.before,
                                 onward := inbuf.onward,
                                 totalLen := outbuf.totalLen + inbuf.totalLen,
                                 nAddForCb := outbuf.nAddForCb + inbuf.totalLen } := by
    refine Iff.mpr (wf_iff shape') ⟨?_, empty', sound', fun _ => filled', ?_, ?_⟩
    · intro c inside
      simp only [List.mem_append, List.mem_singleton] at inside
      rcases inside with (inside | rfl) | inside
      · exact owned c inside
      · exact sound
      · exact owned' c inside
    · intro c inside
      simp only [List.mem_append, List.mem_singleton] at inside
      rcases inside with (inside | rfl) | inside
      · exact front c inside
      · exact filled
      · exact front' c inside
    · simp only [content_append, content_cons, content_nil, List.append_nil, List.length_append,
        EvbufferChain.length_data, counted, counted']
      omega
  refine ⟨{ outbuf with before := outbuf.before ++ [chain] ++ inbuf.before, onward := inbuf.onward,
                        totalLen := outbuf.totalLen + inbuf.totalLen }, ?_, joined, ?_⟩
  · rw [appendChain, freed]
    rfl
  have text := joined.bytes_eq shape'
  have total := wf'.counted
  simp only [stream, credit, ByteStream.append, wf.bytes_eq shape, ← total, ByteStream.mk.injEq,
    and_true]
  refine text.trans ?_
  simp only [content_append, content_cons, content_nil, List.append_nil, List.append_assoc,
    wf'.bytes_eq shape']

/-- What handing over a buffer leaves: all of it moved, or nothing, and a reason. -/
structure HandedOver (outbuf inbuf : ChainBuffer) (done : ByteStream) (closed : Bool) (ok : Bool)
    (outbuf' inbuf' : ChainBuffer) : Prop where
  wfOut : outbuf'.Wf
  wfIn : inbuf'.Wf
  streamOut : outbuf'.stream = if ok then done else outbuf.stream
  streamIn : inbuf'.stream =
    if ok then inbuf.stream.drop inbuf.bytes.length else inbuf.stream
  failed : ok = false ↔ closed = true ∧ inbuf.bytes ≠ []

theorem drop_nothing (none_ : inbuf.bytes = []) (count : ℕ) :
    inbuf.stream.drop count = inbuf.stream := by
  simp [ByteStream.drop, stream, none_]

theorem HandedOver.left {done : ByteStream} {closed ok : Bool} {outbuf' inbuf' : ChainBuffer}
    (handed : HandedOver outbuf inbuf done closed ok outbuf' inbuf') :
    inbuf'.bytes = if ok then [] else inbuf.bytes := by
  have stream := congrArg ByteStream.bytes handed.streamIn
  change inbuf'.bytes = _ at stream
  rw [stream]
  cases ok with
  | false => rfl
  | true => exact List.drop_length

/-- `evbuffer_add_buffer` appends the whole of one stream to another. -/
theorem addBuffer_eq (wf : outbuf.Wf) (wf' : inbuf.Wf) :
    ∃ ok outbuf' inbuf', outbuf.addBuffer inbuf = some (ok, outbuf', inbuf') ∧
      HandedOver outbuf inbuf (outbuf.stream.append inbuf.bytes)
        (outbuf.freezeEnd || inbuf.freezeStart) ok outbuf' inbuf' := by
  have counted := wf.counted
  have counted' := wf'.counted
  unfold addBuffer
  split
  · next zero =>
    have none_ : inbuf.bytes = [] := List.length_eq_zero_iff.mp (by omega)
    refine ⟨true, outbuf, inbuf, rfl, wf, wf', ?_, (drop_nothing none_ _).symm,
      nofun, fun reason => absurd none_ reason.2⟩
    rw [none_, if_pos rfl, ByteStream.append_nil]
  · next positive =>
    have some' : inbuf.bytes ≠ [] := by
      intro none_
      rw [none_] at counted'
      exact positive counted'
    split
    · next closed =>
      exact ⟨false, outbuf, inbuf, rfl, wf, wf', rfl, rfl, fun _ => ⟨closed, some'⟩, fun _ => rfl⟩
    · next open_ =>
      have opened (reason : (_ || _) = true ∧ inbuf.bytes ≠ []) : true = false :=
        absurd reason.1 open_
      split
      · next blank =>
        have empty : outbuf.bytes = [] := List.length_eq_zero_iff.mp (by omega)
        obtain ⟨joined, text⟩ := copyChain_eq wf' empty
        exact ⟨true, _, _, rfl, joined, emptied_wf inbuf, text, emptied_stream wf', nofun, opened⟩
      · next filled =>
        have some_ : outbuf.bytes ≠ [] := by
          intro none_
          rw [none_] at counted
          exact filled counted
        obtain ⟨moved, done, joined, text⟩ := appendChain_eq wf wf' some_ some'
        exact ⟨true, _, _, by rw [done]; rfl, joined, emptied_wf inbuf, text, emptied_stream wf',
          nofun, opened⟩

/-- `evbuffer_prepend_buffer` prepends the whole of one stream to another, if no empty chain comes
between them. -/
theorem prependBuffer_eq (wf : outbuf.Wf) (wf' : inbuf.Wf)
    (trimmed : outbuf.totalLen ≠ 0 → inbuf.totalLen ≠ 0 → inbuf.onward.tail = []) :
    ∃ ok outbuf' inbuf', outbuf.prependBuffer inbuf = (ok, outbuf', inbuf') ∧
      HandedOver outbuf inbuf (outbuf.stream.prepend inbuf.bytes)
        (outbuf.freezeStart || inbuf.freezeStart) ok outbuf' inbuf' := by
  have counted := wf.counted
  have counted' := wf'.counted
  unfold prependBuffer
  split
  · next zero =>
    have none_ : inbuf.bytes = [] := List.length_eq_zero_iff.mp (by omega)
    refine ⟨true, outbuf, inbuf, rfl, wf, wf', ?_, (drop_nothing none_ _).symm,
      nofun, fun reason => absurd none_ reason.2⟩
    rw [none_, if_pos rfl, ByteStream.prepend_nil]
  · next positive =>
    have some' : inbuf.bytes ≠ [] := by
      intro none_
      rw [none_] at counted'
      exact positive counted'
    split
    · next closed =>
      exact ⟨false, outbuf, inbuf, rfl, wf, wf', rfl, rfl, fun _ => ⟨closed, some'⟩, fun _ => rfl⟩
    · next open_ =>
      have opened (reason : (_ || _) = true ∧ inbuf.bytes ≠ []) : true = false :=
        absurd reason.1 open_
      split
      · next blank =>
        have empty : outbuf.bytes = [] := List.length_eq_zero_iff.mp (by omega)
        obtain ⟨joined, text⟩ := copyChain_eq wf' empty
        refine ⟨true, _, _, rfl, joined, emptied_wf inbuf, ?_, emptied_stream wf', nofun, opened⟩
        rw [text, if_pos rfl]
        simp only [ByteStream.append, ByteStream.prepend, stream, empty, List.nil_append,
          List.append_nil]
      · next filled =>
        have some_ : outbuf.bytes ≠ [] := by
          intro none_
          rw [none_] at counted
          exact filled counted
        obtain ⟨chain, rest, shape, full⟩ := wf.filled some_
        obtain ⟨chain', rest', shape', full'⟩ := wf'.filled some'
        obtain ⟨owned, empty, sound, -, front, total⟩ := (wf_iff shape).mp wf
        obtain ⟨owned', -, sound', -, front', total'⟩ := (wf_iff shape').mp wf'
        obtain rfl : rest' = [] := by
          have trimmed := trimmed filled positive
          rwa [shape', List.tail_cons] at trimmed
        have joined : Wf { outbuf with before := inbuf.before ++ [chain'] ++ outbuf.before,
                                       totalLen := outbuf.totalLen + inbuf.totalLen,
                                       nAddForCb := outbuf.nAddForCb + inbuf.totalLen } := by
          refine Iff.mpr (wf_iff shape) ⟨?_, empty, sound, fun _ => full, ?_, ?_⟩
          · intro c inside
            simp only [List.mem_append, List.mem_singleton] at inside
            rcases inside with (inside | rfl) | inside
            · exact owned' c inside
            · exact sound'
            · exact owned c inside
          · intro c inside
            simp only [List.mem_append, List.mem_singleton] at inside
            rcases inside with (inside | rfl) | inside
            · exact front' c inside
            · exact full'
            · exact front c inside
          · simp only [content_append, content_cons, content_nil, List.append_nil,
              List.length_append, EvbufferChain.length_data, total, total']
            omega
        have same : (outbuf.prependChain inbuf).credit inbuf.totalLen =
            { outbuf with before := inbuf.before ++ [chain'] ++ outbuf.before,
                          totalLen := outbuf.totalLen + inbuf.totalLen,
                          nAddForCb := outbuf.nAddForCb + inbuf.totalLen } := by
          simp only [prependChain, shape, credit, chains, shape']
        refine ⟨true, _, _, rfl, same ▸ joined, emptied_wf inbuf, ?_, emptied_stream wf', nofun,
          opened⟩
        have text := joined.bytes_eq shape
        simp only [same, stream, ByteStream.prepend, ← counted', if_pos, ByteStream.mk.injEq,
          and_true]
        refine text.trans ?_
        simp only [content_append, content_cons, content_nil, List.append_nil, List.append_assoc,
          wf'.bytes_eq shape', wf.bytes_eq shape]

/-- The loop passes the longest run of whole chains that is not too long. -/
theorem passChains_eq (rest before : List EvbufferChain) {datlen : ℕ}
    (short : datlen < (content before).length + chain.off) :
    ∃ passed before' left, passChains before (chain :: rest) datlen = some (passed, before', left) ∧
      before = passed ++ before' ∧ datlen = (content passed).length + left ∧
      (∀ c ∈ before'.head?, left < c.off) ∧ (before' = [] → left < chain.off) := by
  induction before generalizing datlen with
  | nil =>
    rw [content_nil, List.length_nil] at short
    refine ⟨[], [], datlen, ?_, rfl, by simp, by simp, fun _ => by omega⟩
    rw [passChains, if_neg (by omega)]
  | cons first before ih =>
    rw [content_cons, List.length_append, EvbufferChain.length_data] at short
    rw [passChains]
    split
    · obtain ⟨passed, before', left, done, parts, total, stops, ends⟩ :=
        ih (show datlen - first.off < _ by omega)
      refine ⟨first :: passed, before', left, by rw [done]; rfl, by rw [parts, List.cons_append],
        ?_, stops, ends⟩
      rw [content_cons, List.length_append, EvbufferChain.length_data]
      omega
    · next part =>
      refine ⟨[], first :: before, datlen, rfl, rfl, by simp, ?_, by simp⟩
      simp
      omega

/-- Over chains with data the link advances to the last of them. -/
theorem advance_eq (before chains : List EvbufferChain) (filled : ∀ c ∈ chains, 0 < c.off)
    (full : 0 < chain.off) : advance before (chains ++ [chain]) = (before ++ chains, [chain]) := by
  induction chains generalizing before with
  | nil => simp [advance]
  | cons first chains ih =>
    have rest_ : ∀ c ∈ chains, 0 < c.off := fun c inside => filled c (by simp [inside])
    have step := ih (before ++ [first]) rest_
    cases chains with
    | nil =>
      rw [List.nil_append] at step
      rw [List.cons_append, List.nil_append, advance, if_neg (by omega), step, List.append_nil]
    | cons next chains =>
      have := rest_ next (by simp)
      rw [List.cons_append] at step
      rw [List.cons_append, List.cons_append, advance, if_neg (by omega), step,
        List.append_assoc, List.singleton_append]

theorem receiveChains_eq {passed : List EvbufferChain} (wf : dst.Wf)
    (sound : ∀ c ∈ passed, c.Sound) (filled : ∀ c ∈ passed, 0 < c.off) :
    ∃ dst', dst.receiveChains passed (content passed).length = some dst' ∧ dst'.Wf ∧
      dst'.stream = dst.stream.append (content passed) := by
  rcases List.eq_nil_or_concat' passed with rfl | ⟨init, final, rfl⟩
  · exact ⟨dst, rfl, wf, dst.stream.append_nil.symm⟩
  -- what is kept of the destination's own chains has data as well
  obtain ⟨kept, freed, keptSound, keptFilled, text⟩ :
      ∃ kept, dst.freeTrailingEmptyChains = some kept ∧ (∀ c ∈ kept, c.Sound) ∧
        (∀ c ∈ kept, 0 < c.off) ∧ dst.bytes = content (dst.before ++ kept) := by
    cases shape : dst.onward with
    | nil =>
      refine ⟨[], ?_, by simp, by simp, ?_⟩
      · rw [freeTrailingEmptyChains, shape]
        rfl
      · rw [bytes, chains, shape]
    | cons head rest =>
      obtain ⟨-, -, soundHead, -⟩ := (wf_iff shape).mp wf
      refine ⟨_, wf.freeTrailing shape, ?_, ?_, ?_⟩
      · split <;> simp [soundHead]
      · split
        · simp
        · simp
          omega
      · rw [wf.bytes_eq shape, content_append]
        split
        · next blank => simp [EvbufferChain.data_eq_nil.mpr blank]
        · simp
  have moved := advance_eq dst.before (kept ++ init) (fun c inside => by
    rcases List.mem_append.mp inside with inside | inside
    · exact keptFilled c inside
    · exact filled c (by simp [inside])) (filled final (by simp))
  refine ⟨{ dst with before := dst.before ++ (kept ++ init), onward := [final] }.count
    (content (init ++ [final])).length, ?_, ?_, ?_⟩
  · have := filled final (by simp)
    have some_ : (content (init ++ [final])).length ≠ 0 := by
      simp
      omega
    rw [receiveChains, if_neg some_, freed, Option.bind_eq_bind, Option.bind_some,
      ← List.append_assoc, moved]
  · refine Iff.mpr (wf_iff rfl) ⟨?_, by simp, sound final (by simp), fun _ =>
      filled final (by simp), ?_, ?_⟩
    · intro c inside
      simp only [count, List.mem_append] at inside
      rcases inside with inside | inside | inside
      · exact wf.sound c (mem_chains.mpr (.inl inside))
      · exact keptSound c inside
      · exact sound c (by simp [inside])
    · intro c inside
      simp only [count, List.mem_append] at inside
      rcases inside with inside | inside | inside
      · exact wf.front c inside
      · exact keptFilled c inside
      · exact filled c (by simp [inside])
    · have total := wf.counted
      simp only [count, total, text, content_append, content_cons, content_nil, List.append_nil,
        List.length_append, EvbufferChain.length_data]
      omega
  · simp only [stream, ByteStream.append, text]
    simp only [count, bytes, chains, content_append, List.append_assoc]

/-- The copy of the first bytes of a chain behind another buffer, and the chain without them. -/
theorem copyFront (malloc : Malloc) (wf : dst.Wf) (thawed : dst.freezeEnd = false)
    (sound : chain.Sound) {left : ℕ} (short : left < chain.off) :
    ∃ ok dst' chain' added, chain.read 0 left = some (chain.data.take left) ∧
      dst.add malloc (chain.data.take left) = some (ok, dst') ∧
      chain.consume left = some chain' ∧ chain'.Sound ∧ 0 < chain'.off ∧
      chain'.data = chain.data.drop left ∧ dst'.Wf ∧ added <+: chain.data.take left ∧
      dst'.stream = dst.stream.append added ∧ (added = chain.data.take left ∨
        sizeMax < dst.totalLen + left ∨ OutOfMemory malloc left) := by
  have length : (chain.data.take left).length = left := by
    rw [List.length_take, EvbufferChain.length_data]
    omega
  obtain ⟨chain', consumed, data, -⟩ := chain.consume_eq (show left ≤ chain.off by omega)
  obtain ⟨kept, more⟩ := sound.consume short consumed
  have copied : chain.read 0 left = some (chain.data.take left) := by
    rw [EvbufferChain.read_eq (by omega), List.drop_zero]
  obtain ⟨ok, dst', done, result⟩ := add_eq malloc wf (chain.data.take left)
  cases ok with
  | true =>
    exact ⟨true, dst', chain', _, copied, done, consumed, kept, more, data, result.wf,
      List.prefix_refl _, result.stream, .inl rfl⟩
  | false =>
    refine ⟨false, dst', chain', [], copied, done, consumed, kept, more, data, result.wf,
      List.nil_prefix, result.stream.trans dst.stream.append_nil.symm, .inr ?_⟩
    rcases result.failed rfl with frozen | excess | refused
    · rw [thawed] at frozen
      contradiction
    · exact .inl (length ▸ excess)
    · exact .inr (length ▸ refused)

/-- What moving a prefix of a stream leaves. The last bytes of it may be lost where memory or
the length run out. -/
structure Moved (malloc : Malloc) (src dst : ChainBuffer) (datlen : ℕ)
    (src' dst' : ChainBuffer) : Prop where
  wfSrc : src'.Wf
  wfDst : dst'.Wf
  streamSrc : src'.stream = src.stream.drop datlen
  streamDst : ∃ text, text <+: src.bytes.take datlen ∧ dst'.stream = dst.stream.append text ∧
    (text = src.bytes.take datlen ∨ sizeMax < dst.totalLen + datlen ∨ OutOfMemory malloc datlen)

/-- A cut in the middle one of three texts. -/
theorem cut_middle {before middle behind : Bytes} {len left : ℕ}
    (length : len = before.length + left) (short : left ≤ middle.length) :
    (before ++ (middle ++ behind)).take len = before ++ middle.take left ∧
      (before ++ (middle ++ behind)).drop len = middle.drop left ++ behind := by
  rw [length, List.take_length_add_append, List.drop_length_add_append,
    List.take_append_of_le_length short, List.drop_append_of_le_length short]
  exact ⟨rfl, rfl⟩

/-- What the copy of the last bytes adds to the whole chains. -/
theorem arrived {dst₁ dst₂ : ChainBuffer} {passed : List EvbufferChain} {stop : EvbufferChain}
    {behind added : Bytes} {datlen left : ℕ}
    (length : datlen = (content passed).length + left)
    (text : src.bytes = content passed ++ (stop.data ++ behind)) (short : left ≤ stop.off)
    (stream₁ : dst₁.stream = dst.stream.append (content passed))
    (total₁ : dst₁.totalLen = dst.totalLen + (content passed).length)
    (part : added <+: stop.data.take left) (stream₂ : dst₂.stream = dst₁.stream.append added)
    (whole : added = stop.data.take left ∨ sizeMax < dst₁.totalLen + left ∨
      OutOfMemory malloc left) :
    ∃ text, text <+: src.bytes.take datlen ∧ dst₂.stream = dst.stream.append text ∧
      (text = src.bytes.take datlen ∨ sizeMax < dst.totalLen + datlen ∨
        OutOfMemory malloc datlen) := by
  rw [text, (cut_middle length (by simpa using short)).1]
  refine ⟨content passed ++ added, (List.prefix_append_right_inj _).mpr part, ?_, ?_⟩
  · rw [stream₂, stream₁, ByteStream.append_append]
  · rcases whole with rfl | excess | refused
    · exact .inl rfl
    · exact .inr (.inl (by omega))
    · exact .inr (.inr (refused.mono (by omega)))

/-- A length that is not less than that of the stream moves all of it. -/
theorem removeBuffer_all (malloc : Malloc) (wf : src.Wf) (wf' : dst.Wf) {datlen : ℕ}
    (positive : datlen ≠ 0) (thawed : (dst.freezeEnd || src.freezeStart) = false)
    (all : src.totalLen ≤ datlen) :
    ∃ src' dst', src.removeBuffer malloc dst datlen =
        some (some (min datlen src.bytes.length), src', dst') ∧
      Moved malloc src dst datlen src' dst' := by
  have counted := wf.counted
  unfold removeBuffer
  rw [if_neg positive, if_neg (by simp [thawed]), if_pos all]
  rw [counted] at all
  obtain ⟨ok, dst', src', done, result⟩ := addBuffer_eq wf' wf
  obtain rfl : ok = true := by
    cases ok with
    | true => rfl
    | false =>
      have closed := (result.failed.mp rfl).1
      rw [thawed] at closed
      contradiction
  have whole := List.take_of_length_le all
  refine ⟨src', dst', ?_, result.wfIn, result.wfOut, ?_, src.bytes,
    ⟨[], by rw [whole, List.append_nil]⟩, result.streamOut, .inl whole.symm⟩
  · rw [done, Nat.min_eq_right all, counted]
    rfl
  · rw [result.streamIn, if_pos rfl]
    simp only [ByteStream.drop, stream, List.drop_length, List.drop_of_length_le all,
      Nat.min_self, Nat.min_eq_right all]

/-- A length that is less than that of the stream moves whole chains and copies the rest. -/
theorem removeBuffer_part (malloc : Malloc) (wf : src.Wf) (wf' : dst.Wf) {datlen : ℕ}
    (positive : datlen ≠ 0) (thawed : (dst.freezeEnd || src.freezeStart) = false)
    (some_ : datlen < src.totalLen) :
    ∃ src' dst', src.removeBuffer malloc dst datlen =
        some (some (min datlen src.bytes.length), src', dst') ∧
      Moved malloc src dst datlen src' dst' := by
  have thawed' : dst.freezeEnd = false := (Bool.or_eq_false_iff.mp thawed).1
  have counted := wf.counted
  unfold removeBuffer
  rw [if_neg positive, if_neg (by simp [thawed]), if_neg (by omega)]
  have filled : src.bytes ≠ [] := by
    intro none_
    rw [none_, List.length_nil] at counted
    omega
  obtain ⟨head, rest, shape, full⟩ := wf.filled filled
  obtain ⟨owned, empty, sound, -, front, total⟩ := (wf_iff shape).mp wf
  obtain ⟨passed, before', left, done, parts, length, stops, ends⟩ :=
    passChains_eq rest src.before (show datlen < (content src.before).length + head.off by omega)
  have passedSound : ∀ c ∈ passed, c.Sound := fun c inside => owned c (by simp [parts, inside])
  have passedFull : ∀ c ∈ passed, 0 < c.off :=
    fun c inside => front c (by simp [parts, inside])
  have nread : datlen - left = (content passed).length := by omega
  obtain ⟨dst₁, joined, wf₁, stream₁⟩ := receiveChains_eq wf' passedSound passedFull
  have skipped : (if (content passed).length = 0 then passed else []) = [] := by
    cases passed with
    | nil => rfl
    | cons first others =>
      have := passedFull first (by simp)
      exact if_neg (by simp; omega)
  have open₁ : dst₁.freezeEnd = false := (congrArg ByteStream.freezeEnd stream₁).trans thawed'
  have total₁ : dst₁.totalLen = dst.totalLen + (content passed).length := by
    have bytes₁ := congrArg (List.length ∘ ByteStream.bytes) stream₁
    simp only [Function.comp, ByteStream.append, List.length_append] at bytes₁
    rw [wf₁.counted, wf'.counted]
    exact bytes₁
  have size : min datlen src.bytes.length = datlen := by
    rw [← counted]
    omega
  rw [size, shape, done]
  simp only [Option.bind_eq_bind, Option.bind_some, nread, joined, skipped]
  cases before' with
  | nil =>
    have bound := ends rfl
    obtain ⟨ok, dst₂, head', added, copied, put, consumed, kept, more, data, wf₂, part, stream₂,
      whole⟩ := copyFront malloc wf₁ open₁ sound bound
    have text : src.bytes = content passed ++ (head.data ++ []) := by
      rw [wf.bytes_eq shape, parts, List.append_nil, List.append_nil]
    have wf₀ : Wf { src with before := [], onward := head' :: rest,
                             totalLen := src.totalLen - datlen,
                             nDelForCb := src.nDelForCb + datlen } := by
      have lengths := congrArg List.length data
      rw [List.length_drop, EvbufferChain.length_data, EvbufferChain.length_data] at lengths
      refine Iff.mpr (wf_iff rfl) ⟨by simp, empty, kept, by simp, by simp, ?_⟩
      simp only [parts, total, length, List.append_nil, content_nil, List.length_nil]
      omega
    refine ⟨_, dst₂, ?_, wf₀, wf₂, ?_,
      arrived length text (by omega) stream₁ total₁ part stream₂ whole⟩
    · simp only [copyRest, copied, put, consumed, Option.bind_eq_bind, Option.bind_some,
        List.nil_append]
    · have dropped := (congrArg (List.drop datlen) text).trans (cut_middle length
        (by simpa using Nat.le_of_lt bound)).2
      refine ByteStream.ext ?_ rfl (congrArg (src.nDelForCb + ·) size.symm) rfl rfl
      refine (wf₀.bytes_eq rfl).trans ?_
      rw [content_nil, List.nil_append, data]
      exact (dropped.trans (List.append_nil _)).symm
  | cons stop tail =>
    have bound := stops stop rfl
    obtain ⟨ok, dst₂, stop', added, copied, put, consumed, kept, more, data, wf₂, part, stream₂,
      whole⟩ := copyFront malloc wf₁ open₁ (owned stop (by simp [parts])) bound
    have text : src.bytes = content passed ++ (stop.data ++ (content tail ++ head.data)) := by
      rw [wf.bytes_eq shape, parts, content_append, content_cons, List.append_assoc,
        List.append_assoc]
    have wf₀ : Wf { src with before := stop' :: tail, onward := head :: rest,
                             totalLen := src.totalLen - datlen,
                             nDelForCb := src.nDelForCb + datlen } := by
      have lengths := congrArg List.length data
      rw [List.length_drop, EvbufferChain.length_data, EvbufferChain.length_data] at lengths
      refine Iff.mpr (wf_iff rfl) ⟨?_, empty, sound, fun _ => full, ?_, ?_⟩
      · intro c inside
        rcases List.mem_cons.mp inside with rfl | inside
        · exact kept
        · exact owned c (by simp [parts, inside])
      · intro c inside
        rcases List.mem_cons.mp inside with rfl | inside
        · exact more
        · exact front c (by simp [parts, inside])
      · simp only [parts, content_append, content_cons, List.length_append,
          EvbufferChain.length_data] at total
        simp only [content_cons, List.length_append, EvbufferChain.length_data]
        omega
    refine ⟨_, dst₂, ?_, wf₀, wf₂, ?_,
      arrived length text (by omega) stream₁ total₁ part stream₂ whole⟩
    · simp only [copyRest, copied, put, consumed, Option.bind_eq_bind, Option.bind_some,
        List.nil_append]
    · have dropped := (congrArg (List.drop datlen) text).trans (cut_middle length
        (by simpa using Nat.le_of_lt bound)).2
      refine ByteStream.ext ?_ rfl (congrArg (src.nDelForCb + ·) size.symm) rfl rfl
      refine (wf₀.bytes_eq rfl).trans ?_
      rw [content_cons, data, List.append_assoc]
      exact dropped.symm

/-- `evbuffer_remove_buffer` moves a prefix of one stream to the end of another. -/
theorem removeBuffer_eq (malloc : Malloc) (wf : src.Wf) (wf' : dst.Wf) (datlen : ℕ)
    (open_ : datlen = 0 ∨ (dst.freezeEnd || src.freezeStart) = false) :
    ∃ src' dst', src.removeBuffer malloc dst datlen =
        some (some (min datlen src.bytes.length), src', dst') ∧
      Moved malloc src dst datlen src' dst' := by
  rcases eq_or_ne datlen 0 with rfl | positive
  · refine ⟨src, dst, ?_, wf, wf', by simp [ByteStream.drop, stream], [], List.nil_prefix,
      dst.stream.append_nil.symm, .inl List.take_zero.symm⟩
    rw [removeBuffer, if_pos rfl, Nat.zero_min]
  · have thawed := open_.resolve_left positive
    rcases Nat.lt_or_ge datlen src.totalLen with some_ | all
    · exact removeBuffer_part malloc wf wf' positive thawed some_
    · exact removeBuffer_all malloc wf wf' positive thawed all

/-- A closed end stops `evbuffer_remove_buffer`. -/
theorem removeBuffer_closed (malloc : Malloc) {datlen : ℕ} (some_ : datlen ≠ 0)
    (closed : (dst.freezeEnd || src.freezeStart) = true) :
    src.removeBuffer malloc dst datlen = some (none, src, dst) := by
  rw [removeBuffer, if_neg some_, if_pos closed]

end MerlinC.Model.ChainBuffer
