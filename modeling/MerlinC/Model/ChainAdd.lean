import MerlinC.Model.ChainBuffer

/-! # Putting bytes into an evbuffer

`evbuffer_add` fills the room behind the last data first: the end of the chain at the link, or
the whole of it once its data has been moved to the front. Only what does not fit goes into a
new chain, which replaces the empty ones at the end of the list. `evbuffer_prepend` does the same
at the front, where an empty chain counts as empty at its beginning.
-/

namespace MerlinC.Model.ChainBuffer

/-- What `evbuffer_add` does once there is a chain. -/
def addTo (malloc : Malloc) (buf : ChainBuffer) (data : Bytes) : Option (Bool × ChainBuffer) :=
  match buf.onward with
  | [] => none
  | chain :: rest =>
    let remain := if chain.immutable then 0 else chain.bufferLen - chain.misalign - chain.off
    if chain.immutable = false ∧ data.length ≤ remain then do
      let chain ← chain.append data
      some (true, { buf with onward := chain :: rest }.count data.length)
    else if chain.immutable = false ∧ chain.shouldRealign data.length then do
      let chain ← chain.align
      let chain ← chain.append data
      some (true, { buf with onward := chain :: rest }.count data.length)
    else
      let toAlloc := if chain.bufferLen ≤ 2048 then 2 * chain.bufferLen else chain.bufferLen
      match EvbufferChain.new malloc (max data.length toAlloc) with
      | none => some (false, buf)
      | some tmp => do
        let chain ← chain.appendPart remain data
        let tmp ← tmp.append (data.drop remain)
        let buf ← ({ buf with onward := chain :: rest }.count remain).chainInsert tmp
        some (true, buf.credit (data.length - remain))

/-- `evbuffer_add`. -/
def add (malloc : Malloc) (buf : ChainBuffer) (data : Bytes) : Option (Bool × ChainBuffer) :=
  if buf.freezeEnd then some (false, buf)
  else if sizeMax - buf.totalLen < data.length then some (false, buf)
  else
    match buf.onward with
    | _ :: _ => buf.addTo malloc data
    | [] =>
      match EvbufferChain.new malloc data.length with
      | none => some (false, buf)
      | some chain => do
        let buf ← buf.chainInsert chain
        buf.addTo malloc data

/-- `*buf->first` replaced. -/
def setFirst (buf : ChainBuffer) (chain : EvbufferChain) : ChainBuffer :=
  match buf.before with
  | _ :: rest => { buf with before := chain :: rest }
  | [] => { buf with onward := chain :: buf.onward.tail }

/-- The last step of `evbuffer_prepend`, a new chain in front. -/
def prependNew (malloc : Malloc) (buf : ChainBuffer) (data : Bytes) :
    Option (Bool × ChainBuffer) :=
  match EvbufferChain.new malloc data.length with
  | none => some (false, buf)
  | some tmp => do
    let tmp ← tmp.fillEnd data
    some (true, { buf with before := tmp :: buf.before }.count data.length)

/-- What `evbuffer_prepend` does once there is a chain. -/
def prependTo (malloc : Malloc) (buf : ChainBuffer) (data : Bytes) :
    Option (Bool × ChainBuffer) := do
  let chain ← buf.chains.head?
  if chain.immutable then buf.prependNew malloc data
  else
    let chain ← chain.rewind
    if data.length ≤ chain.misalign then
      let chain ← chain.prepend data
      some (true, (buf.setFirst chain).count data.length)
    else
      let left := data.length - chain.misalign
      let filled ← chain.prepend (data.drop left)
      ((buf.setFirst filled).count chain.misalign).prependNew malloc (data.take left)

/-- `evbuffer_prepend`. -/
def prepend (malloc : Malloc) (buf : ChainBuffer) (data : Bytes) : Option (Bool × ChainBuffer) :=
  if buf.freezeStart then some (false, buf)
  else if sizeMax - buf.totalLen < data.length then some (false, buf)
  else
    match buf.chains with
    | _ :: _ => buf.prependTo malloc data
    | [] =>
      match EvbufferChain.new malloc data.length with
      | none => some (false, buf)
      | some chain => do
        let buf ← buf.chainInsert chain
        buf.prependTo malloc data

variable {buf : ChainBuffer} {chain : EvbufferChain} {rest : List EvbufferChain}

theorem addTo_eq (malloc : Malloc) (wf : buf.Wf) (shape : buf.onward = chain :: rest)
    (data : Bytes) :
    ∃ ok buf', buf.addTo malloc data = some (ok, buf') ∧
      Outcome buf (buf.stream.append data) (OutOfMemory malloc data.length) ok buf' := by
  obtain ⟨-, -, sound, -⟩ := (wf_iff shape).mp wf
  have bound := chain.fits'
  simp only [addTo, shape]
  generalize room : (if chain.immutable then 0
    else chain.bufferLen - chain.misalign - chain.off) = remain
  split
  · next fits =>
    obtain ⟨free, enough⟩ := fits
    rw [free, if_neg (by decide)] at room
    obtain ⟨chain', appended, grown, -, off, length, free'⟩ :=
      EvbufferChain.append_eq data free (by omega)
    obtain ⟨wf', stream'⟩ := wf.extend shape
      (EvbufferChain.sound_of_mutable free' (length ▸ sound.room)) grown off
    refine ⟨true, _, by rw [appended]; rfl, wf', ?_, by simp⟩
    rw [stream', if_pos rfl]
  · split
    · next moves =>
      obtain ⟨free, enough⟩ := moves
      simp only [EvbufferChain.shouldRealign, Bool.and_eq_true, decide_eq_true_eq] at enough
      obtain ⟨moved, aligned, same, start, off, length, free'⟩ := EvbufferChain.align_eq free
      obtain ⟨chain', appended, grown, -, off', length', free''⟩ :=
        EvbufferChain.append_eq data free' (by omega)
      obtain ⟨wf', stream'⟩ := wf.extend shape
        (EvbufferChain.sound_of_mutable free'' (by rw [length', length]; exact sound.room))
        (same ▸ grown) (off ▸ off')
      refine ⟨true, _, by rw [aligned, Option.bind_eq_bind, Option.bind_some, appended]; rfl,
        wf', ?_, by simp⟩
      rw [stream', if_pos rfl]
    · next full _ =>
      cases allocated : EvbufferChain.new malloc _ with
      | none =>
        have cap : (if chain.bufferLen ≤ 2048 then 2 * chain.bufferLen else chain.bufferLen) ≤
            chainMax - chainSize := by
          have := sound.room.2
          simp only [chainMax, chainSize] at this ⊢
          split <;> omega
        have out := EvbufferChain.new_eq_none allocated
        exact ⟨false, buf, rfl, wf, rfl, fun _ => out.imp_right fun excess => by omega⟩
      | some tmp =>
        obtain ⟨large, roomy, start, used, free⟩ := EvbufferChain.new_eq allocated
        have short : remain ≤ data.length := by
          cases referred : chain.immutable <;> simp only [referred] at full room <;>
            simp at full room
          all_goals omega
        obtain ⟨chain', filled, sound', grown, off⟩ := EvbufferChain.appendPart_eq sound short (by
          intro some_
          cases referred : chain.immutable <;> simp only [referred] at room <;> simp at room
          · exact ⟨rfl, by omega⟩
          · omega)
        have length : (data.take remain).length = remain := List.length_take_of_le short
        obtain ⟨wf', stream'⟩ := wf.extend shape sound' grown off
        rw [length] at wf' stream'
        have left : (data.drop remain).length = data.length - remain := List.length_drop
        obtain ⟨tmp', copied, text, -, off', size, free'⟩ :=
          EvbufferChain.append_eq (data.drop remain) free (by omega)
        obtain ⟨buf', inserted, wf'', stream'', -⟩ := wf'.chainInsert
          (EvbufferChain.sound_of_mutable free' (size ▸ roomy))
        have blank : tmp.data = [] := EvbufferChain.data_eq_nil.mpr used
        refine ⟨true, buf'.credit (data.length - remain), ?_,
          ⟨wf''.sound, wf''.lead, wf''.front, wf''.trailing, wf''.counted⟩, ?_, by simp⟩
        · simp only [filled, copied, inserted, Option.bind_eq_bind, Option.bind_some]
        · change buf'.stream.credit (data.length - remain) = buf.stream.append data
          rw [stream'', stream', text, blank, List.nil_append, ← left,
            ByteStream.append_extend_credit, List.take_append_drop]

/-- `evbuffer_add` appends all of the text or nothing, and fails for one of three reasons. -/
theorem add_eq (malloc : Malloc) (wf : buf.Wf) (data : Bytes) :
    ∃ ok buf', buf.add malloc data = some (ok, buf') ∧
      Outcome buf (buf.stream.append data) (buf.freezeEnd = true ∨
        sizeMax < buf.totalLen + data.length ∨ OutOfMemory malloc data.length) ok buf' := by
  unfold add
  split
  · next frozen => exact ⟨false, buf, rfl, wf, rfl, fun _ => .inl frozen⟩
  · split
    · next excess => exact ⟨false, buf, rfl, wf, rfl, fun _ => .inr (.inl (by omega))⟩
    · split
      · next shape =>
        obtain ⟨ok, buf', done, outcome⟩ := addTo_eq malloc wf shape data
        exact ⟨ok, buf', done, outcome.wf, outcome.stream,
          fun failed => .inr (.inr (outcome.failed failed))⟩
      · next shape =>
        split
        · next refused =>
          exact ⟨false, buf, rfl, wf, rfl, fun _ => .inr (.inr (EvbufferChain.new_eq_none refused))⟩
        · next chain allocated =>
          obtain ⟨-, roomy, -, used, free⟩ := EvbufferChain.new_eq allocated
          obtain ⟨buf', inserted, wf', stream', -, fresh⟩ :=
            wf.chainInsert (EvbufferChain.sound_of_mutable free roomy)
          obtain ⟨ok, buf'', done, outcome⟩ := addTo_eq malloc wf' (fresh shape) data
          rw [EvbufferChain.data_eq_nil.mpr used, ByteStream.extend_nil] at stream'
          refine ⟨ok, buf'', ?_, outcome.wf, ?_, fun failed => .inr (.inr (outcome.failed failed))⟩
          · rw [inserted, Option.bind_eq_bind, Option.bind_some, done]
          · rw [outcome.stream, stream']

theorem add_frozen (malloc : Malloc) (frozen : buf.freezeEnd = true) (data : Bytes) :
    buf.add malloc data = some (false, buf) := if_pos frozen

/-- More bytes in front of the first chain are more bytes in front of the stream. -/
theorem Wf.setFirst {chain' : EvbufferChain} {text : Bytes} (wf : buf.Wf)
    (first : buf.chains.head? = some chain) (sound : chain'.Sound)
    (grown : chain'.data = text ++ chain.data) (off : chain'.off = chain.off + text.length) :
    ((buf.setFirst chain').count text.length).Wf ∧
      ((buf.setFirst chain').count text.length).stream = buf.stream.prepend text ∧
      ((buf.setFirst chain').count text.length).chains.head? = some chain' := by
  have counted := wf.counted
  rw [bytes] at counted
  cases front : buf.before with
  | nil =>
    rw [chains, front, List.nil_append] at first
    obtain ⟨rest, shape⟩ := List.head?_eq_some_iff.mp first
    obtain ⟨-, empty, -⟩ := (wf_iff shape).mp wf
    rw [chains, front, shape, List.nil_append, content_cons] at counted
    have new_ : (buf.setFirst chain').count text.length =
        { buf with onward := chain' :: rest, totalLen := buf.totalLen + text.length,
                   nAddForCb := buf.nAddForCb + text.length } := by
      simp only [ChainBuffer.setFirst, front, count, shape, List.tail_cons]
    rw [new_]
    refine ⟨(wf_iff rfl).mpr ⟨by simp [front], empty, sound, absurd front, by simp [front], ?_⟩,
      ?_, ?_⟩
    · rw [content_of_empty fun c inside => (empty c inside).2] at counted
      simp only [front, content_nil, counted, List.append_nil, EvbufferChain.length_data,
        List.length_nil]
      omega
    · simp only [stream, bytes, chains, front, shape, List.nil_append, content_cons, grown,
        ByteStream.prepend, List.append_assoc]
    · simp [chains, front]
  | cons head others =>
    rw [chains, front, List.cons_append, List.head?_cons] at first
    obtain rfl := Option.some.inj first
    have new_ : (buf.setFirst chain').count text.length =
        { buf with before := chain' :: others, totalLen := buf.totalLen + text.length,
                   nAddForCb := buf.nAddForCb + text.length } := by
      simp only [ChainBuffer.setFirst, front, count]
    rw [new_]
    refine ⟨⟨?_, fun _ => wf.lead (by simp [front]), ?_, wf.trailing, ?_⟩, ?_, by simp [chains]⟩
    · intro c inside
      rw [chains, List.cons_append, List.mem_cons] at inside
      rcases inside with rfl | inside
      · exact sound
      · exact wf.sound c (by rw [chains, front]; exact List.mem_cons_of_mem _ inside)
    · intro c inside
      rcases List.mem_cons.mp inside with rfl | inside
      · have := wf.front head (by simp [front])
        omega
      · exact wf.front c (by rw [front]; exact List.mem_cons_of_mem _ inside)
    · rw [chains, front] at counted
      simp only [bytes, chains, List.cons_append, content_cons, grown, List.length_append] at *
      omega
    · simp only [stream, bytes, chains, front, List.cons_append, content_cons, grown,
        ByteStream.prepend, List.append_assoc]

/-- A new chain in front of chains with data. -/
theorem prependNew_eq (malloc : Malloc) (wf : buf.Wf) {data : Bytes} (some_ : data ≠ [])
    (first : buf.chains.head? = some chain) (filled : 0 < chain.off) :
    ∃ ok buf', buf.prependNew malloc data = some (ok, buf') ∧
      Outcome buf (buf.stream.prepend data) (OutOfMemory malloc data.length) ok buf' := by
  unfold prependNew
  split
  · next refused =>
    exact ⟨false, buf, rfl, wf, rfl, fun _ => EvbufferChain.new_eq_none refused⟩
  · next tmp allocated =>
    obtain ⟨large, roomy, -, -, free⟩ := EvbufferChain.new_eq allocated
    obtain ⟨tmp', done, text, off, size, free'⟩ := EvbufferChain.fillEnd_eq free large
    have counted := wf.counted
    refine ⟨true, { buf with before := tmp' :: buf.before }.count data.length, ?_, ⟨?_, fun _ => ?_,
      ?_, wf.trailing, ?_⟩, ?_, by simp⟩
    · rw [done, Option.bind_eq_bind, Option.bind_some]
    · intro c inside
      rcases List.mem_cons.mp inside with rfl | inside
      · exact EvbufferChain.sound_of_mutable free' (size ▸ roomy)
      · exact wf.sound c inside
    · cases front : buf.before with
      | nil =>
        rw [chains, front, List.nil_append] at first
        obtain ⟨rest, shape⟩ := List.head?_eq_some_iff.mp first
        exact ⟨chain, rest, shape, filled⟩
      | cons head others => exact wf.lead (by simp [front])
    · intro c inside
      rcases List.mem_cons.mp inside with rfl | inside
      · have := List.length_pos_iff.mpr some_
        omega
      · exact wf.front c inside
    · simp only [count, bytes, chains, List.cons_append, content_cons, text,
        List.length_append] at counted ⊢
      omega
    · simp only [stream, count, bytes, chains, List.cons_append, content_cons, text,
        ByteStream.prepend, if_pos]

theorem prependTo_eq (malloc : Malloc) (wf : buf.Wf) (listed : buf.chains ≠ []) (data : Bytes) :
    ∃ ok buf' text, buf.prependTo malloc data = some (ok, buf') ∧ buf'.Wf ∧
      buf'.stream = buf.stream.prepend text ∧ (ok = true → text = data) ∧
      (ok = false → text <:+ data ∧ OutOfMemory malloc data.length) := by
  obtain ⟨chain, first⟩ : ∃ chain, buf.chains.head? = some chain :=
    ⟨_, List.head?_eq_some_head listed⟩
  have sound := wf.sound chain (List.mem_of_head? first)
  rw [prependTo, first, Option.bind_eq_bind, Option.bind_some]
  split
  · next referred =>
    rw [sound.owned] at referred
    contradiction
  · obtain ⟨start, rewound, same, off, length, free', room⟩ :=
      EvbufferChain.rewind_eq sound sound.owned
    have roomy := length ▸ sound.room
    rw [rewound, Option.bind_some]
    split
    · next fits =>
      obtain ⟨chain', done, grown, -, off', length', free''⟩ :=
        EvbufferChain.prepend_eq data free' fits
      obtain ⟨wf', stream', -⟩ := wf.setFirst first
        (EvbufferChain.sound_of_mutable free'' (length' ▸ roomy)) (same ▸ grown) (off ▸ off')
      exact ⟨true, _, data, by rw [done, Option.bind_some], wf', stream', fun _ => rfl, nofun⟩
    · next short =>
      have part : (data.drop (data.length - start.misalign)).length = start.misalign := by
        rw [List.length_drop]
        omega
      obtain ⟨chain', done, grown, -, off', length', free''⟩ :=
        EvbufferChain.prepend_eq (data.drop (data.length - start.misalign)) free'
          (Nat.le_of_eq part)
      obtain ⟨wf', stream', first'⟩ := wf.setFirst first
        (EvbufferChain.sound_of_mutable free'' (length' ▸ roomy)) (same ▸ grown) (off ▸ off')
      have rest_ : data.take (data.length - start.misalign) ≠ [] := by
        rw [← List.length_pos_iff, List.length_take]
        omega
      obtain ⟨ok, buf', last, outcome⟩ := prependNew_eq malloc wf' rest_ first' (by
          rcases Nat.eq_zero_or_pos chain.off with empty | filled
          · have := room empty
            omega
          · omega)
      rw [part] at last
      have result := outcome.stream
      rw [stream'] at result
      cases ok with
      | true =>
        refine ⟨true, buf', data, by simp only [done, Option.bind_some, last], outcome.wf, ?_,
          fun _ => rfl, nofun⟩
        rw [result, if_pos rfl, ByteStream.prepend_prepend, List.take_append_drop]
      | false =>
        exact ⟨false, buf', _, by simp only [done, Option.bind_some, last], outcome.wf, result,
          nofun,
          fun _ => ⟨List.drop_suffix _ _, (outcome.failed rfl).mono (List.length_take_le' _ _)⟩⟩

/-- `evbuffer_prepend` prepends all of the text, and fails for one of three reasons. Where it
runs out of memory it may have prepended the end of the text. -/
theorem prepend_eq (malloc : Malloc) (wf : buf.Wf) (data : Bytes) :
    ∃ ok buf' text, buf.prepend malloc data = some (ok, buf') ∧ buf'.Wf ∧
      buf'.stream = buf.stream.prepend text ∧ (ok = true → text = data) ∧
      (ok = false → text <:+ data ∧ (text ≠ [] → OutOfMemory malloc data.length) ∧
        (buf.freezeStart = true ∨ sizeMax < buf.totalLen + data.length ∨
          OutOfMemory malloc data.length)) := by
  have refused (reason : buf.freezeStart = true ∨ sizeMax < buf.totalLen + data.length ∨
      OutOfMemory malloc data.length) :
      ∃ ok buf' text, some (false, buf) = some (ok, buf') ∧ buf'.Wf ∧
        buf'.stream = buf.stream.prepend text ∧ (ok = true → text = data) ∧
        (ok = false → text <:+ data ∧ (text ≠ [] → OutOfMemory malloc data.length) ∧
          (buf.freezeStart = true ∨ sizeMax < buf.totalLen + data.length ∨
            OutOfMemory malloc data.length)) :=
    ⟨false, buf, [], rfl, wf, buf.stream.prepend_nil.symm, nofun,
      fun _ => ⟨List.nil_suffix, absurd rfl, reason⟩⟩
  unfold prepend
  split
  · next frozen => exact refused (.inl frozen)
  · split
    · next excess => exact refused (.inr (.inl (by omega)))
    · split
      · next shape =>
        obtain ⟨ok, buf', text, done, wf', stream', all, part⟩ :=
          prependTo_eq malloc wf (by rw [shape]; exact List.cons_ne_nil _ _) data
        exact ⟨ok, buf', text, done, wf', stream', all, fun failed =>
          ⟨(part failed).1, fun _ => (part failed).2, .inr (.inr (part failed).2)⟩⟩
      · next shape =>
        split
        · next missing => exact refused (.inr (.inr (EvbufferChain.new_eq_none missing)))
        · next chain allocated =>
          obtain ⟨-, roomy, -, used, free⟩ := EvbufferChain.new_eq allocated
          obtain ⟨buf', inserted, wf', stream', last', -⟩ :=
            wf.chainInsert (EvbufferChain.sound_of_mutable free roomy)
          rw [EvbufferChain.data_eq_nil.mpr used, ByteStream.extend_nil] at stream'
          have listed : buf'.chains ≠ [] := by
            intro none_
            rw [last, none_] at last'
            contradiction
          obtain ⟨ok, buf'', text, done, wf'', stream'', all, part⟩ :=
            prependTo_eq malloc wf' listed data
          refine ⟨ok, buf'', text, ?_, wf'', stream''.trans (stream' ▸ rfl), all, fun failed =>
            ⟨(part failed).1, fun _ => (part failed).2, .inr (.inr (part failed).2)⟩⟩
          rw [inserted, Option.bind_eq_bind, Option.bind_some, done]

theorem prepend_frozen (malloc : Malloc) (frozen : buf.freezeStart = true) (data : Bytes) :
    buf.prepend malloc data = some (false, buf) := if_pos frozen

end MerlinC.Model.ChainBuffer
