import Mathlib.Data.Int.Notation
import MerlinC.Model.ChainRemove

/-! # Making the front of an evbuffer contiguous

`evbuffer_pullup` collects the first bytes of the stream in one chain: the first one if it has
the room behind its data, else a new one. The chains it copies from are freed, so the link to the
last chain with data has to be set again when the chain it is in or the one it points at goes.
The stream itself does not change.
-/

namespace MerlinC.Model.ChainBuffer

/-- The copying loop of `evbuffer_pullup`, and the chains that are left. The count of `tmp`
grows with the copies, where the source sets it in advance. -/
def pullLoop (tmp : EvbufferChain) :
    List EvbufferChain → ℕ → Option (EvbufferChain × List EvbufferChain)
  | chain :: rest, size =>
      if chain.off ≤ size then do
        let text ← chain.read 0 chain.off
        let tmp ← tmp.append text
        pullLoop tmp rest (size - chain.off)
      else do
        let text ← chain.read 0 size
        let tmp ← tmp.append text
        let chain ← chain.consume size
        some (tmp, chain :: rest)
  | [], _ => some (tmp, [])

/-- The index of the chain at the link once the chains with indices from `start` up to `freed`
are gone, those of `left` follow, and one chain stands in front of them. -/
def linkAfter (link start freed : ℕ) (left : List EvbufferChain) : ℕ :=
  let removedLastWithData : Bool := 0 < link && start ≤ link && link < freed
  let removedLastWithDatap : Bool := 0 < link && start ≤ link - 1 && link - 1 < freed
  if removedLastWithData then 0
  else if removedLastWithDatap then
    match left with
    | next :: _ => if next.off = 0 then 0 else 1
    | [] => 0
  else if link = 0 then 0
  else link - freed + 1

/-- The end of `evbuffer_pullup`. -/
def relink (buf : ChainBuffer) (start : ℕ) (tmp : EvbufferChain) (left : List EvbufferChain) :
    ChainBuffer :=
  let link := linkAfter buf.before.length start (buf.chains.length - left.length) left
  { buf with before := (tmp :: left).take link, onward := (tmp :: left).drop link }

/-- `evbuffer_pullup`, where `false` is the null pointer and `true` the address of the data of
the first chain. -/
def pullup (malloc : Malloc) (buf : ChainBuffer) (size : ℤ) : Option (Bool × ChainBuffer) :=
  let size := if size < 0 then buf.totalLen else size.toNat
  if size = 0 ∨ buf.totalLen < size then some (false, buf)
  else do
    let chain ← buf.chains.head?
    if size ≤ chain.off then some (true, buf)
    else if size ≤ chain.bufferLen - chain.misalign then
      let (tmp, left) ← pullLoop chain buf.chains.tail (size - chain.off)
      some (true, buf.relink 1 tmp left)
    else
      match EvbufferChain.new malloc size with
      | none => some (false, buf)
      | some tmp =>
        let (tmp, left) ← pullLoop tmp buf.chains size
        some (true, buf.relink 0 tmp left)

variable {buf : ChainBuffer} {chain tmp : EvbufferChain}

/-- The chains that a copy of some first bytes leaves: none, or those from the one it stops in. -/
inductive Pulled : List EvbufferChain → ℕ → List EvbufferChain → Prop
  | all {chains : List EvbufferChain} {size : ℕ} : (content chains).length = size →
      Pulled chains size []
  | part {gone more : List EvbufferChain} {stop stop' : EvbufferChain} {count : ℕ} :
      count < stop.off → stop.consume count = some stop' →
      Pulled (gone ++ stop :: more) ((content gone).length + count) (stop' :: more)

/-- A chain that goes as a whole. -/
theorem Pulled.cons {chains left : List EvbufferChain} {size : ℕ} (whole : chain.off ≤ size)
    (pulled : Pulled chains (size - chain.off) left) : Pulled (chain :: chains) size left := by
  generalize short : size - chain.off = rest at pulled
  cases pulled with
  | all total =>
    refine .all ?_
    rw [content_cons, List.length_append, EvbufferChain.length_data]
    omega
  | @part gone more stop stop' count inside consumed =>
    have further : Pulled (chain :: gone ++ stop :: more)
        ((content (chain :: gone)).length + count) (stop' :: more) := .part inside consumed
    rw [content_cons, List.length_append, EvbufferChain.length_data] at further
    rwa [show size = chain.off + (content gone).length + count by omega]

theorem pullLoop_eq (tmp : EvbufferChain) (chains : List EvbufferChain) (size : ℕ)
    (free : tmp.immutable = false)
    (roomy : 0 < tmp.bufferLen ∧ tmp.bufferLen ≤ chainMax - chainSize)
    (room : tmp.misalign + tmp.off + size ≤ tmp.bufferLen)
    (enough : size ≤ (content chains).length) :
    ∃ tmp' left, pullLoop tmp chains size = some (tmp', left) ∧ Pulled chains size left ∧
      tmp'.data = tmp.data ++ (content chains).take size ∧ tmp'.off = tmp.off + size ∧
      tmp'.Sound ∧ content left = (content chains).drop size := by
  induction chains generalizing tmp size with
  | nil =>
    rw [content_nil, List.length_nil] at enough
    obtain rfl : size = 0 := by omega
    exact ⟨tmp, [], rfl, .all rfl, by simp, rfl, EvbufferChain.sound_of_mutable free roomy, rfl⟩
  | cons chain rest ih =>
    rw [pullLoop]
    rw [content_cons, List.length_append, EvbufferChain.length_data] at enough
    have length := chain.length_data
    split
    · next whole =>
      have copied : chain.read 0 chain.off = some chain.data := by
        rw [← Nat.sub_zero chain.off, EvbufferChain.read_rest (Nat.zero_le _), List.drop_zero]
      obtain ⟨tmp₁, appended, data₁, start₁, off₁, size₁, free₁⟩ :=
        EvbufferChain.append_eq chain.data free (by omega)
      obtain ⟨tmp', left, done, pulled, data, off, sound, text⟩ :=
        ih tmp₁ (size - chain.off) free₁ (size₁ ▸ roomy) (by omega) (by omega)
      have taken : chain.data.take size = chain.data := List.take_of_length_le (by omega)
      have dropped : chain.data.drop size = [] := List.drop_of_length_le (by omega)
      refine ⟨tmp', left, ?_, pulled.cons whole, ?_, by omega, sound, ?_⟩
      · simp only [copied, appended, Option.bind_eq_bind, Option.bind_some, done]
      · rw [data, data₁, content_cons, List.take_append, length, List.append_assoc, taken]
      · rw [text, content_cons, List.drop_append, length, dropped, List.nil_append]
    · next part =>
      have copied : chain.read 0 size = some (chain.data.take size) := by
        rw [EvbufferChain.read_eq (by omega), List.drop_zero]
      have short : (chain.data.take size).length = size := by
        rw [List.length_take]
        omega
      obtain ⟨tmp', appended, data, start, off, size', free'⟩ :=
        EvbufferChain.append_eq (chain.data.take size) free (by omega)
      obtain ⟨chain', consumed, data', -, -, -, -⟩ :=
        chain.consume_eq (show size ≤ chain.off by omega)
      refine ⟨tmp', chain' :: rest, ?_, ?_, ?_, by omega,
        EvbufferChain.sound_of_mutable free' (size' ▸ roomy), ?_⟩
      · simp only [copied, appended, consumed, Option.bind_eq_bind, Option.bind_some]
      · have stopped : Pulled ([] ++ chain :: rest) ((content []).length + size)
            (chain' :: rest) := .part (by omega) consumed
        simpa using stopped
      · rw [data, content_cons, List.take_append_of_le_length (by omega)]
      · rw [content_cons, content_cons, data', List.drop_append_of_le_length (by omega)]

theorem linkAfter_all {link start freed : ℕ} (some_ : 0 < link) (late : start ≤ link)
    (gone : link < freed) : linkAfter link start freed [] = 0 := by
  simp [linkAfter, some_, late, gone]

theorem linkAfter_next {link start : ℕ} {next : EvbufferChain} (more : List EvbufferChain)
    (some_ : 0 < link) (filled : 0 < next.off) : linkAfter link start link (next :: more) = 1 := by
  have other : next.off ≠ 0 := by omega
  simp only [linkAfter, Nat.lt_irrefl, decide_false, Bool.and_false, Bool.false_eq_true,
    ↓reduceIte, other, Nat.sub_self, Nat.zero_add]
  split
  · rfl
  · rw [if_neg (by omega)]

theorem linkAfter_kept {link start freed : ℕ} (left : List EvbufferChain) (kept : freed < link) :
    linkAfter link start freed left = link - freed + 1 := by
  have last : ¬ link < freed := by omega
  have first : ¬ link - 1 < freed := by omega
  simp only [linkAfter, last, first, decide_false, Bool.and_false, Bool.false_eq_true, ↓reduceIte]
  exact if_neg (by omega)

/-- Collecting a front of the chains keeps the buffer and its stream, wherever the link goes. -/
theorem relink_eq (pre : List EvbufferChain) {rest behind tail left : List EvbufferChain}
    {count : ℕ} (wf : buf.Wf)
    (shape : buf.onward = chain :: rest) (full : 0 < chain.off) (front : buf.before = pre ++ behind)
    (some_ : buf.before ≠ []) (whole : buf.chains = pre ++ tail) (pulled : Pulled tail count left)
    (sound : tmp.Sound) (filled : 0 < tmp.off) (text : tmp.data ++ content left = buf.bytes) :
    (buf.relink pre.length tmp left).Wf ∧
      (buf.relink pre.length tmp left).stream = buf.stream := by
  obtain ⟨owned, empty, sound', -, frontFull, total⟩ := (wf_iff shape).mp wf
  have link : 0 < buf.before.length := List.length_pos_iff.mpr some_
  have counted := wf.counted
  rw [← text, List.length_append, EvbufferChain.length_data] at counted
  have parts : behind ++ chain :: rest = tail := by
    rw [chains, front, shape, List.append_assoc] at whole
    exact List.append_cancel_left whole
  have size : buf.chains.length = pre.length + tail.length := by rw [whole, List.length_append]
  have late : buf.before.length = pre.length + behind.length := by rw [front, List.length_append]
  suffices done : (buf.relink pre.length tmp left).Wf by
    refine ⟨done, ByteStream.ext ?_ rfl rfl rfl rfl⟩
    change content _ = buf.bytes
    rw [← text]
    simp only [relink, chains, List.take_append_drop, content_cons]
  cases pulled with
  | all gone =>
    have links : linkAfter buf.before.length pre.length (buf.chains.length - 0) [] = 0 := by
      apply linkAfter_all link (by omega)
      rw [size, ← parts, List.length_append, List.length_cons]
      omega
    rw [relink, List.length_nil, links]
    exact Iff.mpr (wf_iff rfl) ⟨by simp, by simp, sound, by simp, by simp, by simpa using counted⟩
  | @part gone more stop stop' left inside consumed =>
    have freed : buf.chains.length - (stop' :: more).length = pre.length + gone.length := by
      rw [size, List.length_append, List.length_cons, List.length_cons]
      omega
    rw [content_cons, List.length_append, EvbufferChain.length_data] at counted
    -- the copy stops at the link, or in front of it
    have stopped : (stop = chain ∧ more = rest ∧ behind = gone) ∨
        ∃ between, behind = gone ++ stop :: between ∧ more = between ++ chain :: rest := by
      rcases List.append_eq_append_iff.mp parts with ⟨gap, rfl, far⟩ | ⟨gap, rfl, near⟩
      · cases gap with
        | nil =>
          obtain ⟨rfl, rfl⟩ := List.cons.inj far
          exact .inl ⟨rfl, rfl, (List.append_nil _).symm⟩
        | cons first gap =>
          obtain ⟨-, later⟩ := List.cons.inj far
          have := (empty stop (by rw [later]; simp)).2
          omega
      · cases gap with
        | nil =>
          obtain ⟨rfl, rfl⟩ := List.cons.inj near
          exact .inl ⟨rfl, rfl, List.append_nil _⟩
        | cons first gap =>
          obtain ⟨rfl, later⟩ := List.cons.inj near
          exact .inr ⟨gap, rfl, later⟩
    rcases stopped with ⟨rfl, rfl, rfl⟩ | ⟨between, rfl, rfl⟩
    · obtain ⟨kept, filled'⟩ := sound'.consume inside consumed
      have links : linkAfter buf.before.length pre.length
          (buf.chains.length - (stop' :: more).length) (stop' :: more) = 1 := by
        rw [freed, late]
        exact linkAfter_next more (late ▸ link) filled'
      rw [relink, links]
      refine Iff.mpr (wf_iff rfl) ⟨by simp [sound], empty, kept, fun _ => filled',
        by simp [filled], ?_⟩
      rw [content_of_empty fun c inside => (empty c inside).2] at counted
      simpa using counted
    · have ownedStop : stop.Sound := owned stop (by rw [front]; simp)
      obtain ⟨kept, filled'⟩ := ownedStop.consume inside consumed
      have links : linkAfter buf.before.length pre.length
          (buf.chains.length - (stop' :: (between ++ chain :: rest)).length)
          (stop' :: (between ++ chain :: rest)) = between.length + 2 := by
        rw [freed, late, linkAfter_kept _ (by simp)]
        simp
        omega
      rw [relink, links]
      have before' : (tmp :: stop' :: (between ++ chain :: rest)).take (between.length + 2) =
          tmp :: stop' :: between := by simp
      have onward' : (tmp :: stop' :: (between ++ chain :: rest)).drop (between.length + 2) =
          chain :: rest := by simp
      simp only [before', onward']
      refine Iff.mpr (wf_iff rfl) ⟨?_, empty, sound', fun _ => full, ?_, ?_⟩
      · intro c inside
        rcases List.mem_cons.mp inside with rfl | inside
        · exact sound
        rcases List.mem_cons.mp inside with rfl | inside
        · exact kept
        · exact owned c (by rw [front]; simp [inside])
      · intro c inside
        rcases List.mem_cons.mp inside with rfl | inside
        · exact filled
        rcases List.mem_cons.mp inside with rfl | inside
        · exact filled'
        · exact frontFull c (by rw [front]; simp [inside])
      · rw [content_append, content_cons, content_of_empty fun c inside => (empty c inside).2]
          at counted
        simp only [content_cons, List.length_append, EvbufferChain.length_data, List.append_nil]
          at counted ⊢
        omega

theorem relink_head (buf : ChainBuffer) (start : ℕ) (tmp : EvbufferChain)
    (left : List EvbufferChain) : (buf.relink start tmp left).chains.head? = some tmp := by
  simp only [relink, chains, List.take_append_drop, List.head?_cons]

/-- How many bytes `evbuffer_pullup` is asked for. -/
def wanted (buf : ChainBuffer) (size : ℤ) : ℕ :=
  if size < 0 then buf.bytes.length else size.toNat

/-- `evbuffer_pullup` leaves the stream alone, and where it succeeds the first chain has the
asked number of bytes. -/
theorem pullup_eq (malloc : Malloc) (wf : buf.Wf) (size : ℤ) :
    ∃ ok buf', buf.pullup malloc size = some (ok, buf') ∧ buf'.Wf ∧ buf'.stream = buf.stream ∧
      (ok = true → ∃ chain, buf'.chains.head? = some chain ∧ buf.wanted size ≤ chain.off) ∧
      (ok = false → buf.wanted size = 0 ∨ buf.bytes.length < buf.wanted size ∨
        OutOfMemory malloc (buf.wanted size)) := by
  have counted := wf.counted
  rw [pullup, counted, ← wanted]
  generalize buf.wanted size = size
  simp only
  split
  · next nothing =>
    refine ⟨false, buf, rfl, wf, rfl, by simp, fun _ => ?_⟩
    rcases nothing with zero | excess
    · exact .inl zero
    · exact .inr (.inl excess)
  · next asked =>
    have some_ : buf.bytes ≠ [] := by
      intro none_
      rw [none_, List.length_nil] at asked
      omega
    obtain ⟨chain, rest, shape, full⟩ := wf.filled some_
    obtain ⟨first, head⟩ : ∃ first, buf.chains.head? = some first := by
      refine ⟨_, List.head?_eq_some_head ?_⟩
      rw [chains, shape]
      simp
    rw [head, Option.bind_eq_bind, Option.bind_some]
    split
    · next enough => exact ⟨true, buf, rfl, wf, rfl, fun _ => ⟨first, head, enough⟩, by simp⟩
    · next short =>
      -- the first chain is in front of the link, as it does not hold all bytes
      obtain ⟨behind, front⟩ : ∃ behind, buf.before = first :: behind := by
        cases front : buf.before with
        | nil =>
          rw [chains, front, shape, List.nil_append, List.head?_cons] at head
          obtain rfl := Option.some.inj head
          rw [wf.bytes_eq shape, front, content_nil, List.nil_append,
            EvbufferChain.length_data] at asked
          omega
        | cons other behind =>
          rw [chains, front, List.cons_append, List.head?_cons] at head
          exact ⟨behind, by rw [Option.some.inj head]⟩
      have listed : buf.before ≠ [] := by rw [front]; exact List.cons_ne_nil _ _
      have whole : buf.chains = [first] ++ (behind ++ buf.onward) := by rw [chains, front]; rfl
      have ownedFirst := wf.sound first (by rw [whole]; simp)
      have text : buf.bytes = first.data ++ content (behind ++ buf.onward) := by
        rw [bytes, whole]
        simp
      have lengths := congrArg List.length text
      rw [List.length_append, EvbufferChain.length_data] at lengths
      have bound := first.fits'
      split
      · next fits =>
        obtain ⟨tmp, left, done, pulled, data, off, sound, later⟩ := pullLoop_eq first
          (behind ++ buf.onward) (size - first.off) ownedFirst.owned ownedFirst.room (by omega)
          (by omega)
        obtain ⟨wf', stream'⟩ := relink_eq [first] wf shape full front listed whole pulled
          sound (by omega) (by rw [data, later, List.append_assoc, List.take_append_drop, text])
        refine ⟨true, _, ?_, wf', stream', fun _ => ⟨tmp, relink_head .., by omega⟩, by simp⟩
        have tail : buf.chains.tail = behind ++ buf.onward := by rw [whole]; rfl
        rw [tail, done]
        rfl
      · split
        · next refused =>
          exact ⟨false, buf, rfl, wf, rfl, by simp,
            fun _ => .inr (.inr (EvbufferChain.new_eq_none refused))⟩
        · next fresh allocated =>
          obtain ⟨large, roomy, start, used, free⟩ := EvbufferChain.new_eq allocated
          obtain ⟨tmp, left, done, pulled, data, off, sound, later⟩ := pullLoop_eq fresh
            buf.chains size free roomy (by omega) (by rw [← bytes]; omega)
          have blank := EvbufferChain.data_eq_nil.mpr used
          obtain ⟨wf', stream'⟩ := relink_eq [] wf shape full rfl listed rfl pulled
            sound (by omega) (by
              rw [data, later, blank, List.nil_append, List.take_append_drop, bytes])
          refine ⟨true, _, ?_, wf', stream', fun _ => ⟨tmp, relink_head .., by omega⟩, by simp⟩
          rw [done]
          rfl

end MerlinC.Model.ChainBuffer
