import Mathlib.Algebra.BigOperators.Group.List.Basic
import Mathlib.Data.Int.Notation
import MerlinC.Model.ChainAdd
import MerlinC.Model.ChainRemove

/-! # Evbuffers and sockets

`evbuffer_read` makes room at the end of an evbuffer without moving a byte, offers it to `readv`
as up to four pieces of memory, and then counts as data what the kernel wrote there.
`evbuffer_write_atmost` offers up to 128 chains to `writev` and drains what it took. The two
system calls are parameters: they see the pieces they are offered and nothing else.
-/

namespace MerlinC.Model

namespace EvbufferChain

/-- An empty chain is moved to the start of its memory. -/
def realignEmpty (chain : EvbufferChain) : Option EvbufferChain :=
  if chain.off = 0 then chain.place 0 0 else some chain

/-- Count as data what was written behind the data. -/
def expose (chain : EvbufferChain) (count : ℕ) : Option EvbufferChain :=
  chain.place chain.misalign (chain.off + count)

end EvbufferChain

/-- `ioctl` and `readv` on a socket: how much is said to be ready, and what arrives when there
is room for so many bytes. -/
structure ReadSocket where
  ready : ℤ
  readv : ℕ → Option Bytes
  bounded : ∀ {room data}, readv room = some data → data.length ≤ room

/-- `writev` on a socket: how many of the offered bytes it takes. -/
structure WriteSocket where
  writev : Bytes → Option ℕ
  bounded : ∀ {offered count}, writev offered = some count → count ≤ offered.length

namespace ChainBuffer

/-- What the loop of `evbuffer_expand_fast_` finds: the chains with the empty ones realigned, the
room in those it saw and their number, and whether that is enough. -/
structure Scan where
  chains : List EvbufferChain
  avail : ℕ
  used : ℕ
  enough : Bool

/-- The loop of `evbuffer_expand_fast_`. Only the chain at the link may have data. -/
def scanSpace (datlen n : ℕ) : Bool → List EvbufferChain → ℕ → ℕ → Option Scan
  | _, [], avail, used => some ⟨[], avail, used, false⟩
  | lead, chain :: rest, avail, used =>
      if chain.off ≠ 0 ∧ lead = false then none
      else do
        let chain ← chain.realignEmpty
        let space := if chain.off = 0 then chain.bufferLen else chain.spaceLen
        let avail := avail + space
        let used := if chain.off = 0 ∨ 0 < space then used + 1 else used
        if datlen ≤ avail then some ⟨chain :: rest, avail, used, true⟩
        else if used = n then some ⟨chain :: rest, avail, used, false⟩
        else
          let scan ← scanSpace datlen n false rest avail used
          some { scan with chains := chain :: scan.chains }

/-- The last resort of `evbuffer_expand_fast_`: one chain in place of all the empty ones. -/
def replaceEmpty (malloc : Malloc) (buf : ChainBuffer) (datlen : ℕ) :
    Option (Bool × ChainBuffer) :=
  match buf.onward with
  | [] => none
  | chain :: rest =>
    if rest.all (·.off = 0) = false then none
    else if chain.off = 0 then
      if buf.before ≠ [] then none
      else
        match EvbufferChain.new malloc datlen with
        | none => some (false, buf.zeroChain)
        | some tmp => some (true, { buf with onward := [tmp] })
    else if datlen < chain.spaceLen then none
    else
      match EvbufferChain.new malloc (datlen - chain.spaceLen) with
      | none => some (false, { buf with onward := [chain] })
      | some tmp => some (true, { buf with onward := [chain, tmp] })

/-- `evbuffer_expand_fast_`. -/
def expandFast (malloc : Malloc) (buf : ChainBuffer) (datlen n : ℕ) :
    Option (Bool × ChainBuffer) :=
  if buf.last.all (·.immutable) then
    match EvbufferChain.new malloc datlen with
    | none => some (false, buf)
    | some chain => (buf.chainInsert chain).map ((true, ·))
  else do
    let scan ← scanSpace datlen n true buf.onward 0 0
    let buf := { buf with onward := scan.chains }
    if scan.enough then some (true, buf)
    else if scan.used < n then
      match EvbufferChain.new malloc (datlen - scan.avail) with
      | none => some (false, buf)
      | some tmp => some (true, { buf with onward := buf.onward ++ [tmp] })
    else buf.replaceEmpty malloc datlen

/-- How many chains `evbuffer_read_setup_vecs_` skips at the link. -/
def firstSpace (buf : ChainBuffer) : Option ℕ :=
  buf.onward.head?.map fun chain => if chain.spaceLen = 0 then 1 else 0

/-- The lengths of the vectors that `evbuffer_read_setup_vecs_` fills in. -/
def setupVecs (exact : Bool) : ℕ → List EvbufferChain → ℕ → Option (List ℕ)
  | 0, _, _ => some []
  | n + 1, chains, howmuch =>
      if howmuch = 0 then some []
      else
        match chains with
        | [] => none
        | chain :: rest =>
          let avail :=
            if howmuch < chain.spaceLen ∧ exact then howmuch else chain.spaceLen
          (setupVecs exact n rest (howmuch - avail)).map (avail :: ·)

/-- The writes of `readv`: each piece of memory is filled before the next. -/
def scatter : List EvbufferChain → List ℕ → Bytes → Option (List EvbufferChain)
  | chain :: rest, len :: lens, data =>
      if data = [] then some (chain :: rest)
      else do
        let chain ← chain.memcpy (chain.misalign + chain.off) (data.take len)
        let rest ← scatter rest lens (data.drop len)
        some (chain :: rest)
  | chains, [], data => if data = [] then some chains else none
  | [], _ :: _, data => if data = [] then some [] else none

/-- The loop of `evbuffer_read` that counts what was read: the chains it fills, those from the one
it stops in, and whether it stops. -/
def exposeRead : ℕ → List EvbufferChain → ℕ →
    Option (List EvbufferChain × List EvbufferChain × Bool)
  | 0, chains, _ => some ([], chains, false)
  | _ + 1, [], _ => none
  | nvecs + 1, chain :: rest, remaining =>
      let space := min chain.spaceLen chainMax
      if space < remaining then do
        let chain ← chain.expose space
        let (passed, rest, stopped) ← exposeRead nvecs rest (remaining - space)
        some (chain :: passed, rest, stopped)
      else do
        let chain ← chain.expose remaining
        some ([], chain :: rest, true)

/-- How much `evbuffer_read` asks for. -/
def readLimit (socket : ReadSocket) (howmuch : ℤ) : ℕ :=
  let n := if socket.ready ≤ 0 ∨ 4096 < socket.ready then 4096 else socket.ready
  (if howmuch < 0 ∨ n < howmuch then n else howmuch).toNat

/-- `evbuffer_read`. The result is what was read, nothing at the end of the file, and `none` for
an error. -/
def read (malloc : Malloc) (buf : ChainBuffer) (socket : ReadSocket) (howmuch : ℤ) :
    Option (Option Bytes × ChainBuffer) :=
  if buf.freezeEnd then some (none, buf)
  else do
    let limit := readLimit socket howmuch
    let (ok, buf) ← buf.expandFast malloc limit 4
    if ok = false then some (none, buf)
    else
      let skip ← buf.firstSpace
      let lens ← setupVecs true 4 (buf.onward.drop skip) limit
      match socket.readv lens.sum with
      | none => some (none, buf)
      | some [] => some (some [], buf)
      | some (byte :: more) =>
        let data := byte :: more
        let written ← scatter (buf.onward.drop skip) lens data
        let (passed, rest, stopped) ← exposeRead lens.length written data.length
        let front := buf.onward.take skip ++ passed
        let buf :=
          if stopped then { buf with before := buf.before ++ front, onward := rest }
          else { buf with onward := front ++ rest }
        some (some data, buf.count data.length)

/-- The pieces of memory that `evbuffer_write_iovec` offers. -/
def gather : ℕ → List EvbufferChain → ℕ → Option (List Bytes)
  | 0, _, _ => some []
  | _ + 1, [], _ => some []
  | n + 1, chain :: rest, howmuch =>
      if howmuch = 0 then some []
      else if chain.off ≤ howmuch then do
        let text ← chain.read 0 chain.off
        let more ← gather n rest (howmuch - chain.off)
        some (text :: more)
      else (chain.read 0 howmuch).map ([·])

/-- `evbuffer_write_iovec`. -/
def writeIovec (buf : ChainBuffer) (socket : WriteSocket) (howmuch : ℕ) :
    Option (Option ℕ) := do
  let iov ← gather 128 buf.chains howmuch
  if iov = [] then some (some 0) else some (socket.writev iov.flatten)

/-- `evbuffer_write_atmost`. The result is what `writev` returned, and -1 where nothing was
asked of it. -/
def writeAtmost (buf : ChainBuffer) (socket : WriteSocket) (howmuch : ℤ) :
    Option (Option ℕ × ChainBuffer) :=
  if buf.freezeStart then some (none, buf)
  else
    let howmuch := if howmuch < 0 ∨ buf.totalLen < howmuch then buf.totalLen else howmuch.toNat
    if howmuch = 0 then some (none, buf)
    else do
      match ← buf.writeIovec socket howmuch with
      | none => some (none, buf)
      | some 0 => some (some 0, buf)
      | some (n + 1) =>
        let (_, buf) ← buf.drain (n + 1)
        some (some (n + 1), buf)

variable {buf : ChainBuffer} {chain : EvbufferChain} {rest : List EvbufferChain}

/-- The room in some chains. -/
def room (chains : List EvbufferChain) : ℕ := (chains.map (·.spaceLen)).sum

/-- From the first chain with room on there are a few chains with enough of it, and only a chain
with data is skipped. -/
def Roomy (buf : ChainBuffer) (datlen n : ℕ) : Prop :=
  ∃ skip used later, buf.firstSpace = some skip ∧ buf.onward.drop skip = used ++ later ∧
    (∀ c ∈ buf.onward.take skip, 0 < c.off) ∧ used.length ≤ n ∧ (∀ c ∈ used, 0 < c.spaceLen) ∧
    datlen ≤ room used

/-- An empty chain of which all memory is room. -/
structure Vacant (chain : EvbufferChain) : Prop where
  sound : chain.Sound
  off : chain.off = 0
  misalign : chain.misalign = 0

theorem Vacant.spaceLen (vacant : Vacant chain) :
    0 < chain.spaceLen ∧ chain.spaceLen = chain.bufferLen := by
  have := vacant.sound.room.1
  rw [EvbufferChain.spaceLen_of_mutable (vacant.sound.owned), vacant.off,
    vacant.misalign]
  omega

theorem vacant_of_new {malloc : Malloc} {size : ℕ}
    (allocated : EvbufferChain.new malloc size = some chain) :
    Vacant chain ∧ size ≤ chain.spaceLen := by
  obtain ⟨large, roomy, start, used, free⟩ := EvbufferChain.new_eq allocated
  have vacant : Vacant chain := ⟨EvbufferChain.sound_of_mutable free roomy, used, start⟩
  exact ⟨vacant, vacant.spaceLen.2 ▸ large⟩

theorem realignEmpty_eq (sound : chain.Sound) (empty : chain.off = 0) :
    ∃ chain', chain.realignEmpty = some chain' ∧ Vacant chain' := by
  obtain ⟨chain', placed, buffer, misalign, off, same⟩ :=
    chain.place_eq (show 0 + 0 ≤ chain.bufferLen by omega)
  have free := sound.owned
  have length : chain'.bufferLen = chain.bufferLen := congrArg List.length buffer
  refine ⟨chain', by rw [EvbufferChain.realignEmpty, if_pos empty, placed], ?_, off, misalign⟩
  exact EvbufferChain.sound_of_mutable (same.trans free) (length ▸ sound.room)

/-- What the loop finds in empty chains. -/
theorem scanSpace_empty {datlen n avail used : ℕ} (chains : List EvbufferChain)
    (empty : ∀ c ∈ chains, c.Sound ∧ c.off = 0) (more : used < n) (short : avail < datlen) :
    ∃ seen later scan, scanSpace datlen n false chains avail used = some scan ∧
      scan.chains = seen ++ later ∧ (∀ c ∈ seen, Vacant c) ∧
      (∀ c ∈ later, c.Sound ∧ c.off = 0) ∧ scan.avail = avail + room seen ∧
      scan.used = used + seen.length ∧ scan.used ≤ n ∧
      (if scan.enough then datlen ≤ scan.avail
        else scan.avail < datlen ∧ (scan.used < n → later = [])) := by
  induction chains generalizing avail used with
  | nil =>
    exact ⟨[], [], _, rfl, rfl, by simp, by simp, rfl, rfl, Nat.le_of_lt more, by simp [short]⟩
  | cons chain rest ih =>
    obtain ⟨sound, blank⟩ := empty chain (by simp)
    have others : ∀ c ∈ rest, c.Sound ∧ c.off = 0 := fun c inside => empty c (by simp [inside])
    obtain ⟨chain', realigned, vacant⟩ := realignEmpty_eq sound blank
    have space := vacant.spaceLen
    have step : room [chain'] = chain'.bufferLen := by simp [room, space.2]
    rw [scanSpace, if_neg (by simp [blank]), realigned]
    simp only [Option.bind_eq_bind, Option.bind_some, vacant.off, ↓reduceIte, true_or]
    split
    · next enough =>
      exact ⟨[chain'], rest, _, rfl, rfl, by simp [vacant], others, by rw [step], rfl, more,
        by simp [enough]⟩
    · split
      · next last =>
        exact ⟨[chain'], rest, _, rfl, rfl, by simp [vacant], others, by rw [step], rfl, more,
          by simp; omega⟩
      · next further =>
        obtain ⟨seen, later, scan, done, parts, vacants, left, total, count, bound, result⟩ :=
          ih others (show used + 1 < n by omega) (show avail + chain'.bufferLen < datlen by omega)
        refine ⟨chain' :: seen, later, { scan with chains := chain' :: scan.chains },
          by rw [done]; rfl, by rw [parts]; rfl, ?_, left, ?_, ?_, bound, result⟩
        · simpa using ⟨vacant, vacants⟩
        · simp only [room, List.map_cons, List.sum_cons, space.2, total]
          omega
        · simp only [count, List.length_cons]
          omega

/-- What the loop finds from the chain at the link on. -/
theorem scanSpace_lead (datlen : ℕ) {n : ℕ} (sound : chain.Sound)
    (empty : ∀ c ∈ rest, c.Sound ∧ c.off = 0) (several : 2 ≤ n) :
    ∃ chain' seen later scan, scanSpace datlen n true (chain :: rest) 0 0 = some scan ∧
      scan.chains = chain' :: (seen ++ later) ∧ chain'.Sound ∧ chain'.data = chain.data ∧
      chain'.off = chain.off ∧ (chain'.off = 0 → 0 < chain'.spaceLen) ∧
      (∀ c ∈ seen, Vacant c) ∧ (∀ c ∈ later, c.Sound ∧ c.off = 0) ∧
      scan.avail = chain'.spaceLen + room seen ∧
      scan.used = (if 0 < chain'.spaceLen then 1 else 0) + seen.length ∧ scan.used ≤ n ∧
      (if scan.enough then datlen ≤ scan.avail
        else scan.avail < datlen ∧ (scan.used < n → later = [])) := by
  obtain ⟨chain', realigned, sound', same, off, space⟩ : ∃ chain',
      chain.realignEmpty = some chain' ∧ chain'.Sound ∧ chain'.data = chain.data ∧
        chain'.off = chain.off ∧
        (chain'.off = 0 → 0 < chain'.spaceLen ∧ chain'.spaceLen = chain'.bufferLen) := by
    rcases Nat.eq_zero_or_pos chain.off with blank | filled
    · obtain ⟨chain', realigned, vacant⟩ := realignEmpty_eq sound blank
      refine ⟨chain', realigned, vacant.sound, ?_, vacant.off.trans blank.symm,
        fun _ => vacant.spaceLen⟩
      rw [EvbufferChain.data_eq_nil.mpr blank, EvbufferChain.data_eq_nil.mpr vacant.off]
    · exact ⟨chain, if_neg (by omega), sound, rfl, rfl, fun blank => by omega⟩
  have step : (if chain'.off = 0 then chain'.bufferLen else chain'.spaceLen) = chain'.spaceLen := by
    split
    · next blank => exact (space blank).2.symm
    · rfl
  have spent : (if chain'.off = 0 ∨ 0 < chain'.spaceLen then 0 + 1 else 0) =
      if 0 < chain'.spaceLen then 1 else 0 := by
    rcases Nat.eq_zero_or_pos chain'.off with blank | filled
    · rw [if_pos (.inl blank), if_pos (space blank).1]
    · simp [Nat.ne_of_gt filled]
  rw [scanSpace, if_neg (by simp), realigned]
  simp only [Option.bind_eq_bind, Option.bind_some, step, spent, Nat.zero_add]
  generalize counted : (if 0 < chain'.spaceLen then 1 else 0) = one
  have small : one < n := by
    rw [← counted]
    split <;> omega
  split
  · next enough =>
    exact ⟨chain', [], rest, _, rfl, rfl, sound', same, off, fun blank => (space blank).1, by simp,
      empty, rfl, counted.symm, Nat.le_of_lt small, by simp [enough]⟩
  · next short =>
    obtain ⟨seen, later, scan, done, parts, vacants, left, total, count, bound, result⟩ :=
      scanSpace_empty rest empty small (Nat.lt_of_not_le short)
    rw [if_neg (Nat.ne_of_lt small)]
    refine ⟨chain', seen, later, { scan with chains := chain' :: scan.chains }, by rw [done]; rfl,
      by rw [parts], sound', same, off, fun blank => (space blank).1, vacants, left, total, ?_,
      bound, result⟩
    rw [count, counted]

/-- Room at the link and in the chains after it. -/
theorem roomy_of (seen later : List EvbufferChain) {datlen n : ℕ}
    (shape : buf.onward = chain :: (seen ++ later)) (free : chain.off = 0 → 0 < chain.spaceLen)
    (vacant : ∀ c ∈ seen, Vacant c)
    (few : (if 0 < chain.spaceLen then 1 else 0) + seen.length ≤ n)
    (enough : datlen ≤ chain.spaceLen + room seen) : Roomy buf datlen n := by
  have start : buf.firstSpace = some (if chain.spaceLen = 0 then 1 else 0) := by
    rw [firstSpace, shape]
    rfl
  have spaces : ∀ c ∈ seen, 0 < c.spaceLen := fun c inside => (vacant c inside).spaceLen.1
  rcases Nat.eq_zero_or_pos chain.spaceLen with full | free
  · have filled : 0 < chain.off := by omega
    refine ⟨1, seen, later, by rw [start, if_pos full], by rw [shape]; rfl, ?_, by omega, spaces,
      ?_⟩
    · rw [shape]
      simpa using filled
    · omega
  · rw [if_pos free] at few
    refine ⟨0, chain :: seen, later, by rw [start, if_neg (by omega)], by rw [shape]; rfl, by simp,
      ?_, ?_, ?_⟩
    · rw [List.length_cons]
      omega
    · simpa [free] using spaces
    · simpa [room] using enough

/-- Other empty chains behind the same data. -/
theorem Wf.retail {chain' : EvbufferChain} (wf : buf.Wf) (rest' : List EvbufferChain)
    (shape : buf.onward = chain :: rest) (sound : chain'.Sound) (same : chain'.data = chain.data)
    (off : chain'.off = chain.off) (empty : ∀ c ∈ rest', c.Sound ∧ c.off = 0) :
    ({ buf with onward := chain' :: rest' }).Wf ∧
      ({ buf with onward := chain' :: rest' }).stream = buf.stream := by
  obtain ⟨owned, -, -, lead, front, counted⟩ := (wf_iff shape).mp wf
  have wf' : ({ buf with onward := chain' :: rest' }).Wf :=
    (wf_iff rfl).mpr ⟨owned, empty, sound, fun some_ => off ▸ lead some_, front, off ▸ counted⟩
  refine ⟨wf', ?_⟩
  simp only [stream, wf'.bytes_eq rfl, wf.bytes_eq shape, same]

/-- The last resort leaves one chain with all the room, or none. -/
theorem replaceEmpty_eq (malloc : Malloc) (wf : buf.Wf) (shape : buf.onward = chain :: rest)
    (datlen : ℕ) {n : ℕ} (several : 2 ≤ n) (short : chain.spaceLen ≤ datlen) :
    ∃ ok buf', buf.replaceEmpty malloc datlen = some (ok, buf') ∧ buf'.Wf ∧
      buf'.stream = buf.stream ∧ (ok = true → Roomy buf' datlen n) ∧
      (ok = false → OutOfMemory malloc datlen) := by
  obtain ⟨owned, empty, sound, lead, front, counted⟩ := (wf_iff shape).mp wf
  have all : rest.all (·.off = 0) = true :=
    List.all_eq_true.mpr fun c inside => decide_eq_true (empty c inside).2
  simp only [replaceEmpty, shape, all, Bool.true_eq_false, ↓reduceIte]
  split
  · next blank =>
    have none_ : buf.before = [] := by
      apply Classical.byContradiction
      intro some_
      have := lead some_
      omega
    have nothing : buf.bytes = [] := by
      rw [wf.bytes_eq shape, none_, EvbufferChain.data_eq_nil.mpr blank, content_nil,
        List.nil_append]
    rw [if_neg (not_not_intro none_)]
    split
    · next refused =>
      refine ⟨false, _, rfl, ⟨by simp [zeroChain, chains], by simp [zeroChain],
        by simp [zeroChain], by simp [zeroChain], by simp [zeroChain, bytes, chains]⟩, ?_, by simp,
        fun _ => EvbufferChain.new_eq_none refused⟩
      simp only [stream, nothing]
      rfl
    · next tmp allocated =>
      obtain ⟨vacant, large⟩ := vacant_of_new allocated
      obtain ⟨wf', stream'⟩ := wf.retail [] shape vacant.sound
        (by rw [EvbufferChain.data_eq_nil.mpr blank, EvbufferChain.data_eq_nil.mpr vacant.off])
        (vacant.off.trans blank.symm) (by simp)
      refine ⟨true, _, rfl, wf', stream', fun _ => ?_, by simp⟩
      apply roomy_of [] [] rfl (fun _ => vacant.spaceLen.1) (by simp)
      · rw [List.length_nil]
        split <;> omega
      · exact Nat.le_add_right_of_le large
  · rw [if_neg (by omega)]
    split
    · next refused =>
      obtain ⟨wf', stream'⟩ := wf.retail [] shape sound rfl rfl (by simp)
      exact ⟨false, _, rfl, wf', stream', by simp,
        fun _ => (EvbufferChain.new_eq_none refused).mono (Nat.sub_le _ _)⟩
    · next tmp allocated =>
      obtain ⟨vacant, large⟩ := vacant_of_new allocated
      obtain ⟨wf', stream'⟩ := wf.retail [tmp] shape sound rfl rfl
        (by simpa using ⟨vacant.sound, vacant.off⟩)
      refine ⟨true, _, rfl, wf', stream', fun _ => ?_, by simp⟩
      apply roomy_of [tmp] [] rfl (by omega) (by simpa using vacant)
      · rw [List.length_singleton]
        split <;> omega
      · simp only [room, List.map_cons, List.map_nil, List.sum_cons, List.sum_nil]
        omega

/-- `evbuffer_expand_fast_` makes room for so many bytes in at most `n` chains, and changes nothing
in the stream. -/
theorem expandFast_eq (malloc : Malloc) (wf : buf.Wf) (datlen : ℕ) {n : ℕ} (several : 2 ≤ n) :
    ∃ ok buf', buf.expandFast malloc datlen n = some (ok, buf') ∧ buf'.Wf ∧
      buf'.stream = buf.stream ∧ (ok = true → Roomy buf' datlen n) ∧
      (ok = false → OutOfMemory malloc datlen) := by
  unfold expandFast
  split
  · next referred =>
    split
    · next refused =>
      exact ⟨false, buf, rfl, wf, rfl, nofun, fun _ => EvbufferChain.new_eq_none refused⟩
    · next tmp allocated =>
      obtain ⟨fresh, large⟩ := vacant_of_new allocated
      have few (chain : EvbufferChain) : (if 0 < chain.spaceLen then 1 else 0) + 1 ≤ n := by
        split <;> omega
      have large' (chain : EvbufferChain) : datlen ≤ chain.spaceLen + room [tmp] :=
        Nat.le_add_left_of_le (by simpa [room] using large)
      cases shape : buf.onward with
      | nil =>
        obtain ⟨buf', inserted, wf', stream', -, single⟩ := wf.chainInsert fresh.sound
        rw [EvbufferChain.data_eq_nil.mpr fresh.off, ByteStream.extend_nil] at stream'
        refine ⟨true, buf', by rw [inserted]; rfl, wf', stream', fun _ => ?_, nofun⟩
        apply roomy_of [] [] (single shape) (fun _ => fresh.spaceLen.1) (by simp)
        · exact Nat.le_of_add_right_le (few tmp)
        · exact Nat.le_add_right_of_le large
      | cons chain rest =>
        have listed : buf.chains ≠ [] := by
          rw [chains, shape]
          exact List.append_ne_nil_of_right_ne_nil _ (List.cons_ne_nil _ _)
        have own := (wf.sound _ (List.getLast_mem listed)).owned
        rw [last, List.getLast?_eq_some_getLast listed, Option.all_some, own] at referred
        contradiction
  · next own =>
    cases shape : buf.onward with
    | nil =>
      rw [last, wf.chains_eq_nil shape] at own
      exact absurd rfl own
    | cons chain rest =>
      obtain ⟨-, empty, sound, -⟩ := (wf_iff shape).mp wf
      obtain ⟨chain', seen, later, scan, done, parts, sound', same, off, free, vacant, left, avail,
        used, bound, result⟩ := scanSpace_lead datlen sound empty several
      have blank : ∀ c ∈ seen ++ later, c.Sound ∧ c.off = 0 := by
        intro c inside
        rcases List.mem_append.mp inside with inside | inside
        · exact ⟨(vacant c inside).sound, (vacant c inside).off⟩
        · exact left c inside
      obtain ⟨wf', stream'⟩ := wf.retail _ shape sound' same off blank
      rw [done, Option.bind_eq_bind, Option.bind_some, parts]
      split
      · next enough =>
        rw [if_pos enough] at result
        refine ⟨true, _, rfl, wf', stream', fun _ => ?_, nofun⟩
        exact roomy_of _ _ rfl free vacant (used ▸ bound) (avail ▸ result)
      · next short =>
        rw [if_neg short] at result
        split
        · next more =>
          obtain rfl := result.2 more
          split
          · next refused =>
            exact ⟨false, _, rfl, wf', stream', nofun,
              fun _ => (EvbufferChain.new_eq_none refused).mono (Nat.sub_le _ _)⟩
          · next tmp allocated =>
            obtain ⟨fresh, large⟩ := vacant_of_new allocated
            have vacant' : ∀ c ∈ seen ++ [tmp], Vacant c := by
              intro c inside
              rcases List.mem_append.mp inside with inside | inside
              · exact vacant c inside
              · exact List.mem_singleton.mp inside ▸ fresh
            obtain ⟨wf'', stream''⟩ := wf.retail (seen ++ [tmp]) shape sound' same off
              fun c inside => ⟨(vacant' c inside).sound, (vacant' c inside).off⟩
            simp only [List.append_nil, List.cons_append]
            refine ⟨true, _, rfl, wf'', stream'', fun _ => ?_, nofun⟩
            apply roomy_of _ [] (by rw [List.append_nil]) free vacant'
            · rw [List.length_append, List.length_singleton]
              omega
            · simp only [room, List.map_append, List.map_cons, List.map_nil, List.sum_append,
                List.sum_cons, List.sum_nil] at avail ⊢
              omega
        · next full =>
          obtain ⟨ok, buf', replaced, wf'', stream'', roomy, failed⟩ :=
            replaceEmpty_eq malloc wf' rfl datlen several (by omega)
          exact ⟨ok, buf', replaced, wf'', stream''.trans stream', roomy, failed⟩

theorem scatter_nil (chains : List EvbufferChain) (lens : List ℕ) :
    scatter chains lens [] = some chains := by
  cases chains <;> cases lens <;> simp [scatter]

theorem setupVecs_zero (exact : Bool) (n : ℕ) (chains : List EvbufferChain) :
    setupVecs exact n chains 0 = some [] := by
  cases n <;> cases chains <;> simp [setupVecs]

/-- A text written behind the data and then counted. -/
theorem fill_eq (sound : chain.Sound) {text : Bytes} (some_ : text ≠ [])
    (fits : text.length ≤ chain.spaceLen) :
    ∃ wrote chain', chain.memcpy (chain.misalign + chain.off) text = some wrote ∧
      wrote.spaceLen = chain.spaceLen ∧ wrote.expose text.length = some chain' ∧ chain'.Sound ∧
      chain'.data = chain.data ++ text ∧ 0 < chain'.off := by
  have long := List.length_pos_iff.mpr some_
  have free := sound.owned
  rw [EvbufferChain.spaceLen_of_mutable free] at fits
  have inside := chain.fits'
  obtain ⟨wrote, written, buffer, start, used, free'⟩ :=
    EvbufferChain.memcpy_eq free
      (show chain.misalign + chain.off + text.length ≤ chain.bufferLen by omega)
  have length : wrote.bufferLen = chain.bufferLen := by
    rw [EvbufferChain.bufferLen, buffer, Math.length_store (by
      unfold EvbufferChain.bufferLen at fits inside
      omega)]
    rfl
  obtain ⟨chain', placed, buffer', misalign, off, same⟩ :=
    wrote.place_eq (show chain.misalign + (chain.off + text.length) ≤ wrote.bufferLen by omega)
  have length' : chain'.bufferLen = chain.bufferLen := (congrArg List.length buffer').trans length
  refine ⟨wrote, chain', written, ?_, ?_, ?_, ?_, by omega⟩
  · rw [EvbufferChain.spaceLen_of_mutable free, EvbufferChain.spaceLen_of_mutable free', length,
      start, used]
  · rw [EvbufferChain.expose, start, used, placed]
  · exact EvbufferChain.sound_of_mutable (same.trans free') (length' ▸ sound.room)
  · rw [EvbufferChain.data, buffer', buffer, misalign, off]
    exact Math.slice_store_append chain.fits

/-- What is left of some chains when a text has been read into them. -/
structure Landed (chains : List EvbufferChain) (text : Bytes)
    (passed rest : List EvbufferChain) : Prop where
  front : ∀ c ∈ passed, c.Sound ∧ 0 < c.off
  link : ∃ chain others, rest = chain :: others ∧ chain.Sound ∧ 0 < chain.off ∧
    ∀ c ∈ others, c.Sound ∧ c.off = 0
  content : content (passed ++ rest) = content chains ++ text

/-- The vectors offered to `readv`, and what the chains hold once it has filled them. -/
theorem setupVecs_eq {used later : List EvbufferChain} (howmuch : ℕ) {n : ℕ}
    (sound : ∀ c ∈ used ++ later, c.Sound) (empty : ∀ c ∈ (used ++ later).tail, c.off = 0)
    (spaces : ∀ c ∈ used, 0 < c.spaceLen) (few : used.length ≤ n) (enough : howmuch ≤ room used)
    (small : howmuch ≤ chainMax) :
    ∃ lens, setupVecs true n (used ++ later) howmuch = some lens ∧ lens.sum = howmuch ∧
      ∀ data : Bytes, data ≠ [] → data.length ≤ howmuch →
        ∃ written passed rest, scatter (used ++ later) lens data = some written ∧
          exposeRead lens.length written data.length = some (passed, rest, true) ∧
          Landed (used ++ later) data passed rest := by
  have short (data : Bytes) (some_ : data ≠ []) : ¬data.length ≤ 0 := by
    have := List.length_pos_iff.mpr some_
    omega
  induction used generalizing n howmuch with
  | nil =>
    obtain rfl : howmuch = 0 := Nat.le_zero.mp enough
    exact ⟨[], setupVecs_zero _ _ _, rfl, fun data some_ fits => absurd fits (short data some_)⟩
  | cons chain used ih =>
    obtain ⟨n, rfl⟩ : ∃ m, n = m + 1 := Nat.exists_eq_add_one.mpr (Nat.lt_of_lt_of_le (by simp) few)
    rw [List.cons_append, setupVecs]
    split
    · next zero =>
      exact ⟨[], rfl, zero.symm, fun data some_ fits => absurd (zero ▸ fits) (short data some_)⟩
    · next more =>
      have space := spaces chain (by simp)
      rw [List.cons_append, List.tail_cons] at empty
      obtain ⟨avail, avail_eq⟩ : ∃ avail, avail =
        if howmuch < chain.spaceLen ∧ true then howmuch else chain.spaceLen := ⟨_, rfl⟩
      have least : avail = min howmuch chain.spaceLen := by
        simp only [avail_eq, and_true]
        split <;> omega
      rw [← avail_eq]
      obtain ⟨lens, done, total, lands⟩ := ih (n := n) (howmuch - avail)
        (fun c inside => sound c (by simp [List.mem_append.mp inside]))
        (fun c inside => empty c (List.mem_of_mem_tail inside))
        (fun c inside => spaces c (List.mem_cons_of_mem _ inside))
        (by simpa using few)
        (by simp only [room, List.map_cons, List.sum_cons] at enough ⊢; omega) (by omega)
      refine ⟨avail :: lens, by simp only [done, Option.map_some], by rw [List.sum_cons]; omega, ?_⟩
      intro data some_ fits
      have long := List.length_pos_iff.mpr some_
      have blank : content (used ++ later) = [] := content_of_empty empty
      have part : data.take avail ≠ [] := by
        rw [← List.length_pos_iff, List.length_take]
        omega
      have part_le : (data.take avail).length ≤ chain.spaceLen := by
        rw [List.length_take]
        omega
      obtain ⟨wrote, chain', written, roomy, exposed, sound', grown, filled⟩ :=
        fill_eq (sound chain (by simp)) part part_le
      rw [List.length_take] at exposed
      rcases Nat.lt_or_ge chain.spaceLen data.length with excess | inside
      · have all : avail = chain.spaceLen := by omega
        obtain ⟨written', passed, rest, scattered, counted, landed⟩ := lands (data.drop avail)
          (by rw [← List.length_pos_iff, List.length_drop]; omega)
          (by rw [List.length_drop]; omega)
        refine ⟨wrote :: written', chain' :: passed, rest, ?_, ?_, ⟨?_, landed.link, ?_⟩⟩
        · rw [scatter, if_neg some_, written, Option.bind_eq_bind, Option.bind_some, scattered]
          rfl
        · rw [List.length_drop] at counted
          rw [Nat.min_eq_left (by omega)] at exposed
          have cap : min chain.spaceLen chainMax = avail := by omega
          rw [List.length_cons, exposeRead, roomy, cap, if_pos (by omega), exposed,
            Option.bind_eq_bind, Option.bind_some, counted]
          rfl
        · simpa using ⟨⟨sound', filled⟩, landed.front⟩
        · rw [List.cons_append, content_cons, landed.content, blank, grown, content_cons, blank,
            List.append_nil, List.nil_append, List.append_assoc, List.take_append_drop]
      · have all : data.length ≤ avail := by omega
        refine ⟨wrote :: (used ++ later), [], chain' :: (used ++ later), ?_, ?_, ⟨by simp, ?_, ?_⟩⟩
        · rw [scatter, if_neg some_, written, Option.bind_eq_bind, Option.bind_some,
            List.drop_of_length_le all, scatter_nil]
          rfl
        · rw [Nat.min_eq_right all] at exposed
          rw [List.length_cons, exposeRead, roomy, if_neg (by omega), exposed]
          rfl
        · exact ⟨chain', used ++ later, rfl, sound', filled, fun c inside =>
            ⟨sound c (List.mem_cons_of_mem _ inside), empty c inside⟩⟩
        · rw [List.nil_append, content_cons, grown, List.take_of_length_le all, content_cons, blank,
            List.append_nil, List.append_nil]

/-- A text read into the chains from the link on. -/
theorem Wf.land {text : Bytes} {skip : ℕ} {passed rest : List EvbufferChain} (wf : buf.Wf)
    (skipped : ∀ c ∈ buf.onward.take skip, 0 < c.off)
    (landed : Landed (buf.onward.drop skip) text passed rest) :
    ({ buf with
        before := buf.before ++ (buf.onward.take skip ++ passed),
        onward := rest }.count text.length).Wf ∧
      ({ buf with
          before := buf.before ++ (buf.onward.take skip ++ passed),
          onward := rest }.count text.length).stream = buf.stream.append text := by
  obtain ⟨front, ⟨chain, others, rfl, sound, filled, empty⟩, grown⟩ := landed
  have whole : content (buf.before ++ (buf.onward.take skip ++ passed) ++ chain :: others) =
      buf.bytes ++ text := by
    calc content (buf.before ++ (buf.onward.take skip ++ passed) ++ chain :: others)
        = content buf.before ++ (content (buf.onward.take skip) ++
            content (passed ++ chain :: others)) := by
          simp only [content_append, List.append_assoc]
      _ = content buf.before ++ (content (buf.onward.take skip ++ buf.onward.drop skip)) ++
            text := by
          rw [grown, content_append, List.append_assoc, List.append_assoc]
      _ = buf.bytes ++ text := by
          rw [List.take_append_drop, bytes, chains, content_append]
  refine ⟨⟨?_, fun _ => ⟨chain, others, rfl, filled⟩, ?_, fun c inside => (empty c inside).2, ?_⟩,
    ?_⟩
  · intro c inside
    rcases List.mem_append.mp inside with inside | inside
    · rcases List.mem_append.mp inside with inside | inside
      · exact wf.sound c (List.mem_append_left _ inside)
      · rcases List.mem_append.mp inside with inside | inside
        · exact wf.sound c (List.mem_append_right _ (List.mem_of_mem_take inside))
        · exact (front c inside).1
    · rcases List.mem_cons.mp inside with rfl | inside
      · exact sound
      · exact (empty c inside).1
  · intro c inside
    rcases List.mem_append.mp inside with inside | inside
    · exact wf.front c inside
    · rcases List.mem_append.mp inside with inside | inside
      · exact skipped c inside
      · exact (front c inside).2
  · simp only [count, bytes, chains] at whole ⊢
    rw [whole, wf.counted, List.length_append]
    rfl
  · simp only [stream, count, bytes, chains] at whole ⊢
    rw [whole]
    rfl

theorem readLimit_le (socket : ReadSocket) (howmuch : ℤ) : readLimit socket howmuch ≤ 4096 := by
  unfold readLimit
  dsimp only
  split <;> split <;> omega

/-- Nor does `evbuffer_read` ask for more than it is told. -/
theorem readLimit_le_toNat (socket : ReadSocket) {howmuch : ℤ} (positive : 0 ≤ howmuch) :
    readLimit socket howmuch ≤ howmuch.toNat := by
  unfold readLimit
  dsimp only
  split <;> split <;> omega

/-- `evbuffer_read` appends to the stream exactly what the socket gave, which it asked for as much
as the limit says. -/
theorem read_eq (malloc : Malloc) (wf : buf.Wf) (socket : ReadSocket) (howmuch : ℤ) :
    ∃ result buf', buf.read malloc socket howmuch = some (result, buf') ∧ buf'.Wf ∧
      buf'.stream = buf.stream.append (result.getD []) ∧
      (result = socket.readv (readLimit socket howmuch) ∨
        result = none ∧ (buf.freezeEnd = true ∨ malloc.Refuses)) := by
  unfold read
  split
  · next frozen =>
    exact ⟨none, buf, rfl, wf, buf.stream.append_nil.symm, .inr ⟨rfl, .inl frozen⟩⟩
  · obtain ⟨ok, room_, expanded, wf', same, roomy, failed⟩ :=
      expandFast_eq malloc wf (readLimit socket howmuch) (n := 4) (by omega)
    simp only [expanded, Option.bind_eq_bind, Option.bind_some]
    split
    · next refused =>
      exact ⟨none, room_, rfl, wf', same.trans buf.stream.append_nil.symm,
        .inr ⟨rfl, .inr ((failed refused).refuses
          (Nat.le_trans (readLimit_le socket howmuch) (by decide)))⟩⟩
    · next ready =>
      obtain ⟨skip, used, later, start, parts, skipped, few, spaces, enough⟩ :=
        roomy (by simpa using ready)
      have listed : ∀ c ∈ used ++ later, c ∈ room_.onward := by
        rw [← parts]
        exact fun c inside => List.mem_of_mem_drop inside
      have tail_ : (used ++ later).tail = room_.onward.tail.drop skip := by
        rw [← parts, List.tail_drop, List.drop_tail]
      have sound : ∀ c ∈ used ++ later, c.Sound :=
        fun c inside => wf'.sound c (List.mem_append_right _ (listed c inside))
      obtain ⟨lens, vecs, total, lands⟩ := setupVecs_eq (n := 4) (readLimit socket howmuch) sound
        (fun c inside => wf'.trailing c (List.mem_of_mem_drop (tail_ ▸ inside))) spaces few enough
        (Nat.le_trans (readLimit_le socket howmuch) (by decide))
      simp only [start, parts, vecs, total, Option.bind_some]
      split
      · next failed => exact ⟨none, room_, rfl, wf', same.trans buf.stream.append_nil.symm,
          .inl failed.symm⟩
      · next closed => exact ⟨some [], room_, rfl, wf', same.trans buf.stream.append_nil.symm,
          .inl closed.symm⟩
      · next byte more arrived =>
        obtain ⟨written, passed, rest, scattered, counted, landed⟩ :=
          lands (byte :: more) (by simp) (socket.bounded arrived)
        obtain ⟨wf'', stream'⟩ := wf'.land skipped (parts ▸ landed)
        simp only [scattered, counted, Option.bind_some, ↓reduceIte]
        exact ⟨_, _, rfl, wf'', stream'.trans (same ▸ rfl), .inl arrived.symm⟩

theorem read_frozen (malloc : Malloc) (frozen : buf.freezeEnd = true) (socket : ReadSocket)
    (howmuch : ℤ) : buf.read malloc socket howmuch = some (none, buf) := if_pos frozen

/-- What `evbuffer_write_iovec` offers is the beginning of what its chains hold. -/
theorem gather_eq (n : ℕ) (chains : List EvbufferChain) (howmuch : ℕ) :
    ∃ iov, gather n chains howmuch = some iov ∧
      iov.flatten = (content (chains.take n)).take howmuch := by
  induction n generalizing chains howmuch with
  | zero => exact ⟨[], by rw [gather], by simp⟩
  | succ n ih =>
    cases chains with
    | nil => exact ⟨[], by rw [gather], by simp⟩
    | cons chain rest =>
      rw [gather, List.take_succ_cons, content_cons]
      split
      · next zero => exact ⟨[], rfl, by simp [zero]⟩
      · split
        · next whole =>
          obtain ⟨more, done, text⟩ := ih rest (howmuch - chain.off)
          have all : chain.read 0 chain.off = some chain.data := by
            rw [EvbufferChain.read_eq (by omega), List.drop_zero,
              List.take_of_length_le (Nat.le_of_eq chain.length_data)]
          refine ⟨chain.data :: more, ?_, ?_⟩
          · rw [all, Option.bind_eq_bind, Option.bind_some, done, Option.bind_eq_bind,
              Option.bind_some]
          · rw [List.flatten_cons, text, List.take_append, chain.length_data,
              List.take_of_length_le (l := chain.data) (by rwa [chain.length_data])]
        · next part =>
          refine ⟨[chain.data.take howmuch], ?_, ?_⟩
          · rw [EvbufferChain.read_eq (by omega), List.drop_zero]
            rfl
          · rw [List.take_append_of_le_length (by rw [chain.length_data]; omega)]
            exact List.append_nil _

/-- The first chain of a buffer that is not empty has data. -/
theorem Wf.first_filled (wf : buf.Wf) (some_ : buf.bytes ≠ []) :
    ∃ chain rest, buf.chains = chain :: rest ∧ 0 < chain.off := by
  cases front : buf.before with
  | nil =>
    obtain ⟨chain, rest, shape, filled⟩ := wf.filled some_
    exact ⟨chain, rest, by rw [chains, front, shape, List.nil_append], filled⟩
  | cons chain rest =>
    exact ⟨chain, rest ++ buf.onward, by rw [chains, front, List.cons_append],
      wf.front chain (by simp [front])⟩

theorem writeIovec_eq (wf : buf.Wf) (some_ : buf.bytes ≠ []) (socket : WriteSocket) {howmuch : ℕ}
    (asked : howmuch ≠ 0) :
    ∃ offered, offered ≠ [] ∧ offered <+: buf.bytes ∧ offered.length ≤ howmuch ∧
      buf.writeIovec socket howmuch = some (socket.writev offered) := by
  obtain ⟨iov, gathered, text⟩ := gather_eq 128 buf.chains howmuch
  obtain ⟨chain, rest, shape, filled⟩ := wf.first_filled some_
  have offers : iov.flatten ≠ [] := by
    rw [text, shape, List.take_succ_cons, content_cons, ← List.length_pos_iff, List.length_take,
      List.length_append, chain.length_data]
    omega
  refine ⟨iov.flatten, offers, ?_, ?_, ?_⟩
  · rw [text, bytes]
    conv => rhs; rw [← List.take_append_drop 128 buf.chains, content_append]
    exact (List.take_prefix _ _).trans (List.prefix_append _ _)
  · rw [text]
    exact List.length_take_le _ _
  · have pieces : iov ≠ [] := by
      rintro rfl
      exact offers rfl
    rw [writeIovec, gathered, Option.bind_eq_bind, Option.bind_some, if_neg pieces]

/-- `evbuffer_write_atmost` offers the socket the beginning of the stream and drains from the
stream what the socket took. -/
theorem writeAtmost_eq (wf : buf.Wf) (socket : WriteSocket) (howmuch : ℤ) :
    ∃ result buf', buf.writeAtmost socket howmuch = some (result, buf') ∧ buf'.Wf ∧
      buf'.stream = buf.stream.drop (result.getD 0) ∧
      ((buf.freezeStart = true ∨ buf.bytes = [] ∨ howmuch = 0) ∧ result = none ∨
        buf.freezeStart = false ∧ ∃ offered, offered ≠ [] ∧ offered <+: buf.bytes ∧
          (0 ≤ howmuch → offered.length ≤ howmuch) ∧ result = socket.writev offered) := by
  have counted := wf.counted
  have unchanged : buf.stream = buf.stream.drop 0 := by simp [ByteStream.drop, stream]
  unfold writeAtmost
  split
  · next frozen => exact ⟨none, buf, rfl, wf, unchanged, .inl ⟨.inl frozen, rfl⟩⟩
  · next thawed =>
    have open_ : buf.freezeStart = false := by simpa using thawed
    dsimp only
    generalize limit : (if howmuch < 0 ∨ buf.totalLen < howmuch then buf.totalLen
      else howmuch.toNat) = most
    have bound : (0 ≤ howmuch → (most : ℤ) ≤ howmuch) ∧
        (most = 0 → buf.bytes.length = 0 ∨ howmuch = 0) := by
      rw [← limit]
      split <;> omega
    split
    · next zero =>
      refine ⟨none, buf, rfl, wf, unchanged, .inl ⟨.inr ?_, rfl⟩⟩
      rcases bound.2 zero with empty | zero
      · exact .inl (List.length_eq_zero_iff.mp empty)
      · exact .inr zero
    · next positive =>
      have some_ : buf.bytes ≠ [] := by
        intro none_
        rw [none_, List.length_nil] at counted
        rw [counted] at limit
        split at limit <;> omega
      obtain ⟨offered, offers, part, small, written⟩ := writeIovec_eq wf some_ socket positive
      have asked (result : Option ℕ) (took : socket.writev offered = result) :
          (buf.freezeStart = true ∨ buf.bytes = [] ∨ howmuch = 0) ∧ result = none ∨
            buf.freezeStart = false ∧ ∃ offered, offered ≠ [] ∧ offered <+: buf.bytes ∧
              (0 ≤ howmuch → offered.length ≤ howmuch) ∧ result = socket.writev offered :=
        .inr ⟨open_, offered, offers, part, fun positive => by have := bound.1 positive; omega,
          took.symm⟩
      rw [written, Option.bind_eq_bind, Option.bind_some]
      split
      · next refused => exact ⟨none, buf, rfl, wf, unchanged, asked none refused⟩
      · next nothing => exact ⟨some 0, buf, rfl, wf, unchanged, asked (some 0) nothing⟩
      · next n took =>
        obtain ⟨ok, buf', drained, outcome, -⟩ := drain_eq wf (n + 1)
        have done : ok = true := by
          rw [← Bool.not_eq_false]
          intro failed
          exact thawed (outcome.failed failed).1
        refine ⟨some (n + 1), buf', by rw [drained]; rfl, outcome.wf, ?_, asked _ took⟩
        rw [outcome.stream, if_pos done]
        rfl

end ChainBuffer

end MerlinC.Model
