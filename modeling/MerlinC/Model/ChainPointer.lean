import Mathlib.Data.Int.Notation
import MerlinC.Math.Search
import MerlinC.Model.ChainBuffer

/-! # Pointers into an evbuffer

`evbuffer_ptr` is a position in the stream together with the chain it lies in. A scan goes from
there through the chains without joining them. Each scan agrees with the scan of the plain bytes,
so that what it finds never depends on where one chain ends and the next begins.
-/

namespace MerlinC.Model

open Math

/-- `struct evbuffer_ptr`: its chain comes with the chains after it, and the null pointer with
none. -/
structure EvbufferPtr where
  pos : ℤ
  onward : List EvbufferChain
  posInChain : ℕ
deriving DecidableEq

/-- `enum evbuffer_ptr_how`. -/
inductive PtrHow where
  | set
  | add
deriving DecidableEq

def memchr (chr : UInt8) (text : Bytes) : Option ℕ := text.findIdx? (· == chr)

namespace EvbufferPtr

/-- `PTR_NOT_FOUND`. -/
def notFound : EvbufferPtr := ⟨-1, [], 0⟩

/-- The loop of `evbuffer_strchr` and `evbuffer_find_eol_char`: a search in each chain. -/
def scan (search : Bytes → Option ℕ) : List EvbufferChain → ℕ → ℤ →
    Option (Option EvbufferPtr)
  | [], _, _ => some none
  | chain :: rest, i, pos => do
      let text ← chain.read i (chain.off - i)
      match search text with
      | some k => some (some ⟨pos + k, chain :: rest, i + k⟩)
      | none => scan search rest 0 (pos + (chain.off - i : ℕ))

/-- `evbuffer_strchr`, where `none` is the result -1. -/
def strchr (it : EvbufferPtr) (chr : UInt8) : Option (Option EvbufferPtr) :=
  scan (memchr chr) it.onward it.posInChain it.pos

/-- `evbuffer_strspn`: how many of the next characters are in the set. -/
def strspn (chrset : Bytes) : List EvbufferChain → ℕ → Option ℕ
  | [], _ => some 0
  | chain :: rest, i => do
      let text ← chain.read i (chain.off - i)
      let span := (text.takeWhile (· ∈ chrset)).length
      if span < text.length then some span else (strspn chrset rest 0).map (span + ·)

/-- `evbuffer_getchr`. -/
def getchr (it : EvbufferPtr) : Option (Option UInt8) :=
  match it.onward with
  | [] => some none
  | chain :: _ => (chain.read it.posInChain 1).map (·.head?)

/-- The loop of `evbuffer_ptr_set`. -/
def walk : List EvbufferChain → ℕ → ℕ → Option (List EvbufferChain × ℕ × ℕ)
  | [], position, left => some ([], position, left)
  | chain :: rest, position, left =>
      if chain.off ≤ position + left then
        if chain.off < position then none else walk rest 0 (left - (chain.off - position))
      else some (chain :: rest, position, left)

/-- The end of `evbuffer_ptr_set`. -/
def settle (pos : ℤ) (chains : List EvbufferChain) (position left : ℕ) :
    Option (Bool × EvbufferPtr) :=
  if sizeMax - left < position then none
  else do
    let (chains, position, left) ← walk chains position left
    match chains with
    | chain :: rest => some (true, ⟨pos, chain :: rest, position + left⟩)
    | [] => if left = 0 then some (true, ⟨pos, [], 0⟩) else some (false, notFound)

/-- The loop of `evbuffer_ptr_memcmp`: whether the bytes agree. -/
def memcmpLoop : List EvbufferChain → ℕ → Bytes → Option Bool
  | [], _, _ => some true
  | chain :: rest, position, mem =>
      if mem = [] then some true
      else do
        let comparable :=
          if chain.off < mem.length + position then chain.off - position else mem.length
        let text ← chain.read position comparable
        if text = mem.take comparable then memcmpLoop rest 0 (mem.drop comparable)
        else some false

end EvbufferPtr

namespace ChainBuffer

open EvbufferPtr

/-- `evbuffer_ptr_set`. -/
def ptrSet (buf : ChainBuffer) (ptr : EvbufferPtr) (position : ℕ) :
    PtrHow → Option (Bool × EvbufferPtr)
  | .set => settle position buf.chains 0 position
  | .add =>
      if ptr.pos < 0 ∨ (sizeMax - position : ℕ) < ptr.pos then some (false, ptr)
      else settle (ptr.pos + position) ptr.onward ptr.posInChain position

/-- `evbuffer_ptr_subtract`. -/
def ptrSubtract (buf : ChainBuffer) (ptr : EvbufferPtr) (howfar : ℕ) :
    Option (Bool × EvbufferPtr) :=
  if ptr.pos < 0 then some (false, ptr)
  else if ptr.pos < howfar then some (false, ptr)
  else if ptr.onward ≠ [] ∧ howfar ≤ ptr.posInChain then
    some (true, { ptr with posInChain := ptr.posInChain - howfar, pos := ptr.pos - howfar })
  else buf.ptrSet ptr (ptr.pos - howfar).toNat .set

/-- `evbuffer_ptr_memcmp`: whether the bytes from a position on are those of a text. -/
def ptrMemcmp (buf : ChainBuffer) (ptr : EvbufferPtr) (mem : Bytes) : Option Bool :=
  if ptr.pos < 0 ∨ (sizeMax - mem.length : ℕ) < ptr.pos ∨ buf.totalLen < ptr.pos + mem.length then
    some false
  else memcmpLoop ptr.onward ptr.posInChain mem

/-- A pointer into an evbuffer is at a position of the stream. -/
structure At (buf : ChainBuffer) (ptr : EvbufferPtr) (n : ℕ) : Prop where
  pos : ptr.pos = n
  place : ∃ passed, buf.chains = passed ++ ptr.onward ∧
    n = (content passed).length + ptr.posInChain
  inside : ∀ chain ∈ ptr.onward.head?, ptr.posInChain ≤ chain.off
  ended : ptr.onward = [] → ptr.posInChain = 0

variable {buf : ChainBuffer} {ptr : EvbufferPtr} {n : ℕ}

theorem at_start (buf : ChainBuffer) : At buf ⟨0, buf.chains, 0⟩ 0 :=
  ⟨rfl, ⟨[], rfl, rfl⟩, fun _ _ => Nat.zero_le _, fun _ => rfl⟩

namespace At

variable {pos : ℤ} {chain : EvbufferChain} {rest : List EvbufferChain} {i k : ℕ}

/-- What lies ahead of a pointer. -/
theorem ahead (here : At buf ptr n) :
    (content ptr.onward).drop ptr.posInChain = buf.bytes.drop n := by
  obtain ⟨passed, parts, rfl⟩ := here.place
  rw [bytes, parts, content_append, List.drop_length_add_append]

/-- What lies ahead begins with the rest of the chain. -/
theorem ahead_cons (here : At buf ⟨pos, chain :: rest, i⟩ n) :
    buf.bytes.drop n = chain.data.drop i ++ content rest := by
  have inside : i ≤ chain.off := here.inside chain rfl
  rw [← here.ahead, content_cons, List.drop_append_of_le_length (by rwa [chain.length_data])]

theorem le_length (here : At buf ptr n) : n ≤ buf.bytes.length := by
  obtain ⟨passed, parts, rfl⟩ := here.place
  rw [bytes, parts, content_append, List.length_append]
  cases shape : ptr.onward with
  | nil => simp [here.ended shape]
  | cons chain rest =>
    have := here.inside chain (by simp [shape])
    simp only [content_cons, List.length_append, EvbufferChain.length_data]
    omega

/-- A pointer moved along its chain. -/
theorem along (here : At buf ⟨pos, chain :: rest, i⟩ n) (inside : i + k ≤ chain.off) :
    At buf ⟨pos + k, chain :: rest, i + k⟩ (n + k) := by
  obtain ⟨passed, parts, place⟩ := here.place
  have start : pos = n := here.pos
  refine ⟨?_, ⟨passed, parts, ?_⟩, ?_, nofun⟩
  · change pos + _ = _
    omega
  · rw [place, Nat.add_assoc]
  · intro c same
    obtain rfl := Option.some.inj same
    exact inside

/-- A pointer moved to the next chain. -/
theorem next (here : At buf ⟨pos, chain :: rest, i⟩ n) :
    At buf ⟨pos + (chain.off - i : ℕ), rest, 0⟩ (n + (chain.off - i)) := by
  obtain ⟨passed, parts, place⟩ := here.place
  have start : pos = n := here.pos
  have inside : i ≤ chain.off := here.inside chain rfl
  refine ⟨?_, ⟨passed ++ [chain], ?_, ?_⟩, fun _ _ => Nat.zero_le _, fun _ => rfl⟩
  · change pos + _ = _
    omega
  · rw [parts, List.append_assoc, List.cons_append, List.nil_append]
  · simp only [content_append, content_cons, content_nil, List.append_nil, List.length_append,
      EvbufferChain.length_data] at place ⊢
    omega

end At

/-- A pointer at a character, not only behind one. -/
structure Points (buf : ChainBuffer) (ptr : EvbufferPtr) (n : ℕ) : Prop extends At buf ptr n where
  char : ∃ chain ∈ ptr.onward.head?, ptr.posInChain < chain.off

/-- A search in each chain finds what the same search of the stream does. -/
theorem scan_eq {find : Bytes → Option ℕ} {p : UInt8 → Bool} (agrees : ∀ s, find s = s.findIdx? p)
    (here : At buf ptr n) :
    ∃ found, scan find ptr.onward ptr.posInChain ptr.pos = some found ∧
      match (buf.bytes.drop n).findIdx? p with
      | none => found = none
      | some k => ∃ it, found = some it ∧ Points buf it (n + k) := by
  obtain ⟨pos, onward, i⟩ := ptr
  induction onward generalizing pos i n with
  | nil =>
    refine ⟨none, rfl, ?_⟩
    rw [← here.ahead]
    simp
  | cons chain rest ih =>
    have inside : i ≤ chain.off := here.inside chain rfl
    simp only [scan, EvbufferChain.read_rest inside, Option.bind_eq_bind, Option.bind_some, agrees]
    rw [here.ahead_cons, List.findIdx?_append]
    cases local_ : (chain.data.drop i).findIdx? p with
    | some k =>
      have bound : k < chain.off - i := by
        have := (List.findIdx?_eq_some_iff_getElem.mp local_).1
        simpa using this
      refine ⟨_, rfl, _, rfl, here.along (by omega), chain, rfl, ?_⟩
      change i + k < chain.off
      omega
    | none =>
      obtain ⟨found, scanned, result⟩ := ih _ _ here.next
      have later := here.next.ahead
      change (content rest).drop 0 = _ at later
      rw [List.drop_zero] at later
      refine ⟨found, scanned, ?_⟩
      rw [← later] at result
      cases search : (content rest).findIdx? p with
      | none =>
        rw [search] at result
        exact result
      | some k =>
        rw [search] at result
        obtain ⟨it, same, points⟩ := result
        refine ⟨it, same, ?_⟩
        have moved : n + (chain.off - i) + k = n + (k + (chain.off - i)) := by omega
        rw [List.length_drop, chain.length_data]
        exact moved ▸ points

/-- A search for a single character, the first of the line's end. -/
theorem strchr_eq (chr : UInt8) (here : At buf ptr n) :
    ∃ found, ptr.strchr chr = some found ∧
      match memchr chr (buf.bytes.drop n) with
      | none => found = none
      | some k => ∃ it, found = some it ∧ Points buf it (n + k) :=
  scan_eq (fun _ => rfl) here

theorem strspn_eq (chrset : Bytes) (here : At buf ptr n) :
    strspn chrset ptr.onward ptr.posInChain =
      some ((buf.bytes.drop n).takeWhile (· ∈ chrset)).length := by
  obtain ⟨pos, onward, i⟩ := ptr
  induction onward generalizing pos i n with
  | nil =>
    rw [← here.ahead]
    simp [strspn]
  | cons chain rest ih =>
    have inside : i ≤ chain.off := here.inside chain rfl
    have later := here.next.ahead
    change (content rest).drop 0 = _ at later
    rw [List.drop_zero] at later
    have ih := ih _ _ here.next
    rw [← later] at ih
    simp only [strspn, EvbufferChain.read_rest inside, Option.bind_eq_bind, Option.bind_some, ih,
      here.ahead_cons, List.takeWhile_append, Option.map_some]
    have most := (List.takeWhile_prefix (p := (· ∈ chrset)) (l := chain.data.drop i)).length_le
    split
    · next stops => rw [if_neg (by omega)]
    · next passes =>
      have all : ((chain.data.drop i).takeWhile (· ∈ chrset)).length =
          (chain.data.drop i).length := by omega
      rw [if_pos all, List.length_append, all]

theorem getchr_eq (points : Points buf ptr n) : ptr.getchr = some (buf.bytes[n]?) := by
  obtain ⟨pos, onward, i⟩ := ptr
  obtain ⟨here, chain, first, inside⟩ := points
  obtain ⟨rest, rfl⟩ := List.head?_eq_some_iff.mp first
  change i < chain.off at inside
  have char : (chain.data.drop i).take 1 = (buf.bytes.drop n).take 1 := by
    rw [here.ahead_cons,
      List.take_append_of_le_length (by rw [List.length_drop, chain.length_data]; omega)]
  rw [← List.head?_drop, EvbufferPtr.getchr]
  simp only [EvbufferChain.read_eq (show i + 1 ≤ chain.off by omega), char, Option.map_some,
    List.head?_take, Nat.one_ne_zero, ↓reduceIte]

/-- The loop of `evbuffer_ptr_set` goes to a position, or as far as there are bytes. -/
theorem walk_eq {pos : ℤ} {chains : List EvbufferChain} {position : ℕ} (left : ℕ)
    (here : At buf ⟨pos, chains, position⟩ n) :
    ∃ chains' position' left', walk chains position left = some (chains', position', left') ∧
      match chains' with
      | [] => buf.bytes.length + left' = n + left
      | chain :: rest =>
          Points buf ⟨(n + left : ℕ), chain :: rest, position' + left'⟩ (n + left) := by
  induction chains generalizing pos position n left with
  | nil =>
    obtain ⟨passed, parts, place⟩ := here.place
    refine ⟨[], position, left, rfl, ?_⟩
    have zero : position = 0 := here.ended rfl
    rw [bytes, parts, place, zero, List.append_nil, Nat.add_zero]
  | cons chain rest ih =>
    have inside : position ≤ chain.off := here.inside chain rfl
    rw [walk]
    split
    · next beyond =>
      rw [if_neg (by omega)]
      have moved : n + (chain.off - position) + (left - (chain.off - position)) = n + left := by
        omega
      have result := ih (left - (chain.off - position)) here.next
      rwa [moved] at result
    · next within =>
      refine ⟨_, _, _, rfl, ?_⟩
      have moved := here.along (k := left) (by omega)
      exact ⟨⟨rfl, moved.place, moved.inside, moved.ended⟩, chain, rfl, by dsimp only; omega⟩

/-- What `evbuffer_ptr_set` says and leaves behind when it is asked for a position. -/
structure Reached (buf : ChainBuffer) (n : ℕ) (ok : Bool) (ptr : EvbufferPtr) : Prop where
  inside : ok = true → At buf ptr n
  char : ok = true → n < buf.bytes.length → Points buf ptr n
  beyond : ok = false → buf.bytes.length < n ∧ ptr = notFound

theorem settle_eq {pos : ℤ} {chains : List EvbufferChain} {position : ℕ} (left : ℕ)
    (here : At buf ⟨pos, chains, position⟩ n) (fits : position = 0 ∨ position + left ≤ sizeMax) :
    ∃ ok ptr, settle (n + left : ℕ) chains position left = some (ok, ptr) ∧
      Reached buf (n + left) ok ptr := by
  obtain ⟨chains', position', left', walked, result⟩ := walk_eq left here
  rw [settle, if_neg (by omega), walked, Option.bind_eq_bind, Option.bind_some]
  cases chains' with
  | nil =>
    dsimp only at result ⊢
    split
    · next exact_ =>
      refine ⟨true, _, rfl, fun _ => ⟨rfl, ⟨buf.chains, (List.append_nil _).symm, ?_⟩, by simp,
        fun _ => rfl⟩, fun _ short => by omega, by simp⟩
      rw [← bytes]
      change _ = _ + 0
      omega
    · next more => exact ⟨false, _, rfl, by simp, by simp, fun _ => ⟨by omega, rfl⟩⟩
  | cons chain rest => exact ⟨true, _, rfl, fun _ => result.toAt, fun _ _ => result, by simp⟩

/-- `evbuffer_ptr_set` reaches every position of the stream and its end, and no other. -/
theorem ptrSet_eq (how : PtrHow) (here : At buf ptr n) (position : ℕ)
    (fits : how = .set ∨ n + position ≤ sizeMax) :
    ∃ ok ptr', buf.ptrSet ptr position how = some (ok, ptr') ∧
      Reached buf (match how with | .set => position | .add => n + position) ok ptr' := by
  cases how with
  | set =>
    have result := settle_eq position (at_start buf) (.inl rfl)
    rwa [Nat.zero_add] at result
  | add =>
    have start := here.pos
    have bound : ptr.posInChain ≤ n := by
      obtain ⟨passed, -, place⟩ := here.place
      omega
    have sized : n + position ≤ sizeMax := fits.resolve_left nofun
    obtain ⟨ok, ptr', settled, reached⟩ := settle_eq position here (.inr (by omega))
    refine ⟨ok, ptr', ?_, reached⟩
    rw [ptrSet, if_neg (by omega), start, ← settled, Int.natCast_add]

/-- `evbuffer_ptr_subtract` goes back as far as the beginning. -/
theorem ptrSubtract_eq (here : At buf ptr n) {howfar : ℕ} (some_ : 0 < howfar)
    (back : howfar ≤ n) :
    ∃ ptr', buf.ptrSubtract ptr howfar = some (true, ptr') ∧ Points buf ptr' (n - howfar) := by
  have start := here.pos
  have length := here.le_length
  rw [ptrSubtract, if_neg (by omega), if_neg (by omega)]
  split
  · next near =>
    obtain ⟨chain, rest, shape⟩ := List.exists_cons_of_ne_nil near.1
    have inside := here.inside chain (by simp [shape])
    obtain ⟨passed, parts, place⟩ := here.place
    refine ⟨_, rfl, ⟨?_, ⟨passed, parts, ?_⟩, ?_, fun none_ => absurd none_ near.1⟩, chain, ?_, ?_⟩
    · dsimp only
      omega
    · dsimp only
      omega
    · intro c same
      have := here.inside c same
      dsimp only
      omega
    · simp [shape]
    · dsimp only
      omega
  · obtain ⟨ok, ptr', reached, result⟩ :=
      ptrSet_eq .set here (ptr.pos - howfar).toNat (.inl rfl)
    have place : (ptr.pos - howfar).toNat = n - howfar := by omega
    cases ok with
    | true => exact ⟨ptr', reached, place ▸ result.char rfl (by dsimp only; omega)⟩
    | false =>
      have := (result.beyond rfl).1
      dsimp only at this
      omega

theorem memcmpLoop_nil (chains : List EvbufferChain) (position : ℕ) :
    memcmpLoop chains position [] = some true := by
  cases chains <;> simp [memcmpLoop]

theorem memcmpLoop_eq {pos : ℤ} {chains : List EvbufferChain} {position : ℕ} {mem : Bytes}
    (here : At buf ⟨pos, chains, position⟩ n) (room : n + mem.length ≤ buf.bytes.length) :
    memcmpLoop chains position mem = some (decide (mem <+: buf.bytes.drop n)) := by
  induction chains generalizing pos position n mem with
  | nil =>
    have ahead := here.ahead
    obtain rfl : mem = [] := by
      have length := congrArg List.length ahead
      rw [List.length_drop, List.length_drop] at length
      simp only [content_nil, List.length_nil] at length
      exact List.length_eq_zero_iff.mp (by omega)
    simp [memcmpLoop]
  | cons chain rest ih =>
    have inside : position ≤ chain.off := here.inside chain rfl
    rw [memcmpLoop]
    split
    · next none_ => simp [none_]
    · next some_ =>
      rw [here.ahead_cons]
      have length : (chain.data.drop position).length = chain.off - position := by
        rw [List.length_drop, chain.length_data]
      dsimp only
      split
      · next longer =>
        have later := here.next.ahead
        change (content rest).drop 0 = _ at later
        rw [List.drop_zero] at later
        have short : chain.off - position ≤ mem.length := by omega
        rw [EvbufferChain.read_rest inside, Option.bind_eq_bind, Option.bind_some, ← length]
        rw [← length] at short
        split
        · next agree =>
          rw [ih here.next (by rw [List.length_drop]; omega), ← later]
          conv => rhs; rw [← List.take_append_drop (chain.data.drop position).length mem, ← agree]
          simp only [List.prefix_append_right_inj]
        · next differ =>
          have apart : ¬mem <+: chain.data.drop position ++ content rest := by
            intro follows
            rw [List.prefix_iff_eq_take] at follows
            rw [follows, List.take_take, Nat.min_eq_left short, List.take_left] at differ
            exact differ rfl
          rw [decide_eq_false apart]
      · next within =>
        rw [EvbufferChain.read_eq (by omega), Option.bind_eq_bind, Option.bind_some,
          List.take_length, List.drop_length, memcmpLoop_nil]
        have same : mem <+: chain.data.drop position ++ content rest ↔
            (chain.data.drop position).take mem.length = mem := by
          rw [List.prefix_iff_eq_take, List.take_append_of_le_length (by omega), eq_comm]
        split
        · next agree => rw [decide_eq_true (same.mpr agree)]
        · next differ => rw [decide_eq_false (fun follows => differ (same.mp follows))]

/-- `evbuffer_ptr_memcmp` compares with the bytes of the stream. -/
theorem ptrMemcmp_eq (wf : buf.Wf) (sized : buf.totalLen ≤ sizeMax) (here : At buf ptr n)
    (mem : Bytes) : buf.ptrMemcmp ptr mem = some (decide (mem <+: buf.bytes.drop n)) := by
  have start := here.pos
  have counted := wf.counted
  rw [ptrMemcmp]
  split
  · next excess =>
    have apart : ¬mem <+: buf.bytes.drop n := by
      intro follows
      have := follows.length_le
      have := here.le_length
      rw [List.length_drop] at *
      omega
    rw [decide_eq_false apart]
  · next within => exact memcmpLoop_eq here (by omega)

end ChainBuffer

end MerlinC.Model
