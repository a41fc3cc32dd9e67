import MerlinC.Model.ChainPointer
import MerlinC.Model.ChainPullup

/-! # Searching an evbuffer

`evbuffer_search_range` looks for a text in the chains: for its first character within one chain,
and for the rest of it from there on. It finds the first place where the text begins in the stream.
-/

namespace MerlinC.Model

open Math

/-- `EV_SSIZE_MAX`. -/
def ssizeMax : ℕ := 0x7FFFFFFFFFFFFFFF

namespace ChainBuffer

open EvbufferPtr

/-- The loop of `evbuffer_search_range`. A chain is the one the end lies in if as many chains come
after it. -/
def searchLoop (buf : ChainBuffer) (what : Bytes) (first : UInt8) (stop : Option EvbufferPtr) :
    List EvbufferChain → ℕ → ℤ → Option EvbufferPtr
  | [], _, _ => some notFound
  | chain :: rest, posInChain, pos =>
      match chain.read posInChain (chain.off - posInChain) with
      | none => none
      | some text =>
        match memchr first text with
        | some k =>
          match buf.ptrMemcmp ⟨pos + k, chain :: rest, posInChain + k⟩ what with
          | none => none
          | some true =>
            if stop.any (·.pos < pos + k + what.length) then some notFound
            else some ⟨pos + k, chain :: rest, posInChain + k⟩
          | some false =>
            -- The character found is in the chain, so the next one is its end or in it too.
            if posInChain + k + 1 < chain.off then
              searchLoop buf what first stop (chain :: rest) (posInChain + k + 1) (pos + k + 1)
            else searchLoop buf what first stop rest 0 (pos + k + 1)
        | none =>
          if stop.any (·.onward.length = rest.length + 1) then some notFound
          else searchLoop buf what first stop rest 0 (pos + (chain.off - posInChain : ℕ))
termination_by onward posInChain _ => (onward.length, (onward.head?.elim 0 (·.off)) - posInChain)

/-- `evbuffer_search_range`. -/
def searchRange (buf : ChainBuffer) (what : Bytes) (start stop : Option EvbufferPtr) :
    Option EvbufferPtr :=
  let pos := start.getD ⟨0, buf.chains, 0⟩
  match what with
  | [] => some pos
  | first :: _ =>
    if ssizeMax < what.length then some pos
    else buf.searchLoop what first stop pos.onward pos.posInChain pos.pos

/-- `evbuffer_search`. -/
def search (buf : ChainBuffer) (what : Bytes) (start : Option EvbufferPtr) : Option EvbufferPtr :=
  buf.searchRange what start none

/-- `evbuffer_find`: whether a text is found, and the buffer with the text in its first chain. -/
def find (malloc : Malloc) (buf : ChainBuffer) (what : Bytes) :
    Option (Option ℕ × ChainBuffer) := do
  let ptr ← buf.search what none
  if ptr.pos < 0 then some (none, buf)
  else
    let (ok, buf) ← buf.pullup malloc (ptr.pos + what.length)
    some (if ok then some ptr.pos.toNat else none, buf)

variable {buf : ChainBuffer} {ptr : EvbufferPtr} {n : ℕ}

/-- What a search from a position on is to find, unless it is found too late. -/
def Sought (buf : ChainBuffer) (what : Bytes) (stop : Option EvbufferPtr) (n : ℕ)
    (found : EvbufferPtr) : Prop :=
  match Math.find what (buf.bytes.drop n) with
  | none => found = notFound
  | some k =>
      if stop.any (·.pos < (n : ℤ) + k + what.length) then found = notFound
      else At buf found (n + k)

/-- Positions where the text does not begin may be left out. -/
theorem Sought.later {what : Bytes} {stop : Option EvbufferPtr} {found : EvbufferPtr} {count : ℕ}
    (sought : Sought buf what stop (n + count) found) (inside : n + count ≤ buf.bytes.length)
    (absent : ∀ i < count, ¬what <+: buf.bytes.drop (n + i)) : Sought buf what stop n found := by
  have shifted : Math.find what (buf.bytes.drop n) =
      (Math.find what (buf.bytes.drop (n + count))).map (· + count) := by
    rw [← List.drop_drop]
    apply find_drop
    · rw [List.length_drop]
      omega
    · intro i bound
      rw [List.drop_drop]
      exact absent i bound
  unfold Sought at sought ⊢
  rw [shifted]
  cases search : Math.find what (buf.bytes.drop (n + count)) with
  | none =>
    rw [search] at sought
    exact sought
  | some k =>
    rw [search] at sought
    have moved : n + count + k = n + (k + count) := by omega
    have moved' : ((n + count : ℕ) : ℤ) + k + what.length = n + (k + count : ℕ) + what.length := by
      omega
    simpa only [Option.map_some, moved, moved'] using sought

/-- A text that begins here is found, unless it ends too late. -/
theorem sought_here {what : Bytes} (stop : Option EvbufferPtr) (follows : what <+: buf.bytes.drop n)
    (here : At buf ptr n) :
    Sought buf what stop n
      (if stop.any (·.pos < ptr.pos + what.length) then notFound else ptr) := by
  rw [here.pos, Sought, find_here follows]
  dsimp only
  rw [Int.natCast_zero, Int.add_zero]
  split
  · rfl
  · exact here

/-- Behind the end nothing is found. -/
theorem sought_beyond {what : Bytes} {stop : Option EvbufferPtr} {last : EvbufferPtr}
    (ends : last ∈ stop) (beyond : last.pos ≤ n) (some_ : what ≠ []) :
    Sought buf what stop n notFound := by
  obtain rfl : stop = some last := ends
  have long := List.length_pos_iff.mpr some_
  unfold Sought
  split
  · rfl
  · rw [if_pos]
    rw [Option.any_some, decide_eq_true_eq]
    omega

/-- The characters of the chain a pointer is in. -/
theorem At.char {pos : ℤ} {chain : EvbufferChain} {rest : List EvbufferChain} {i j : ℕ}
    (here : At buf ⟨pos, chain :: rest, i⟩ n) (inside : j < chain.off - i) :
    buf.bytes[n + j]? = (chain.data.drop i)[j]? := by
  rw [← List.getElem?_drop, here.ahead_cons, List.getElem?_append_left]
  rwa [List.length_drop, chain.length_data]

theorem At.absent {pos : ℤ} {chain : EvbufferChain} {rest : List EvbufferChain} {i j : ℕ}
    {first : UInt8} {more : Bytes} (here : At buf ⟨pos, chain :: rest, i⟩ n)
    (inside : j < chain.off - i) (other : (chain.data.drop i)[j]? ≠ some first) :
    ¬first :: more <+: buf.bytes.drop (n + j) :=
  not_prefix_of_ne (here.char inside ▸ other)

/-- A pointer into the same chain as another. -/
theorem At.same_chain {last : EvbufferPtr} {m : ℕ} {pos : ℤ} {chain : EvbufferChain}
    {rest : List EvbufferChain} {i : ℕ} (ends : At buf last m)
    (here : At buf ⟨pos, chain :: rest, i⟩ n) (same : last.onward.length = rest.length + 1) :
    m ≤ n + (chain.off - i) := by
  obtain ⟨passed, parts, place⟩ := here.place
  obtain ⟨passed', parts', place'⟩ := ends.place
  obtain ⟨rfl, onward⟩ := List.append_inj' (parts'.symm.trans parts) same
  have inside := ends.inside chain (by rw [onward]; rfl)
  have inside' : i ≤ chain.off := here.inside chain rfl
  dsimp only at place
  omega

/-- The next place in the chain where the text may begin. -/
theorem At.candidate {pos : ℤ} {chain : EvbufferChain} {rest : List EvbufferChain} {i k : ℕ}
    {first : UInt8} {text : Bytes} (here : At buf ⟨pos, chain :: rest, i⟩ n)
    (read : chain.read i (chain.off - i) = some text) (found : memchr first text = some k)
    (more : Bytes) :
    i + k < chain.off ∧ At buf ⟨pos + k, chain :: rest, i + k⟩ (n + k) ∧
      ∀ j < k, ¬first :: more <+: buf.bytes.drop (n + j) := by
  have inside : i ≤ chain.off := here.inside chain rfl
  obtain rfl := Option.some.inj ((EvbufferChain.read_rest inside).symm.trans read)
  obtain ⟨bound, -, before⟩ := List.findIdx?_eq_some_iff_getElem.mp found
  have length : (chain.data.drop i).length = chain.off - i := by
    rw [List.length_drop, chain.length_data]
  refine ⟨by omega, here.along (by omega), fun j earlier => here.absent (by omega) ?_⟩
  rw [List.getElem?_eq_getElem (Nat.lt_trans earlier bound)]
  intro same
  apply before j earlier
  rw [Option.some.inj same, beq_self_eq_true]

/-- A chain in which the text begins nowhere. -/
theorem At.nowhere {pos : ℤ} {chain : EvbufferChain} {rest : List EvbufferChain} {i : ℕ}
    {first : UInt8} {text : Bytes} (here : At buf ⟨pos, chain :: rest, i⟩ n)
    (read : chain.read i (chain.off - i) = some text) (missing : memchr first text = none)
    (more : Bytes) : ∀ j < chain.off - i, ¬first :: more <+: buf.bytes.drop (n + j) := by
  have inside : i ≤ chain.off := here.inside chain rfl
  obtain rfl := Option.some.inj ((EvbufferChain.read_rest inside).symm.trans read)
  intro j bound
  apply here.absent bound
  intro same
  have := List.findIdx?_eq_none_iff.mp missing first (List.mem_of_getElem? same)
  simp at this

theorem searchLoop_eq (wf : buf.Wf) (sized : buf.totalLen ≤ sizeMax) {first : UInt8} {more : Bytes}
    {stop : Option EvbufferPtr} (stops : ∀ last ∈ stop, ∃ m, At buf last m) {pos : ℤ}
    {onward : List EvbufferChain} {i : ℕ} (here : At buf ⟨pos, onward, i⟩ n) :
    ∃ found, buf.searchLoop (first :: more) first stop onward i pos = some found ∧
      Sought buf (first :: more) stop n found := by
  have compared (pos : ℤ) (chain : EvbufferChain) (rest : List EvbufferChain) (i m : ℕ)
      (there : At buf ⟨pos, chain :: rest, i⟩ m) :=
    ptrMemcmp_eq wf sized there (first :: more)
  induction onward, i, pos using searchLoop.induct buf (first :: more) first stop
    generalizing n with
  | case1 i pos =>
    have none_ : buf.bytes.drop n = [] := by
      rw [← here.ahead]
      exact List.drop_nil
    refine ⟨notFound, by rw [searchLoop], ?_⟩
    rw [Sought, none_]
    rfl
  | case2 chain rest i pos out =>
    have inside : i ≤ chain.off := here.inside chain rfl
    rw [EvbufferChain.read_rest inside] at out
    contradiction
  | case3 chain rest i pos text read k atFirst out =>
    rw [compared _ _ _ _ _ (here.candidate read atFirst more).2.1] at out
    contradiction
  | case4 chain rest i pos text read k atFirst equal late =>
    obtain ⟨-, there, absent⟩ := here.candidate read atFirst more
    have follows := of_decide_eq_true
      (Option.some.inj ((compared _ _ _ _ _ there).symm.trans equal))
    have result := sought_here stop follows there
    rw [if_pos late] at result
    refine ⟨notFound, ?_, result.later there.le_length absent⟩
    rw [searchLoop, read]
    simp only [atFirst, equal, late, ↓reduceIte]
  | case5 chain rest i pos text read k atFirst equal early =>
    obtain ⟨-, there, absent⟩ := here.candidate read atFirst more
    have follows := of_decide_eq_true
      (Option.some.inj ((compared _ _ _ _ _ there).symm.trans equal))
    have result := sought_here stop follows there
    rw [if_neg early] at result
    refine ⟨_, ?_, result.later there.le_length absent⟩
    rw [searchLoop, read]
    simp only [atFirst, equal, early, Bool.false_eq_true, ↓reduceIte]
  | case6 chain rest i pos text read k atFirst unequal inside ih =>
    obtain ⟨-, there, absent⟩ := here.candidate read atFirst more
    have differs := of_decide_eq_false
      (Option.some.inj ((compared _ _ _ _ _ there).symm.trans unequal))
    have step : At buf ⟨pos + k + 1, chain :: rest, i + k + 1⟩ (n + (k + 1)) :=
      there.along (k := 1) (by omega)
    obtain ⟨found, searched, result⟩ := ih step
    refine ⟨found, ?_, result.later step.le_length ?_⟩
    · rw [searchLoop, read]
      simp only [atFirst, unequal, inside, ↓reduceIte]
      exact searched
    · intro j bound
      rcases Nat.lt_or_eq_of_le (Nat.le_of_lt_succ bound) with earlier | rfl
      · exact absent j earlier
      · exact differs
  | case7 chain rest i pos text read k atFirst unequal last ih =>
    obtain ⟨inside, there, absent⟩ := here.candidate read atFirst more
    have differs := of_decide_eq_false
      (Option.some.inj ((compared _ _ _ _ _ there).symm.trans unequal))
    have one : chain.off - (i + k) = 1 := by omega
    have step := there.next
    rw [one] at step
    obtain ⟨found, searched, (result : Sought buf _ stop (n + (k + 1)) found)⟩ := ih step
    refine ⟨found, ?_, result.later step.le_length ?_⟩
    · rw [searchLoop, read]
      simp only [atFirst, unequal, last, ↓reduceIte]
      exact searched
    · intro j bound
      rcases Nat.lt_or_eq_of_le (Nat.le_of_lt_succ bound) with earlier | rfl
      · exact absent j earlier
      · exact differs
  | case8 chain rest i pos text read missing ends =>
    have absent := here.nowhere read missing more
    obtain ⟨last, given, same⟩ := (Option.any_eq_true _ _).mp ends
    obtain ⟨m, there⟩ := stops last given
    have bound := there.same_chain here (of_decide_eq_true same)
    have step := here.next
    have result : Sought buf (first :: more) stop (n + (chain.off - i)) notFound :=
      sought_beyond given (by rw [there.pos]; omega) (List.cons_ne_nil _ _)
    refine ⟨notFound, ?_, result.later step.le_length absent⟩
    rw [searchLoop, read]
    simp only [missing, ends, ↓reduceIte]
  | case9 chain rest i pos text read missing goes ih =>
    have absent := here.nowhere read missing more
    have step := here.next
    obtain ⟨found, searched, result⟩ := ih step
    refine ⟨found, ?_, result.later step.le_length absent⟩
    rw [searchLoop, read]
    simp only [missing, goes, Bool.false_eq_true, ↓reduceIte]
    exact searched

/-- `evbuffer_search_range` finds the first place from the start on where the text begins in the
stream, or nothing if it does not end before the end. -/
theorem searchRange_eq (wf : buf.Wf) (sized : buf.totalLen ≤ sizeMax) {what : Bytes}
    (short : what.length ≤ ssizeMax) (start stop : Option EvbufferPtr)
    (starts : match start with | none => n = 0 | some ptr => At buf ptr n)
    (stops : ∀ last ∈ stop, ∃ m, At buf last m) (some_ : what ≠ []) :
    ∃ found, buf.searchRange what start stop = some found ∧ Sought buf what stop n found := by
  have here : At buf (start.getD ⟨0, buf.chains, 0⟩) n := by
    cases start with
    | none => exact starts ▸ at_start buf
    | some ptr => exact starts
  obtain ⟨first, more, rfl⟩ := List.exists_cons_of_ne_nil some_
  rw [searchRange, if_neg (Nat.not_lt.mpr short)]
  exact searchLoop_eq wf sized stops here

theorem search_eq (wf : buf.Wf) (sized : buf.totalLen ≤ sizeMax) {what : Bytes}
    (short : what.length ≤ ssizeMax) (some_ : what ≠ []) (start : Option EvbufferPtr)
    (starts : match start with | none => n = 0 | some ptr => At buf ptr n) :
    ∃ found, buf.search what start = some found ∧
      match Math.find what (buf.bytes.drop n) with
      | none => found = notFound
      | some k => At buf found (n + k) :=
  searchRange_eq wf sized short start none starts nofun some_

/-- `evbuffer_find` finds the first place of the text in the stream, and the text then lies in one
piece in the first chain. -/
theorem find_eq (malloc : Malloc) (wf : buf.Wf) (sized : buf.totalLen ≤ sizeMax) {what : Bytes}
    (short : what.length ≤ ssizeMax) (some_ : what ≠ []) :
    ∃ found buf', buf.find malloc what = some (found, buf') ∧ buf'.Wf ∧ buf'.stream = buf.stream ∧
      match found with
      | none => Math.find what buf.bytes = none ∨ OutOfMemory malloc buf.bytes.length
      | some pos => Math.find what buf.bytes = some pos ∧
          ∃ chain, buf'.chains.head? = some chain ∧ pos + what.length ≤ chain.off := by
  obtain ⟨ptr, searched, result⟩ := search_eq (n := 0) wf sized short some_ none rfl
  rw [ChainBuffer.find, searched, Option.bind_eq_bind, Option.bind_some]
  rw [List.drop_zero] at result
  cases found : Math.find what buf.bytes with
  | none =>
    rw [found] at result
    obtain rfl := result
    exact ⟨none, buf, rfl, wf, rfl, .inl rfl⟩
  | some k =>
    rw [found] at result
    have start := result.pos
    have long := List.length_pos_iff.mpr some_
    have fits := (find_eq_some found).1.length_le
    rw [List.length_drop] at fits
    have asked : buf.wanted (ptr.pos + what.length) = k + what.length := by
      rw [wanted, if_neg (by omega)]
      omega
    obtain ⟨ok, buf', pulled, wf', same, joined, failed⟩ :=
      pullup_eq malloc wf (ptr.pos + what.length)
    rw [if_neg (by omega), pulled, Option.bind_eq_bind, Option.bind_some]
    rw [asked] at joined failed
    cases ok with
    | true =>
      refine ⟨some k, buf', ?_, wf', same, rfl, joined rfl⟩
      simp only [start, ↓reduceIte]
      rw [Nat.zero_add]
      rfl
    | false =>
      refine ⟨none, buf', rfl, wf', same, ?_⟩
      rcases failed rfl with zero | excess | refused
      · omega
      · omega
      · exact .inr (refused.mono (by omega))

end ChainBuffer

end MerlinC.Model
