import MerlinC.Model.ChainRemove
import MerlinC.Model.ChainSearch

/-! # Lines of an evbuffer

`evbuffer_readln` cuts a line off the stream at one of five kinds of line ends. `EolStyle.Ends` says
what each kind is as a format of plain bytes, and the search through the chains accepts exactly
that format.
-/

namespace MerlinC.Model

open Math

/-- `enum evbuffer_eol_style`. -/
inductive EolStyle where
  | any
  | crlf
  | crlfStrict
  | lf
  | nul
deriving DecidableEq

def carriageReturn : UInt8 := 13

def lineFeed : UInt8 := 10

/-- `find_eol_char`, which looks at 128 characters at a time. -/
def findEolIn (s : Bytes) : Option ℕ :=
  if s = [] then none
  else
    let chunk := if 128 < s.length then 128 else s.length
    match memchr carriageReturn (s.take chunk), memchr lineFeed (s.take chunk) with
    | some cr, some lf => some (if lf < cr then lf else cr)
    | some cr, none => some cr
    | none, some lf => some lf
    | none, none => (findEolIn (s.drop 128)).map (· + 128)
termination_by s.length
decreasing_by
  have := List.length_pos_iff.mpr ‹s ≠ []›
  rw [List.length_drop]
  omega

namespace EvbufferPtr

/-- `evbuffer_find_eol_char`. -/
def findEolChar (it : EvbufferPtr) : Option (Option EvbufferPtr) :=
  scan findEolIn it.onward it.posInChain it.pos

end EvbufferPtr

namespace ChainBuffer

open EvbufferPtr

/-- `evbuffer_search_eol`: where a line ends, and how long its end is. -/
def searchEol (buf : ChainBuffer) (start : Option EvbufferPtr) (style : EolStyle) :
    Option (EvbufferPtr × ℕ) :=
  let it := start.getD ⟨0, buf.chains, 0⟩
  if start.any (·.onward = []) then some (notFound, 0)
  else
    match style with
    | .any => do
      match ← it.findEolChar with
      | none => some (notFound, 0)
      | some it =>
        let extra ← strspn [carriageReturn, lineFeed] it.onward it.posInChain
        some (it, extra)
    | .crlfStrict => do
      let it ← buf.search [carriageReturn, lineFeed] (some it)
      if it.pos < 0 then some (notFound, 0) else some (it, 2)
    | .crlf => do
      match ← it.strchr lineFeed with
      | none => some (notFound, 0)
      | some found =>
        if found.pos = it.pos then some (found, 1)
        else
          let (ok, it2) ← buf.ptrSubtract found 1
          if ok = false then some (found, 1)
          else
            let chr ← it2.getchr
            if chr = some carriageReturn then some (it2, 2) else some (found, 1)
    | .lf => do
      match ← it.strchr lineFeed with
      | none => some (notFound, 0)
      | some found => some (found, 1)
    | .nul => do
      match ← it.strchr 0 with
      | none => some (notFound, 0)
      | some found => some (found, 1)

/-- `evbuffer_readln`. The line it returns is read only as far as it was copied. -/
def readln (malloc : Malloc) (buf : ChainBuffer) (style : EolStyle) :
    Option (Option Bytes × ChainBuffer) :=
  if buf.freezeStart then some (none, buf)
  else do
    let (it, extraDrain) ← buf.searchEol none style
    if it.pos < 0 then some (none, buf)
    else if malloc.block (it.pos.toNat + 1) = none then some (none, buf)
    else
      let (line, buf) ← buf.remove it.pos.toNat
      let (_, buf) ← buf.drain extraDrain
      if line.map (·.length) = some it.pos.toNat then some (line, buf) else none

end ChainBuffer

/-- The characters `find_eol_char` looks for. -/
def isEol (chr : UInt8) : Bool := chr == carriageReturn || chr == lineFeed

/-- Looking at 128 characters at a time finds what looking at one at a time does. -/
theorem findEolIn_eq (s : Bytes) : findEolIn s = s.findIdx? isEol := by
  induction length : s.length using Nat.strongRecOn generalizing s with
  | ind n ih =>
    subst length
    rw [findEolIn]
    split
    · next none_ => rw [none_, List.findIdx?_nil]
    · next some_ =>
      have long := List.length_pos_iff.mpr some_
      have chunk : s.take (if 128 < s.length then 128 else s.length) = s.take 128 := by
        split
        · rfl
        · rw [List.take_length, List.take_of_length_le (by omega)]
      have merged := first_findIdx? (· == carriageReturn) (· == lineFeed) (s.take 128)
      have whole : s.findIdx? isEol = ((s.take 128).findIdx? isEol).or
          (((s.drop 128).findIdx? isEol).map (· + (s.take 128).length)) := by
        rw [← List.findIdx?_append, List.take_append_drop]
      have fewer : (s.drop 128).length < s.length := by
        rw [List.length_drop]
        omega
      change _ = (s.take 128).findIdx? isEol at merged
      rw [whole, ← ih _ fewer (s.drop 128) rfl, ← merged]
      simp only [chunk, memchr]
      cases (s.take 128).findIdx? (· == carriageReturn) with
      | some cr =>
        cases (s.take 128).findIdx? (· == lineFeed) with
        | some lf =>
          simp only [first, Option.some_or, Option.some.injEq]
          split <;> omega
        | none => rfl
      | none =>
        cases (s.take 128).findIdx? (· == lineFeed) with
        | some lf => rfl
        | none =>
          simp only [first, Option.none_or]
          rcases Nat.lt_or_ge 128 s.length with more | last
          · rw [List.length_take, Nat.min_eq_left (Nat.le_of_lt more)]
          · rw [List.drop_of_length_le last, findEolIn, if_pos rfl]
            rfl

/-- Where the first line of a text ends, and how long its end is. -/
def EolStyle.split (text : Bytes) : EolStyle → Option (ℕ × ℕ)
  | .any => (text.findIdx? isEol).map fun i => (i, ((text.drop i).takeWhile isEol).length)
  | .crlf => (memchr lineFeed text).map fun i =>
      if 0 < i ∧ text[i - 1]? = some carriageReturn then (i - 1, 2) else (i, 1)
  | .crlfStrict => (Math.find [carriageReturn, lineFeed] text).map (·, 2)
  | .lf => (memchr lineFeed text).map (·, 1)
  | .nul => (memchr 0 text).map (·, 1)

/-- The lines of each kind of line end: a line, its end and what follows. -/
def EolStyle.Ends (line eol rest : Bytes) : EolStyle → Prop
  | .any => (∀ chr ∈ line, isEol chr = false) ∧ eol ≠ [] ∧ (∀ chr ∈ eol, isEol chr = true) ∧
      ∀ chr ∈ rest.head?, isEol chr = false
  | .crlf => lineFeed ∉ line ∧
      (eol = [carriageReturn, lineFeed] ∨ eol = [lineFeed] ∧ line.getLast? ≠ some carriageReturn)
  | .crlfStrict => eol = [carriageReturn, lineFeed] ∧
      ∀ i < line.length, ¬eol <+: (line ++ eol ++ rest).drop i
  | .lf => eol = [lineFeed] ∧ lineFeed ∉ line
  | .nul => eol = [0] ∧ 0 ∉ line

/-- A search for one character cuts the text there. -/
theorem memchr_eq_some {chr : UInt8} {text : Bytes} {i : ℕ} : memchr chr text = some i ↔
    ∃ line rest, text = line ++ chr :: rest ∧ line.length = i ∧ chr ∉ line := by
  rw [memchr, findIdx?_eq_some_iff_append]
  constructor
  · rintro ⟨line, cell, rest, split, length, here, before⟩
    obtain rfl := beq_iff_eq.mp here
    refine ⟨line, rest, split, length, fun inside => ?_⟩
    have := before cell inside
    simp at this
  · rintro ⟨line, rest, split, length, absent⟩
    refine ⟨line, chr, rest, split, length, beq_self_eq_true chr, fun other inside => ?_⟩
    rw [beq_eq_false_iff_ne]
    rintro rfl
    exact absent inside

theorem EolStyle.split_single (chr : UInt8) (text : Bytes) (i len : ℕ) :
    (memchr chr text).map (·, 1) = some (i, len) ↔ ∃ line eol rest, text = line ++ eol ++ rest ∧
      line.length = i ∧ eol.length = len ∧ eol = [chr] ∧ chr ∉ line := by
  simp only [Option.map_eq_some_iff, memchr_eq_some, Prod.mk.injEq]
  constructor
  · rintro ⟨_, ⟨line, rest, split, length, absent⟩, rfl, rfl⟩
    exact ⟨line, [chr], rest, by simp [split], length, rfl, rfl, absent⟩
  · rintro ⟨line, _, rest, split, length, rfl, rfl, absent⟩
    exact ⟨i, ⟨line, rest, by simp [split], length, absent⟩, rfl, rfl⟩

theorem EolStyle.split_any (text : Bytes) (i len : ℕ) :
    EolStyle.any.split text = some (i, len) ↔ ∃ line eol rest, text = line ++ eol ++ rest ∧
      line.length = i ∧ eol.length = len ∧ EolStyle.any.Ends line eol rest := by
  simp only [split, Option.map_eq_some_iff, findIdx?_eq_some_iff_append, Prod.mk.injEq, Ends]
  constructor
  · rintro ⟨_, ⟨line, cell, rest, rfl, length, here, before⟩, rfl, rfl⟩
    rw [← length, List.drop_left]
    refine ⟨line, (cell :: rest).takeWhile isEol, (cell :: rest).dropWhile isEol, ?_, rfl, rfl,
      before, ?_, ?_, ?_⟩
    · rw [List.append_assoc, List.takeWhile_append_dropWhile]
    · rw [List.takeWhile_cons, if_pos here]
      exact List.cons_ne_nil _ _
    · exact fun chr inside => List.all_eq_true.mp List.all_takeWhile chr inside
    · intro chr first
      have := List.head?_dropWhile_not isEol (cell :: rest)
      rw [Option.mem_def.mp first] at this
      simpa using this
  · rintro ⟨line, eol, rest, rfl, rfl, rfl, before, some_, all, after⟩
    obtain ⟨cell, more, rfl⟩ := List.exists_cons_of_ne_nil some_
    have first : isEol cell = true := all cell (by simp)
    refine ⟨line.length, ⟨line, cell, more ++ rest, by simp, rfl, first, before⟩, rfl, ?_⟩
    rw [List.append_assoc, List.drop_left, List.takeWhile_append_of_pos all]
    cases rest with
    | nil => simp
    | cons chr rest => simp [after chr rfl]

theorem EolStyle.split_crlf (text : Bytes) (i len : ℕ) :
    EolStyle.crlf.split text = some (i, len) ↔ ∃ line eol rest, text = line ++ eol ++ rest ∧
      line.length = i ∧ eol.length = len ∧ EolStyle.crlf.Ends line eol rest := by
  simp only [split, Option.map_eq_some_iff, memchr_eq_some, Ends]
  constructor
  · rintro ⟨_, ⟨front, rest, rfl, rfl, absent⟩, found⟩
    rcases List.eq_nil_or_concat' front with rfl | ⟨line, last, rfl⟩
    · rw [if_neg (by simp)] at found
      obtain ⟨rfl, rfl⟩ := Prod.mk.inj found
      exact ⟨[], [lineFeed], rest, rfl, rfl, rfl, absent, .inr ⟨rfl, nofun⟩⟩
    · have before :
          (line ++ [last] ++ lineFeed :: rest)[(line ++ [last]).length - 1]? = some last := by simp
      rw [before] at found
      split at found
      · next paired =>
        obtain ⟨rfl, rfl⟩ := Prod.mk.inj found
        obtain rfl := Option.some.inj paired.2
        refine ⟨line, [carriageReturn, lineFeed], rest, by simp, by simp, rfl, ?_, .inl rfl⟩
        exact fun inside => absent (List.mem_append_left _ inside)
      · next alone =>
        obtain ⟨rfl, rfl⟩ := Prod.mk.inj found
        refine ⟨line ++ [last], [lineFeed], rest, by simp, rfl, rfl, absent, .inr ⟨rfl, ?_⟩⟩
        rw [List.getLast?_concat]
        exact fun same => alone ⟨by simp, same⟩
  · rintro ⟨line, eol, rest, rfl, rfl, rfl, absent, rfl | ⟨rfl, bare⟩⟩
    · refine ⟨_, ⟨line ++ [carriageReturn], rest, by simp, rfl, ?_⟩, ?_⟩
      · simpa [carriageReturn, lineFeed] using absent
      · simp
    · refine ⟨_, ⟨line, rest, by simp, rfl, absent⟩, ?_⟩
      rw [if_neg]
      · rfl
      · rintro ⟨long, same⟩
        apply bare
        rw [List.getLast?_eq_getElem?, ← same, List.append_assoc,
          List.getElem?_append_left (by omega)]

/-- A line is found exactly where the text begins with one. -/
theorem EolStyle.split_eq_some (style : EolStyle) (text : Bytes) (i len : ℕ) :
    style.split text = some (i, len) ↔ ∃ line eol rest, text = line ++ eol ++ rest ∧
      line.length = i ∧ eol.length = len ∧ style.Ends line eol rest := by
  cases style with
  | any => exact split_any text i len
  | crlf => exact split_crlf text i len
  | crlfStrict =>
    simp only [split, Option.map_eq_some_iff, Prod.mk.injEq, Ends]
    constructor
    · rintro ⟨i, found, rfl, rfl⟩
      obtain ⟨⟨rest, follows⟩, inside, absent⟩ := find_eq_some_iff.mp found
      have length := List.length_take_of_le inside
      have whole : text.take i ++ [carriageReturn, lineFeed] ++ rest = text := by
        rw [List.append_assoc, follows, List.take_append_drop]
      refine ⟨text.take i, _, rest, whole.symm, length, rfl, rfl, ?_⟩
      rwa [whole, length]
    · rintro ⟨line, _, rest, rfl, rfl, rfl, rfl, absent⟩
      refine ⟨line.length, find_eq_some_iff.mpr ⟨?_, by simp, absent⟩, rfl, rfl⟩
      rw [List.append_assoc, List.drop_left]
      exact List.prefix_append _ _
  | lf => exact split_single lineFeed text i len
  | nul => exact split_single 0 text i len

namespace ChainBuffer

open EvbufferPtr

variable {buf : ChainBuffer} {n : ℕ}

/-- What a search for the end of a line is to find. -/
def LineEnd (buf : ChainBuffer) (n : ℕ) (found : Option (ℕ × ℕ)) (it : EvbufferPtr) (len : ℕ) :
    Prop :=
  match found with
  | none => it = notFound ∧ len = 0
  | some (i, eol) => At buf it (n + i) ∧ len = eol

/-- A single character ends the line. -/
theorem endAt_eq (chr : UInt8) {ptr : EvbufferPtr} (here : At buf ptr n) :
    ∃ it len, (ptr.strchr chr).bind (fun
        | none => some (notFound, 0)
        | some found => some (found, 1)) = some (it, len) ∧
      LineEnd buf n ((memchr chr (buf.bytes.drop n)).map (·, 1)) it len := by
  obtain ⟨found, scanned, result⟩ := strchr_eq chr here
  rw [scanned, Option.bind_some]
  cases search : memchr chr (buf.bytes.drop n) with
  | none =>
    rw [search] at result
    exact ⟨notFound, 0, by rw [result], rfl, rfl⟩
  | some k =>
    rw [search] at result
    obtain ⟨it, rfl, points⟩ := result
    exact ⟨it, 1, rfl, points.toAt, rfl⟩

/-- `evbuffer_search_eol` finds the end of the first line of the bytes from the start on. -/
theorem searchEol_eq (wf : buf.Wf) (sized : buf.totalLen ≤ sizeMax) (style : EolStyle)
    (start : Option EvbufferPtr)
    (starts : match start with | none => n = 0 | some ptr => At buf ptr n) :
    ∃ it len, buf.searchEol start style = some (it, len) ∧
      LineEnd buf n (style.split (buf.bytes.drop n)) it len := by
  have here : At buf (start.getD ⟨0, buf.chains, 0⟩) n := by
    cases start with
    | none => exact starts ▸ at_start buf
    | some ptr => exact starts
  have ended : start.any (·.onward = []) = true →
      (start.getD ⟨0, buf.chains, 0⟩).onward = [] := by
    cases start with
    | none => exact nofun
    | some ptr => exact of_decide_eq_true
  unfold searchEol
  generalize start.getD ⟨0, buf.chains, 0⟩ = ptr at here ended ⊢
  dsimp only
  split
  · next stops =>
    have none_ : buf.bytes.drop n = [] := by
      rw [← here.ahead, ended stops]
      exact List.drop_nil
    refine ⟨notFound, 0, rfl, ?_⟩
    rw [none_]
    cases style <;> exact ⟨rfl, rfl⟩
  · cases style with
    | any =>
      obtain ⟨found, scanned, result⟩ := scan_eq findEolIn_eq here
      simp only [EvbufferPtr.findEolChar, scanned, Option.bind_eq_bind, Option.bind_some,
        EolStyle.split]
      cases search : (buf.bytes.drop n).findIdx? isEol with
      | none =>
        rw [search] at result
        exact ⟨notFound, 0, by rw [result], rfl, rfl⟩
      | some k =>
        rw [search] at result
        obtain ⟨it, rfl, points⟩ := result
        have same : (fun chr : UInt8 => decide (chr ∈ [carriageReturn, lineFeed])) = isEol := by
          funext chr
          rw [Bool.eq_iff_iff]
          simp [isEol]
        refine ⟨it, _, ?_, points.toAt, rfl⟩
        simp only [strspn_eq _ points.toAt, same, ← List.drop_drop, Option.bind_some]
    | crlf =>
      obtain ⟨found, scanned, result⟩ := strchr_eq lineFeed here
      simp only [scanned, Option.bind_eq_bind, Option.bind_some, EolStyle.split]
      cases search : memchr lineFeed (buf.bytes.drop n) with
      | none =>
        rw [search] at result
        exact ⟨notFound, 0, by rw [result], rfl, rfl⟩
      | some k =>
        rw [search] at result
        obtain ⟨it, rfl, points⟩ := result
        have place := points.pos
        have start := here.pos
        dsimp only
        split
        · next first =>
          obtain rfl : k = 0 := by omega
          exact ⟨it, 1, rfl, by simpa [LineEnd] using points.toAt⟩
        · next later =>
          have positive : 0 < k := by omega
          obtain ⟨it2, back, points2⟩ := ptrSubtract_eq points.toAt Nat.one_pos (by omega)
          have before : it2.getchr = some (buf.bytes.drop n)[k - 1]? := by
            rw [getchr_eq points2, List.getElem?_drop, Nat.add_sub_assoc positive]
          simp only [back, before, Option.bind_some, Bool.true_eq_false, ↓reduceIte, positive,
            true_and, Option.map_some]
          split
          · refine ⟨it2, 2, rfl, ?_, rfl⟩
            rw [← Nat.add_sub_assoc positive]
            exact points2.toAt
          · exact ⟨it, 1, rfl, points.toAt, rfl⟩
    | crlfStrict =>
      have short : [carriageReturn, lineFeed].length ≤ ssizeMax := by decide
      obtain ⟨found, searched, result⟩ :=
        search_eq wf sized short (List.cons_ne_nil _ _) (some ptr) here
      simp only [searched, Option.bind_eq_bind, Option.bind_some, EolStyle.split]
      cases search : Math.find [carriageReturn, lineFeed] (buf.bytes.drop n) with
      | none =>
        rw [search] at result
        exact ⟨notFound, 0, by rw [result]; rfl, rfl, rfl⟩
      | some k =>
        rw [search] at result
        have place := result.pos
        exact ⟨found, 2, by rw [if_neg (by omega)], result, rfl⟩
    | lf => exact endAt_eq lineFeed here
    | nul => exact endAt_eq 0 here

/-- `evbuffer_readln` cuts the first line and its end off the stream. -/
theorem readln_eq (malloc : Malloc) (wf : buf.Wf) (sized : buf.totalLen ≤ sizeMax)
    (style : EolStyle) :
    ∃ line buf', buf.readln malloc style = some (line, buf') ∧ buf'.Wf ∧
      match line with
      | none => buf' = buf ∧ (buf.freezeStart = true ∨ style.split buf.bytes = none ∨
          malloc.Refuses)
      | some text => ∃ eol, style.split buf.bytes = some (text.length, eol) ∧
          text = buf.bytes.take text.length ∧
          buf'.stream = buf.stream.drop (text.length + eol) := by
  unfold readln
  split
  · next frozen => exact ⟨none, buf, rfl, wf, rfl, .inl frozen⟩
  · next thawed =>
    obtain ⟨it, len, searched, result⟩ := searchEol_eq (n := 0) wf sized style none rfl
    simp only [searched, Option.bind_eq_bind, Option.bind_some]
    rw [List.drop_zero] at result
    cases found : style.split buf.bytes with
    | none =>
      rw [found] at result
      obtain ⟨rfl, rfl⟩ := result
      exact ⟨none, buf, rfl, wf, rfl, .inr (.inl rfl)⟩
    | some place =>
      obtain ⟨i, eol⟩ := place
      rw [found] at result
      obtain ⟨there, rfl⟩ := result
      rw [Nat.zero_add] at there
      have start := there.pos
      have inside := there.le_length
      rw [if_neg (by omega), start, Int.toNat_natCast]
      split
      · next refused => exact ⟨none, buf, rfl, wf, rfl, .inr (.inr ⟨_, refused⟩)⟩
      · obtain ⟨buf', removed, wf', stream'⟩ := remove_eq wf i
        obtain ⟨ok, buf'', drained, outcome, -⟩ := drain_eq wf' len
        have open_ : buf.freezeStart = false := by simpa using thawed
        have length : (buf.bytes.take i).length = i := List.length_take_of_le inside
        rw [open_, if_neg (by simp)] at stream'
        have done : ok = true := by
          rw [← Bool.not_eq_false]
          intro failed
          have frozen : buf'.freezeStart = buf.freezeStart :=
            congrArg ByteStream.freezeStart stream'
          rw [(outcome.failed failed).1, open_] at frozen
          contradiction
        refine ⟨some (buf.bytes.take i), buf'', ?_, outcome.wf, len, ?_, ?_, ?_⟩
        · simp only [removed, drained, open_, Bool.false_eq_true, and_false, ↓reduceIte,
            Option.bind_some, Option.map_some, length]
        · rw [length]
        · rw [length]
        · rw [outcome.stream, if_pos done, stream', ByteStream.drop_drop, length]

end ChainBuffer

end MerlinC.Model
