import Mathlib.Logic.Function.Basic
import MerlinC.Model.ChainLines
import MerlinC.Model.ChainSocket
import MerlinC.Model.ChainTransfer

/-! # The evbuffers of a program

A program has many evbuffers, and each of its calls works on one of them or moves bytes from one to
another. `Op.run` and `Transfer.run` are the calls on chains. `Op.Allows` and `Transfer.Allows` say
what a caller who only knows the byte streams is promised: the reply, the streams afterwards, and
the reasons for which a call may fail.
-/

namespace MerlinC.Model

/-- `struct evbuffer_cb_info`. -/
structure CbInfo where
  origSize : ℕ
  nAdded : ℕ
  nDeleted : ℕ
deriving DecidableEq, Repr

namespace ChainBuffer

/-- `evbuffer_freeze`. -/
def freeze (buf : ChainBuffer) (start : Bool) : ChainBuffer :=
  if start then { buf with freezeStart := true } else { buf with freezeEnd := true }

/-- `evbuffer_unfreeze`. -/
def unfreeze (buf : ChainBuffer) (start : Bool) : ChainBuffer :=
  if start then { buf with freezeStart := false } else { buf with freezeEnd := false }

/-- Forget the changes that the callbacks have been told. -/
def clear (buf : ChainBuffer) : ChainBuffer := { buf with nAddForCb := 0, nDelForCb := 0 }

/-- `evbuffer_run_callbacks`: what the callbacks are told, if there are any and something changed.
Callbacks that run while others wait leave the counts as they are. -/
def runCallbacks (buf : ChainBuffer) (callbacks clear : Bool) : Option CbInfo × ChainBuffer :=
  if callbacks = false then (none, buf.clear)
  else if buf.nAddForCb = 0 ∧ buf.nDelForCb = 0 then (none, buf)
  else
    (some ⟨buf.totalLen + buf.nDelForCb - buf.nAddForCb, buf.nAddForCb, buf.nDelForCb⟩,
      if clear then buf.clear else buf)

end ChainBuffer

namespace ByteStream

def freeze (s : ByteStream) (start : Bool) : ByteStream :=
  if start then { s with freezeStart := true } else { s with freezeEnd := true }

def unfreeze (s : ByteStream) (start : Bool) : ByteStream :=
  if start then { s with freezeStart := false } else { s with freezeEnd := false }

def clear (s : ByteStream) : ByteStream := { s with added := 0, deleted := 0 }

/-- What is told of the changes of a stream. -/
def info (s : ByteStream) : CbInfo := ⟨s.bytes.length + s.deleted - s.added, s.added, s.deleted⟩

end ByteStream

/-- What a call returns: success, bytes, a number of bytes, or what the callbacks were told. -/
inductive CallResult where
  | done (ok : Bool)
  | text (data : Option Bytes)
  | amount (count : Option ℕ)
  | told (info : Option CbInfo)
deriving DecidableEq

/-- A call on one evbuffer. The allocator and the socket are those of the call. -/
inductive Op where
  | add (malloc : Malloc) (data : Bytes)
  | prepend (malloc : Malloc) (data : Bytes)
  | drain (len : ℕ)
  | copyout (datlen : ℕ)
  | remove (datlen : ℕ)
  | readln (malloc : Malloc) (style : EolStyle)
  | pullup (malloc : Malloc) (size : ℤ)
  | read (malloc : Malloc) (socket : ReadSocket) (howmuch : ℤ)
  | write (socket : WriteSocket) (howmuch : ℤ)
  | freeze (start : Bool)
  | unfreeze (start : Bool)
  | runCallbacks (callbacks clear : Bool)

/-- A call that moves bytes between two evbuffers. -/
inductive Transfer where
  | addBuffer
  | prependBuffer
  | removeBuffer (malloc : Malloc) (datlen : ℕ)

namespace Op

def run (buf : ChainBuffer) : Op → Option (CallResult × ChainBuffer)
  | add malloc data => (buf.add malloc data).map fun (ok, buf) => (.done ok, buf)
  | prepend malloc data => (buf.prepend malloc data).map fun (ok, buf) => (.done ok, buf)
  | drain len => (buf.drain len).map fun (ok, buf) => (.done ok, buf)
  | copyout datlen => (buf.copyout datlen).map fun data => (.text data, buf)
  | remove datlen => (buf.remove datlen).map fun (data, buf) => (.text data, buf)
  | readln malloc style => (buf.readln malloc style).map fun (data, buf) => (.text data, buf)
  | pullup malloc size => (buf.pullup malloc size).map fun (ok, buf) => (.done ok, buf)
  | read malloc socket howmuch =>
      (buf.read malloc socket howmuch).map fun (data, buf) => (.text data, buf)
  | write socket howmuch =>
      (buf.writeAtmost socket howmuch).map fun (count, buf) => (.amount count, buf)
  | freeze start => some (.done true, buf.freeze start)
  | unfreeze start => some (.done true, buf.unfreeze start)
  | runCallbacks callbacks clear =>
      let (info, buf) := buf.runCallbacks callbacks clear
      some (.told info, buf)

/-- What callers see to: a buffer that is searched has a length that is a `size_t`. -/
def Pre (buf : ChainBuffer) : Op → Prop
  | readln _ _ => buf.totalLen ≤ sizeMax
  | _ => True

instance (buf : ChainBuffer) : (op : Op) → Decidable (op.Pre buf)
  | readln _ _ => inferInstanceAs (Decidable (buf.totalLen ≤ sizeMax))
  | add .. | prepend .. | drain _ | copyout _ | remove _ | pullup .. | read .. | write .. | freeze _
  | unfreeze _ | runCallbacks .. => .isTrue trivial

/-- What a call may do to a stream and reply. -/
def Allows (s : ByteStream) : Op → CallResult → ByteStream → Prop
  | add malloc data, .done ok, s' =>
      s' = (if ok then s.append data else s) ∧ (s.freezeEnd = true → ok = false) ∧
        (ok = false → s.freezeEnd = true ∨ sizeMax < s.bytes.length + data.length ∨
          OutOfMemory malloc data.length)
  | prepend malloc data, .done ok, s' =>
      ∃ text, s' = s.prepend text ∧ (s.freezeStart = true → ok = false ∧ text = []) ∧
        (ok = true → text = data) ∧ (ok = false → text <:+ data ∧
          (text ≠ [] → OutOfMemory malloc data.length) ∧
          (s.freezeStart = true ∨ sizeMax < s.bytes.length + data.length ∨
            OutOfMemory malloc data.length))
  | drain len, .done ok, s' =>
      s' = (if ok then s.drop len else s) ∧ (ok = false ↔ s.freezeStart = true ∧ s.bytes ≠ [])
  | copyout datlen, .text data, s' =>
      s' = s ∧ data = if s.bytes.take datlen ≠ [] ∧ s.freezeStart then none
        else some (s.bytes.take datlen)
  | remove datlen, .text data, s' =>
      s' = (if s.freezeStart then s else s.drop datlen) ∧
        data = if s.bytes.take datlen ≠ [] ∧ s.freezeStart then none
          else some (s.bytes.take datlen)
  | readln malloc style, .text data, s' =>
      match data with
      | none => s' = s ∧ (s.freezeStart = true ∨ style.split s.bytes = none ∨
          malloc.Refuses)
      | some line => ∃ eol, style.split s.bytes = some (line.length, eol) ∧
          line = s.bytes.take line.length ∧ s' = s.drop (line.length + eol)
  | pullup malloc size, .done ok, s' =>
      s' = s ∧ (ok = false → size = 0 ∨ size < 0 ∧ s.bytes = [] ∨ s.bytes.length < size ∨
        OutOfMemory malloc s.bytes.length)
  | read malloc socket howmuch, .text data, s' =>
      s' = s.append (data.getD []) ∧ (s.freezeEnd = true → data = none) ∧
        (data = socket.readv (ChainBuffer.readLimit socket howmuch) ∨
          data = none ∧ (s.freezeEnd = true ∨ malloc.Refuses))
  | write socket howmuch, .amount count, s' =>
      s' = s.drop (count.getD 0) ∧
        ((s.freezeStart = true ∨ s.bytes = [] ∨ howmuch = 0) ∧ count = none ∨
          s.freezeStart = false ∧ ∃ offered, offered ≠ [] ∧ offered <+: s.bytes ∧
            (0 ≤ howmuch → offered.length ≤ howmuch) ∧ count = socket.writev offered)
  | freeze start, .done ok, s' => ok = true ∧ s' = s.freeze start
  | unfreeze start, .done ok, s' => ok = true ∧ s' = s.unfreeze start
  | runCallbacks callbacks clear, .told info, s' =>
      (info = if callbacks ∧ (s.added ≠ 0 ∨ s.deleted ≠ 0) then some s.info else none) ∧
        s' = if callbacks = false ∨ clear then s.clear else s
  | _, _, _ => False

variable {buf : ChainBuffer}

theorem runCallbacks_eq (wf : buf.Wf) (callbacks clear : Bool) :
    (buf.runCallbacks callbacks clear).2.Wf ∧
      (runCallbacks callbacks clear).Allows buf.stream
        (.told (buf.runCallbacks callbacks clear).1)
        (buf.runCallbacks callbacks clear).2.stream := by
  have cleared : buf.clear.Wf := ⟨wf.sound, wf.lead, wf.front, wf.trailing, wf.counted⟩
  unfold ChainBuffer.runCallbacks
  split
  · next silent => exact ⟨cleared, by simp [silent], by simp [silent]; rfl⟩
  · next loud =>
    have loud : callbacks = true := by simpa using loud
    split
    · next same =>
      have nothing : buf.stream.added = 0 ∧ buf.stream.deleted = 0 := same
      have unchanged : buf.stream.clear = buf.stream :=
        ByteStream.ext rfl nothing.1.symm nothing.2.symm rfl rfl
      refine ⟨wf, ?_, ?_⟩
      · rw [if_neg]
        omega
      · rw [unchanged, ite_self]
    · next changed =>
      have some_ : ¬(buf.stream.added = 0 ∧ buf.stream.deleted = 0) := changed
      refine ⟨?_, ?_, ?_⟩
      · split
        · exact cleared
        · exact wf
      · have told : (if callbacks = true ∧ (buf.stream.added ≠ 0 ∨ buf.stream.deleted ≠ 0) then
            some buf.stream.info else none) = some buf.stream.info := if_pos ⟨loud, by omega⟩
        rw [told, wf.counted]
        rfl
      · rw [loud]
        cases clear with
        | false => rfl
        | true => rfl

/-- Every call on one evbuffer is defined, keeps the evbuffer well formed and does what it may do
to the stream. -/
theorem run_allows (wf : buf.Wf) (op : Op) (pre : op.Pre buf) :
    ∃ reply buf', op.run buf = some (reply, buf') ∧ buf'.Wf ∧
      op.Allows buf.stream reply buf'.stream := by
  have counted := wf.counted
  cases op with
  | add malloc data =>
    obtain ⟨ok, buf', done, outcome⟩ := ChainBuffer.add_eq malloc wf data
    rw [counted] at outcome
    refine ⟨.done ok, buf', by rw [run, done]; rfl, outcome.wf, outcome.stream, ?_, outcome.failed⟩
    intro frozen
    rw [ChainBuffer.add_frozen malloc frozen] at done
    exact (Prod.mk.inj (Option.some.inj done)).1.symm
  | prepend malloc data =>
    obtain ⟨ok, buf', text, done, wf', stream', all, part⟩ := ChainBuffer.prepend_eq malloc wf data
    rw [counted] at part
    refine ⟨.done ok, buf', by rw [run, done]; rfl, wf', text, stream', fun frozen => ?_, all, part⟩
    rw [ChainBuffer.prepend_frozen malloc frozen] at done
    obtain ⟨rfl, rfl⟩ := Prod.mk.inj (Option.some.inj done)
    exact ⟨rfl, ByteStream.prepend_eq_self.mp stream'.symm⟩
  | drain len =>
    obtain ⟨ok, buf', done, outcome, open_⟩ := ChainBuffer.drain_eq wf len
    refine ⟨.done ok, buf', by rw [run, done]; rfl, outcome.wf, outcome.stream, outcome.failed, ?_⟩
    rintro ⟨frozen, some_⟩
    rw [← Bool.not_eq_true]
    intro success
    have thawed : buf.freezeStart = false := open_ success some_
    have frozen : buf.freezeStart = true := frozen
    rw [thawed] at frozen
    contradiction
  | copyout datlen =>
    exact ⟨.text _, buf, by rw [run, ChainBuffer.copyout_eq wf]; rfl, wf, rfl, rfl⟩
  | remove datlen =>
    obtain ⟨buf', done, wf', stream'⟩ := ChainBuffer.remove_eq wf datlen
    exact ⟨.text _, buf', by rw [run, done]; rfl, wf', stream', rfl⟩
  | readln malloc style =>
    obtain ⟨line, buf', done, wf', result⟩ := ChainBuffer.readln_eq malloc wf pre style
    refine ⟨.text line, buf', by rw [run, done]; rfl, wf', ?_⟩
    cases line with
    | none =>
      obtain ⟨rfl, reason⟩ := result
      exact ⟨rfl, reason⟩
    | some text => exact result
  | pullup malloc size =>
    obtain ⟨ok, buf', done, wf', same, -, failed⟩ := ChainBuffer.pullup_eq malloc wf size
    refine ⟨.done ok, buf', by rw [run, done]; rfl, wf', same, fun refused => ?_⟩
    change size = 0 ∨ size < 0 ∧ buf.bytes = [] ∨ (buf.bytes.length : ℤ) < size ∨ _
    rw [← List.length_eq_zero_iff]
    unfold ChainBuffer.wanted at failed
    rcases failed refused with zero | excess | refused
    · split at zero <;> omega
    · split at excess <;> omega
    · rcases Nat.lt_or_ge buf.bytes.length (buf.wanted size) with excess | within
      · unfold ChainBuffer.wanted at excess
        split at excess <;> omega
      · exact .inr (.inr (.inr (refused.mono within)))
  | read malloc socket howmuch =>
    obtain ⟨result, buf', done, wf', stream', reason⟩ :=
      ChainBuffer.read_eq malloc wf socket howmuch
    refine ⟨.text result, buf', by rw [run, done]; rfl, wf', stream', fun frozen => ?_, reason⟩
    rw [ChainBuffer.read_frozen malloc frozen] at done
    exact (Prod.mk.inj (Option.some.inj done)).1.symm
  | write socket howmuch =>
    obtain ⟨result, buf', done, wf', stream', reason⟩ :=
      ChainBuffer.writeAtmost_eq wf socket howmuch
    exact ⟨.amount result, buf', by rw [run, done]; rfl, wf', stream', reason⟩
  | freeze start =>
    refine ⟨.done true, _, rfl, ?_, rfl, ?_⟩ <;> cases start
    · exact ⟨wf.sound, wf.lead, wf.front, wf.trailing, wf.counted⟩
    · exact ⟨wf.sound, wf.lead, wf.front, wf.trailing, wf.counted⟩
    · rfl
    · rfl
  | unfreeze start =>
    refine ⟨.done true, _, rfl, ?_, rfl, ?_⟩ <;> cases start
    · exact ⟨wf.sound, wf.lead, wf.front, wf.trailing, wf.counted⟩
    · exact ⟨wf.sound, wf.lead, wf.front, wf.trailing, wf.counted⟩
    · rfl
    · rfl
  | runCallbacks callbacks clear =>
    obtain ⟨wf', result⟩ := runCallbacks_eq wf callbacks clear
    exact ⟨.told _, _, rfl, wf', result⟩

end Op

namespace Transfer

/-- The calls on two evbuffers, of which `evbuffer_remove_buffer` names the source first and the
others the target. -/
def run (first second : ChainBuffer) : Transfer → Option (CallResult × ChainBuffer × ChainBuffer)
  | addBuffer => (first.addBuffer second).map fun (ok, bufs) => (.done ok, bufs)
  | prependBuffer =>
      let (ok, bufs) := first.prependBuffer second
      some (.done ok, bufs)
  | removeBuffer malloc datlen =>
      (first.removeBuffer malloc second datlen).map fun (count, bufs) => (.amount count, bufs)

/-- The reply where both evbuffers are the same. -/
def idle : Transfer → CallResult
  | addBuffer | prependBuffer => .done true
  | removeBuffer _ _ => .amount (some 0)

/-- When a buffer goes in front of another, no empty chain, as a read that brings nothing leaves
one, comes between their bytes: a later `evbuffer_remove_buffer` then moves them out of order. -/
def Pre (first second : ChainBuffer) : Transfer → Prop
  | prependBuffer => first.totalLen ≠ 0 → second.totalLen ≠ 0 → second.onward.tail = []
  | _ => True

instance (first second : ChainBuffer) : (transfer : Transfer) →
    Decidable (transfer.Pre first second)
  | prependBuffer => inferInstanceAs (Decidable
      (first.totalLen ≠ 0 → second.totalLen ≠ 0 → second.onward.tail = []))
  | addBuffer | removeBuffer .. => .isTrue trivial

/-- What a call may do to two streams and reply. -/
def Allows (s t : ByteStream) : Transfer → CallResult → ByteStream → ByteStream → Prop
  | addBuffer, .done ok, s', t' =>
      s' = (if ok then s.append t.bytes else s) ∧ t' = (if ok then t.drop t.bytes.length else t) ∧
        (ok = false ↔ (s.freezeEnd || t.freezeStart) = true ∧ t.bytes ≠ [])
  | prependBuffer, .done ok, s', t' =>
      s' = (if ok then s.prepend t.bytes else s) ∧ t' = (if ok then t.drop t.bytes.length else t) ∧
        (ok = false ↔ (s.freezeStart || t.freezeStart) = true ∧ t.bytes ≠ [])
  | removeBuffer malloc datlen, .amount count, s', t' =>
      match count with
      | none => s' = s ∧ t' = t ∧ datlen ≠ 0 ∧ (t.freezeEnd || s.freezeStart) = true
      | some n => n = min datlen s.bytes.length ∧ s' = s.drop datlen ∧
          ∃ text, text <+: s.bytes.take datlen ∧ t' = t.append text ∧
            (text = s.bytes.take datlen ∨ sizeMax < t.bytes.length + datlen ∨
              OutOfMemory malloc datlen)
  | _, _, _, _ => False

variable {first second : ChainBuffer}

/-- Every call that moves bytes is defined, keeps both evbuffers well formed and does what it may do
to the streams. -/
theorem run_allows (wf : first.Wf) (wf' : second.Wf) (transfer : Transfer)
    (pre : transfer.Pre first second) :
    ∃ reply first' second', transfer.run first second = some (reply, first', second') ∧
      first'.Wf ∧ second'.Wf ∧
      transfer.Allows first.stream second.stream reply first'.stream second'.stream := by
  cases transfer with
  | addBuffer =>
    obtain ⟨ok, first', second', done, moved⟩ := ChainBuffer.addBuffer_eq wf wf'
    exact ⟨.done ok, first', second', by rw [run, done]; rfl, moved.wfOut, moved.wfIn,
      moved.streamOut, moved.streamIn, moved.failed⟩
  | prependBuffer =>
    obtain ⟨ok, first', second', done, moved⟩ := ChainBuffer.prependBuffer_eq wf wf' pre
    exact ⟨.done ok, first', second', by rw [run, done], moved.wfOut, moved.wfIn,
      moved.streamOut, moved.streamIn, moved.failed⟩
  | removeBuffer malloc datlen =>
    by_cases closed : datlen ≠ 0 ∧ (second.freezeEnd || first.freezeStart) = true
    · refine ⟨.amount none, first, second, ?_, wf, wf', rfl, rfl, closed⟩
      rw [run, ChainBuffer.removeBuffer_closed malloc closed.1 closed.2]
      rfl
    · have open_ : datlen = 0 ∨ (second.freezeEnd || first.freezeStart) = false := by
        rcases Nat.eq_zero_or_pos datlen with zero | positive
        · exact .inl zero
        · exact .inr (by simpa using fun same => closed ⟨by omega, same⟩)
      obtain ⟨first', second', done, moved⟩ :=
        ChainBuffer.removeBuffer_eq malloc wf wf' datlen open_
      have landed := moved.streamDst
      rw [wf'.counted] at landed
      exact ⟨.amount (some _), first', second', by rw [run, done]; rfl, moved.wfSrc, moved.wfDst,
        rfl, moved.streamSrc, landed⟩

end Transfer

variable {ι : Type*} [DecidableEq ι]

/-- A call on the evbuffers of a program. -/
inductive BufferCall (ι : Type*) where
  | on (buf : ι) (op : Op)
  | between (first second : ι) (transfer : Transfer)

namespace BufferCall

def run (pool : ι → ChainBuffer) : BufferCall ι → Option (CallResult × (ι → ChainBuffer))
  | on buf op =>
      (op.run (pool buf)).map fun (reply, buf') => (reply, Function.update pool buf buf')
  | between first second transfer =>
      if first = second then some (transfer.idle, pool)
      else
        (transfer.run (pool first) (pool second)).map fun (reply, first', second') =>
          (reply, Function.update (Function.update pool first first') second second')

def Pre (pool : ι → ChainBuffer) : BufferCall ι → Prop
  | on buf op => op.Pre (pool buf)
  | between first second transfer => first ≠ second → transfer.Pre (pool first) (pool second)

instance (pool : ι → ChainBuffer) : (call : BufferCall ι) → Decidable (call.Pre pool)
  | on buf op => inferInstanceAs (Decidable (op.Pre (pool buf)))
  | between first second transfer => inferInstanceAs (Decidable
      (first ≠ second → transfer.Pre (pool first) (pool second)))

/-- What a call may do to the streams and reply. Streams it does not name stay as they are. -/
def Allows (streams : ι → ByteStream) (reply : CallResult) (streams' : ι → ByteStream) :
    BufferCall ι → Prop
  | on buf op =>
      op.Allows (streams buf) reply (streams' buf) ∧
        ∀ other, other ≠ buf → streams' other = streams other
  | between first second transfer =>
      (if first = second then reply = transfer.idle ∧ streams' first = streams first
        else transfer.Allows (streams first) (streams second) reply (streams' first)
          (streams' second)) ∧
        ∀ other, other ≠ first → other ≠ second → streams' other = streams other

/-- Every call is defined, keeps every evbuffer well formed and does what it may do to the
streams. -/
theorem run_allows {pool : ι → ChainBuffer} (wf : ∀ buf, (pool buf).Wf) (call : BufferCall ι)
    (pre : call.Pre pool) :
    ∃ reply pool', call.run pool = some (reply, pool') ∧ (∀ buf, (pool' buf).Wf) ∧
      call.Allows (fun buf => (pool buf).stream) reply (fun buf => (pool' buf).stream) := by
  cases call with
  | on buf op =>
    obtain ⟨reply, buf', done, wf', allowed⟩ := op.run_allows (wf buf) pre
    refine ⟨reply, Function.update pool buf buf', by rw [run, done]; rfl, fun other => ?_, ?_,
      fun other apart => ?_⟩
    · rcases eq_or_ne other buf with rfl | apart
      · rwa [Function.update_self]
      · rw [Function.update_of_ne apart]
        exact wf other
    · simpa only [Function.update_self] using allowed
    · simp only [Function.update_of_ne apart]
  | between first second transfer =>
    rcases eq_or_ne first second with rfl | apart
    · refine ⟨transfer.idle, pool, by rw [run, if_pos rfl], wf, ?_, fun _ _ _ => rfl⟩
      rw [if_pos rfl]
      exact ⟨rfl, rfl⟩
    · obtain ⟨reply, first', second', done, wf', wf'', allowed⟩ :=
        transfer.run_allows (wf first) (wf second) (pre apart)
      refine ⟨reply, Function.update (Function.update pool first first') second second', ?_,
        fun other => ?_, ?_, fun other apart' apart'' => ?_⟩
      · rw [run, if_neg apart, done]
        rfl
      · rcases eq_or_ne other second with rfl | apart'
        · rwa [Function.update_self]
        · rw [Function.update_of_ne apart']
          rcases eq_or_ne other first with rfl | apart''
          · rwa [Function.update_self]
          · rw [Function.update_of_ne apart'']
            exact wf other
      · rw [if_neg apart]
        simpa only [Function.update_self, Function.update_of_ne apart] using allowed
      · simp only [Function.update_of_ne apart'', Function.update_of_ne apart']

end BufferCall

end MerlinC.Model
