import MerlinC.Model.BuffereventSock

/-! # What the calls on a socket bufferevent may do

Each call of the program, and each call that the event loop makes, as an operation on the byte
streams of a bufferevent: what it may reply and what becomes of the streams. `run_allows` shows
that the calls on the chains do just that, and that they keep the events registered as the rest of
the bufferevent says.
-/

namespace MerlinC.Model

open Math

/-- A call on a bufferevent, by the program or by the event loop. -/
inductive SockCall where
  | write (malloc : Malloc) (data : Bytes)
  | writeBuffer (buf : ChainBuffer)
  | read (datlen : ℕ)
  | drain (len : ℕ)
  | readBuffer (buf : ChainBuffer)
  | echo
  | enable (reads writes : Bool)
  | disable (reads writes : Bool)
  | setwatermark (malloc : Malloc) (reads writes : Bool) (lowmark highmark : ℕ)
  | suspendRead (what : SuspendFlag)
  | unsuspendRead (what : SuspendFlag)
  | suspendWrite (what : SuspendFlag)
  | unsuspendWrite (what : SuspendFlag)
  | readcb (malloc : Malloc) (socket : ReadSocket) (timedOut : Bool) (errno : Errno)
  | writecb (socket : WriteSocket) (timedOut : Bool) (errno : Errno)

/-- What a call gives back: success, bytes, another buffer, or what an event callback did. -/
inductive SockReply where
  | done (ok : Bool)
  | text (data : Option Bytes)
  | moved (ok : Bool) (buf : ChainBuffer)
  | arrived (calls : List UserCall) (data : Bytes)
  | sent (calls : List UserCall) (count : ℕ)
deriving DecidableEq

namespace SockCall

def run (adds : EventAdd) (bufev : BuffereventSock) :
    SockCall → Option (SockReply × BuffereventSock)
  | write malloc data => (bufev.write malloc adds data).map fun (ok, bufev) => (.done ok, bufev)
  | writeBuffer buf =>
      (bufev.writeBuffer adds buf).map fun (ok, buf, bufev) => (.moved ok buf, bufev)
  | read datlen => (bufev.read adds datlen).map fun (data, bufev) => (.text data, bufev)
  | drain len => (bufev.drainInput adds len).map fun (ok, bufev) => (.done ok, bufev)
  | readBuffer buf =>
      (bufev.readBuffer adds buf).map fun (ok, buf, bufev) => (.moved ok buf, bufev)
  | echo => (bufev.echo adds).map fun (ok, bufev) => (.done ok, bufev)
  | enable reads writes =>
      let (ok, bufev) := bufev.enable adds reads writes
      some (.done ok, bufev)
  | disable reads writes => some (.done true, bufev.disable reads writes)
  | setwatermark malloc reads writes lowmark highmark =>
      (bufev.setwatermark malloc adds reads writes lowmark highmark).map fun bufev =>
        (.done true, bufev)
  | suspendRead what => some (.done true, bufev.suspendRead what)
  | unsuspendRead what => some (.done true, bufev.unsuspendRead adds what)
  | suspendWrite what => some (.done true, bufev.suspendWrite what)
  | unsuspendWrite what => some (.done true, bufev.unsuspendWrite adds what)
  | readcb malloc socket timedOut errno =>
      (bufev.buffereventReadcb malloc adds socket timedOut errno).map fun (calls, data, bufev) =>
        (.arrived calls data, bufev)
  | writecb socket timedOut errno =>
      (bufev.buffereventWritecb adds socket timedOut errno).map fun (calls, count, bufev) =>
        (.sent calls count, bufev)

/-- What callers see to: the buffers they pass are evbuffers, there is memory for the callback of
the first high watermark, and only the watermark itself suspends reading for the watermark. -/
def Pre (bufev : BuffereventSock) : SockCall → Prop
  | writeBuffer buf | readBuffer buf => buf.Wf
  | setwatermark malloc reads _ _ highmark => reads = true → highmark ≠ 0 →
      bufev.readWatermarksCb = none → malloc.block BuffereventSock.cbEntrySize ≠ none
  | suspendRead what | unsuspendRead what => what ≠ .wm
  | _ => True

/-- What a call may reply and do to the streams. -/
def Allows (v : View) : SockCall → SockReply → View → Prop
  | write malloc data, .done ok, v' =>
      v' = (if ok then v.append data else v) ∧
        (ok = false → sizeMax < v.output.length + data.length ∨ OutOfMemory malloc data.length)
  | writeBuffer buf, .moved ok rest, v' =>
      v' = (if ok then v.append buf.bytes else v) ∧
        rest.bytes = (if ok then [] else buf.bytes) ∧
        (ok = false ↔ buf.freezeStart = true ∧ buf.bytes ≠ [])
  | read datlen, .text data, v' => data = some (v.input.take datlen) ∧ v' = v.take datlen
  | drain len, .done ok, v' => ok = true ∧ v' = v.take len
  | readBuffer buf, .moved ok grown, v' =>
      v' = (if ok then v.take v.input.length else v) ∧
        grown.bytes = (if ok then buf.bytes ++ v.input else buf.bytes) ∧
        (ok = false ↔ buf.freezeEnd = true ∧ v.input ≠ [])
  | echo, .done ok, v' => ok = true ∧ v' = (v.append v.input).take v.input.length
  | readcb _ socket _ _, .arrived _ data, v' =>
      v' = v.receive data ∧ (data ≠ [] → ∃ room, socket.readv room = some data)
  | writecb socket _ _, .sent _ count, v' =>
      v' = v.flush count ∧
        (count ≠ 0 → ∃ offered, offered <+: v.output ∧ socket.writev offered = some count)
  | enable _ _, .done _, v' | disable _ _, .done _, v' | setwatermark _ _ _ _ _, .done _, v'
  | suspendRead _, .done _, v' | unsuspendRead _, .done _, v' | suspendWrite _, .done _, v'
  | unsuspendWrite _, .done _, v' => v' = v
  | _, _, _ => False

end SockCall

/-- A socket that takes something of whatever it is offered. -/
def WriteSocket.Willing (socket : WriteSocket) : Prop :=
  ∀ offered, offered ≠ [] → ∃ count, socket.writev offered = some (count + 1)

namespace BuffereventSock

/-- The read watermark suspends reading when so many bytes reach it, and just then if an
`ev_ssize_t` can hold the watermark. -/
def PausedAt (length : ℕ) (bufev : BuffereventSock) : Prop :=
  (bufev.wmRead.high ≠ 0 ∧ bufev.wmRead.high ≤ length → .wm ∈ bufev.readSuspended) ∧
    (bufev.wmRead.high ≤ ssizeMax → .wm ∈ bufev.readSuspended →
      bufev.wmRead.high ≠ 0 ∧ bufev.wmRead.high ≤ length)

/-- What every bufferevent satisfies between calls, where `inEnd` and `outStart` say whether the
socket's ends of the buffers are frozen, and `sure` that no event failed to be added. -/
structure Sound (sure : Prop) (inEnd outStart : Bool) (bufev : BuffereventSock) : Prop where
  inWf : bufev.input.Wf
  outWf : bufev.output.Wf
  inStream : bufev.input.stream = ⟨bufev.input.bytes, 0, 0, false, inEnd⟩
  outStream : bufev.output.stream = ⟨bufev.output.bytes, 0, 0, outStart, false⟩
  reading : bufev.reading.Kept sure True
  writing : bufev.writing.Kept sure (bufev.output.bytes ≠ [])
  armed : bufev.readWatermarksCb = some true ↔ bufev.wmRead.high ≠ 0
  paused : bufev.PausedAt bufev.input.bytes.length

/-- A bufferevent whose ends are frozen as the program finds them. -/
abbrev Idle (sure : Prop) (bufev : BuffereventSock) : Prop := bufev.Sound sure true true

/-- A bufferevent as byte streams, when its socket took `flushed`. -/
def view (control : Control) (flushed : Bytes) (bufev : BuffereventSock) : View where
  control
  input := bufev.input.bytes
  output := bufev.output.bytes
  flushed

variable {sure : Prop} {inEnd outStart : Bool} {bufev : BuffereventSock} {adds : EventAdd}

theorem new_sound (readcb writecb errorcb : Bool) : (new readcb writecb errorcb).Idle sure := by
  have new_wf : ChainBuffer.new.Wf :=
    ⟨by simp [ChainBuffer.new, ChainBuffer.chains], absurd rfl, by simp [ChainBuffer.new],
      by simp [ChainBuffer.new], rfl⟩
  constructor
  · exact ⟨new_wf.sound, new_wf.lead, new_wf.front, new_wf.trailing, new_wf.counted⟩
  · exact ⟨new_wf.sound, new_wf.lead, new_wf.front, new_wf.trailing, new_wf.counted⟩
  · rfl
  · rfl
  · exact ⟨by simp [new], by simp [new]⟩
  · exact ⟨by simp [new], fun _ waiting => absurd rfl waiting⟩
  · simp [new]
  · simp [new, PausedAt]

/-- Callbacks that are made forget the counts, and are made when something was counted. -/
theorem runCallbacks_spec {buf : ChainBuffer} (wf : buf.Wf) (callbacks : Bool) :
    (buf.runCallbacks callbacks true).2.Wf ∧
      (buf.runCallbacks callbacks true).2.stream = buf.stream.clear ∧
      (buf.runCallbacks callbacks true).1 =
        if callbacks ∧ (buf.nAddForCb ≠ 0 ∨ buf.nDelForCb ≠ 0) then some buf.stream.info
        else none := by
  obtain ⟨wf', told, cleared⟩ := Op.runCallbacks_eq wf callbacks true
  rw [if_pos (.inr rfl)] at cleared
  exact ⟨wf', cleared, told⟩

theorem inbufWmCb_eq (adds : EventAdd) (bufev : BuffereventSock) :
    bufev.inbufWmCb adds = bufev.setReading
      (if bufev.wmRead.high ≤ bufev.input.totalLen then bufev.reading.suspend .wm
        else bufev.reading.unsuspend adds.read .wm) := by
  unfold inbufWmCb
  split
  · exact suspendRead_eq ..
  · exact unsuspendRead_eq ..

/-- The callbacks of the input set the gate of reading as the watermark says, when there are any
and something changed. -/
theorem invokeInput_eq (adds : EventAdd) (wf : bufev.input.Wf) :
    bufev.invokeInput adds = setReading
      (if bufev.readWatermarksCb = some true ∧
          (bufev.input.nAddForCb ≠ 0 ∨ bufev.input.nDelForCb ≠ 0) then
        if bufev.wmRead.high ≤ bufev.input.bytes.length then bufev.reading.suspend .wm
        else bufev.reading.unsuspend adds.read .wm
      else bufev.reading)
      { bufev with
        input := (bufev.input.runCallbacks bufev.readWatermarksCb.isSome true).2 } := by
  obtain ⟨wf', cleared, told⟩ := runCallbacks_spec wf bufev.readWatermarksCb.isSome
  have length : (bufev.input.runCallbacks bufev.readWatermarksCb.isSome true).2.totalLen =
      bufev.input.bytes.length := by
    rw [wf'.counted]
    exact congrArg (fun s => s.bytes.length) cleared
  unfold invokeInput
  dsimp only
  split
  · next due =>
    obtain ⟨called, armed⟩ := due
    have changed : bufev.input.nAddForCb ≠ 0 ∨ bufev.input.nDelForCb ≠ 0 := by
      rw [told] at called
      split at called
      · next changed => exact changed.2
      · contradiction
    have due : bufev.readWatermarksCb = some true ∧
        (bufev.input.nAddForCb ≠ 0 ∨ bufev.input.nDelForCb ≠ 0) := ⟨armed, changed⟩
    rw [if_pos due, inbufWmCb_eq]
    dsimp only
    rw [length]
  · next quiet =>
    rw [if_neg]
    · rfl
    · rintro ⟨armed, changed⟩
      apply quiet
      rw [told, if_pos ⟨by simp [armed], changed⟩]
      exact ⟨rfl, armed⟩

/-- The callback of the output starts writing when something was added. -/
theorem invokeOutput_eq (adds : EventAdd) (wf : bufev.output.Wf) :
    bufev.invokeOutput adds = setWriting
      (if bufev.output.nAddForCb ≠ 0 then bufev.writing.start adds.write else bufev.writing)
      { bufev with output := (bufev.output.runCallbacks true true).2 } := by
  obtain ⟨-, -, told⟩ := runCallbacks_spec wf true
  unfold invokeOutput
  dsimp only
  rw [told]
  by_cases changed : bufev.output.nAddForCb ≠ 0 ∨ bufev.output.nDelForCb ≠ 0
  · rw [if_pos ⟨rfl, changed⟩]
    exact outbufCb_eq ..
  · rw [if_neg fun due => changed due.2, if_neg fun added => changed (.inl added)]
    rfl

namespace Sound

variable (sound : bufev.Sound sure inEnd outStart) {buf : ChainBuffer} {bytes : Bytes}
  {added deleted : ℕ}
include sound

/-- The input may be replaced by a changed one if the callbacks are told of the change. -/
theorem input_told (adds : EventAdd) {inEnd' : Bool} (surely : sure → adds.read = true)
    (wf : buf.Wf) (stream : buf.stream = ⟨bytes, added, deleted, false, inEnd'⟩)
    (counts : (added ≠ 0 ∨ deleted ≠ 0) ∨ bytes.length = bufev.input.bytes.length) :
    (BuffereventSock.invokeInput adds { bufev with input := buf }).Sound sure inEnd' outStart ∧
      (BuffereventSock.invokeInput adds { bufev with input := buf }).input.bytes = bytes ∧
      (BuffereventSock.invokeInput adds { bufev with input := buf }).output = bufev.output ∧
      (BuffereventSock.invokeInput adds { bufev with input := buf }).wmRead = bufev.wmRead := by
  obtain ⟨wf', cleared, -⟩ := runCallbacks_spec wf bufev.readWatermarksCb.isSome
  rw [stream] at cleared
  have same : (buf.runCallbacks bufev.readWatermarksCb.isSome true).2.bytes = bytes :=
    congrArg ByteStream.bytes cleared
  have told := @invokeInput_eq { bufev with input := buf } adds wf
  rw [told]
  refine ⟨⟨wf', sound.outWf, ?_, sound.outStream, ?_, sound.writing, sound.armed, ?_⟩,
    same, rfl, rfl⟩
  · rw [← same] at cleared
    exact cleared
  · change Gate.Kept sure True (ite _ _ _)
    split
    · split
      · exact sound.reading.suspend
      · exact sound.reading.unsuspend surely
    · exact sound.reading
  · have counted : buf.nAddForCb = added ∧ buf.nDelForCb = deleted :=
      ⟨congrArg ByteStream.added stream, congrArg ByteStream.deleted stream⟩
    have length : buf.bytes.length = bytes.length :=
      congrArg (fun s => s.bytes.length) stream
    have armed := sound.armed
    change PausedAt (buf.runCallbacks _ true).2.bytes.length
      (bufev.setReading (ite _ _ _ : Gate SuspendFlag))
    rw [same]
    split
    · next due =>
      have high := armed.mp due.1
      split
      · next reached =>
        simp only [length] at reached
        simp [PausedAt, BuffereventSock.setReading, Gate.suspend, high, reached]
      · next below =>
        simp only [length] at below
        simp [PausedAt, BuffereventSock.setReading, Gate.unsuspend, below]
    · next quiet =>
      rcases Nat.eq_zero_or_pos bufev.wmRead.high with zero | positive
      · refine ⟨fun full => absurd zero full.1, fun small suspended => ?_⟩
        exact absurd zero (sound.paused.2 small suspended).1
      · have unchanged : bytes.length = bufev.input.bytes.length := by
          apply counts.resolve_left
          rw [← counted.1, ← counted.2]
          exact fun changed => quiet ⟨armed.mpr (by omega), changed⟩
        rw [unchanged]
        exact sound.paused

theorem output_told (adds : EventAdd) {outStart' : Bool} (surely : sure → adds.write = true)
    (wf : buf.Wf)
    (stream : buf.stream = ⟨bytes, added, deleted, outStart', false⟩)
    (counts : added ≠ 0 ∨ (bytes ≠ [] → bufev.output.bytes ≠ [])) :
    (BuffereventSock.invokeOutput adds { bufev with output := buf }).Sound sure inEnd outStart' ∧
      (BuffereventSock.invokeOutput adds { bufev with output := buf }).output.bytes = bytes ∧
      (BuffereventSock.invokeOutput adds { bufev with output := buf }).input = bufev.input ∧
      (BuffereventSock.invokeOutput adds { bufev with output := buf }).wmRead =
        bufev.wmRead := by
  obtain ⟨wf', cleared, -⟩ := runCallbacks_spec wf true
  rw [stream] at cleared
  have same : (buf.runCallbacks true true).2.bytes = bytes := congrArg ByteStream.bytes cleared
  have told := @invokeOutput_eq { bufev with output := buf } adds wf
  rw [told]
  refine ⟨⟨sound.inWf, wf', sound.inStream, ?_, sound.reading, ?_, sound.armed, sound.paused⟩,
    same, rfl, rfl⟩
  · rw [← same] at cleared
    exact cleared
  · have counted : buf.nAddForCb = added := congrArg ByteStream.added stream
    change Gate.Kept sure ((buf.runCallbacks true true).2.bytes ≠ []) (ite _ _ _)
    rw [same]
    split
    · exact sound.writing.start surely
    · next none_ =>
      apply sound.writing.mono id
      exact counts.resolve_left (counted ▸ none_)

theorem mono {sure' : Prop} (surer : sure' → sure) : bufev.Sound sure' inEnd outStart :=
  ⟨sound.inWf, sound.outWf, sound.inStream, sound.outStream, sound.reading.mono surer id,
    sound.writing.mono surer id, sound.armed, sound.paused⟩

/-- An input with the same stream serves as well. -/
theorem setInput (wf : buf.Wf) (same : buf.stream = bufev.input.stream) :
    BuffereventSock.Sound sure inEnd outStart { bufev with input := buf } ∧
      buf.bytes = bufev.input.bytes := by
  have bytes : buf.bytes = bufev.input.bytes := congrArg ByteStream.bytes same
  refine ⟨⟨wf, sound.outWf, ?_, sound.outStream, sound.reading, sound.writing, sound.armed, ?_⟩,
    bytes⟩
  · rw [same, sound.inStream, bytes]
  · change PausedAt buf.bytes.length _
    rw [bytes]
    exact sound.paused

theorem setOutput (wf : buf.Wf) (same : buf.stream = bufev.output.stream) :
    BuffereventSock.Sound sure inEnd outStart { bufev with output := buf } ∧
      buf.bytes = bufev.output.bytes := by
  have bytes : buf.bytes = bufev.output.bytes := congrArg ByteStream.bytes same
  refine ⟨⟨sound.inWf, wf, sound.inStream, ?_, sound.reading, ?_, sound.armed, sound.paused⟩, bytes⟩
  · rw [same, sound.outStream, bytes]
  · change Gate.Kept sure (buf.bytes ≠ []) _
    rw [bytes]
    exact sound.writing

/-- The end of the input may be frozen or opened for the socket. -/
theorem input_end (frozen : Bool) :
    BuffereventSock.Sound sure frozen outStart
      { bufev with input := { bufev.input with freezeEnd := frozen } } := by
  refine ⟨?_, sound.outWf, ?_, sound.outStream, sound.reading, sound.writing, sound.armed,
    sound.paused⟩
  · have wf := sound.inWf
    exact ⟨wf.sound, wf.lead, wf.front, wf.trailing, wf.counted⟩
  · exact congrArg (fun s : ByteStream => { s with freezeEnd := frozen }) sound.inStream

theorem output_start (frozen : Bool) :
    BuffereventSock.Sound sure inEnd frozen
      { bufev with output := { bufev.output with freezeStart := frozen } } := by
  refine ⟨sound.inWf, ?_, sound.inStream, ?_, sound.reading, sound.writing, sound.armed,
    sound.paused⟩
  · have wf := sound.outWf
    exact ⟨wf.sound, wf.lead, wf.front, wf.trailing, wf.counted⟩
  · exact congrArg (fun s : ByteStream => { s with freezeStart := frozen }) sound.outStream

theorem setReading {gate : Gate SuspendFlag} (kept : gate.Kept sure True)
    (same : .wm ∈ gate.suspended ↔ .wm ∈ bufev.readSuspended) :
    (bufev.setReading gate).Sound sure inEnd outStart :=
  ⟨sound.inWf, sound.outWf, sound.inStream, sound.outStream, kept, sound.writing, sound.armed,
    fun full => same.mpr (sound.paused.1 full),
    fun small suspended => sound.paused.2 small (same.mp suspended)⟩

theorem setWriting {gate : Gate SuspendFlag} (kept : gate.Kept sure (bufev.output.bytes ≠ [])) :
    (bufev.setWriting gate).Sound sure inEnd outStart :=
  ⟨sound.inWf, sound.outWf, sound.inStream, sound.outStream, sound.reading, kept, sound.armed,
    sound.paused⟩

theorem enable (surely : sure → adds = ⟨true, true⟩) (read write : Bool) :
    (bufev.enable adds read write).2.Sound sure inEnd outStart := by
  obtain ⟨starts, started, same⟩ := enable_eq adds read write bufev
  rw [same]
  apply setWriting
  · apply sound.setReading
    · split
      · exact sound.reading.enable fun certain => by rw [surely certain]
      · exact sound.reading
    · split
      · rfl
      · rfl
  · change Gate.Kept sure (bufev.output.bytes ≠ []) (if write = true then _ else _)
    split
    · apply Gate.Kept.enable sound.writing
      intro certain
      apply started
      · rw [surely certain]
      · rw [surely certain]
    · exact sound.writing

theorem disable (read write : Bool) : (bufev.disable read write).Sound sure inEnd outStart := by
  rw [disable_eq]
  apply setWriting
  · apply sound.setReading
    · split
      · exact Gate.disable_kept
      · exact sound.reading
    · split
      · rfl
      · rfl
  · change Gate.Kept sure (bufev.output.bytes ≠ []) (if write = true then _ else _)
    split
    · exact Gate.disable_kept
    · exact sound.writing

theorem suspendRead {what : SuspendFlag} (other : what ≠ .wm) :
    (bufev.suspendRead what).Sound sure inEnd outStart := by
  rw [suspendRead_eq]
  apply sound.setReading sound.reading.suspend
  simp [Gate.suspend, other.symm]

/-- The watermark suspends reading once it is reached, or seems to be. -/
theorem reached (high : bufev.wmRead.high ≤ ssizeMax →
      bufev.wmRead.high ≠ 0 ∧ bufev.wmRead.high ≤ bufev.input.bytes.length) :
    (bufev.suspendRead .wm).Sound sure inEnd outStart := by
  rw [suspendRead_eq]
  refine ⟨sound.inWf, sound.outWf, sound.inStream, sound.outStream, sound.reading.suspend,
    sound.writing, sound.armed, ?_, fun small _ => high small⟩
  intro _
  exact Finset.mem_insert_self ..

theorem unsuspendRead {what : SuspendFlag} (surely : sure → adds = ⟨true, true⟩)
    (other : what ≠ .wm) : (bufev.unsuspendRead adds what).Sound sure inEnd outStart := by
  rw [unsuspendRead_eq]
  apply sound.setReading
  · exact sound.reading.unsuspend fun certain => by rw [surely certain]
  · simp [Gate.unsuspend, other.symm]

theorem suspendWrite (what : SuspendFlag) :
    (bufev.suspendWrite what).Sound sure inEnd outStart := by
  rw [suspendWrite_eq]
  exact sound.setWriting sound.writing.suspend

theorem unsuspendWrite (surely : sure → adds = ⟨true, true⟩) (what : SuspendFlag) :
    (bufev.unsuspendWrite adds what).Sound sure inEnd outStart := by
  rw [unsuspendWrite_eq]
  apply sound.setWriting
  exact sound.writing.unsuspend fun certain => by rw [surely certain]

theorem setwatermark (surely : sure → adds = ⟨true, true⟩) {malloc : Malloc} {read : Bool}
    (write : Bool) (lowmark : ℕ) {highmark : ℕ} (served : read = true → highmark ≠ 0 →
      bufev.readWatermarksCb = none → malloc.block cbEntrySize ≠ none) :
    ∃ bufev', bufev.setwatermark malloc adds read write lowmark highmark = some bufev' ∧
      bufev'.Sound sure inEnd outStart ∧ bufev'.input = bufev.input ∧
      bufev'.output = bufev.output ∧ (read = false → bufev'.wmRead = bufev.wmRead) := by
  have starts : sure → adds.read = true := fun certain => by rw [surely certain]
  have counted := sound.inWf.counted
  unfold BuffereventSock.setwatermark
  dsimp only
  have drained : ∀ marked : BuffereventSock, marked = (if write then
      { bufev with wmWrite := ⟨lowmark, highmark⟩ } else bufev) →
      ∃ wmWrite, marked = { bufev with wmWrite } := by
    rintro _ rfl
    split
    · exact ⟨_, rfl⟩
    · exact ⟨_, rfl⟩
  obtain ⟨wmWrite, marked⟩ := drained _ rfl
  rw [marked]
  cases read with
  | false =>
    exact ⟨_, rfl, ⟨sound.inWf, sound.outWf, sound.inStream, sound.outStream, sound.reading,
      sound.writing, sound.armed, sound.paused⟩, rfl, rfl, fun _ => rfl⟩
  | true =>
    simp only [↓reduceIte]
    split
    · next high =>
      rw [if_neg fun refused => served rfl high refused.1 refused.2]
      split
      · next full =>
        rw [suspendRead_eq]
        refine ⟨_, rfl, ⟨sound.inWf, sound.outWf, sound.inStream, sound.outStream,
          sound.reading.suspend, sound.writing, ?_, ?_⟩, rfl, rfl, by simp⟩
        · simp [BuffereventSock.setReading, high]
        · rw [counted] at full
          simp [PausedAt, BuffereventSock.setReading, Gate.suspend, high, full]
      · next free =>
        rw [unsuspendRead_eq]
        refine ⟨_, rfl, ⟨sound.inWf, sound.outWf, sound.inStream, sound.outStream,
          sound.reading.unsuspend starts, sound.writing, ?_, ?_⟩, rfl, rfl, by simp⟩
        · simp [BuffereventSock.setReading, high]
        · rw [counted] at free
          simp [PausedAt, BuffereventSock.setReading, Gate.unsuspend, free]
    · next none_ =>
      rw [unsuspendRead_eq]
      refine ⟨_, rfl, ⟨sound.inWf, sound.outWf, sound.inStream, sound.outStream,
        sound.reading.unsuspend starts, sound.writing, ?_, ?_⟩, rfl, rfl, by simp⟩
      · simp [BuffereventSock.setReading, none_]
      · simp [PausedAt, BuffereventSock.setReading, Gate.unsuspend, none_]

end Sound

/-- What a call made of a bufferevent. -/
structure Became (sure : Prop) (bufev : BuffereventSock) (input output : Bytes)
    (bufev' : BuffereventSock) : Prop where
  idle : bufev'.Idle sure
  input : bufev'.input.bytes = input
  output : bufev'.output.bytes = output
  wmRead : bufev'.wmRead = bufev.wmRead

/-- Bytes that were appended are counted, unless there are none. -/
theorem appended_counts {bytes : Bytes} (data : Bytes) :
    0 + data.length ≠ 0 ∨ (bytes ++ data ≠ [] → bytes ≠ []) := by
  rcases eq_or_ne data [] with rfl | some_
  · exact .inr (by simp)
  · exact .inl (by simpa using some_)

theorem Became.view {input output : Bytes} {bufev' : BuffereventSock}
    (became : Became sure bufev input output bufev') (control : Control) (flushed : Bytes) :
    bufev'.view control flushed = ⟨control, input, output, flushed⟩ := by
  rw [BuffereventSock.view, became.input, became.output]

/-- A call that left the streams alone. -/
theorem Sound.unchanged (idle : bufev.Idle sure) :
    Became sure bufev bufev.input.bytes bufev.output.bytes bufev :=
  ⟨idle, rfl, rfl, rfl⟩

/-- Failing disables one direction and does nothing else. -/
theorem Became.fail {input output : Bytes} {bufev' : BuffereventSock}
    (became : Became sure bufev input output bufev') (reading : Bool) (cause : Cause) :
    Became sure bufev input output (bufev'.fail reading cause).2 := by
  obtain ⟨idle, rfl, rfl, wmRead⟩ := became
  refine ⟨idle.disable reading !reading, ?_, ?_, ?_⟩
  · rw [BuffereventSock.fail, disable_eq]
    rfl
  · rw [BuffereventSock.fail, disable_eq]
    rfl
  · rw [BuffereventSock.fail, disable_eq]
    exact wmRead

/-- Writing stops when there is nothing left to write. -/
theorem Became.stop {input output : Bytes} {bufev' : BuffereventSock}
    (became : Became sure bufev input output bufev') :
    Became sure bufev input output
      (if bufev'.output.totalLen = 0 then { bufev' with evWrite := false } else bufev') := by
  split
  · next empty =>
    refine ⟨?_, became.input, became.output, became.wmRead⟩
    have none_ := became.idle.outWf.nothing empty
    have idle : Idle sure (bufev'.setWriting bufev'.writing.stop) :=
      became.idle.setWriting (Gate.stop_kept fun waiting => waiting none_)
    exact idle
  · exact became

/-- A call of the program that may have changed the output, and told the callback if it did. -/
theorem Sound.became_output (idle : bufev.Idle sure) (surely : sure → adds = ⟨true, true⟩)
    {buf : ChainBuffer} {bytes : Bytes} {added deleted : ℕ} (told : Bool) (wf : buf.Wf)
    (stream : buf.stream = ⟨bytes, added, deleted, true, false⟩)
    (counts : added ≠ 0 ∨ (bytes ≠ [] → bufev.output.bytes ≠ []))
    (untold : told = false → buf.stream = bufev.output.stream) :
    Became sure bufev bufev.input.bytes bytes
      (if told then BuffereventSock.invokeOutput adds { bufev with output := buf }
        else { bufev with output := buf }) := by
  split
  · obtain ⟨idle', bytes, input, wmRead⟩ := idle.output_told adds
      (fun certain => by rw [surely certain]) wf stream counts
    exact ⟨idle', by rw [input], bytes, wmRead⟩
  · next silent =>
    obtain ⟨idle', -⟩ := idle.setOutput wf (untold (by simpa using silent))
    exact ⟨idle', rfl, congrArg ByteStream.bytes stream, rfl⟩

/-- The same for the input. -/
theorem Sound.became_input (idle : bufev.Idle sure) (surely : sure → adds = ⟨true, true⟩)
    {buf : ChainBuffer} {bytes : Bytes} {added deleted : ℕ} (told : Bool) (wf : buf.Wf)
    (stream : buf.stream = ⟨bytes, added, deleted, false, true⟩)
    (counts : (added ≠ 0 ∨ deleted ≠ 0) ∨ bytes.length = bufev.input.bytes.length)
    (untold : told = false → buf.stream = bufev.input.stream) :
    Became sure bufev bytes bufev.output.bytes
      (if told then BuffereventSock.invokeInput adds { bufev with input := buf }
        else { bufev with input := buf }) := by
  split
  · obtain ⟨idle', bytes, output, wmRead⟩ := idle.input_told adds
      (fun certain => by rw [surely certain]) wf stream counts
    exact ⟨idle', bytes, by rw [output], wmRead⟩
  · next silent =>
    obtain ⟨idle', -⟩ := idle.setInput wf (untold (by simpa using silent))
    exact ⟨idle', congrArg ByteStream.bytes stream, rfl, rfl⟩

/-- Bytes that were dropped are counted, unless there are none. -/
theorem dropped_counts (count : ℕ) (bytes : Bytes) :
    (0 ≠ 0 ∨ 0 + min count bytes.length ≠ 0) ∨ (bytes.drop count).length = bytes.length := by
  rw [List.length_drop]
  omega

/-- Reading finds the watermark reached when it is, if an `ev_ssize_t` can hold it. -/
theorem reached_of_howmuch (full : bufev.howmuch = none) (small : bufev.wmRead.high ≤ ssizeMax) :
    bufev.wmRead.high ≠ 0 ∧ bufev.wmRead.high ≤ bufev.input.totalLen := by
  unfold howmuch at full
  dsimp only at full
  split at full
  · next high =>
    refine ⟨high, ?_⟩
    by_contra below
    have positive : (0 : ℤ) < bufev.wmRead.high - bufev.input.totalLen := by omega
    rw [Int.bmod_eq_of_le (by omega) (by unfold ssizeMax at small; omega),
      if_neg (by omega)] at full
    exact Option.some_ne_none _ full
  · contradiction

/-- Below the watermark no more is read than reaches it. -/
theorem howmuch_le {count : ℤ} (room : bufev.howmuch = some count) :
    0 < count ∧ (bufev.wmRead.high ≠ 0 → bufev.input.totalLen ≤ bufev.wmRead.high →
      bufev.input.totalLen + count.toNat ≤ bufev.wmRead.high) := by
  unfold howmuch maxSingle at room
  dsimp only at room
  split at room
  · split at room
    · contradiction
    · next free =>
      obtain rfl := Option.some.inj room
      have near (below : bufev.input.totalLen ≤ bufev.wmRead.high) :
          ((bufev.wmRead.high : ℤ) - bufev.input.totalLen).bmod (2 ^ 64) ≤
            bufev.wmRead.high - bufev.input.totalLen :=
        by rw [Int.bmod_def]; split <;> omega
      split
      · omega
      · omega
  · next none_ =>
    obtain rfl := Option.some.inj room
    exact ⟨by omega, fun high => absurd high none_⟩

/-- After a write the write event stays pending as long as something is left. -/
theorem wrote_pending (wf : bufev.output.Wf) (pending : bufev.evWrite = true) (count : ℕ) :
    (bufev.wrote count).2.2.evWrite = true ↔ (bufev.wrote count).2.2.output.bytes ≠ [] := by
  unfold wrote
  dsimp only
  split
  · next zero => simp [wf.nothing zero]
  · next some_ =>
    rw [wf.counted] at some_
    simp only [pending, true_iff]
    exact fun none_ => some_ (by rw [none_]; rfl)

section Calls

variable (idle : bufev.Idle sure) (surely : sure → adds = ⟨true, true⟩)
include idle surely

theorem write_eq (malloc : Malloc) (data : Bytes) :
    ∃ ok bufev', bufev.write malloc adds data = some (ok, bufev') ∧
      Became sure bufev bufev.input.bytes
        (if ok then bufev.output.bytes ++ data else bufev.output.bytes) bufev' ∧
      (ok = false → sizeMax < bufev.output.bytes.length + data.length ∨
        OutOfMemory malloc data.length) := by
  obtain ⟨ok, output, added, wf, stream, failed⟩ := ChainBuffer.add_eq malloc idle.outWf data
  have open_ : bufev.output.freezeEnd = false := congrArg ByteStream.freezeEnd idle.outStream
  rw [idle.outWf.counted, open_] at failed
  refine ⟨ok, _, by rw [write, added]; rfl, ?_, by simpa using failed⟩
  rw [idle.outStream] at stream
  cases ok with
  | false =>
    exact idle.became_output surely false wf stream (.inr id) fun _ => stream.trans
      idle.outStream.symm
  | true => exact idle.became_output surely true wf stream (appended_counts data) (by simp)

theorem writeBuffer_eq {buf : ChainBuffer} (wf : buf.Wf) :
    ∃ ok rest bufev', bufev.writeBuffer adds buf = some (ok, rest, bufev') ∧
      Became sure bufev bufev.input.bytes
        (if ok then bufev.output.bytes ++ buf.bytes else bufev.output.bytes) bufev' ∧
      rest.bytes = (if ok then [] else buf.bytes) ∧
      (ok = false ↔ buf.freezeStart = true ∧ buf.bytes ≠ []) := by
  obtain ⟨ok, output, rest, added, handed⟩ := ChainBuffer.addBuffer_eq idle.outWf wf
  have open_ : bufev.output.freezeEnd = false := congrArg ByteStream.freezeEnd idle.outStream
  have failed := handed.failed
  rw [open_, Bool.false_or] at failed
  refine ⟨ok, rest, _, by rw [writeBuffer, added]; rfl, ?_, handed.left, failed⟩
  have stream := handed.streamOut
  rw [idle.outStream] at stream
  cases ok with
  | false =>
    exact idle.became_output surely false handed.wfOut stream (.inr id) fun _ => stream.trans
      idle.outStream.symm
  | true =>
    apply idle.became_output surely _ handed.wfOut stream (appended_counts buf.bytes)
    intro empty
    have none_ : buf.bytes = [] := wf.nothing (by simpa using empty)
    rw [stream, if_pos rfl, none_, ByteStream.append_nil, idle.outStream]

theorem read_eq (datlen : ℕ) :
    ∃ bufev', bufev.read adds datlen = some (some (bufev.input.bytes.take datlen), bufev') ∧
      Became sure bufev (bufev.input.bytes.drop datlen) bufev.output.bytes bufev' := by
  obtain ⟨input, removed, wf, stream⟩ := ChainBuffer.remove_eq idle.inWf datlen
  have open_ : bufev.input.freezeStart = false := congrArg ByteStream.freezeStart idle.inStream
  simp only [open_, Bool.false_eq_true, and_false, if_false] at removed stream
  refine ⟨_, by rw [read, removed]; rfl, ?_⟩
  have dropped := stream
  rw [idle.inStream] at stream
  apply idle.became_input surely _ wf stream (dropped_counts datlen _)
  intro untold
  have nothing : bufev.input.bytes.take datlen = [] := by
    simpa only [Option.any_some, decide_eq_false_iff_not, not_not] using untold
  rw [dropped]
  rcases List.take_eq_nil_iff.mp nothing with rfl | none_
  · simp [ByteStream.drop]
  · exact ChainBuffer.drop_nothing none_ datlen

theorem drainInput_eq (len : ℕ) :
    ∃ bufev', bufev.drainInput adds len = some (true, bufev') ∧
      Became sure bufev (bufev.input.bytes.drop len) bufev.output.bytes bufev' := by
  obtain ⟨ok, input, drained, outcome, -⟩ := ChainBuffer.drain_eq idle.inWf len
  have open_ : bufev.input.freezeStart = false := congrArg ByteStream.freezeStart idle.inStream
  obtain rfl : ok = true := by
    rw [← Bool.not_eq_false]
    intro failed
    have closed := (outcome.failed failed).1
    rw [open_] at closed
    contradiction
  refine ⟨_, by rw [drainInput, drained]; rfl, ?_⟩
  have dropped := outcome.stream
  have stream := dropped
  rw [idle.inStream] at stream
  apply idle.became_input surely _ outcome.wf stream (dropped_counts len _)
  intro untold
  rw [dropped]
  exact ChainBuffer.drop_nothing (idle.inWf.nothing (by simpa using untold)) len

theorem readBuffer_eq {buf : ChainBuffer} (wf : buf.Wf) :
    ∃ ok grown bufev', bufev.readBuffer adds buf = some (ok, grown, bufev') ∧
      Became sure bufev (if ok then [] else bufev.input.bytes) bufev.output.bytes bufev' ∧
      grown.bytes = (if ok then buf.bytes ++ bufev.input.bytes else buf.bytes) ∧
      (ok = false ↔ buf.freezeEnd = true ∧ bufev.input.bytes ≠ []) := by
  obtain ⟨ok, grown, input, added, handed⟩ := ChainBuffer.addBuffer_eq wf idle.inWf
  have open_ : bufev.input.freezeStart = false := congrArg ByteStream.freezeStart idle.inStream
  have failed := handed.failed
  rw [open_, Bool.or_false] at failed
  have joined : grown.bytes = if ok then buf.bytes ++ bufev.input.bytes else buf.bytes := by
    have stream := congrArg ByteStream.bytes handed.streamOut
    change grown.bytes = _ at stream
    rw [stream]
    cases ok with
    | false => rfl
    | true => rfl
  refine ⟨ok, grown, _, by rw [readBuffer, added]; rfl, ?_, joined, failed⟩
  have dropped := handed.streamIn
  have stream := dropped
  rw [idle.inStream] at stream
  cases ok with
  | false =>
    exact idle.became_input surely false handed.wfIn stream (.inr rfl) fun _ => dropped
  | true =>
    have emptied : (if true = true then [] else bufev.input.bytes) =
        bufev.input.bytes.drop bufev.input.bytes.length := List.drop_length.symm
    rw [emptied]
    apply idle.became_input surely _ handed.wfIn stream (dropped_counts _ _)
    intro untold
    rw [dropped, if_pos rfl]
    exact ChainBuffer.drop_nothing (idle.inWf.nothing (by simpa using untold)) _

omit idle surely in
/-- The callbacks of the input leave the output alone. -/
theorem invokeInput_output (adds : EventAdd) (input output : ChainBuffer) :
    invokeInput adds { bufev with input, output } =
      { invokeInput adds { bufev with input } with output } := by
  unfold invokeInput
  dsimp only
  split
  · rw [inbufWmCb_eq, inbufWmCb_eq]
    rfl
  · rfl

theorem echo_eq :
    ∃ bufev', bufev.echo adds = some (true, bufev') ∧
      Became sure bufev [] (bufev.output.bytes ++ bufev.input.bytes) bufev' := by
  obtain ⟨ok, output, input, added, handed⟩ := ChainBuffer.addBuffer_eq idle.outWf idle.inWf
  have open_ : bufev.output.freezeEnd = false := congrArg ByteStream.freezeEnd idle.outStream
  have open' : bufev.input.freezeStart = false := congrArg ByteStream.freezeStart idle.inStream
  obtain rfl : ok = true := by
    rw [← Bool.not_eq_false]
    intro failed
    have closed := (handed.failed.mp failed).1
    rw [open_, open'] at closed
    contradiction
  have streamIn := handed.streamIn
  have streamOut := handed.streamOut
  refine ⟨_, by rw [echo, added]; rfl, ?_⟩
  split
  · rw [idle.inStream] at streamIn
    rw [idle.outStream] at streamOut
    obtain ⟨idle', bytes, out', wmRead⟩ := idle.input_told adds
      (fun certain => by rw [surely certain]) handed.wfIn streamIn (dropped_counts _ _)
    obtain ⟨idle'', bytes', in', wmRead'⟩ := idle'.output_told adds
      (fun certain => by rw [surely certain]) handed.wfOut streamOut
      (by rw [out']; exact appended_counts bufev.input.bytes)
    rw [invokeInput_output]
    refine ⟨idle'', ?_, bytes', wmRead'.trans wmRead⟩
    rw [in', bytes, List.drop_length]
  · next untold =>
    have none_ : bufev.input.bytes = [] := idle.inWf.nothing (by simpa using untold)
    rw [none_, if_pos rfl, ByteStream.append_nil] at streamOut
    rw [if_pos rfl, ChainBuffer.drop_nothing none_] at streamIn
    obtain ⟨idle', bytes⟩ := idle.setInput handed.wfIn streamIn
    obtain ⟨idle'', bytes'⟩ := idle'.setOutput handed.wfOut streamOut
    refine ⟨idle'', bytes.trans none_, ?_, rfl⟩
    rw [none_, List.append_nil]
    exact bytes'

/-- Reading takes bytes from the socket in their order, and never more than the high watermark
leaves room for. -/
theorem buffereventReadcb_eq (malloc : Malloc) (socket : ReadSocket) (timedOut : Bool)
    (errno : Errno) :
    ∃ calls data bufev',
      bufev.buffereventReadcb malloc adds socket timedOut errno = some (calls, data, bufev') ∧
      Became sure bufev (bufev.input.bytes ++ data) bufev.output.bytes bufev' ∧
      (data ≠ [] → (∃ room, socket.readv room = some data) ∧
        (bufev.wmRead.high ≠ 0 → bufev.input.bytes.length + data.length ≤ bufev.wmRead.high)) := by
  unfold buffereventReadcb
  split
  · refine ⟨_, _, _, rfl, ?_, by simp⟩
    rw [List.append_nil]
    exact idle.unchanged.fail true .timeout
  · split
    · next full =>
      have reached := reached_of_howmuch full
      rw [idle.inWf.counted] at reached
      refine ⟨_, _, _, rfl, ?_, by simp⟩
      rw [List.append_nil]
      refine ⟨idle.reached reached, ?_, ?_, ?_⟩ <;> rw [suspendRead_eq] <;> rfl
    · next howmuch room =>
      obtain ⟨positive, within⟩ := howmuch_le room
      rw [idle.inWf.counted] at within
      split
      · refine ⟨_, _, _, rfl, ?_, by simp⟩
        rw [List.append_nil]
        exact idle.unchanged
      · next free =>
        have below (high : bufev.wmRead.high ≠ 0) :
            bufev.input.bytes.length ≤ bufev.wmRead.high := by
          rcases Nat.le_total bufev.input.bytes.length bufev.wmRead.high with below | full
          · exact below
          · exact absurd (idle.paused.1 ⟨high, full⟩) (by simp [not_not.mp free])
        have opened := idle.input_end false
        obtain ⟨result, input, done, wf, stream, source⟩ :=
          ChainBuffer.read_eq malloc opened.inWf socket howmuch
        have begun : (bufev.input.unfreeze false).read malloc socket howmuch =
            some (result, input) := done
        simp only [begun, Option.bind_eq_bind, Option.bind_some]
        have refrozen (same : input.stream = (bufev.input.unfreeze false).stream) :
            Became sure bufev (bufev.input.bytes ++ []) bufev.output.bytes
              { bufev with input := input.freeze false } := by
          obtain ⟨closed, bytes⟩ := opened.setInput wf same
          rw [List.append_nil]
          exact ⟨closed.input_end true, bytes, rfl, rfl⟩
        rcases result with _ | _ | ⟨byte, more⟩
        · have same := refrozen (stream.trans (ByteStream.append_nil _))
          cases errno with
          | retriable => exact ⟨_, _, _, rfl, same, by simp⟩
          | refused => exact ⟨_, _, _, rfl, same, by simp⟩
          | other => exact ⟨_, _, _, rfl, same.fail true .error, by simp⟩
        · have same := refrozen (stream.trans (ByteStream.append_nil _))
          exact ⟨_, _, _, rfl, same.fail true .eof, by simp⟩
        · have came :
              some (byte :: more) = socket.readv (ChainBuffer.readLimit socket howmuch) := by
            rcases source with came | failed
            · exact came
            · exact absurd failed.1 (by simp)
          have length := socket.bounded came.symm
          have limit := ChainBuffer.readLimit_le_toNat socket (Int.le_of_lt positive)
          rw [opened.inStream] at stream
          obtain ⟨told, bytes, output, wmRead⟩ := opened.input_told adds
            (fun certain => by rw [surely certain]) wf stream (by simp)
          exact ⟨_, _, _, rfl, ⟨told.input_end true, bytes, by rw [output], wmRead⟩,
            fun _ => ⟨⟨_, came.symm⟩, fun high => by have := within high (below high); omega⟩⟩

/-- Writing hands the front of the output to the socket. -/
theorem buffereventWritecb_eq (socket : WriteSocket) (timedOut : Bool) (errno : Errno) :
    ∃ calls count bufev',
      bufev.buffereventWritecb adds socket timedOut errno = some (calls, count, bufev') ∧
      Became sure bufev bufev.input.bytes (bufev.output.bytes.drop count) bufev' ∧
      (count ≠ 0 →
        ∃ offered, offered <+: bufev.output.bytes ∧ socket.writev offered = some count) := by
  unfold buffereventWritecb
  split
  · exact ⟨_, _, _, rfl, idle.unchanged.fail false .timeout, by simp⟩
  · split
    · exact ⟨_, _, _, rfl, idle.unchanged, by simp⟩
    · split
      · have opened := idle.output_start false
        obtain ⟨result, output, done, wf, stream, source⟩ :=
          ChainBuffer.writeAtmost_eq opened.outWf socket maxSingle
        have begun : (bufev.output.unfreeze true).writeAtmost socket maxSingle =
            some (result, output) := done
        simp only [begun, Option.bind_eq_bind, Option.bind_some]
        have refrozen (same : output.stream = (bufev.output.unfreeze true).stream) :
            Became sure bufev bufev.input.bytes bufev.output.bytes
              { bufev with output := output.freeze true } := by
          obtain ⟨closed, bytes⟩ := opened.setOutput wf same
          exact ⟨closed.output_start true, rfl, bytes, rfl⟩
        have unsent : (bufev.output.unfreeze true).stream.drop 0 =
            (bufev.output.unfreeze true).stream := by
          simp [ByteStream.drop]
        rcases result with _ | _ | count
        · have same := refrozen (stream.trans unsent)
          cases errno with
          | retriable => exact ⟨_, _, _, rfl, same.stop, by simp⟩
          | refused => exact ⟨_, _, _, rfl, same.fail false .error, by simp⟩
          | other => exact ⟨_, _, _, rfl, same.fail false .error, by simp⟩
        · have same := refrozen (stream.trans unsent)
          exact ⟨_, _, _, rfl, same.fail false .eof, by simp⟩
        · rw [opened.outStream] at stream
          obtain ⟨told, bytes, input, wmRead⟩ := opened.output_told adds
            (fun certain => by rw [surely certain]) wf stream
            (.inr fun left none_ => left (by
              change bufev.output.bytes.drop _ = []
              rw [show bufev.output.bytes = [] from none_, List.drop_nil]))
          have became : Became sure bufev bufev.input.bytes (bufev.output.bytes.drop (count + 1))
              { invokeOutput adds { bufev with output } with
                output := (invokeOutput adds { bufev with output }).output.freeze true } :=
            ⟨told.output_start true, congrArg ChainBuffer.bytes input, bytes, wmRead⟩
          refine ⟨_, count + 1, _, rfl, became.stop, fun _ => ?_⟩
          rcases source with ⟨-, failed⟩ | ⟨-, offered, -, front, -, took⟩
          · simp at failed
          · exact ⟨offered, front, took.symm⟩
      · exact ⟨_, _, _, rfl, idle.unchanged.stop, by simp⟩

omit surely in
/-- While the write event is pending, a socket that takes something takes bytes that wait, and the
event stays pending until none does. -/
theorem buffereventWritecb_pending (pending : bufev.evWrite = true) (socket : WriteSocket)
    (willing : socket.Willing) (errno : Errno) :
    ∃ calls count bufev',
      bufev.buffereventWritecb adds socket false errno = some (calls, count, bufev') ∧
      (bufev.output.bytes ≠ [] → count ≠ 0) ∧
      (bufev'.evWrite = true ↔ bufev'.output.bytes ≠ []) := by
  have free : bufev.writeSuspended = ∅ := (idle.writing.allowed pending).2
  unfold buffereventWritecb
  rw [if_neg Bool.false_ne_true, if_neg (not_not.mpr free)]
  split
  · next waiting =>
    have opened := idle.output_start false
    obtain ⟨result, output, done, wf, stream, source⟩ :=
      ChainBuffer.writeAtmost_eq opened.outWf socket maxSingle
    have begun : (bufev.output.unfreeze true).writeAtmost socket maxSingle =
        some (result, output) := done
    simp only [begun, Option.bind_eq_bind, Option.bind_some]
    rcases source with ⟨closed | none_ | zero, -⟩ | ⟨-, offered, some_, -, -, took⟩
    · exact absurd closed Bool.false_ne_true
    · have none_ : bufev.output.bytes = [] := none_
      rw [idle.outWf.counted, none_] at waiting
      exact absurd rfl waiting
    · exact absurd zero (by decide)
    · obtain ⟨count, taken⟩ := willing offered some_
      obtain rfl : result = some (count + 1) := took.trans taken
      have told := @invokeOutput_eq { bufev with output } adds wf
      have wf' : (invokeOutput adds { bufev with output }).output.Wf := by
        rw [told]
        exact (runCallbacks_spec wf true).1
      have still : (invokeOutput adds { bufev with output }).evWrite = true := by
        rw [told]
        change (if _ then bufev.writing.start adds.write else bufev.writing).running = true
        split
        · simp [Gate.start, pending]
        · exact pending
      clear told
      generalize invokeOutput adds { bufev with output } = fed at wf' still ⊢
      have closed : (fed.output.freeze true).Wf :=
        ⟨wf'.sound, wf'.lead, wf'.front, wf'.trailing, wf'.counted⟩
      exact ⟨_, _, _, rfl, by simp,
        @wrote_pending { fed with output := fed.output.freeze true } closed still (count + 1)⟩
  · next none_ =>
    have none_ : bufev.output.totalLen = 0 := by simpa using none_
    exact ⟨_, _, _, rfl, fun some_ => absurd (idle.outWf.nothing none_) some_,
      wrote_pending idle.outWf pending 0⟩

end Calls

end BuffereventSock

namespace SockCall

/-- The bytes that the socket took in a call on a bufferevent with this output. -/
def taken (output : Bytes) : SockReply → Bytes
  | .sent _ count => output.take count
  | _ => []

variable {sure : Prop} {bufev : BuffereventSock} {adds : EventAdd}

/-- Whether a call may move the high watermark of reading. -/
def Sets : SockCall → Prop
  | setwatermark _ reads _ _ _ => reads = true
  | _ => False

/-- What a call leaves behind: the bufferevent as it is between calls, streams as the call may
leave them, and an input that did not grow over the high watermark unless the call moved that. -/
structure Settled (sure : Prop) (control : Control) (flushed : Bytes) (bufev : BuffereventSock)
    (call : SockCall) (reply : SockReply) (bufev' : BuffereventSock) : Prop where
  idle : bufev'.Idle sure
  allowed : call.Allows (bufev.view control flushed) reply
    (bufev'.view control (flushed ++ taken bufev.output.bytes reply))
  wmRead : ¬call.Sets → bufev'.wmRead = bufev.wmRead
  within : ¬call.Sets → bufev.wmRead.high ≠ 0 → bufev.input.bytes.length ≤ bufev.wmRead.high →
    bufev'.input.bytes.length ≤ bufev.wmRead.high

variable {control : Control} {flushed : Bytes} {call : SockCall} {reply : SockReply}
  {bufev' : BuffereventSock} {input output : Bytes}

theorem Settled.of_became (became : BuffereventSock.Became sure bufev input output bufev')
    (less : input.length ≤ bufev.input.bytes.length)
    (allowed : call.Allows (bufev.view control flushed) reply
      ⟨control, input, output, flushed ++ taken bufev.output.bytes reply⟩) :
    call.Settled sure control flushed bufev reply bufev' := by
  refine ⟨became.idle, ?_, fun _ => became.wmRead, fun _ _ within => ?_⟩
  · rwa [became.view]
  · rw [became.input]
    exact Nat.le_trans less within

/-- A call about the events alone. -/
theorem Settled.of_events {ok : Bool} (idle : bufev'.Idle sure) (input : bufev'.input = bufev.input)
    (output : bufev'.output = bufev.output) (wmRead : ¬call.Sets → bufev'.wmRead = bufev.wmRead)
    (allowed : ∀ v, call.Allows v (.done ok) v) :
    call.Settled sure control flushed bufev (.done ok) bufev' := by
  refine ⟨idle, ?_, wmRead, fun _ _ within => ?_⟩
  · have same : bufev'.view control (flushed ++ taken bufev.output.bytes (.done ok)) =
        bufev.view control flushed := by
      simp only [BuffereventSock.view, input, output, taken, List.append_nil]
    rw [same]
    exact allowed _
  · rwa [input]

/-- Every call is defined and settles. -/
theorem run_settled (idle : bufev.Idle sure) (surely : sure → adds = ⟨true, true⟩)
    (control : Control) (flushed : Bytes) (call : SockCall) (pre : call.Pre bufev) :
    ∃ reply bufev', call.run adds bufev = some (reply, bufev') ∧
      call.Settled sure control flushed bufev reply bufev' := by
  cases call with
  | write malloc data =>
    obtain ⟨ok, bufev', done, became, failed⟩ := BuffereventSock.write_eq idle surely malloc data
    refine ⟨.done ok, bufev', by rw [run, done]; rfl,
      .of_became became (Nat.le_refl _) ⟨?_, failed⟩⟩
    simp only [taken, List.append_nil]
    cases ok with
    | false => rfl
    | true => rfl
  | writeBuffer buf =>
    obtain ⟨ok, rest, bufev', done, became, left, failed⟩ :=
      BuffereventSock.writeBuffer_eq idle surely pre
    refine ⟨.moved ok rest, bufev', by rw [run, done]; rfl,
      .of_became became (Nat.le_refl _) ⟨?_, left, failed⟩⟩
    simp only [taken, List.append_nil]
    cases ok with
    | false => rfl
    | true => rfl
  | read datlen =>
    obtain ⟨bufev', done, became⟩ := BuffereventSock.read_eq idle surely datlen
    refine ⟨.text _, bufev', by rw [run, done]; rfl,
      .of_became became (by rw [List.length_drop]; omega) ⟨rfl, ?_⟩⟩
    simp only [taken, List.append_nil]
    rfl
  | drain len =>
    obtain ⟨bufev', done, became⟩ := BuffereventSock.drainInput_eq idle surely len
    refine ⟨.done true, bufev', by rw [run, done]; rfl,
      .of_became became (by rw [List.length_drop]; omega) ⟨rfl, ?_⟩⟩
    simp only [taken, List.append_nil]
    rfl
  | readBuffer buf =>
    obtain ⟨ok, grown, bufev', done, became, joined, failed⟩ :=
      BuffereventSock.readBuffer_eq idle surely pre
    refine ⟨.moved ok grown, bufev', by rw [run, done]; rfl,
      .of_became became (by split <;> simp) ⟨?_, joined, failed⟩⟩
    simp only [taken, List.append_nil]
    cases ok with
    | false => rfl
    | true => exact congrArg (View.mk _ · _ _) List.drop_length.symm
  | echo =>
    obtain ⟨bufev', done, became⟩ := BuffereventSock.echo_eq idle surely
    refine ⟨.done true, bufev', by rw [run, done]; rfl,
      .of_became became (Nat.zero_le _) ⟨rfl, ?_⟩⟩
    simp only [taken, List.append_nil]
    exact congrArg (View.mk _ · _ _) List.drop_length.symm
  | readcb malloc socket timedOut errno =>
    obtain ⟨calls, data, bufev', done, became, source⟩ :=
      BuffereventSock.buffereventReadcb_eq idle surely malloc socket timedOut errno
    refine ⟨.arrived calls data, bufev', by rw [run, done]; rfl, became.idle,
      ⟨?_, fun some_ => (source some_).1⟩, fun _ => became.wmRead, fun _ high within => ?_⟩
    · simp only [became.view, taken, List.append_nil]
      rfl
    · rw [became.input, List.length_append]
      rcases eq_or_ne data [] with rfl | some_
      · exact within
      · exact (source some_).2 high
  | writecb socket timedOut errno =>
    obtain ⟨calls, count, bufev', done, became, source⟩ :=
      BuffereventSock.buffereventWritecb_eq idle surely socket timedOut errno
    exact ⟨.sent calls count, bufev', by rw [run, done]; rfl,
      .of_became became (Nat.le_refl _) ⟨rfl, source⟩⟩
  | enable reads writes =>
    obtain ⟨starts, -, same⟩ := BuffereventSock.enable_eq adds reads writes bufev
    exact ⟨.done (bufev.enable adds reads writes).1, (bufev.enable adds reads writes).2, rfl,
      .of_events (idle.enable surely reads writes) (by rw [same]; rfl)
      (by rw [same]; rfl) (fun _ => by rw [same]; rfl) (fun _ => rfl)⟩
  | disable reads writes =>
    have same := BuffereventSock.disable_eq reads writes bufev
    exact ⟨.done true, _, rfl, .of_events (idle.disable reads writes) (by rw [same]; rfl)
      (by rw [same]; rfl) (fun _ => by rw [same]; rfl) (fun _ => rfl)⟩
  | setwatermark malloc reads writes lowmark highmark =>
    obtain ⟨bufev', done, idle', input, output, wmRead⟩ :=
      idle.setwatermark surely writes lowmark pre
    exact ⟨.done true, bufev', by rw [run, done]; rfl, .of_events idle' input output
      (fun still => wmRead (by simpa [Sets] using still)) (fun _ => rfl)⟩
  | suspendRead what =>
    have same := BuffereventSock.suspendRead_eq what bufev
    exact ⟨.done true, _, rfl, .of_events (idle.suspendRead pre) (by rw [same]; rfl)
      (by rw [same]; rfl) (fun _ => by rw [same]; rfl) (fun _ => rfl)⟩
  | unsuspendRead what =>
    have same := BuffereventSock.unsuspendRead_eq adds what bufev
    exact ⟨.done true, _, rfl, .of_events (idle.unsuspendRead surely pre) (by rw [same]; rfl)
      (by rw [same]; rfl) (fun _ => by rw [same]; rfl) (fun _ => rfl)⟩
  | suspendWrite what =>
    have same := BuffereventSock.suspendWrite_eq what bufev
    exact ⟨.done true, _, rfl, .of_events (idle.suspendWrite what) (by rw [same]; rfl)
      (by rw [same]; rfl) (fun _ => by rw [same]; rfl) (fun _ => rfl)⟩
  | unsuspendWrite what =>
    have same := BuffereventSock.unsuspendWrite_eq adds what bufev
    exact ⟨.done true, _, rfl, .of_events (idle.unsuspendWrite surely what) (by rw [same]; rfl)
      (by rw [same]; rfl) (fun _ => by rw [same]; rfl) (fun _ => rfl)⟩

end SockCall

end MerlinC.Model
