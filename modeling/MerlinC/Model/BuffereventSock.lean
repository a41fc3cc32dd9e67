import MerlinC.Math.Gates
import MerlinC.Model.Bufferevent
import MerlinC.Model.EvbufferPool

/-! # Socket bufferevents in libevent

`bufferevent.c` and `bufferevent_sock.c` over the evbuffers: which of its two events a bufferevent
has pending, what suspends them, and what the event callbacks do with the socket. `event_add` may
fail, which its callers ignore or report as the source does. The model names the callbacks of the
program that are made; what the program does in them are further calls.
-/

namespace MerlinC.Model

open Math

/-- `BEV_SUSPEND_*`. -/
inductive SuspendFlag where
  | wm
  | bw
  | bwGroup
  | lookup
  | filtRead
deriving DecidableEq, Repr

/-- `struct event_watermark`. -/
structure Watermark where
  low : ℕ
  high : ℕ
deriving DecidableEq, Repr

/-- Whether `event_add` succeeds on `ev_read` and on `ev_write`. -/
structure EventAdd where
  read : Bool
  write : Bool
deriving DecidableEq, Repr

/-- What `errno` says after a read or write that failed. -/
inductive Errno where
  | retriable
  | refused
  | other
deriving DecidableEq, Repr

/-- `BEV_EVENT_TIMEOUT`, `BEV_EVENT_ERROR` and `BEV_EVENT_EOF`. -/
inductive Cause where
  | timeout
  | error
  | eof
deriving DecidableEq, Repr

/-- A callback of the program that is made. -/
inductive UserCall where
  | readcb
  | writecb
  | errorcb (reading : Bool) (cause : Cause)
deriving DecidableEq, Repr

/-- `struct bufferevent` and `struct bufferevent_private`. The callback of the read watermark is
there once it was ever needed, and then enabled or not. -/
structure BuffereventSock where
  input : ChainBuffer
  output : ChainBuffer
  readcb : Bool
  writecb : Bool
  errorcb : Bool
  enabledRead : Bool
  enabledWrite : Bool
  readSuspended : Finset SuspendFlag
  writeSuspended : Finset SuspendFlag
  evRead : Bool
  evWrite : Bool
  wmRead : Watermark
  wmWrite : Watermark
  readWatermarksCb : Option Bool
deriving DecidableEq

namespace BuffereventSock

/-- `MAX_SINGLE_READ_DEFAULT` and `MAX_SINGLE_WRITE_DEFAULT`. -/
def maxSingle : ℤ := 16384

/-- `bufferevent_socket_new`, with the callbacks of `bufferevent_setcb`. -/
def new (readcb writecb errorcb : Bool) : BuffereventSock where
  input := ChainBuffer.new.freeze false
  output := ChainBuffer.new.freeze true
  readcb
  writecb
  errorcb
  enabledRead := false
  enabledWrite := true
  readSuspended := ∅
  writeSuspended := ∅
  evRead := false
  evWrite := false
  wmRead := ⟨0, 0⟩
  wmWrite := ⟨0, 0⟩
  readWatermarksCb := none

/-- `be_socket_enable`. -/
def beSocketEnable (adds : EventAdd) (read write : Bool) (bufev : BuffereventSock) :
    Bool × BuffereventSock :=
  if read && !adds.read then (false, bufev)
  else
    let bufev := { bufev with evRead := bufev.evRead || read }
    if write && !adds.write then (false, bufev)
    else (true, { bufev with evWrite := bufev.evWrite || write })

/-- `be_socket_disable`, when no connection is being made. -/
def beSocketDisable (read write : Bool) (bufev : BuffereventSock) : BuffereventSock :=
  { bufev with evRead := bufev.evRead && !read, evWrite := bufev.evWrite && !write }

/-- `bufferevent_enable`. -/
def enable (adds : EventAdd) (read write : Bool) (bufev : BuffereventSock) :
    Bool × BuffereventSock :=
  let implRead := read && decide (bufev.readSuspended = ∅)
  let implWrite := write && decide (bufev.writeSuspended = ∅)
  beSocketEnable adds implRead implWrite { bufev with
    enabledRead := bufev.enabledRead || read, enabledWrite := bufev.enabledWrite || write }

/-- `bufferevent_disable`. -/
def disable (read write : Bool) (bufev : BuffereventSock) : BuffereventSock :=
  beSocketDisable read write { bufev with
    enabledRead := bufev.enabledRead && !read, enabledWrite := bufev.enabledWrite && !write }

/-- `bufferevent_suspend_read_`. -/
def suspendRead (what : SuspendFlag) (bufev : BuffereventSock) : BuffereventSock :=
  let bufev := if bufev.readSuspended = ∅ then bufev.beSocketDisable true false else bufev
  { bufev with readSuspended := insert what bufev.readSuspended }

/-- `bufferevent_unsuspend_read_`. -/
def unsuspendRead (adds : EventAdd) (what : SuspendFlag) (bufev : BuffereventSock) :
    BuffereventSock :=
  let bufev := { bufev with readSuspended := bufev.readSuspended.erase what }
  if bufev.readSuspended = ∅ ∧ bufev.enabledRead then (bufev.beSocketEnable adds true false).2
  else bufev

/-- `bufferevent_suspend_write_`. -/
def suspendWrite (what : SuspendFlag) (bufev : BuffereventSock) : BuffereventSock :=
  let bufev := if bufev.writeSuspended = ∅ then bufev.beSocketDisable false true else bufev
  { bufev with writeSuspended := insert what bufev.writeSuspended }

/-- `bufferevent_unsuspend_write_`. -/
def unsuspendWrite (adds : EventAdd) (what : SuspendFlag) (bufev : BuffereventSock) :
    BuffereventSock :=
  let bufev := { bufev with writeSuspended := bufev.writeSuspended.erase what }
  if bufev.writeSuspended = ∅ ∧ bufev.enabledWrite then (bufev.beSocketEnable adds false true).2
  else bufev

/-- `bufferevent_inbuf_wm_cb`. -/
def inbufWmCb (adds : EventAdd) (bufev : BuffereventSock) : BuffereventSock :=
  if bufev.wmRead.high ≤ bufev.input.totalLen then bufev.suspendRead .wm
  else bufev.unsuspendRead adds .wm

/-- `bufferevent_socket_outbuf_cb`. -/
def outbufCb (adds : EventAdd) (cbinfo : CbInfo) (bufev : BuffereventSock) : BuffereventSock :=
  if cbinfo.nAdded ≠ 0 ∧ bufev.enabledWrite ∧ bufev.evWrite = false ∧
      bufev.writeSuspended = ∅ then
    if adds.write then { bufev with evWrite := true } else bufev
  else bufev

/-- `evbuffer_invoke_callbacks_` on the input. -/
def invokeInput (adds : EventAdd) (bufev : BuffereventSock) : BuffereventSock :=
  let (info, input) := bufev.input.runCallbacks bufev.readWatermarksCb.isSome true
  let bufev := { bufev with input }
  if info.isSome ∧ bufev.readWatermarksCb = some true then bufev.inbufWmCb adds else bufev

/-- `evbuffer_invoke_callbacks_` on the output, whose one callback is always there. -/
def invokeOutput (adds : EventAdd) (bufev : BuffereventSock) : BuffereventSock :=
  let (info, output) := bufev.output.runCallbacks true true
  let bufev := { bufev with output }
  match info with
  | some cbinfo => bufev.outbufCb adds cbinfo
  | none => bufev

/-- `bufferevent_write`. -/
def write (malloc : Malloc) (adds : EventAdd) (data : Bytes) (bufev : BuffereventSock) :
    Option (Bool × BuffereventSock) := do
  let (ok, output) ← bufev.output.add malloc data
  let bufev := { bufev with output }
  some (ok, if ok then bufev.invokeOutput adds else bufev)

/-- `bufferevent_write_buffer`. -/
def writeBuffer (adds : EventAdd) (buf : ChainBuffer) (bufev : BuffereventSock) :
    Option (Bool × ChainBuffer × BuffereventSock) := do
  let (ok, output, rest) ← bufev.output.addBuffer buf
  let moved := ok && decide (buf.totalLen ≠ 0)
  let bufev := { bufev with output }
  some (ok, rest, if moved then bufev.invokeOutput adds else bufev)

/-- `bufferevent_read`. -/
def read (adds : EventAdd) (datlen : ℕ) (bufev : BuffereventSock) :
    Option (Option Bytes × BuffereventSock) := do
  let (data, input) ← bufev.input.remove datlen
  let bufev := { bufev with input }
  some (data, if data.any (· ≠ []) then bufev.invokeInput adds else bufev)

/-- `evbuffer_drain` on the input. -/
def drainInput (adds : EventAdd) (len : ℕ) (bufev : BuffereventSock) :
    Option (Bool × BuffereventSock) := do
  let (ok, input) ← bufev.input.drain len
  let drained := ok && decide (bufev.input.totalLen ≠ 0)
  let bufev := { bufev with input }
  some (ok, if drained then bufev.invokeInput adds else bufev)

/-- `bufferevent_read_buffer`. -/
def readBuffer (adds : EventAdd) (buf : ChainBuffer) (bufev : BuffereventSock) :
    Option (Bool × ChainBuffer × BuffereventSock) := do
  let (ok, grown, input) ← buf.addBuffer bufev.input
  let moved := ok && decide (bufev.input.totalLen ≠ 0)
  let bufev := { bufev with input }
  some (ok, grown, if moved then bufev.invokeInput adds else bufev)

/-- `evbuffer_add_buffer` of the input to the output of one bufferevent. -/
def echo (adds : EventAdd) (bufev : BuffereventSock) : Option (Bool × BuffereventSock) := do
  let (ok, output, input) ← bufev.output.addBuffer bufev.input
  let moved := ok && decide (bufev.input.totalLen ≠ 0)
  let bufev := { bufev with output, input }
  some (ok, if moved then (bufev.invokeInput adds).invokeOutput adds else bufev)

/-- `sizeof(struct evbuffer_cb_entry)`. -/
def cbEntrySize : ℕ := 40

/-- `bufferevent_setwatermark`. There is no result when `evbuffer_add_cb` has no memory for the
callback, whose flags are set all the same. -/
def setwatermark (malloc : Malloc) (adds : EventAdd) (read write : Bool) (lowmark highmark : ℕ)
    (bufev : BuffereventSock) : Option BuffereventSock :=
  let bufev := if write then { bufev with wmWrite := ⟨lowmark, highmark⟩ } else bufev
  if read then
    let bufev := { bufev with wmRead := ⟨lowmark, highmark⟩ }
    if highmark ≠ 0 then
      if bufev.readWatermarksCb = none ∧ malloc.block cbEntrySize = none then none
      else
        let bufev := { bufev with readWatermarksCb := some true }
        if highmark ≤ bufev.input.totalLen then some (bufev.suspendRead .wm)
        else some (bufev.unsuspendRead adds .wm)
    else
      let bufev := { bufev with readWatermarksCb := bufev.readWatermarksCb.map fun _ => false }
      some (bufev.unsuspendRead adds .wm)
  else some bufev

/-- `bufferevent_run_eventcb_` after `bufferevent_disable`, at the end of either event callback. -/
def fail (reading : Bool) (cause : Cause) (bufev : BuffereventSock) :
    List UserCall × BuffereventSock :=
  (if bufev.errorcb then [.errorcb reading cause] else [], bufev.disable reading !reading)

/-- How much `bufferevent_readcb` reads at most, unless it finds the high watermark reached. -/
def howmuch (bufev : BuffereventSock) : Option ℤ :=
  if bufev.wmRead.high ≠ 0 then
    -- the difference of two `size_t` becomes an `ev_ssize_t`
    let howmuch := ((bufev.wmRead.high : ℤ) - bufev.input.totalLen).bmod (2 ^ 64)
    if howmuch ≤ 0 then none
    else some (if howmuch < 0 ∨ maxSingle < howmuch then maxSingle else howmuch)
  else some maxSingle

/-- `bufferevent_trigger_nolock_` with `EV_READ`. -/
def triggerRead (bufev : BuffereventSock) : List UserCall :=
  if bufev.wmRead.low ≤ bufev.input.totalLen ∧ bufev.readcb then [.readcb] else []

/-- `bufferevent_trigger_nolock_` with `EV_WRITE`. -/
def triggerWrite (bufev : BuffereventSock) : List UserCall :=
  if bufev.output.totalLen ≤ bufev.wmWrite.low ∧ bufev.writecb then [.writecb] else []

/-- `bufferevent_readcb`: the callbacks it makes and the bytes that arrived. -/
def buffereventReadcb (malloc : Malloc) (adds : EventAdd) (socket : ReadSocket) (timedOut : Bool)
    (errno : Errno) (bufev : BuffereventSock) :
    Option (List UserCall × Bytes × BuffereventSock) :=
  if timedOut then
    let (calls, bufev) := bufev.fail true .timeout
    some (calls, [], bufev)
  else
    match bufev.howmuch with
    | none => some ([], [], bufev.suspendRead .wm)
    | some howmuch =>
      if bufev.readSuspended ≠ ∅ then some ([], [], bufev)
      else do
        let (res, input) ← (bufev.input.unfreeze false).read malloc socket howmuch
        match res with
        | none =>
          let bufev := { bufev with input := input.freeze false }
          match errno with
          | .retriable | .refused => some ([], [], bufev)
          | .other =>
            let (calls, bufev) := bufev.fail true .error
            some (calls, [], bufev)
        | some [] =>
          let (calls, bufev) := ({ bufev with input := input.freeze false }).fail true .eof
          some (calls, [], bufev)
        | some (byte :: more) =>
          let bufev := ({ bufev with input }).invokeInput adds
          let bufev := { bufev with input := bufev.input.freeze false }
          some (bufev.triggerRead, byte :: more, bufev)

/-- The end of `bufferevent_writecb` when nothing went wrong. -/
def wrote (count : ℕ) (bufev : BuffereventSock) : List UserCall × ℕ × BuffereventSock :=
  let bufev := if bufev.output.totalLen = 0 then { bufev with evWrite := false } else bufev
  (bufev.triggerWrite, count, bufev)

/-- `bufferevent_writecb`: the callbacks it makes and how many bytes the socket took. -/
def buffereventWritecb (adds : EventAdd) (socket : WriteSocket) (timedOut : Bool) (errno : Errno)
    (bufev : BuffereventSock) : Option (List UserCall × ℕ × BuffereventSock) :=
  if timedOut then
    let (calls, bufev) := bufev.fail false .timeout
    some (calls, 0, bufev)
  else if bufev.writeSuspended ≠ ∅ then some ([], 0, bufev)
  else if bufev.output.totalLen ≠ 0 then do
    let (res, output) ← (bufev.output.unfreeze true).writeAtmost socket maxSingle
    match res with
    | none =>
      let bufev := { bufev with output := output.freeze true }
      match errno with
      | .retriable =>
        some ([], 0, if bufev.output.totalLen = 0 then { bufev with evWrite := false } else bufev)
      | .refused | .other =>
        let (calls, bufev) := bufev.fail false .error
        some (calls, 0, bufev)
    | some 0 =>
      let (calls, bufev) := ({ bufev with output := output.freeze true }).fail false .eof
      some (calls, 0, bufev)
    | some (count + 1) =>
      let bufev := ({ bufev with output }).invokeOutput adds
      some (({ bufev with output := bufev.output.freeze true }).wrote (count + 1))
  else some (bufev.wrote 0)

/-- Reading as an activity that the watermark and others may hold up. -/
abbrev reading (bufev : BuffereventSock) : Gate SuspendFlag where
  enabled := bufev.enabledRead
  suspended := bufev.readSuspended
  running := bufev.evRead

def setReading (gate : Gate SuspendFlag) (bufev : BuffereventSock) : BuffereventSock :=
  { bufev with
    enabledRead := gate.enabled, readSuspended := gate.suspended, evRead := gate.running }

abbrev writing (bufev : BuffereventSock) : Gate SuspendFlag where
  enabled := bufev.enabledWrite
  suspended := bufev.writeSuspended
  running := bufev.evWrite

def setWriting (gate : Gate SuspendFlag) (bufev : BuffereventSock) : BuffereventSock :=
  { bufev with
    enabledWrite := gate.enabled, writeSuspended := gate.suspended, evWrite := gate.running }

variable {bufev : BuffereventSock} {adds : EventAdd}

theorem beSocketEnable_eq (adds : EventAdd) (read write : Bool) (bufev : BuffereventSock) :
    (bufev.beSocketEnable adds read write).2 = { bufev with
      evRead := bufev.evRead || (read && adds.read)
      evWrite := bufev.evWrite || (write && adds.write && (!read || adds.read)) } := by
  obtain ⟨addRead, addWrite⟩ := adds
  cases read <;> cases write <;> cases addRead <;> cases addWrite <;> simp [beSocketEnable]

theorem enable_eq (adds : EventAdd) (read write : Bool) (bufev : BuffereventSock) :
    ∃ starts, (adds.read = true → adds.write = true → starts = true) ∧
      (bufev.enable adds read write).2 =
        (bufev.setReading
            (if read then bufev.reading.enable adds.read else bufev.reading)).setWriting
          (if write then bufev.writing.enable starts else bufev.writing) := by
  refine ⟨adds.write && (!(read && decide (bufev.readSuspended = ∅)) || adds.read), ?_, ?_⟩
  · intro first second
    simp [first, second]
  · unfold enable
    dsimp only
    rw [beSocketEnable_eq]
    cases read <;> cases write <;>
      simp [setReading, setWriting, reading, writing, Gate.enable, Bool.and_assoc]

theorem disable_eq (read write : Bool) (bufev : BuffereventSock) :
    bufev.disable read write =
      (bufev.setReading (if read then bufev.reading.disable else bufev.reading)).setWriting
        (if write then bufev.writing.disable else bufev.writing) := by
  unfold disable beSocketDisable
  cases read <;> cases write <;>
    simp [setReading, setWriting, reading, writing, Gate.disable]

theorem suspendRead_eq (what : SuspendFlag) (bufev : BuffereventSock) :
    bufev.suspendRead what = bufev.setReading (bufev.reading.suspend what) := by
  unfold suspendRead beSocketDisable
  split
  · next none_ => simp [none_, setReading, Gate.suspend]
  · next some_ => simp [some_, setReading, Gate.suspend]

theorem suspendWrite_eq (what : SuspendFlag) (bufev : BuffereventSock) :
    bufev.suspendWrite what = bufev.setWriting (bufev.writing.suspend what) := by
  unfold suspendWrite beSocketDisable
  split
  · next none_ => simp [none_, setWriting, Gate.suspend]
  · next some_ => simp [some_, setWriting, Gate.suspend]

theorem unsuspendRead_eq (adds : EventAdd) (what : SuspendFlag) (bufev : BuffereventSock) :
    bufev.unsuspendRead adds what =
      bufev.setReading (bufev.reading.unsuspend adds.read what) := by
  unfold unsuspendRead
  dsimp only
  split
  · next resumed =>
    rw [beSocketEnable_eq]
    simp [resumed.1, resumed.2, setReading, Gate.unsuspend]
  · next still =>
    have off : (decide (bufev.readSuspended.erase what = ∅) && bufev.enabledRead) = false := by
      simpa using still
    simp [off, setReading, Gate.unsuspend]

theorem unsuspendWrite_eq (adds : EventAdd) (what : SuspendFlag) (bufev : BuffereventSock) :
    bufev.unsuspendWrite adds what =
      bufev.setWriting (bufev.writing.unsuspend adds.write what) := by
  unfold unsuspendWrite
  dsimp only
  split
  · next resumed =>
    rw [beSocketEnable_eq]
    simp [resumed.1, resumed.2, setWriting, Gate.unsuspend]
  · next still =>
    have off : (decide (bufev.writeSuspended.erase what = ∅) && bufev.enabledWrite) = false := by
      simpa using still
    simp [off, setWriting, Gate.unsuspend]

/-- The callback of the output starts writing when bytes were added. -/
theorem outbufCb_eq (adds : EventAdd) (cbinfo : CbInfo) (bufev : BuffereventSock) :
    bufev.outbufCb adds cbinfo = bufev.setWriting
      (if cbinfo.nAdded ≠ 0 then bufev.writing.start adds.write else bufev.writing) := by
  obtain ⟨addRead, addWrite⟩ := adds
  unfold outbufCb
  split
  · next due =>
    obtain ⟨added, enabled, -, free⟩ := due
    cases addWrite with
    | false => simp [added, setWriting, Gate.start]
    | true => simp [added, enabled, free, setWriting, Gate.start]
  · next early =>
    split
    · next added =>
      have same : (bufev.evWrite || bufev.enabledWrite && decide (bufev.writeSuspended = ∅) &&
          addWrite) = bufev.evWrite := by
        cases pending : bufev.evWrite with
        | true => rfl
        | false =>
          have off : (bufev.enabledWrite && decide (bufev.writeSuspended = ∅)) = false := by
            simpa [added, pending] using early
          rw [off]
          rfl
      simp [same, setWriting, Gate.start]
    · rfl

end BuffereventSock

end MerlinC.Model
