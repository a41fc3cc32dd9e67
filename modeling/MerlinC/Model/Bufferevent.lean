import MerlinC.Model.EvBuffer

/-! # Socket bufferevents

`bufferevent_socket_new` freezes the end of a bufferevent's input and the start of its output,
so that only the socket writes the first and only the socket drains the second. The ends the
program uses stay open for the life of the bufferevent, which the buffer types below record:
the program's reads and writes on them cannot fail. `View` forgets the chains and keeps the
byte streams, the level at which everything above argues.
-/

namespace MerlinC.Model

abbrev Addr := ℕ
abbrev BevPtr := ℕ
abbrev Fd := ℕ

/-- The identity of an accepted connection, counted in accept order. -/
abbrev Conn := ℕ

/-- An input buffer, whose start is open to the program. -/
structure Input extends EvBuffer where
  startOpen : freezeStart = false
deriving DecidableEq

/-- An output buffer, whose end is open to the program. -/
structure Output extends EvBuffer where
  endOpen : freezeEnd = false
deriving DecidableEq

namespace Input

/-- The input as `bufferevent_socket_new` leaves it. -/
def fresh : Input := { chains := [], freezeStart := false, freezeEnd := true, startOpen := rfl }

/-- `evbuffer_remove` on an input. -/
def remove (input : Input) (datlen : ℕ) : Bytes × Input :=
  match removed : input.toEvBuffer.remove datlen with
  | some (data, rest) =>
      (data, { rest with
        startOpen := by
          obtain ⟨rest', same, _, start, _⟩ := EvBuffer.remove_eq input.startOpen datlen
          obtain ⟨-, rfl⟩ := Prod.mk.inj (Option.some.inj (same.symm.trans removed))
          exact start })
  | none => ([], input)

/-- `evbuffer_read` between the unfreeze and the freeze in `bufferevent_readcb`. -/
def receive (input : Input) (data : Bytes) : Input :=
  { input with chains := input.chains ++ [data] }

@[simp] theorem fresh_bytes : fresh.bytes = [] := rfl

@[simp] theorem receive_bytes (input : Input) (data : Bytes) :
    (input.receive data).bytes = input.bytes ++ data := by
  simp [receive, EvBuffer.bytes]

theorem remove_bytes (input : Input) (datlen : ℕ) :
    (input.remove datlen).1 = input.bytes.take datlen ∧
      (input.remove datlen).2.bytes = input.bytes.drop datlen := by
  obtain ⟨rest, same, left, _⟩ := EvBuffer.remove_eq input.startOpen datlen
  unfold remove
  split
  · next removed =>
    obtain ⟨rfl, rfl⟩ := Prod.mk.inj (Option.some.inj (removed.symm.trans same))
    exact ⟨rfl, left⟩
  · next failed => rw [failed] at same; contradiction

end Input

namespace Output

/-- The output as `bufferevent_socket_new` leaves it. -/
def fresh : Output := { chains := [], freezeStart := true, freezeEnd := false, endOpen := rfl }

/-- `evbuffer_add` on an output. -/
def add (output : Output) (data : Bytes) : Output :=
  match added : output.toEvBuffer.add data with
  | some buf =>
      { buf with
        endOpen := by
          obtain ⟨buf', same, _, _, end_⟩ := EvBuffer.add_eq output.endOpen data
          obtain rfl := Option.some.inj (same.symm.trans added)
          exact end_ }
  | none => output

/-- What `bufferevent_writecb` does when the socket takes `count` bytes: with the start
unfrozen, `evbuffer_write_atmost` drains them. -/
def flush (output : Output) (count : ℕ) : Output :=
  match drained : EvBuffer.drain { output.toEvBuffer with freezeStart := false } count with
  | some buf =>
      { buf with
        freezeStart := output.freezeStart
        endOpen := by
          obtain ⟨buf', same, _, _, end_⟩ :=
            @EvBuffer.drain_eq { output.toEvBuffer with freezeStart := false } rfl count
          obtain rfl := Option.some.inj (same.symm.trans drained)
          exact end_.trans output.endOpen }
  | none => output

/-- `evbuffer_add_buffer` from an input to an output. -/
def addBuffer (output : Output) (input : Input) : Output × Input :=
  match moved : output.toEvBuffer.addBuffer input.toEvBuffer with
  | some (outbuf, inbuf) =>
      ({ outbuf with
        endOpen := by
          obtain ⟨out', in', same, _, _, end_, _⟩ :=
            EvBuffer.addBuffer_eq output.endOpen input.startOpen
          obtain ⟨rfl, -⟩ := Prod.mk.inj (Option.some.inj (same.symm.trans moved))
          exact end_ },
       { inbuf with
        startOpen := by
          obtain ⟨out', in', same, _, _, _, start⟩ :=
            EvBuffer.addBuffer_eq output.endOpen input.startOpen
          obtain ⟨-, rfl⟩ := Prod.mk.inj (Option.some.inj (same.symm.trans moved))
          exact start })
  | none => (output, input)

@[simp] theorem fresh_bytes : fresh.bytes = [] := rfl

theorem addBuffer_bytes (output : Output) (input : Input) :
    (output.addBuffer input).1.bytes = output.bytes ++ input.bytes ∧
      (output.addBuffer input).2.bytes = [] := by
  obtain ⟨out', in', same, joined, left, _⟩ :=
    EvBuffer.addBuffer_eq output.endOpen input.startOpen
  unfold addBuffer
  split
  · next moved =>
    obtain ⟨rfl, rfl⟩ := Prod.mk.inj (Option.some.inj (moved.symm.trans same))
    exact ⟨joined, left⟩
  · next failed => rw [failed] at same; contradiction

@[simp] theorem add_bytes (output : Output) (data : Bytes) :
    (output.add data).bytes = output.bytes ++ data := by
  obtain ⟨buf, same, appended, _⟩ := EvBuffer.add_eq output.endOpen data
  unfold add
  split
  · next added =>
    obtain rfl := Option.some.inj (added.symm.trans same)
    exact appended
  · next failed => rw [failed] at same; contradiction

@[simp] theorem flush_bytes (output : Output) (count : ℕ) :
    (output.flush count).bytes = output.bytes.drop count := by
  obtain ⟨buf, same, left, _⟩ :=
    @EvBuffer.drain_eq { output.toEvBuffer with freezeStart := false } rfl count
  unfold flush
  split
  · next drained =>
    obtain rfl := Option.some.inj (drained.symm.trans same)
    exact left
  · next failed => rw [failed] at same; contradiction

end Output

/-- What a bufferevent keeps besides its buffers: the descriptor it was created on, the
connection behind that descriptor, the argument its callbacks were set with, and whether
`bufferevent_enable` made it read. -/
structure Control where
  fd : Fd
  conn : Conn
  cbarg : Option Addr
  reading : Bool
deriving DecidableEq, Repr

/-- A live bufferevent, with the bytes its socket has taken so far. -/
structure Bufferevent where
  control : Control
  input : Input
  output : Output
  flushed : Bytes
deriving DecidableEq

/-- A bufferevent as byte streams. -/
structure View where
  control : Control
  input : Bytes
  output : Bytes
  flushed : Bytes
deriving DecidableEq, Repr

namespace View

/-- Everything the program has queued for the client, flushed or not. -/
def queued (v : View) : Bytes := v.flushed ++ v.output

/-- `bufferevent_read`, on streams. -/
def take (size : ℕ) (v : View) : View := { v with input := v.input.drop size }

/-- The arrival of bytes from the socket. -/
def receive (data : Bytes) (v : View) : View := { v with input := v.input ++ data }

/-- `bufferevent_write`, on streams. -/
def append (data : Bytes) (v : View) : View := { v with output := v.output ++ data }

/-- The departure of bytes to the socket. -/
def flush (count : ℕ) (v : View) : View :=
  { v with output := v.output.drop count, flushed := v.flushed ++ v.output.take count }

@[simp] theorem append_queued (data : Bytes) (v : View) :
    (v.append data).queued = v.queued ++ data := by
  simp only [queued, append, List.append_assoc]

/-- A partial flush moves bytes over the boundary between flushed and waiting ones. -/
@[simp] theorem flush_queued (count : ℕ) (v : View) : (v.flush count).queued = v.queued := by
  simp only [queued, flush, List.append_assoc, List.take_append_drop]

end View

namespace Bufferevent

def view (ev : Bufferevent) : View :=
  { control := ev.control, input := ev.input.bytes, output := ev.output.bytes,
    flushed := ev.flushed }

/-- `bufferevent_read`. The result of `evbuffer_remove` is its size. -/
def read (ev : Bufferevent) (size : ℕ) : ℕ × Bytes × Bufferevent :=
  let (data, rest) := ev.input.remove size
  (data.length, data, { ev with input := rest })

/-- `bufferevent_write` of bytes that are there. -/
def write (ev : Bufferevent) (data : Bytes) : Bufferevent :=
  { ev with output := ev.output.add data }

/-- The part of `bufferevent_readcb` before the callback. -/
def receive (ev : Bufferevent) (data : Bytes) : Bufferevent :=
  { ev with input := ev.input.receive data }

/-- `bufferevent_writecb` when the socket takes `count` bytes. -/
def flush (ev : Bufferevent) (count : ℕ) : Bufferevent :=
  { ev with
    output := ev.output.flush count
    flushed := ev.flushed ++ ev.output.bytes.take count }

theorem read_eq (ev : Bufferevent) (size : ℕ) :
    (ev.read size).1 = (ev.view.input.take size).length ∧
      (ev.read size).2.1 = ev.view.input.take size ∧
      (ev.read size).2.2.view = ev.view.take size := by
  obtain ⟨taken, left⟩ := ev.input.remove_bytes size
  simp only [read, view, View.take, taken, left, and_self]

@[simp] theorem write_view (ev : Bufferevent) (data : Bytes) :
    (ev.write data).view = ev.view.append data := by
  simp only [write, view, View.append, Output.add_bytes]

@[simp] theorem receive_view (ev : Bufferevent) (data : Bytes) :
    (ev.receive data).view = ev.view.receive data := by
  simp only [receive, view, View.receive, Input.receive_bytes]

@[simp] theorem flush_view (ev : Bufferevent) (count : ℕ) :
    (ev.flush count).view = ev.view.flush count := by
  simp only [flush, view, View.flush, Output.flush_bytes]

end Bufferevent

end MerlinC.Model
