import Mathlib.Data.Int.Notation
import MerlinC.Math.TailQueue
import MerlinC.Model.Bufferevent

/-! # The relay server

`fireServer.c` as its callbacks compute: the client queue with its pointers, the heap the client
structures live in, the bufferevents and the descriptor table. A callback either returns in a
new state or stops the process, by `err` or by following a pointer to memory that is not there.
The choices of the operating system and of the allocator are the arguments of `onAccept`.
`Step` is one turn of the event loop as libevent dispatches it.
-/

namespace MerlinC.Model

open Math

/-- How a callback can fail to return: `err(status, …)`, a bad memory access, or a loop that
outran the bound its model gives it. -/
inductive Stop where
  | exited (status : ℕ)
  | fault
  | hang
deriving DecidableEq, Repr

/-- `struct client` without its queue entry. -/
structure Client where
  fd : Fd
  bufEv : Option BevPtr
deriving DecidableEq, Repr

/-- An open descriptor and the accepted connection behind it, if that is what it is. -/
structure Descriptor where
  conn : Option Conn
  nonblocking : Bool
deriving DecidableEq, Repr

/-- What a bufferevent event reports to `buffered_on_error`. -/
inductive What where
  | eof
  | error
deriving DecidableEq, Repr

/-- The process: `client_tailq_head` and the heap behind it, libevent's bufferevents, the
descriptor table, and the number of connections accepted so far. -/
structure Server where
  registry : TailQueue Addr Client
  bufferevent : BevPtr → Option Bufferevent
  descriptor : Fd → Option Descriptor
  accepted : ℕ

/-- What the calls in `on_accept` return; `none` and `false` are their failures. -/
structure AcceptOutcome where
  accept : Option Fd
  getfl : Bool
  setfl : Bool
  calloc : Option Addr
  socketNew : Option BevPtr
  enable : Bool
deriving DecidableEq, Repr

namespace Server

def view (s : Server) (bev : BevPtr) : Option View := (s.bufferevent bev).map Bufferevent.view

def setBufferevent (s : Server) (bev : BevPtr) (content : Option Bufferevent) : Server :=
  { s with bufferevent := Function.update s.bufferevent bev content }

def setDescriptor (s : Server) (fd : Fd) (content : Option Descriptor) : Server :=
  { s with descriptor := Function.update s.descriptor fd content }

/-- Follow a pointer to a `struct client`. -/
def deref (s : Server) (client : Addr) : Except Stop Client :=
  match s.registry.payload? client with
  | none => .error .fault
  | some c => .ok c

/-- Follow a pointer to a bufferevent. -/
def derefBufferevent (s : Server) (bev : Option BevPtr) : Except Stop (BevPtr × Bufferevent) :=
  match bev with
  | none => .error .fault
  | some bev =>
    match s.bufferevent bev with
    | none => .error .fault
    | some ev => .ok (bev, ev)

/-- The state in which `main` enters the event loop; `own` are the descriptors it holds, each with
its flag. The listening socket is among them, and `main` has made it non-blocking. -/
def main (own : Fd → Option Bool) : Server where
  registry := .init fun _ => none
  bufferevent _ := none
  descriptor fd := (own fd).map fun nonblocking => { conn := none, nonblocking }
  accepted := 0

/-- `setnonblock`: the returned status, and the flag once both calls succeed. -/
def setnonblock (getfl setfl : Bool) (fd : Fd) (s : Server) : ℤ × Server :=
  if !getfl then (-1, s)
  else if !setfl then (-1, s)
  else (0, s.setDescriptor fd ((s.descriptor fd).map fun d => { d with nonblocking := true }))

/-- `accept`: the new descriptor stands for the next connection. -/
def openConnection (fd : Fd) (s : Server) : Server :=
  { s.setDescriptor fd (some { conn := some s.accepted, nonblocking := false }) with
    accepted := s.accepted + 1 }

/-- `bufferevent_socket_new`, `bufferevent_setcb` and `bufferevent_enable` on a new client. -/
def newBufferevent (bev : BevPtr) (fd : Fd) (conn : Conn) (client : Addr) (enable : Bool)
    (s : Server) : Server :=
  s.setBufferevent bev (some {
    control := { fd, conn, cbarg := some client, reading := enable }
    input := .fresh
    output := .fresh
    flushed := [] })

/-- `on_accept`. A failure of `setnonblock` or of `bufferevent_enable` is not acted on. -/
def onAccept (o : AcceptOutcome) (s : Server) : Except Stop Server :=
  match o.accept with
  | none => .ok s
  | some clientFd =>
    let conn := s.accepted
    let s := s.openConnection clientFd
    let s := (setnonblock o.getfl o.setfl clientFd s).2
    match o.calloc with
    | none => .error (.exited 1)
    | some client =>
      match o.socketNew with
      | none => .error .fault -- `bufferevent_setcb` writes through the null pointer
      | some bev =>
        let zeroed : Node Addr Client := ⟨⟨0, none⟩, none, .null⟩
        let filled : Node Addr Client := { zeroed with payload := ⟨clientFd, some bev⟩ }
        let s := { s with registry := s.registry.write client (some filled) }
        let s := s.newBufferevent bev clientFd conn client o.enable
        match s.registry.insertTail client with
        | none => .error .fault
        | some registry => .ok { s with registry }

/-- `bufferevent_read` into an array of `size` bytes: the returned `size_t` and what it stored. -/
def buffereventRead (bev : BevPtr) (size : ℕ) (s : Server) :
    Except Stop (ℕ × Bytes × Server) := do
  let (bev, ev) ← s.derefBufferevent (some bev)
  let (n, data, ev) := ev.read size
  .ok (n, data, s.setBufferevent bev (some ev))

/-- The longest buffer chain, so a write of more bytes fails before it reads any of them. -/
def chainMax : ℕ := 0x7FFFFFFFFFFFFFFF

/-- `bufferevent_write` of the first `n` bytes of an array that holds `data`. A failure of
`evbuffer_add` goes unnoticed by the caller. -/
def buffereventWrite (bev : Option BevPtr) (data : Bytes) (n : ℕ) (s : Server) :
    Except Stop Server := do
  let (bev, ev) ← s.derefBufferevent bev
  if chainMax < n then .ok s
  else if data.length < n then .error .fault
  else .ok (s.setBufferevent bev (some (ev.write (data.take n))))

/-- The body of the traversal in `buffered_on_read`. -/
def forward (this : Addr) (data : Bytes) (n : ℕ) (client : Addr) (s : Server) :
    Except Stop Server :=
  if client ≠ this then do
    let c ← s.deref client
    s.buffereventWrite c.bufEv data n
  else .ok s

/-- The endless loop of `buffered_on_read`, with the call that fills the array as an argument.
Its exit test compares a `size_t` with zero. -/
def relayLoop (read : Server → Except Stop (ℕ × Bytes × Server)) (this : Addr) :
    ℕ → Server → Except Stop Server
  | 0, _ => .error .hang
  | passes + 1, s => do
    let (n, data, s) ← read s
    if n = 0 then .ok s
    else
      let s ← TailQueue.foreach registry .fault (forward this data n) s.accepted
        s.registry.tqhFirst s
      relayLoop read this passes s

/-- `sizeof(data)` in `buffered_on_read`. -/
def dataSize : ℕ := 8192

/-- `buffered_on_read`. Every pass but the last takes a byte, which bounds the passes. -/
def bufferedOnRead (bev : BevPtr) (arg : Addr) (s : Server) : Except Stop Server :=
  relayLoop (buffereventRead bev dataSize) arg
    ((s.bufferevent bev).elim 0 (fun ev => ev.input.getLength) + 1) s

/-- `bufferevent_free`. -/
def buffereventFree (bev : Option BevPtr) (s : Server) : Except Stop Server := do
  let (bev, _) ← s.derefBufferevent bev
  .ok (s.setBufferevent bev none)

/-- `buffered_on_error`; `what` only selects the message that is printed. -/
def bufferedOnError (_bev : BevPtr) (_what : What) (arg : Addr) (s : Server) :
    Except Stop Server :=
  match s.registry.remove arg with
  | none => .error .fault
  | some registry => do
    let s := { s with registry }
    let c ← s.deref arg
    let s ← s.buffereventFree c.bufEv
    let s := s.setDescriptor c.fd none
    .ok { s with registry := s.registry.write arg none }

/-- The part of `bufferevent_readcb` that appends what the socket delivered. -/
def receive (bev : BevPtr) (data : Bytes) (s : Server) : Server :=
  s.setBufferevent bev ((s.bufferevent bev).map fun ev => ev.receive data)

/-- `bufferevent_writecb` when the socket takes `count` bytes. -/
def flush (bev : BevPtr) (count : ℕ) (s : Server) : Server :=
  s.setBufferevent bev ((s.bufferevent bev).map fun ev => ev.flush count)

/-- The callback libevent makes for a bufferevent, with the argument it was set with. -/
def callback (ev : Bufferevent) (body : Addr → Server → Except Stop Server) (s : Server) :
    Except Stop Server :=
  match ev.control.cbarg with
  | none => .ok s
  | some arg => body arg s

end Server

/-- The operating system and the allocator hand out only what is not in use. -/
structure AcceptOutcome.Fresh (o : AcceptOutcome) (s : Server) : Prop where
  accept : ∀ fd, o.accept = some fd → s.descriptor fd = none
  calloc : ∀ client, o.calloc = some client → s.registry.node client = none
  socketNew : ∀ bev, o.socketNew = some bev → s.bufferevent bev = none

/-- No allocation fails. -/
def AcceptOutcome.Allocates (o : AcceptOutcome) : Prop :=
  o.calloc.isSome ∧ o.socketNew.isSome

/-- What the server's event loop reacts to, named by the connection it concerns. -/
inductive Event where
  | accept (conn : Conn) (outcome : AcceptOutcome)
  | acceptFailed
  | read (conn : Conn) (data : Bytes)
  | flush (conn : Conn) (count : ℕ)
  | error (conn : Conn) (what : What)
deriving DecidableEq, Repr

/-- One turn of the event loop: a new connection, bytes read from a socket and relayed, bytes
written to a socket, or an end of file or error on one. Events reach live bufferevents only. -/
inductive Server.Step : Server → Event → Server → Prop
  | accept {s s' : Server} {o : AcceptOutcome} {fd : Fd} {conn : Conn}
      (taken : o.accept = some fd) (next : s.accepted = conn) (fresh : o.Fresh s)
      (ran : s.onAccept o = .ok s') : Step s (.accept conn o) s'
  | acceptFailed {s s' : Server} {o : AcceptOutcome} (failed : o.accept = none)
      (ran : s.onAccept o = .ok s') : Step s .acceptFailed s'
  | read (bev : BevPtr) {s s' : Server} {ev : Bufferevent} {conn : Conn} {data : Bytes}
      (live : s.bufferevent bev = some ev) (named : ev.control.conn = conn)
      (reading : ev.control.reading = true) (some_ : data ≠ [])
      (ran : (s.receive bev data).callback ev (fun arg s => s.bufferedOnRead bev arg) = .ok s') :
      Step s (.read conn data) s'
  | flush (bev : BevPtr) {s : Server} {ev : Bufferevent} {conn : Conn} {count : ℕ}
      (live : s.bufferevent bev = some ev) (named : ev.control.conn = conn)
      (part : count ≤ ev.output.getLength) : Step s (.flush conn count) (s.flush bev count)
  | error (bev : BevPtr) {s s' : Server} {ev : Bufferevent} {conn : Conn} {what : What}
      (live : s.bufferevent bev = some ev) (named : ev.control.conn = conn)
      (ran : s.callback ev (fun arg s => s.bufferedOnError bev what arg) = .ok s') :
      Step s (.error conn what) s'

end MerlinC.Model
