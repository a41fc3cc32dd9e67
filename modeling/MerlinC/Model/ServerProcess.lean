import MerlinC.Model.FireServer

/-! # The server process among its peers

The relay server together with the kernel's side of each connection: what the peer sent and the
server has not read, and whether the peer closed or reset the connection. A turn of the event
loop is libevent's read or write callback on a ready socket. A peer that stops reading shows
only in how few bytes a write takes, down to none. The write to a connection that was reset fails:
with ECONNRESET, which the error callback is told, unless the peer had closed it before, when it
raises SIGPIPE, whose disposition `main` leaves at the default.
-/

namespace MerlinC.Model

/-- A connection as the server's kernel knows it: `closed` if the end of the peer's stream came in,
`reset` if a reset did. Both are set only where the end came before the reset. -/
structure Peer where
  inbound : Bytes
  closed : Bool
  reset : Bool
deriving DecidableEq, Repr

/-- The end of the peer's stream. A connection that was reset takes it in no more. -/
def Peer.close (peer : Peer) : Peer := { peer with closed := peer.closed || !peer.reset }

/-- What a process does about a signal. -/
inductive Disposition where
  | terminate
  | ignore
deriving DecidableEq, Repr

/-- How the server process ended. -/
inductive Ending where
  | stopped (why : Stop)
  | sigpipe
deriving DecidableEq, Repr

structure Process where
  server : Server
  peer : Conn → Peer
  onSigpipe : Disposition
  ended : Option Ending

/-- Steps of the peers and of the event loop, named by the connection they concern. A connection
may carry data, or be closed or reset, by the time the server accepts it. -/
inductive Action where
  | accept (conn : Conn) (outcome : AcceptOutcome) (peer : Peer)
  | acceptFailed
  | send (conn : Conn) (data : Bytes)
  | close (conn : Conn)
  | reset (conn : Conn)
  | read (conn : Conn) (data : Bytes)
  | fail (conn : Conn) (what : What)
  | write (conn : Conn) (count : ℕ)
deriving DecidableEq, Repr

namespace Process

/-- The process when `main` enters the event loop. It installs no handler for SIGPIPE. -/
def main (own : Fd → Option Bool) : Process where
  server := .main own
  peer _ := ⟨[], false, false⟩
  onSigpipe := .terminate
  ended := none

def setPeer (p : Process) (conn : Conn) (peer : Peer) : Process :=
  { p with peer := Function.update p.peer conn peer }

/-- Go on with what a callback returned. -/
def resume (p : Process) (result : Except Stop Server) : Process :=
  match result with
  | .ok server => { p with server }
  | .error why => { p with ended := some (.stopped why) }

/-- `bufferevent_writecb`, whose `evbuffer_write_iovec` calls `writev` if there is output. The
socket takes `count` bytes unless the connection was reset. The error of that write is EPIPE with
the signal if the peer had closed the connection, else ECONNRESET without; whichever the process
lives to see goes to the error callback. -/
def writeEvent (p : Process) (bev : BevPtr) (ev : Bufferevent) (count : ℕ) : Process :=
  if ev.output.getLength = 0 then p
  else if (p.peer ev.control.conn).reset then
    if (p.peer ev.control.conn).closed ∧ p.onSigpipe = .terminate then
      { p with ended := some .sigpipe }
    else p.resume (p.server.callback ev fun arg s => s.bufferedOnError bev .error arg)
  else { p with server := p.server.flush bev count }

/-- One step of a running process, with no allocation failing. -/
inductive Step : Process → Action → Process → Prop
  | accept {p : Process} {o : AcceptOutcome} {fd : Fd} {conn : Conn} {peer : Peer}
      (running : p.ended = none) (taken : o.accept = some fd) (next : p.server.accepted = conn)
      (fresh : o.Fresh p.server) (allocates : o.Allocates) :
      Step p (.accept conn o peer) ((p.setPeer conn peer).resume (p.server.onAccept o))
  | acceptFailed {p : Process} {o : AcceptOutcome} (running : p.ended = none)
      (failed : o.accept = none) : Step p .acceptFailed (p.resume (p.server.onAccept o))
  | send {p : Process} {conn : Conn} {data : Bytes} (running : p.ended = none)
      (open_ : (p.peer conn).closed = false) (alive : (p.peer conn).reset = false) :
      Step p (.send conn data)
        (p.setPeer conn { p.peer conn with inbound := (p.peer conn).inbound ++ data })
  | close {p : Process} {conn : Conn} (running : p.ended = none) :
      Step p (.close conn) (p.setPeer conn (p.peer conn).close)
  | reset {p : Process} {conn : Conn} (running : p.ended = none) :
      Step p (.reset conn) (p.setPeer conn { p.peer conn with reset := true })
  | read (bev : BevPtr) {p : Process} {ev : Bufferevent} {conn : Conn} {data rest : Bytes}
      (running : p.ended = none) (live : p.server.bufferevent bev = some ev)
      (named : ev.control.conn = conn) (reading : ev.control.reading = true)
      (some_ : data ≠ []) (arrived : (p.peer conn).inbound = data ++ rest) :
      Step p (.read conn data) ((p.setPeer conn { p.peer conn with inbound := rest }).resume
        ((p.server.receive bev data).callback ev fun arg s => s.bufferedOnRead bev arg))
  | fail (bev : BevPtr) {p : Process} {ev : Bufferevent} {conn : Conn} {what : What}
      (running : p.ended = none) (live : p.server.bufferevent bev = some ev)
      (named : ev.control.conn = conn) (reading : ev.control.reading = true)
      (noticed : (p.peer conn).reset = true ∨
        (what = .eof ∧ (p.peer conn).closed = true ∧ (p.peer conn).inbound = [])) :
      Step p (.fail conn what)
        (p.resume (p.server.callback ev fun arg s => s.bufferedOnError bev what arg))
  | write (bev : BevPtr) {p : Process} {ev : Bufferevent} {conn : Conn} {count : ℕ}
      (running : p.ended = none) (live : p.server.bufferevent bev = some ev)
      (named : ev.control.conn = conn) (part : count ≤ ev.output.getLength) :
      Step p (.write conn count) (p.writeEvent bev ev count)

end Process

end MerlinC.Model
