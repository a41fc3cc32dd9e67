import MerlinC.Model.FireServer

/-! # The load test

`fireTestClient.c` opens a number of sessions to one relay server, gives each of them a block of
bytes to send, and sends back whatever it receives. The system below is the relay server with
all its sessions and the two transport directions of each connection. Sessions are numbered in
the order in which the server accepts them. Every transfer may be partial, and the server's and
the clients' callbacks may be delayed behind the arrivals they are called for.
-/

namespace MerlinC.Model

/-- One session: the two buffers of its bufferevent, and the bytes on their way to the server
and from it. -/
structure Session where
  input : Input
  output : Output
  toServer : Bytes
  fromServer : Bytes

namespace Session

/-- The bytes that `main` fills its message with. -/
def message (blockSize : ℕ) : Bytes := (List.range blockSize).map fun i => UInt8.ofNat (i % 128)

/-- A session as `main` opens it. -/
def connect (blockSize : ℕ) : Session where
  input := .fresh
  output := Output.fresh.add (message blockSize)
  toServer := []
  fromServer := []

/-- The socket takes bytes of the output. -/
def flush (x : Session) (count : ℕ) : Session :=
  { x with
    output := x.output.flush count
    toServer := x.toServer ++ x.output.bytes.take count }

/-- Bytes arrive in the input; `rest` are still on their way. -/
def arrive (x : Session) (data rest : Bytes) : Session :=
  { x with input := x.input.receive data, fromServer := rest }

/-- The copy that `readcb` makes. -/
def echo (x : Session) : Session :=
  let (output, input) := x.output.addBuffer x.input
  { x with output, input }

end Session

structure LoadTest where
  server : Server
  session : ℕ → Session
  sessionCount : ℕ
  totalMessagesRead : ℕ
  totalBytesRead : ℕ

/-- What can happen next, named by the session it concerns. A relay is also named by how many
bytes `buffered_on_read` takes. -/
inductive Move where
  | accept (conn : Conn) (outcome : AcceptOutcome)
  | send (conn : Conn) (count : ℕ)
  | receive (conn : Conn) (data : Bytes)
  | relay (conn : Conn) (taken : ℕ)
  | flush (conn : Conn) (count : ℕ)
  | arrive (conn : Conn) (data : Bytes)
  | readcb (conn : Conn)

namespace LoadTest

/-- All sessions are open, and the server has not accepted one. -/
def main (own : Fd → Option Bool) (sessionCount blockSize : ℕ) : LoadTest where
  server := .main own
  session _ := .connect blockSize
  sessionCount
  totalMessagesRead := 0
  totalBytesRead := 0

def setSession (w : LoadTest) (conn : Conn) (x : Session) : LoadTest :=
  { w with session := Function.update w.session conn x }

/-- `readcb`. -/
def readcb (w : LoadTest) (conn : Conn) : LoadTest :=
  let x := w.session conn
  { w.setSession conn x.echo with
    totalMessagesRead := w.totalMessagesRead + 1
    totalBytesRead := w.totalBytesRead + x.input.getLength }

/-- The largest `int64_t`. -/
def int64Max : ℕ := 0x7FFFFFFFFFFFFFFF

/-- How many bytes the input of a bufferevent holds. -/
def inputLength (s : Server) (bev : BevPtr) : ℕ := (s.bufferevent bev).elim 0 (·.input.getLength)

/-- One step. Nothing is relayed before all sessions are accepted, no allocation fails, nobody
disconnects, and the counters stay below 2^63. -/
inductive Step : LoadTest → Move → LoadTest → Prop
  | accept {w : LoadTest} {s' : Server} {o : AcceptOutcome} {fd : Fd} {conn : Conn}
      (taken : o.accept = some fd) (next : w.server.accepted = conn)
      (opened : conn < w.sessionCount) (fresh : o.Fresh w.server) (allocates : o.Allocates)
      (ran : w.server.onAccept o = .ok s') :
      Step w (.accept conn o) { w with server := s' }
  | send {w : LoadTest} {conn : Conn} {count : ℕ} (opened : conn < w.sessionCount)
      (part : count ≤ (w.session conn).output.getLength) :
      Step w (.send conn count) (w.setSession conn ((w.session conn).flush count))
  | receive (bev : BevPtr) {w : LoadTest} {ev : Bufferevent} {conn : Conn} {data rest : Bytes}
      (live : w.server.bufferevent bev = some ev) (named : ev.control.conn = conn)
      (reading : ev.control.reading = true) (way : (w.session conn).toServer = data ++ rest) :
      Step w (.receive conn data)
        { w.setSession conn { w.session conn with toServer := rest } with
          server := w.server.receive bev data }
  | relay (bev : BevPtr) {w : LoadTest} {s' : Server} {ev : Bufferevent} {conn : Conn} {taken : ℕ}
      (live : w.server.bufferevent bev = some ev) (named : ev.control.conn = conn)
      (all : w.server.accepted = w.sessionCount)
      (ran : w.server.callback ev (fun arg s => s.bufferedOnRead bev arg) = .ok s')
      (took : taken = inputLength w.server bev - inputLength s' bev) :
      Step w (.relay conn taken) { w with server := s' }
  | flush (bev : BevPtr) {w : LoadTest} {ev : Bufferevent} {conn : Conn} {count : ℕ}
      (live : w.server.bufferevent bev = some ev) (named : ev.control.conn = conn)
      (part : count ≤ ev.output.getLength) :
      Step w (.flush conn count)
        { w.setSession conn { w.session conn with
            fromServer := (w.session conn).fromServer ++ ev.output.bytes.take count } with
          server := w.server.flush bev count }
  | arrive {w : LoadTest} {conn : Conn} {data rest : Bytes} (opened : conn < w.sessionCount)
      (way : (w.session conn).fromServer = data ++ rest) :
      Step w (.arrive conn data) (w.setSession conn ((w.session conn).arrive data rest))
  | readcb {w : LoadTest} {conn : Conn} (opened : conn < w.sessionCount)
      (fits : w.totalBytesRead + (w.session conn).input.getLength ≤ int64Max)
      (fits' : w.totalMessagesRead + 1 ≤ int64Max) :
      Step w (.readcb conn) (w.readcb conn)

end LoadTest

end MerlinC.Model
