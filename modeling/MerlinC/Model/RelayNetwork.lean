import MerlinC.Model.ServerProcess

/-! # The relay server and its clients

The server process with the other end of each connection. What a client hands to its socket is
what the server's kernel holds for it to read, and what the server's socket takes travels to the
client, which reads it in arrivals of any size. Nothing says when a turn of the event loop, a
write of a client or an arrival comes.
-/

namespace MerlinC.Model

/-- A connection at its client's end: the bytes the client handed to its socket, the bytes on
their way to it, and what it has read, arrival by arrival. -/
structure ClientEnd where
  sent : Bytes
  wire : Bytes
  arrivals : List Bytes
deriving DecidableEq, Repr

namespace ClientEnd

/-- Everything the client has read. -/
def received (client : ClientEnd) : Bytes := client.arrivals.flatten

/-- Everything the server's socket took for the client. -/
def stream (client : ClientEnd) : Bytes := client.received ++ client.wire

/-- The client hands bytes to its socket. -/
def send (client : ClientEnd) (data : Bytes) : ClientEnd :=
  { client with sent := client.sent ++ data }

/-- The server's socket takes bytes for the client. -/
def carry (client : ClientEnd) (data : Bytes) : ClientEnd :=
  { client with wire := client.wire ++ data }

/-- The client reads bytes and leaves the rest on their way. -/
def arrive (client : ClientEnd) (data rest : Bytes) : ClientEnd :=
  { client with wire := rest, arrivals := client.arrivals ++ [data] }

@[simp] theorem carry_stream (client : ClientEnd) (data : Bytes) :
    (client.carry data).stream = client.stream ++ data := by
  simp only [stream, carry, received, List.append_assoc]

theorem arrive_stream {client : ClientEnd} {data rest : Bytes} (wire : client.wire = data ++ rest) :
    (client.arrive data rest).stream = client.stream := by
  simp only [stream, arrive, received, wire, List.flatten_append, List.flatten_singleton,
    List.append_assoc]

end ClientEnd

/-- A step of the server process, or an arrival at a client. -/
inductive Traffic where
  | act (action : Action)
  | arrive (conn : Conn) (data : Bytes)
deriving DecidableEq, Repr

/-- A step of the server process that moves no byte out of a client or into one. -/
def Action.Inward : Action → Prop
  | .acceptFailed | .close _ | .reset _ | .read _ _ | .fail _ _ => True
  | .accept _ _ _ | .send _ _ | .write _ _ => False

structure Network where
  process : Process
  client : Conn → ClientEnd

namespace Network

/-- The network when the server enters its event loop. -/
def main (own : Fd → Option Bool) : Network := ⟨.main own, fun _ => ⟨[], [], []⟩⟩

def setClient (n : Network) (conn : Conn) (client : ClientEnd) : Network :=
  { n with client := Function.update n.client conn client }

theorem setClient_self (n : Network) (conn : Conn) (client : ClientEnd) :
    (n.setClient conn client).client conn = client := Function.update_self ..

theorem setClient_of_ne {other conn : Conn} (apart : other ≠ conn) (n : Network)
    (client : ClientEnd) : (n.setClient conn client).client other = n.client other :=
  Function.update_of_ne apart ..

/-- The bytes that the socket of a write event takes. -/
def taken (p : Process) (ev : Bufferevent) (count : ℕ) : Bytes :=
  if (p.peer ev.control.conn).reset then [] else ev.output.bytes.take count

/-- One step of the server process or one arrival. What an accepted connection already carries
was sent by its client. -/
inductive Step : Network → Traffic → Network → Prop
  | accept {n : Network} {conn : Conn} {outcome : AcceptOutcome} {peer : Peer} {p' : Process}
      (step : n.process.Step (.accept conn outcome peer) p') :
      Step n (.act (.accept conn outcome peer))
        (({ n with process := p' } : Network).setClient conn ⟨peer.inbound, [], []⟩)
  | send {n : Network} {conn : Conn} {data : Bytes} {p' : Process}
      (step : n.process.Step (.send conn data) p') :
      Step n (.act (.send conn data))
        (({ n with process := p' } : Network).setClient conn ((n.client conn).send data))
  | write (bev : BevPtr) {n : Network} {ev : Bufferevent} {conn : Conn} {count : ℕ}
      (running : n.process.ended = none) (live : n.process.server.bufferevent bev = some ev)
      (named : ev.control.conn = conn) (part : count ≤ ev.output.getLength) :
      Step n (.act (.write conn count))
        (({ n with process := n.process.writeEvent bev ev count } : Network).setClient conn
          ((n.client conn).carry (taken n.process ev count)))
  | inward {n : Network} {action : Action} {p' : Process} (step : n.process.Step action p')
      (silent : action.Inward) : Step n (.act action) { n with process := p' }
  | arrive {n : Network} {conn : Conn} {data rest : Bytes} (some_ : data ≠ [])
      (wire : (n.client conn).wire = data ++ rest) :
      Step n (.arrive conn data) (n.setClient conn ((n.client conn).arrive data rest))

end Network

end MerlinC.Model
