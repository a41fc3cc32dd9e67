import Mathlib.Data.List.Basic
import MerlinC.Math.Sweep
import MerlinC.Model.CArray

/-! # The Python chat server

`chat_server.py` with its list of sockets, which `broadcast_data` iterates over by position while
it removes sockets from it, and the loop over the sockets that `select` finds ready. What the
calls on sockets give is told by answers, except that nothing is received from a closed socket.
A socket stands for one Python object, so an accepted one is new.
-/

namespace MerlinC.Model

open Math

abbrev Sock := ℕ

/-- `server_socket` -/
def serverSocket : Sock := 0

/-- What `accept` and `getpeername` give. -/
structure Address where
  host : Bytes
  port : ℕ
deriving DecidableEq

/-- The calls that were made on sockets. -/
inductive Call where
  | send (socket : Sock) (message : Bytes)
  | sendRaises (socket : Sock) (message : Bytes)
  | close (socket : Sock)
deriving DecidableEq

inductive Exception where
  | nameError
  | valueError
deriving DecidableEq

/-- What `recv` gives, and with data what `getpeername` gives after it. -/
inductive Received where
  | raises
  | data (peer : Option Address) (data : Bytes)
deriving DecidableEq

/-- How the calls in one turn of the loop go. -/
structure Answers where
  client : Sock
  address : Address
  received : Received
  raises : Sock → Bool

/-- The global variables, and the calls so far. -/
structure ChatServer where
  connectionList : List Sock
  addr : Option Address
  calls : List Call

namespace ChatServer

def decimal (n : ℕ) : Bytes := ascii (toString n)

def enteredRoom (addr : Address) : Bytes :=
  ascii "[" ++ addr.host ++ ascii ":" ++ decimal addr.port ++ ascii "] entered room\n"

/-- `"\r" + '<' + str(sock.getpeername()) + '> ' + data` -/
def said (peer : Address) (data : Bytes) : Bytes :=
  ascii "\r<('" ++ peer.host ++ ascii "', " ++ decimal peer.port ++ ascii ")> " ++ data

def isOffline (addr : Address) : Bytes :=
  ascii "Client (" ++ addr.host ++ ascii ", " ++ decimal addr.port ++ ascii ") if offline"

/-- The body of the loop in `broadcast_data`. -/
def broadcastTo (raises : Sock → Bool) (sock : Sock) (message : Bytes) (s : ChatServer)
    (socket : Sock) : ChatServer :=
  if socket ≠ serverSocket ∧ socket ≠ sock then
    if raises socket then
      { s with
        connectionList := s.connectionList.erase socket
        calls := s.calls ++ [.sendRaises socket message, .close socket] }
    else { s with calls := s.calls ++ [.send socket message] }
  else s

theorem length_broadcastTo_le (raises : Sock → Bool) (sock : Sock) (message : Bytes)
    (s : ChatServer) (socket : Sock) :
    (s.broadcastTo raises sock message socket).connectionList.length ≤
      s.connectionList.length := by
  unfold broadcastTo
  split
  · split
    · exact List.length_erase_le
    · exact Nat.le_refl _
  · exact Nat.le_refl _

/-- The loop in `broadcast_data`, from a position on. -/
def broadcastFrom (raises : Sock → Bool) (sock : Sock) (message : Bytes) (i : ℕ)
    (s : ChatServer) : ChatServer :=
  if h : i < s.connectionList.length then
    broadcastFrom raises sock message (i + 1)
      (s.broadcastTo raises sock message s.connectionList[i])
  else s
termination_by s.connectionList.length - i
decreasing_by
  have := length_broadcastTo_le raises sock message s s.connectionList[i]
  omega

/-- `broadcast_data` -/
def broadcastData (raises : Sock → Bool) (sock : Sock) (message : Bytes) (s : ChatServer) :
    ChatServer := broadcastFrom raises sock message 0 s

/-- A closed socket raises an exception. -/
def recv (s : ChatServer) (sock : Sock) (answer : Received) : Received :=
  if .close sock ∈ s.calls then .raises else answer

/-- The `except` clause of the main loop, which ends in `countinue`. -/
def goOffline (raises : Sock → Bool) (sock : Sock) (s : ChatServer) :
    ChatServer × Option Exception :=
  match s.addr with
  | none => (s, some .nameError)
  | some addr =>
    let told := s.broadcastData raises sock (isOffline addr)
    let closed := { told with calls := told.calls ++ [.close sock] }
    if sock ∈ closed.connectionList then
      ({ closed with connectionList := closed.connectionList.erase sock }, some .nameError)
    else (closed, some .valueError)

/-- One turn of the loop over the ready sockets, and the exception that leaves it. -/
def handle (s : ChatServer) (sock : Sock) (a : Answers) : ChatServer × Option Exception :=
  if sock = serverSocket then
    let joined := { s with connectionList := s.connectionList ++ [a.client], addr := a.address }
    (joined.broadcastData a.raises a.client (enteredRoom a.address), none)
  else
    match s.recv sock a.received with
    | .raises => s.goOffline a.raises sock
    | .data peer data =>
      if data = [] then (s, none)
      else
        match peer with
        | none => s.goOffline a.raises sock
        | some peer => (s.broadcastData a.raises sock (said peer data), none)

end ChatServer

/-- The main loop: the sockets that are still to be handled after the last `select`, and an
exception that has left the loop. -/
structure ChatLoop where
  server : ChatServer
  ready : List Sock
  raised : Option Exception

inductive ChatEvent where
  | select (ready : List Sock)
  | turn (sock : Sock) (answers : Answers)

namespace ChatLoop

/-- The list has the server's socket. -/
def start : ChatLoop := ⟨⟨[serverSocket], none, []⟩, [], none⟩

inductive Step : ChatLoop → ChatEvent → ChatLoop → Prop
  | select {s : ChatServer} {ready : List Sock} (among : ready.Sublist s.connectionList) :
      Step ⟨s, [], none⟩ (.select ready) ⟨s, ready, none⟩
  | turn {s : ChatServer} {sock : Sock} {rest : List Sock} {a : Answers}
      (new : sock = serverSocket → a.client ≠ serverSocket ∧ a.client ∉ s.connectionList ∧
        .close a.client ∉ s.calls) :
      Step ⟨s, sock :: rest, none⟩ (.turn sock a) ⟨(s.handle sock a).1, rest, (s.handle sock a).2⟩

end ChatLoop

namespace ChatServer

section Broadcast

variable (raises : Sock → Bool) (sock : Sock) (message : Bytes)

/-- The other clients. -/
def other (y : Sock) : Bool := y ≠ serverSocket && y ≠ sock

/-- The calls for a socket that the loop meets. -/
def callsFor (y : Sock) : List Call :=
  if other sock y then
    if raises y then [.sendRaises y message, .close y] else [.send y message]
  else []

/-- The sockets that the loop removes when it meets them. -/
def drops (y : Sock) : Bool := other sock y && raises y

theorem broadcastTo_eq (s : ChatServer) (y : Sock) : s.broadcastTo raises sock message y =
    ⟨if drops raises sock y then s.connectionList.erase y else s.connectionList, s.addr,
      s.calls ++ callsFor raises sock message y⟩ := by
  unfold broadcastTo drops callsFor
  by_cases client : y ≠ serverSocket ∧ y ≠ sock
  · cases raises y <;> simp [other, client]
  · simp [other, client]

/-- The loop in `broadcast_data` is a loop that removes from its own list. -/
theorem broadcastFrom_eq (i : ℕ) (s : ChatServer) : broadcastFrom raises sock message i s =
    ⟨(sweep (drops raises sock) i s.connectionList).1, s.addr, s.calls ++
      (sweep (drops raises sock) i s.connectionList).2.flatMap (callsFor raises sock message)⟩ := by
  induction i, s using broadcastFrom.induct raises sock message with
  | case1 i s inside ih =>
    rw [broadcastFrom, dif_pos inside, ih, broadcastTo_eq, sweep_of_lt inside]
    simp only [List.flatMap_cons, List.append_assoc]
  | case2 i s outside =>
    rw [broadcastFrom, dif_neg outside, sweep, dif_neg outside]
    simp

theorem broadcastData_eq {s : ChatServer} (distinct : s.connectionList.Nodup) :
    s.broadcastData raises sock message =
      ⟨left (drops raises sock) s.connectionList, s.addr, s.calls ++
        (met (drops raises sock) s.connectionList).flatMap (callsFor raises sock message)⟩ := by
  have whole : sweep (drops raises sock) 0 s.connectionList =
      (left (drops raises sock) s.connectionList, met (drops raises sock) s.connectionList) :=
    @sweep_eq _ _ _ [] _ distinct
  rw [broadcastData, broadcastFrom_eq, whole]

end Broadcast

end ChatServer

end MerlinC.Model
