import MerlinC.Math.Runs
import MerlinC.Model.ChatServer

/-! # Delivery and membership in the Python chat server

A turn of the main loop serves its socket if it delivers what it received to all other clients,
drops exactly the sockets that were lost, and raises nothing. It does so for the server's own
socket, and for a client that sends data as long as no failed send is followed in the list by
another client. Clients that leave are never served.
-/

namespace MerlinC.Soundness

open Math Model

namespace Chat

open ChatServer

variable (s : ChatServer) (sock : Sock) (a : Answers)

/-- The calls that are made in a turn. -/
def newCalls : List Call := (s.handle sock a).1.calls.drop s.calls.length

/-- The client that joins in a turn. -/
def joining : List Sock := if sock = serverSocket then [a.client] else []

/-- `recv` raises an exception, or the peer has closed the connection. -/
def gone : Received → Bool
  | .raises => true
  | .data _ data => data = []

/-- The socket of a send that raised an exception. -/
def failedSend? : Call → Option Sock
  | .sendRaises socket _ => some socket
  | _ => none

/-- The sockets that are lost in a turn: those whose send failed, and the one that was received
from if that failed or its peer has closed. -/
def lost : List Sock := (newCalls s sock a).filterMap failedSend? ++
  if sock ≠ serverSocket ∧ gone (s.recv sock a.received) then [sock] else []

/-- A message from a client reaches every other client whose send does not raise, once. -/
def Delivered : Prop := ∀ peer data, sock ≠ serverSocket →
  s.recv sock a.received = .data (some peer) data → data ≠ [] →
    ∀ y ∈ s.connectionList, other sock y →
      .sendRaises y (said peer data) ∉ newCalls s sock a →
        (newCalls s sock a).count (.send y (said peer data)) = 1

/-- What a turn of the loop should do. -/
structure Served : Prop where
  calm : (s.handle sock a).2 = none
  delivered : Delivered s sock a
  members : (s.handle sock a).1.connectionList =
    (s.connectionList ++ joining sock a).filter (· ∉ lost s sock a)
  closed : ∀ y, (newCalls s sock a).count (.close y) = if y ∈ lost s sock a then 1 else 0

/-- The turn is the server's, or its socket is still in the list and data comes from it, with a
peer, and no client to which a send fails is followed in the list by another client. -/
def Smooth : Prop := sock ≠ serverSocket → sock ∈ s.connectionList ∧
  (∃ peer data, a.received = .data (some peer) data ∧ data ≠ []) ∧
    s.connectionList.IsChain fun x y => drops a.raises sock x = true → other sock y = false

/-- No socket is in the list twice, and none is closed. -/
structure Valid (s : ChatServer) : Prop where
  distinct : s.connectionList.Nodup
  opened : ∀ y ∈ s.connectionList, .close y ∉ s.calls

section Broadcast

variable (raises : Sock → Bool) (sender : Sock) (message : Bytes) {l : List Sock}

theorem failedSends_callsFor : (l.flatMap (callsFor raises sender message)).filterMap failedSend? =
    l.filter (drops raises sender) := by
  induction l with
  | nil => rfl
  | cons y l ih =>
    rw [List.flatMap_cons, List.filterMap_append, ih, List.filter_cons]
    unfold callsFor drops
    cases other sender y
    · rfl
    · cases raises y
      · rfl
      · rfl

theorem count_close_callsFor (y : Sock) :
    (l.flatMap (callsFor raises sender message)).count (.close y) =
      (l.filter (drops raises sender)).count y := by
  induction l with
  | nil => rfl
  | cons z l ih =>
    rw [List.flatMap_cons, List.count_append, ih, List.filter_cons]
    unfold callsFor drops
    cases other sender z
    · simp
    · cases raises z
      · simp
      · simp [List.count_cons, Nat.add_comm]

theorem count_send_callsFor (y : Sock) :
    (l.flatMap (callsFor raises sender message)).count (.send y message) =
      (l.filter fun z => other sender z && !raises z).count y := by
  induction l with
  | nil => rfl
  | cons z l ih =>
    rw [List.flatMap_cons, List.count_append, ih, List.filter_cons]
    unfold callsFor
    cases other sender z
    · simp
    · cases raises z
      · simp [List.count_cons, Nat.add_comm]
      · simp

theorem sendRaises_mem_callsFor (y : Sock) :
    .sendRaises y message ∈ l.flatMap (callsFor raises sender message) ↔
      y ∈ l ∧ drops raises sender y = true := by
  rw [List.mem_flatMap]
  constructor
  · rintro ⟨z, member, here⟩
    unfold callsFor at here
    split at here
    · next client =>
      split at here
      · next bad =>
        simp only [List.mem_cons, Call.sendRaises.injEq, and_true, reduceCtorEq, List.not_mem_nil,
          or_false] at here
        subst here
        exact ⟨member, by rw [drops, client, bad]; rfl⟩
      · simp at here
    · simp at here
  · rintro ⟨member, bad⟩
    rw [drops, Bool.and_eq_true] at bad
    exact ⟨y, member, by simp [callsFor, bad.1, bad.2]⟩

end Broadcast

/-- A turn that broadcasts a message from a list that a socket may have joined. -/
structure Broadcasts (base : ChatServer) (sender : Sock) (message : Bytes) : Prop where
  handled : s.handle sock a = (base.broadcastData a.raises sender message, none)
  history : base.calls = s.calls
  joined : base.connectionList = s.connectionList ++ joining sock a
  distinct : base.connectionList.Nodup
  present : ¬ (sock ≠ serverSocket ∧ gone (s.recv sock a.received))

namespace Broadcasts

variable {s sock a} {base : ChatServer} {sender : Sock} {message : Bytes}
  (broadcasts : Broadcasts s sock a base sender message)
include broadcasts

theorem newCalls_eq : newCalls s sock a =
    (met (drops a.raises sender) base.connectionList).flatMap
      (callsFor a.raises sender message) := by
  rw [newCalls, broadcasts.handled, broadcastData_eq _ _ _ broadcasts.distinct, broadcasts.history]
  exact List.drop_left

theorem lost_eq : lost s sock a =
    (met (drops a.raises sender) base.connectionList).filter (drops a.raises sender) := by
  rw [lost, broadcasts.newCalls_eq, failedSends_callsFor, if_neg broadcasts.present,
    List.append_nil]

theorem members : (s.handle sock a).1.connectionList =
    (s.connectionList ++ joining sock a).filter (· ∉ lost s sock a) := by
  rw [broadcasts.handled, broadcastData_eq _ _ _ broadcasts.distinct, ← broadcasts.joined,
    broadcasts.lost_eq]
  refine (left_eq_filter _ broadcasts.distinct).trans (List.filter_congr fun y _ => ?_)
  rw [Bool.eq_iff_iff]
  simp only [Bool.not_eq_true', Bool.and_eq_false_iff, decide_eq_true_eq, List.mem_filter,
    List.contains_eq_mem, decide_eq_false_iff_not, not_and, Bool.not_eq_true]
  exact ⟨fun kept inside => kept.resolve_right (· inside), fun kept => by tauto⟩

theorem closed (y : Sock) : (newCalls s sock a).count (.close y) =
    if y ∈ lost s sock a then 1 else 0 := by
  have once : (lost s sock a).Nodup := by
    rw [broadcasts.lost_eq]
    exact ((met_sublist _ _).nodup broadcasts.distinct).filter _
  rw [broadcasts.newCalls_eq, count_close_callsFor, ← broadcasts.lost_eq]
  split
  · next member => exact List.count_eq_one_of_mem once member
  · next new => exact List.count_eq_zero.mpr new

end Broadcasts

/-- A turn for the server's socket broadcasts that a client has joined. -/
theorem broadcasts_joined (valid : Valid s) (server : sock = serverSocket)
    (new : a.client ∉ s.connectionList) : Broadcasts s sock a
      { s with connectionList := s.connectionList ++ [a.client], addr := a.address } a.client
      (enteredRoom a.address) := by
  refine ⟨by rw [ChatServer.handle, if_pos server], rfl, ?_, ?_, fun wrong => wrong.1 server⟩
  · rw [joining, if_pos server]
  · exact List.nodup_append_comm.mp (List.nodup_cons.mpr ⟨new, valid.distinct⟩)

section Receive

variable {s sock a} {peer : Option Address} {data : Bytes}

/-- An exception leaves the loop whenever the `except` clause is entered. -/
theorem goOffline_raises (raises : Sock → Bool) : (s.goOffline raises sock).2 ≠ none := by
  unfold ChatServer.goOffline
  split
  · exact Option.some_ne_none _
  · dsimp only
    split
    · exact Option.some_ne_none _
    · exact Option.some_ne_none _

theorem recv_opened (opened : .close sock ∉ s.calls) : s.recv sock a.received = a.received :=
  if_neg opened

/-- After data with a peer, the turn broadcasts. -/
theorem broadcasts_said (valid : Valid s) (client : sock ≠ serverSocket)
    (inside : sock ∈ s.connectionList) {peer : Address} (nonempty : data ≠ [])
    (received : a.received = .data (some peer) data) :
    Broadcasts s sock a s sock (said peer data) := by
  have heard : s.recv sock a.received = .data (some peer) data :=
    (recv_opened (valid.opened sock inside)).trans received
  refine ⟨?_, rfl, ?_, valid.distinct, ?_⟩
  · simp only [ChatServer.handle, if_neg client, heard, if_neg nonempty]
  · rw [joining, if_neg client, List.append_nil]
  · rw [heard]
    exact fun gone_ => nonempty (of_decide_eq_true gone_.2)

/-- A broadcast delivers exactly if it meets all other clients. -/
theorem delivered_iff (valid : Valid s) (client : sock ≠ serverSocket)
    (inside : sock ∈ s.connectionList) {peer : Address} (nonempty : data ≠ [])
    (received : a.received = .data (some peer) data) : Delivered s sock a ↔
      s.connectionList.IsChain fun x y => drops a.raises sock x = true → other sock y = false := by
  have broadcasts := broadcasts_said valid client inside nonempty received
  have heard : s.recv sock a.received = .data (some peer) data :=
    (recv_opened (valid.opened sock inside)).trans received
  have among (x : Sock) (bad : drops a.raises sock x = true) : other sock x = true :=
    (Bool.and_eq_true_iff.mp bad).1
  have once : (met (drops a.raises sock) s.connectionList).Nodup :=
    (met_sublist _ _).nodup valid.distinct
  rw [← met_iff _ among valid.distinct]
  constructor
  · intro delivered y member other_
    by_contra unmet
    have raises : .sendRaises y (said peer data) ∉ newCalls s sock a := by
      rw [broadcasts.newCalls_eq, sendRaises_mem_callsFor]
      exact fun here => unmet here.1
    have count := delivered peer data client heard nonempty y member other_ raises
    rw [broadcasts.newCalls_eq, count_send_callsFor,
      List.count_eq_zero.mpr fun here => unmet (List.mem_filter.mp here).1] at count
    contradiction
  · intro all peer' data' _ heard' _ y member other_ raises
    rw [heard] at heard'
    cases heard'
    have met_ := all y member other_
    rw [broadcasts.newCalls_eq, sendRaises_mem_callsFor] at raises
    rw [broadcasts.newCalls_eq, count_send_callsFor]
    apply List.count_eq_one_of_mem (once.filter _)
    have kept : a.raises y = false := by
      rw [← Bool.not_eq_true]
      exact fun bad => raises ⟨met_, Bool.and_eq_true_iff.mpr ⟨other_, bad⟩⟩
    exact List.mem_filter.mpr ⟨met_, by rw [other_, kept]; rfl⟩

/-- A turn for a client without an exception: its socket is open, and it has sent data, or has
closed its connection and stays in the list. -/
theorem calm_cases (client : sock ≠ serverSocket) (calm : (s.handle sock a).2 = none) :
    .close sock ∉ s.calls ∧
      ((∃ peer, a.received = .data peer [] ∧ (s.handle sock a).1 = s) ∨
        ∃ peer data, a.received = .data (some peer) data ∧ data ≠ []) := by
  rw [ChatServer.handle, if_neg client] at calm ⊢
  have opened : .close sock ∉ s.calls := by
    intro closed
    rw [show s.recv sock a.received = .raises from if_pos closed] at calm
    exact goOffline_raises a.raises calm
  refine ⟨opened, ?_⟩
  rw [recv_opened opened] at calm ⊢
  cases received : a.received with
  | raises =>
    rw [received] at calm
    exact absurd calm (goOffline_raises a.raises)
  | data peer data =>
    rw [received] at calm
    dsimp only at calm ⊢
    by_cases empty : data = []
    · subst empty
      exact .inl ⟨peer, rfl, by rw [if_pos rfl]⟩
    · rw [if_neg empty] at calm
      cases peer with
      | none => exact absurd calm (goOffline_raises a.raises)
      | some peer => exact .inr ⟨peer, data, rfl, empty⟩

/-- A client whose peer has closed is lost. -/
theorem lost_of_empty (client : sock ≠ serverSocket) (opened : .close sock ∉ s.calls)
    (received : a.received = .data peer []) : sock ∈ lost s sock a := by
  rw [lost, recv_opened opened, received, if_pos ⟨client, rfl⟩]
  exact List.mem_append_right _ (List.mem_singleton_self sock)

/-- A turn for a socket that is ready does what it should if and only if it is smooth. -/
theorem served_iff (valid : Valid s) (ready : sock ∈ s.connectionList ∨ .close sock ∈ s.calls)
    (new : sock = serverSocket → a.client ∉ s.connectionList) :
    Served s sock a ↔ Smooth s sock a := by
  constructor
  · intro served client
    obtain ⟨opened, cases_⟩ := calm_cases client served.calm
    have inside : sock ∈ s.connectionList := ready.resolve_right opened
    rcases cases_ with ⟨peer, received, same⟩ | ⟨peer, data, received, nonempty⟩
    · have members := served.members
      rw [same] at members
      rw [members, List.mem_filter, decide_eq_true_eq] at inside
      exact absurd (lost_of_empty client opened received) inside.2
    · exact ⟨inside, ⟨peer, data, received, nonempty⟩,
        (delivered_iff valid client inside nonempty received).mp served.delivered⟩
  · intro smooth
    by_cases server : sock = serverSocket
    · have broadcasts := broadcasts_joined s sock a valid server (new server)
      exact ⟨by rw [broadcasts.handled], fun _ _ client => absurd server client,
        broadcasts.members, broadcasts.closed⟩
    · obtain ⟨inside, ⟨peer, data, received, nonempty⟩, chain⟩ := smooth server
      have broadcasts := broadcasts_said valid server inside nonempty received
      exact ⟨by rw [broadcasts.handled],
        (delivered_iff valid server inside nonempty received).mpr chain, broadcasts.members,
        broadcasts.closed⟩

end Receive

section Runs

variable {s sock a}

/-- A socket is in the list or has been closed. -/
def Known (s : ChatServer) (y : Sock) : Prop := y ∈ s.connectionList ∨ .close y ∈ s.calls

/-- A broadcast keeps the list valid, and closes what it drops. -/
theorem Broadcasts.valid {base : ChatServer} {sender : Sock} {message : Bytes}
    (broadcasts : Broadcasts s sock a base sender message)
    (opened : ∀ y ∈ base.connectionList, .close y ∉ s.calls) :
    Valid (s.handle sock a).1 ∧ ∀ y, Known s y → Known (s.handle sock a).1 y := by
  have calls : (s.handle sock a).1.calls = s.calls ++ newCalls s sock a := by
    rw [broadcasts.newCalls_eq, broadcasts.handled, broadcastData_eq _ _ _ broadcasts.distinct,
      broadcasts.history]
  have closes (y : Sock) : .close y ∈ newCalls s sock a ↔ y ∈ lost s sock a := by
    rw [← List.count_pos_iff, broadcasts.closed y]
    split
    · next member => exact ⟨fun _ => member, fun _ => Nat.one_pos⟩
    · next new =>
      exact ⟨fun wrong => absurd wrong (Nat.lt_irrefl 0), fun member => absurd member new⟩
  have members := broadcasts.members
  rw [← broadcasts.joined] at members
  refine ⟨⟨?_, fun y member => ?_⟩, fun y known => ?_⟩
  · rw [members]
    exact broadcasts.distinct.filter _
  · rw [members, List.mem_filter, decide_eq_true_eq] at member
    rw [calls, List.mem_append, closes, not_or]
    exact ⟨opened y member.1, member.2⟩
  · rw [Known, members, calls, List.mem_append, closes, List.mem_filter, decide_eq_true_eq,
      broadcasts.joined, List.mem_append]
    rcases known with inside | closed
    · by_cases gone_ : y ∈ lost s sock a
      · exact .inr (.inr gone_)
      · exact .inl ⟨.inl inside, gone_⟩
    · exact .inr (.inl closed)

/-- What holds between the turns: the list is valid, and the ready sockets are known. -/
structure Settled (m : ChatLoop) : Prop where
  valid : Valid m.server
  ready : ∀ sock ∈ m.ready, Known m.server sock

/-- A turn without an exception keeps the list valid. -/
theorem valid_turn (valid : Valid s) (known : Known s sock)
    (new : sock = serverSocket → a.client ≠ serverSocket ∧ a.client ∉ s.connectionList ∧
      .close a.client ∉ s.calls) (calm : (s.handle sock a).2 = none) :
    Valid (s.handle sock a).1 ∧ ∀ y, Known s y → Known (s.handle sock a).1 y := by
  by_cases server : sock = serverSocket
  · obtain ⟨_, unlisted, unclosed⟩ := new server
    refine (broadcasts_joined s sock a valid server unlisted).valid fun y member => ?_
    rcases List.mem_append.mp member with inside | joined
    · exact valid.opened y inside
    · rw [List.mem_singleton.mp joined]
      exact unclosed
  · obtain ⟨opened, ⟨peer, received, same⟩ | ⟨peer, data, received, nonempty⟩⟩ :=
      calm_cases server calm
    · rw [same]
      exact ⟨valid, fun _ known => known⟩
    · have inside : sock ∈ s.connectionList := known.resolve_right opened
      exact (broadcasts_said valid server inside nonempty received).valid valid.opened

/-- Until an exception leaves the loop, the list is valid. -/
theorem settled_run {events : List ChatEvent} {m : ChatLoop}
    (run : Run ChatLoop.Step .start events m) : m.raised = none → Settled m := by
  refine run.invariant (fun _ m => m.raised = none → Settled m) (fun _ => ?_) ?_
  · refine ⟨⟨List.nodup_singleton _, fun _ _ => List.not_mem_nil⟩, fun _ member => ?_⟩
    exact absurd member List.not_mem_nil
  · intro past m event m' _ settled step
    cases step with
    | select among =>
      intro _
      exact ⟨(settled rfl).valid, fun y member => .inl (among.subset member)⟩
    | turn new =>
      intro calm
      obtain ⟨valid, ready⟩ := settled rfl
      obtain ⟨valid', kept⟩ := valid_turn valid (ready _ List.mem_cons_self) new calm
      exact ⟨valid', fun y member => kept y (ready y (List.mem_cons_of_mem _ member))⟩

/-- Something holds of a turn. -/
def atTurn (holds : ChatServer → Sock → Answers → Prop) (m : ChatLoop) : ChatEvent → Prop
  | .select _ => True
  | .turn sock a => holds m.server sock a

/-- In a run, every turn does what it should if and only if every turn is smooth. -/
theorem chat_served_iff (events : List ChatEvent) (m : ChatLoop) :
    Run (fun m event m' => ChatLoop.Step m event m' ∧ atTurn Served m event) .start events m ↔
      Run (fun m event m' => ChatLoop.Step m event m' ∧ atTurn Smooth m event) .start events m := by
  refine Run.guarded_iff fun past m event m' earlier step => ?_
  cases step with
  | select => exact Iff.rfl
  | turn new =>
    obtain ⟨valid, ready⟩ := settled_run earlier rfl
    exact served_iff valid (ready _ List.mem_cons_self) fun server => (new server).2.1

end Runs

/-- A client joins from this address, and no call fails. -/
def joins (client : Sock) : Answers where
  client := client
  address := ⟨ascii "10.0.0.2", 4000⟩
  received := .raises
  raises := fun _ => false

/-- The client leaves, and `recv` returns no data. -/
def leaves : Answers := { joins 0 with received := .data none [] }

/-- A client that leaves is not dropped from the list. -/
theorem chat_served_fails : ¬ ∀ (events : List ChatEvent) (m : ChatLoop),
    Run ChatLoop.Step .start events m →
      Run (fun m event m' => ChatLoop.Step m event m' ∧ atTurn Served m event) .start events m := by
  intro served
  have run : ∃ m, Run ChatLoop.Step .start
      ([.select [0], .turn 0 (joins 1), .select [1]] ++ [.turn 1 leaves]) m := by
    have joined : ((ChatLoop.start.server).handle 0 (joins 1)).1.connectionList = [0, 1] := by
      change (broadcastData _ _ _ ⟨[0, 1], _, _⟩).connectionList = _
      rw [broadcastData_eq _ _ _ (by decide)]
      rfl
    have among : [1].Sublist ((ChatLoop.start.server).handle 0 (joins 1)).1.connectionList := by
      rw [joined]
      decide
    exact ⟨_, .cons (.select (List.Sublist.refl _)) (.cons (.turn fun _ => by decide)
      (.cons (.select among) (.single (.turn fun wrong => by contradiction))))⟩
  obtain ⟨m, run⟩ := run
  obtain ⟨middle, earlier, last⟩ := Run.append_iff.mp (served _ m run)
  obtain ⟨step, served_⟩ := Run.single_iff.mp last
  have plain := earlier.mono fun _ _ _ _ _ taken => taken.1
  cases step with
  | turn new =>
    obtain ⟨valid, ready⟩ := settled_run plain rfl
    have client : 1 ≠ serverSocket := by decide
    have smooth := (served_iff valid (ready _ List.mem_cons_self)
      fun server => absurd server client).mp served_
    obtain ⟨_, ⟨peer, data, received, nonempty⟩, _⟩ := smooth client
    cases received

end Chat

end MerlinC.Soundness
