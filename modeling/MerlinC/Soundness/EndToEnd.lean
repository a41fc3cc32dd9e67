import MerlinC.Math.Delivery
import MerlinC.Model.RelayNetwork
import MerlinC.Soundness.ServerRegistry

/-! # From the senders to the receivers

What a client receives, followed from the sockets of the senders through the server's loop and the
output buffers to the client. Whatever the order of the events and however the kernel cuts the
streams, a client receives the merge of one stretch of each other client's stream, byte for byte.
-/

namespace MerlinC.Soundness.EndToEnd

open Math Model

/-- The bytes of a bufferevent that its socket has taken stay what they were. -/
def Keeps (s s' : Server) : Prop :=
  ∀ bev v', s'.view bev = some v' →
    ∃ v, s.view bev = some v ∧ v.control.conn = v'.control.conn ∧ v.flushed = v'.flushed

theorem Keeps.refl (s : Server) : Keeps s s := fun _ v seen => ⟨v, seen, rfl, rfl⟩

section Callbacks

variable {s s' : Server} {regs : List Registration} {bev : BevPtr} {ev : Bufferevent}

/-- A read callback writes to output buffers only. -/
theorem read_keeps (valid : s.Valid regs) (live : s.bufferevent bev = some ev) {data : Bytes}
    (ran : (s.receive bev data).callback ev (fun arg s => s.bufferedOnRead bev arg) = .ok s') :
    Keeps s s' ∧ s'.accepted = s.accepted := by
  obtain ⟨r, member, rfl, arg, -⟩ := valid.of_live live
  have seen := Server.view_of_live live
  obtain ⟨same, received⟩ := Server.receive_eq seen data
  have arrived : (s.receive r.bev data).view r.bev = some (ev.view.receive data) := by
    rw [received, Function.update_self]
  obtain ⟨s'', ran', same', views⟩ := (valid.of_sameControl same).bufferedOnRead member arrived
  simp only [Server.callback, arg] at ran
  obtain rfl := Except.ok.inj (ran.symm.trans ran')
  refine ⟨fun b v' known => ?_, (same.trans same').accepted⟩
  rw [views, received] at known
  obtain ⟨w, before, rfl⟩ := Option.map_eq_some_iff.mp known
  have kept (u : View) (text : Bytes) : (u.relayed r.node text).control = u.control ∧
      (u.relayed r.node text).flushed = u.flushed := by
    unfold View.relayed
    split <;> exact ⟨rfl, rfl⟩
  obtain ⟨control, flushed⟩ := kept w (ev.view.receive data).input
  rw [control, flushed]
  rcases eq_or_ne b r.bev with rfl | apart
  · rw [Function.update_self] at before
    obtain rfl := Option.some.inj before
    exact ⟨ev.view, seen, rfl, rfl⟩
  · rw [Function.update_of_ne apart] at before
    exact ⟨w, before, rfl, rfl⟩

/-- An error callback only frees. -/
theorem error_keeps (valid : s.Valid regs) (live : s.bufferevent bev = some ev) {what : What}
    (ran : s.callback ev (fun arg s => s.bufferedOnError bev what arg) = .ok s') :
    Keeps s s' ∧ s'.accepted = s.accepted := by
  obtain ⟨r, member, rfl, arg, -⟩ := valid.of_live live
  obtain ⟨before, after, rfl⟩ := List.append_of_mem member
  obtain ⟨s'', ran', -, count, views, -⟩ := valid.bufferedOnError r.bev what
  simp only [Server.callback, arg] at ran
  obtain rfl := Except.ok.inj (ran.symm.trans ran')
  refine ⟨fun b v' known => ?_, count⟩
  rw [views] at known
  rcases eq_or_ne b r.bev with rfl | apart
  · rw [Function.update_self] at known
    contradiction
  · rw [Function.update_of_ne apart] at known
    exact ⟨v', known, rfl, rfl⟩

end Callbacks

/-- The server, the bytes on their way and the clients agree with the room after these acts. -/
structure Agrees (n : Network) (past : List (Act Conn UInt8)) : Prop where
  mirrors : ∃ room, Run Room.Step Room.empty past room ∧ n.process.server.Mirrors room
  numbered : Numbered past n.process.server.accepted
  outgoing : ∀ bev v, n.process.server.view bev = some v →
    v.flushed = (n.client v.control.conn).stream
  heard : ∀ conn, (n.client conn).stream <+: heard conn past
  incoming : ∀ conn, spoken conn past ++ (n.process.peer conn).inbound = (n.client conn).sent

theorem agrees_main (own : Fd → Option Bool) : Agrees (.main own) [] where
  mirrors := ⟨_, .nil, Server.main_mirrors own⟩
  numbered := .nil
  outgoing _ _ seen := by simp [Network.main, Process.main, Server.main, Server.view] at seen
  heard _ := List.prefix_rfl
  incoming _ := rfl

variable {n : Network} {past : List (Act Conn UInt8)}

/-- A connection is present once. -/
theorem Agrees.same_bev (agrees : Agrees n past) {bev bev' : BevPtr} {v v' : View}
    (seen : n.process.server.view bev = some v) (seen' : n.process.server.view bev' = some v')
    (same : v.control.conn = v'.control.conn) : bev = bev' := by
  obtain ⟨_, -, regs, valid, -⟩ := agrees.mirrors
  obtain ⟨ev, live, rfl⟩ := Server.view_eq_some seen
  obtain ⟨ev', live', rfl⟩ := Server.view_eq_some seen'
  obtain ⟨r, member, rfl, -, conn, -⟩ := valid.of_live live
  obtain ⟨r', member', rfl, -, conn', -⟩ := valid.of_live live'
  rw [valid.eq_of_conn member member' (conn.symm.trans (same.trans conn'))]

/-- The numbers of connected clients have been given out. -/
theorem Agrees.counted (agrees : Agrees n past) {bev : BevPtr} {v : View}
    (seen : n.process.server.view bev = some v) :
    v.control.conn < n.process.server.accepted := by
  obtain ⟨_, -, regs, valid, -⟩ := agrees.mirrors
  obtain ⟨ev, live, rfl⟩ := Server.view_eq_some seen
  obtain ⟨r, member, -, -, conn, -⟩ := valid.of_live live
  have bound := valid.counted r member
  rwa [← conn] at bound

/-- A step of the server is one in the room. -/
theorem Agrees.step_mirrors (agrees : Agrees n past) {event : Event} {s' : Server}
    (step : n.process.server.Step event s') :
    ∃ room, Run Room.Step Room.empty (past ++ event.acts) room ∧ s'.Mirrors room := by
  obtain ⟨room, run, mirrors⟩ := agrees.mirrors
  obtain ⟨room', acted, mirrors'⟩ := mirrors.step step
  exact ⟨room', run.append acted, mirrors'⟩

/-- What is queued for a connected client is what it was told. -/
theorem Agrees.queued (agrees : Agrees n past) {bev : BevPtr} {v : View}
    (seen : n.process.server.view bev = some v) :
    v.flushed ++ v.output = Math.heard v.control.conn past := by
  obtain ⟨room, run, regs, valid, members, told⟩ := agrees.mirrors
  obtain ⟨-, words⟩ := Room.run_told run
  obtain ⟨ev, live, rfl⟩ := Server.view_eq_some seen
  obtain ⟨r, member, rfl, -, conn, -⟩ := valid.of_live live
  have known : r.conn ∈ room.members := by
    rw [members]
    exact List.mem_map_of_mem member
  change _ = Math.heard ev.control.conn past
  rw [conn, ← words _ known]
  exact (told r member _ seen).1

/-- What leaves the server, its told clients and the streams alone keeps the agreement, if each
client's sent bytes are still those the server read and those that wait in its kernel. -/
theorem Agrees.of_same (agrees : Agrees n past) {n' : Network}
    (server : n'.process.server = n.process.server)
    (stream : ∀ conn, (n'.client conn).stream = (n.client conn).stream)
    (incoming : ∀ conn,
      spoken conn past ++ (n'.process.peer conn).inbound = (n'.client conn).sent) :
    Agrees n' past := by
  constructor
  · exact server ▸ agrees.mirrors
  · exact server ▸ agrees.numbered
  · intro bev v seen
    rw [stream]
    exact agrees.outgoing bev v (server ▸ seen)
  · intro conn
    rw [stream]
    exact agrees.heard conn
  · exact incoming

/-- What a client reads moves from the wire to its arrivals. -/
theorem agrees_arrive (agrees : Agrees n past) {conn : Conn} {data rest : Bytes}
    (wire : (n.client conn).wire = data ++ rest) :
    Agrees (n.setClient conn ((n.client conn).arrive data rest)) past := by
  refine agrees.of_same rfl (fun other => ?_) fun other => ?_
  · rcases eq_or_ne other conn with rfl | apart
    · rw [Network.setClient_self, ClientEnd.arrive_stream wire]
    · rw [Network.setClient_of_ne apart]
  · refine (agrees.incoming other).trans ?_
    rcases eq_or_ne other conn with rfl | apart
    · rw [Network.setClient_self]
      rfl
    · rw [Network.setClient_of_ne apart]

/-- What a client sends waits in the server's kernel. -/
theorem agrees_send (agrees : Agrees n past) {conn : Conn} {data : Bytes} {p' : Process}
    (step : n.process.Step (.send conn data) p') :
    Agrees (({ n with process := p' } : Network).setClient conn ((n.client conn).send data))
      past := by
  cases step with
  | send running open_ =>
    refine agrees.of_same rfl (fun other => ?_) fun other => ?_
    · rcases eq_or_ne other conn with rfl | apart
      · rw [Network.setClient_self]
        rfl
      · rw [Network.setClient_of_ne apart]
    · rcases eq_or_ne other conn with rfl | apart
      · rw [Network.setClient_self]
        simp only [Network.setClient, Process.setPeer, Function.update_self, ClientEnd.send]
        rw [← List.append_assoc, agrees.incoming]
      · rw [Network.setClient_of_ne apart]
        simp only [Network.setClient, Process.setPeer, Function.update_of_ne apart]
        exact agrees.incoming other

/-- A new connection starts with nothing told and with what its client has sent already. -/
theorem agrees_accept (agrees : Agrees n past) {conn : Conn} {outcome : AcceptOutcome}
    {peer : Peer} {p' : Process} (step : n.process.Step (.accept conn outcome peer) p') :
    Agrees (({ n with process := p' } : Network).setClient conn ⟨peer.inbound, [], []⟩)
      (past ++ [.join conn]) := by
  cases step with
  | accept running taken next fresh allocates =>
    subst next
    obtain ⟨_, -, regs, valid, -⟩ := agrees.mirrors
    obtain ⟨s', client, bev, ran, -, count, -, views⟩ := valid.onAccept fresh taken allocates
    have mirrors := agrees.step_mirrors (.accept taken rfl fresh ran)
    simp only [ran, Process.resume]
    constructor
    · exact mirrors
    · change Numbered _ s'.accepted
      rw [count]
      exact agrees.numbered.join
    · intro b v seen
      change s'.view b = some v at seen
      rw [views] at seen
      rcases eq_or_ne b bev with rfl | apart
      · rw [Function.update_self] at seen
        obtain rfl := Option.some.inj seen
        rw [Network.setClient_self]
        rfl
      · rw [Function.update_of_ne apart] at seen
        rw [Network.setClient_of_ne (Nat.ne_of_lt (agrees.counted seen))]
        exact agrees.outgoing b v seen
    · intro other
      rcases eq_or_ne other n.process.server.accepted with rfl | apart
      · rw [Network.setClient_self]
        exact List.nil_prefix
      · rw [Network.setClient_of_ne apart, heard_join_other _ apart.symm]
        exact agrees.heard other
    · intro other
      rw [spoken_append, spoken_join, List.append_nil]
      rcases eq_or_ne other n.process.server.accepted with rfl | apart
      · rw [Network.setClient_self, agrees.numbered.silent _ (Nat.le_refl _)]
        simp [Network.setClient, Process.setPeer]
      · rw [Network.setClient_of_ne apart]
        simp only [Network.setClient, Process.setPeer, Function.update_of_ne apart]
        exact agrees.incoming other

/-- The read and error callbacks keep what the sockets took, and only add to what is heard. -/
theorem Agrees.keeps (agrees : Agrees n past) {s' : Server} (act : Act Conn UInt8)
    (stays : ∀ who, act.joins who = false) (keeps : Keeps n.process.server s') :
    (∀ bev v, s'.view bev = some v → v.flushed = (n.client v.control.conn).stream) ∧
      ∀ conn, (n.client conn).stream <+: Math.heard conn (past ++ [act]) := by
  constructor
  · intro bev v seen
    obtain ⟨v₀, before, conn, flushed⟩ := keeps bev v seen
    rw [← flushed, ← conn]
    exact agrees.outgoing bev v₀ before
  · intro conn
    exact (agrees.heard conn).trans (heard_grows _ (stays conn))

/-- A read takes bytes from the server's kernel and tells them to everyone else. -/
theorem agrees_read (agrees : Agrees n past) {bev : BevPtr} {ev : Bufferevent} {data rest : Bytes}
    (live : n.process.server.bufferevent bev = some ev) (reading : ev.control.reading = true)
    (some_ : data ≠ []) (arrived : (n.process.peer ev.control.conn).inbound = data ++ rest) :
    Agrees { n with
      process := (n.process.setPeer ev.control.conn
        { n.process.peer ev.control.conn with inbound := rest }).resume
          ((n.process.server.receive bev data).callback ev fun arg s => s.bufferedOnRead bev arg) }
      (past ++ [.say ev.control.conn data]) := by
  obtain ⟨_, -, regs, valid, -⟩ := agrees.mirrors
  obtain ⟨s', ran⟩ := (callbacksReturn_of_valid valid).read bev ev data live
  obtain ⟨kept, count⟩ := read_keeps valid live ran
  have mirrors := agrees.step_mirrors (.read bev live rfl reading some_ ran)
  obtain ⟨outgoing, heard⟩ := agrees.keeps (.say ev.control.conn data) (fun _ => rfl) kept
  have known : ev.control.conn < n.process.server.accepted :=
    agrees.counted (Server.view_of_live live)
  simp only [ran, Process.resume]
  constructor
  · exact mirrors
  · change Numbered _ s'.accepted
    rw [count]
    apply agrees.numbered.concat (fun _ => rfl)
    intro speaker late
    rw [spoken_say, if_neg (Nat.ne_of_lt (Nat.lt_of_lt_of_le known late))]
  · exact outgoing
  · exact heard
  · intro other
    rw [spoken_append, spoken_say, ← agrees.incoming other]
    rcases eq_or_ne other ev.control.conn with rfl | apart
    · simp [Process.setPeer, arrived]
    · simp [Process.setPeer, Function.update_of_ne apart, apart.symm]

/-- An error callback disconnects a client, and what that client was told is cut short. -/
theorem agrees_fail (agrees : Agrees n past) {bev : BevPtr} {ev : Bufferevent} (what : What)
    (live : n.process.server.bufferevent bev = some ev) :
    Agrees { n with
      process := n.process.resume
        (n.process.server.callback ev fun arg s => s.bufferedOnError bev what arg) }
      (past ++ [.leave ev.control.conn]) := by
  obtain ⟨_, -, regs, valid, -⟩ := agrees.mirrors
  obtain ⟨s', ran, -⟩ := (callbacksReturn_of_valid valid).error bev ev what live
  obtain ⟨kept, count⟩ := error_keeps valid live ran
  have mirrors := agrees.step_mirrors (.error bev live rfl ran)
  obtain ⟨outgoing, heard⟩ := agrees.keeps (.leave ev.control.conn) (fun _ => rfl) kept
  simp only [ran, Process.resume]
  constructor
  · exact mirrors
  · change Numbered _ s'.accepted
    rw [count]
    exact agrees.numbered.concat (fun _ => rfl) fun _ _ => spoken_leave _ _
  · exact outgoing
  · exact heard
  · intro other
    rw [spoken_append, spoken_leave, List.append_nil]
    exact agrees.incoming other

/-- A client that is carried nothing has what it had. -/
theorem Agrees.carry_nil (agrees : Agrees n past) (conn : Conn) :
    Agrees (n.setClient conn ((n.client conn).carry [])) past := by
  refine agrees.of_same rfl (fun other => ?_) fun other => ?_
  · rcases eq_or_ne other conn with rfl | apart
    · rw [Network.setClient_self, ClientEnd.carry_stream, List.append_nil]
    · rw [Network.setClient_of_ne apart]
  · refine (agrees.incoming other).trans ?_
    rcases eq_or_ne other conn with rfl | apart
    · rw [Network.setClient_self]
      rfl
    · rw [Network.setClient_of_ne apart]

/-- The bytes that a socket takes move from the output buffer to the wire. -/
theorem agrees_flush (agrees : Agrees n past) {bev : BevPtr} {ev : Bufferevent} {count : ℕ}
    (live : n.process.server.bufferevent bev = some ev) (part : count ≤ ev.output.getLength) :
    Agrees (({ n with
      process := { n.process with server := n.process.server.flush bev count } } :
        Network).setClient ev.control.conn
          ((n.client ev.control.conn).carry (ev.output.bytes.take count))) past := by
  have seen := Server.view_of_live live
  obtain ⟨same, views⟩ := Server.flush_eq seen count
  have mirrors := agrees.step_mirrors (.flush bev live rfl part)
  rw [Event.acts, List.append_nil] at mirrors
  have before : ev.flushed = (n.client ev.control.conn).stream := agrees.outgoing bev _ seen
  have queued : ev.flushed ++ ev.output.bytes = Math.heard ev.control.conn past :=
    agrees.queued seen
  constructor
  · exact mirrors
  · exact same.accepted ▸ agrees.numbered
  · intro b v known
    change (n.process.server.flush bev count).view b = some v at known
    rw [views] at known
    rcases eq_or_ne b bev with rfl | apart
    · rw [Function.update_self] at known
      obtain rfl := Option.some.inj known
      change _ = ((Network.setClient _ ev.control.conn _).client ev.control.conn).stream
      rw [Network.setClient_self, ClientEnd.carry_stream, ← before]
      rfl
    · rw [Function.update_of_ne apart] at known
      have elsewhere : v.control.conn ≠ ev.control.conn :=
        fun same => apart (agrees.same_bev known seen same)
      rw [Network.setClient_of_ne elsewhere]
      exact agrees.outgoing b v known
  · intro other
    rcases eq_or_ne other ev.control.conn with rfl | apart
    · rw [Network.setClient_self, ClientEnd.carry_stream, ← before, ← queued]
      exact (List.prefix_append_right_inj _).mpr (List.take_prefix _ _)
    · rw [Network.setClient_of_ne apart]
      exact agrees.heard other
  · intro other
    refine (agrees.incoming other).trans ?_
    rcases eq_or_ne other ev.control.conn with rfl | apart
    · rw [Network.setClient_self]
      rfl
    · rw [Network.setClient_of_ne apart]

/-- A write event moves bytes to the wire, or moves none. On a reset connection it disconnects the
client, if the signal does not end the process. -/
theorem agrees_write (agrees : Agrees n past) {bev : BevPtr} {ev : Bufferevent} {count : ℕ}
    (live : n.process.server.bufferevent bev = some ev) (part : count ≤ ev.output.getLength) :
    ∃ more, Agrees (({ n with process := n.process.writeEvent bev ev count } : Network).setClient
      ev.control.conn ((n.client ev.control.conn).carry (Network.taken n.process ev count)))
      (past ++ more) := by
  unfold Process.writeEvent
  split
  · next empty =>
    rw [EvBuffer.getLength_eq, List.length_eq_zero_iff] at empty
    have none_ : Network.taken n.process ev count = [] := by
      rw [Network.taken, empty, List.take_nil, ite_self]
    rw [none_]
    exact ⟨[], (List.append_nil past).symm ▸ agrees.carry_nil ev.control.conn⟩
  · split
    · next dead =>
      have none_ : Network.taken n.process ev count = [] := if_pos dead
      rw [none_]
      split
      · have ended : Agrees { n with process := { n.process with ended := some .sigpipe } } past :=
          agrees.of_same rfl (fun _ => rfl) agrees.incoming
        exact ⟨[], (List.append_nil past).symm ▸ ended.carry_nil ev.control.conn⟩
      · exact ⟨[.leave ev.control.conn], (agrees_fail agrees .error live).carry_nil ev.control.conn⟩
    · next alive =>
      have moved : Network.taken n.process ev count = ev.output.bytes.take count := if_neg alive
      rw [moved]
      exact ⟨[], (List.append_nil past).symm ▸ agrees_flush agrees live part⟩

/-- Every step of the network keeps the agreement, with at most one more act in the room. -/
theorem Agrees.step (agrees : Agrees n past) {traffic : Traffic} {n' : Network}
    (step : n.Step traffic n') : ∃ more, Agrees n' (past ++ more) := by
  have unmoved {n' : Network} (same : Agrees n' past) : ∃ more, Agrees n' (past ++ more) :=
    ⟨[], (List.append_nil past).symm ▸ same⟩
  cases step with
  | accept step => exact ⟨_, agrees_accept agrees step⟩
  | send step => exact unmoved (agrees_send agrees step)
  | write bev running live named part =>
    subst named
    exact agrees_write agrees live part
  | arrive some_ wire => exact unmoved (agrees_arrive agrees wire)
  | inward step silent =>
    cases step with
    | accept | send | write => exact silent.elim
    | acceptFailed running failed =>
      simp only [Server.onAccept, failed, Process.resume]
      exact unmoved agrees
    | close running | reset running =>
      rename_i conn
      refine unmoved (agrees.of_same rfl (fun _ => rfl) fun other => ?_)
      rw [← agrees.incoming other]
      rcases eq_or_ne other conn with rfl | apart
      · simp [Process.setPeer, Peer.close]
      · simp only [Process.setPeer, Function.update_of_ne apart]
    | read bev running live named reading some_ arrived =>
      subst named
      exact ⟨_, agrees_read agrees live reading some_ arrived⟩
    | fail bev running live named reading noticed =>
      subst named
      exact ⟨_, agrees_fail agrees _ live⟩

/-- Every network that is reached agrees with some acts in the room. -/
theorem agrees_run {own : Fd → Option Bool} {events : List Traffic}
    (run : Run Network.Step (.main own) events n) : ∃ past, Agrees n past := by
  refine run.invariant (fun _ n => ∃ past, Agrees n past) ⟨[], agrees_main own⟩ ?_
  rintro _ middle traffic target _ ⟨past, agrees⟩ step
  obtain ⟨more, agrees'⟩ := agrees.step step
  exact ⟨past ++ more, agrees'⟩

/-- What a client receives of what the others said: it has read a beginning of that, and while it
is connected the rest is on the wire or in its output buffer. Of each other client it is a stretch
of the bytes that client sent, from the first one on if that client connected later, up to those
that the server has not read. -/
structure Relayed (n : Network) (conn : Conn) (said : List (Conn × Bytes)) : Prop where
  others : ∀ part ∈ said, part.1 ≠ conn
  received : (n.client conn).received <+: said.flatMap (·.2)
  waiting : ∀ bev ev, n.process.server.bufferevent bev = some ev → ev.control.conn = conn →
    (n.client conn).received ++ (n.client conn).wire ++ ev.output.bytes = said.flatMap (·.2)
  stretch : ∀ speaker, speaker ≠ conn → ∃ missed,
    missed ++ words speaker said ++ (n.process.peer speaker).inbound = (n.client speaker).sent ∧
      (conn < speaker → missed = [])

theorem Agrees.relayed (agrees : Agrees n past) (conn : Conn) :
    Relayed n conn (utterances conn past) := by
  constructor
  · intro part member
    simpa using List.of_mem_filter member
  · exact (List.prefix_append _ _).trans (agrees.heard conn)
  · rintro bev ev live rfl
    have seen := Server.view_of_live live
    have taken : ev.flushed = (n.client ev.control.conn).stream := agrees.outgoing bev _ seen
    have queued : ev.flushed ++ ev.output.bytes = Math.heard ev.control.conn past :=
      agrees.queued seen
    rw [taken] at queued
    exact queued
  · intro speaker other
    rcases Nat.lt_or_ge conn speaker with later | earlier
    · refine ⟨[], ?_, fun _ => rfl⟩
      rw [← agrees.incoming, agrees.numbered.words_utterances later, List.nil_append]
    · obtain ⟨missed, split⟩ := words_utterances past other
      refine ⟨missed, ?_, fun later => absurd later (Nat.not_lt.mpr earlier)⟩
      rw [← agrees.incoming, split]

/-- Nothing is under way: the server has read all that was sent, its sockets took all that it
queued, and the clients have read all that was on its way to them. -/
structure Quiet (n : Network) : Prop where
  unread : ∀ conn, (n.process.peer conn).inbound = []
  queued : ∀ bev ev, n.process.server.bufferevent bev = some ev → ev.output.bytes = []
  wire : ∀ conn, (n.client conn).wire = []

/-- The second client sends two bytes, which the first one reads one by one. -/
def bytewise : List Traffic :=
  [.act (.accept 0 (acceptNth 0) ⟨[], false, false⟩),
    .act (.accept 1 (acceptNth 1) ⟨[], false, false⟩), .act (.send 1 [104, 105]),
    .act (.read 1 [104, 105]), .act (.write 0 2), .arrive 0 [104], .arrive 0 [105]]

theorem bytewise_run : ∃ n, Run Network.Step (.main listening) bytewise n ∧
    (n.client 0).received = [104, 105] ∧ Quiet n ∧
    ∃ ev, n.process.server.bufferevent 1 = some ev ∧ ev.control.conn = 0 := by
  refine ⟨_, .cons (.accept (.accept rfl rfl rfl (acceptNth_fresh rfl rfl rfl) ⟨rfl, rfl⟩))
    (.cons (.accept (.accept rfl rfl rfl (acceptNth_fresh rfl rfl rfl) ⟨rfl, rfl⟩))
    (.cons (.send (.send rfl rfl rfl))
    (.cons (.inward (.read 2 rfl rfl rfl rfl (List.cons_ne_nil _ _) rfl) trivial)
    (.cons (.write 1 rfl rfl rfl (by decide))
    (.cons (.arrive (List.cons_ne_nil _ _) rfl)
    (.single (.arrive (List.cons_ne_nil _ _) rfl))))))), rfl, ⟨?_, ?_, ?_⟩, _, rfl, rfl⟩
  · intro conn
    rcases conn with _ | _ | conn <;> rfl
  · intro bev ev live
    rcases bev with _ | _ | _ | bev
    · contradiction
    · obtain rfl := Option.some.inj live
      rfl
    · obtain rfl := Option.some.inj live
      rfl
    · contradiction
  · intro conn
    rcases conn with _ | _ | conn <;> rfl

/-- In every run, whatever the order of its events, each client has received the beginning of a
merge of stretches of what the other clients sent, and two clients received what third parties
sent in one order. -/
theorem relayed_end_to_end {own : Fd → Option Bool} {events : List Traffic}
    (run : Run Network.Step (.main own) events n) : ∃ said : Conn → List (Conn × Bytes),
      (∀ conn, Relayed n conn (said conn)) ∧ ∀ one other,
        (said one).filter (·.1 ≠ other) <:+ (said other).filter (·.1 ≠ one) ∨
          (said other).filter (·.1 ≠ one) <:+ (said one).filter (·.1 ≠ other) := by
  obtain ⟨past, agrees⟩ := agrees_run run
  exact ⟨fun conn => utterances conn past, fun conn => agrees.relayed conn, thirdParty_suffix past⟩

theorem relayed_bytewise : ∃ n, Run Network.Step (.main listening) bytewise n ∧
    (n.client 0).received = [104, 105] ∧ ∃ said, Relayed n 0 said := by
  obtain ⟨n, run, received, -⟩ := bytewise_run
  obtain ⟨said, relayed, -⟩ := relayed_end_to_end run
  exact ⟨n, run, received, said 0, relayed 0⟩

/-- Once nothing is under way, a connected client has received a merge of the whole streams of all
clients that connected after it, and of the rest of the streams of those before it. -/
theorem quiet_delivered {own : Fd → Option Bool} {events : List Traffic}
    (run : Run Network.Step (.main own) events n) (quiet : Quiet n) {bev : BevPtr}
    {ev : Bufferevent} (live : n.process.server.bufferevent bev = some ev) :
    ∃ said : List (Conn × Bytes),
      (n.client ev.control.conn).received = said.flatMap (·.2) ∧
      (∀ part ∈ said, part.1 ≠ ev.control.conn) ∧
      ∀ speaker, speaker ≠ ev.control.conn →
        words speaker said <:+ (n.client speaker).sent ∧
          (ev.control.conn < speaker → words speaker said = (n.client speaker).sent) := by
  obtain ⟨past, agrees⟩ := agrees_run run
  have relayed := agrees.relayed ev.control.conn
  refine ⟨_, ?_, relayed.others, fun speaker other => ?_⟩
  · rw [← relayed.waiting bev ev live rfl, quiet.wire, quiet.queued bev ev live, List.append_nil,
      List.append_nil]
  · obtain ⟨missed, split, later⟩ := relayed.stretch speaker other
    rw [quiet.unread, List.append_nil] at split
    constructor
    · exact ⟨missed, split⟩
    · intro after
      rw [← split, later after, List.nil_append]

theorem quiet_bytewise : ∃ n, Run Network.Step (.main listening) bytewise n ∧
    ∃ said : List (Conn × Bytes), (n.client 0).received = said.flatMap (·.2) ∧
      words 1 said = (n.client 1).sent := by
  obtain ⟨n, run, -, quiet, ev, live, named⟩ := bytewise_run
  obtain ⟨said, received, -, whole⟩ := quiet_delivered run quiet live
  rw [named] at received whole
  exact ⟨n, run, said, received, (whole 1 Nat.one_ne_zero).2 Nat.one_pos⟩

end MerlinC.Soundness.EndToEnd
