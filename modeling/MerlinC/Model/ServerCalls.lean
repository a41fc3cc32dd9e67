import Mathlib.Data.List.Perm.Subperm
import MerlinC.Model.FireServer
import MerlinC.Math.Owners

/-! # What the server's calls leave behind

One equation for each operation of the relay server, on the byte streams of its bufferevents.
A registration ties together what belongs to one client: its node, its descriptor, its
bufferevent and its connection. `Valid` says that the queue, the heap, the bufferevents and the
descriptor table agree on the registrations; under it every callback returns.
-/

namespace MerlinC.Model

open Math

/-- The resources of one accepted client. -/
structure Registration where
  node : Addr
  fd : Fd
  bev : BevPtr
  conn : Conn
deriving DecidableEq, Repr

namespace Registration

/-- What the heap has for a registration. -/
def HasClient (r : Registration) (c : Option Client) : Prop := c = some ⟨r.fd, some r.bev⟩

/-- What its bufferevent has. -/
def HasControl (r : Registration) (c : Option Control) : Prop :=
  ∃ reading, c = some ⟨r.fd, r.conn, some r.node, reading⟩

/-- What the descriptor table has. -/
def HasSocket (r : Registration) (d : Option Descriptor) : Prop :=
  ∃ nonblocking, d = some ⟨some r.conn, nonblocking⟩

end Registration

/-- A descriptor of some connection. -/
def Connected (d : Option Descriptor) : Prop :=
  ∃ conn nonblocking, d = some ⟨some conn, nonblocking⟩

namespace View

/-- What a relay of `data` sent by `this` does to a client. -/
def hear (v : View) (this : Addr) (data : Bytes) : View :=
  if v.control.cbarg = some this then v else v.append data

/-- What the relay of its whole input does: the sender's input is used up. -/
def relayed (v : View) (this : Addr) (data : Bytes) : View :=
  if v.control.cbarg = some this then { v with input := [] } else v.append data

theorem hear_self {this : Addr} {v : View} (sender : v.control.cbarg = some this) (data : Bytes) :
    v.hear this data = v := if_pos sender

theorem hear_other {this : Addr} {v : View} (other : v.control.cbarg ≠ some this) (data : Bytes) :
    v.hear this data = v.append data := if_neg other

theorem relayed_self {this : Addr} {v : View} (sender : v.control.cbarg = some this)
    (data : Bytes) : v.relayed this data = { v with input := [] } := if_pos sender

theorem relayed_other {this : Addr} {v : View} (other : v.control.cbarg ≠ some this)
    (data : Bytes) : v.relayed this data = v.append data := if_neg other

end View

namespace Server

/-- What is fixed about a live bufferevent. -/
def control? (s : Server) (bev : BevPtr) : Option Control := (s.view bev).map (·.control)

/-- Queue, heap, bufferevents and descriptors agree on the registrations. The queue holds the
registered nodes in accept order, each node names its descriptor and its bufferevent, each
bufferevent its descriptor and its node, each descriptor is open on its connection, and nothing
is allocated, live or open on a connection beyond that. -/
structure Valid (s : Server) (regs : List Registration) : Prop where
  links : s.registry.Represents (regs.map (·.node))
  client : ∀ r ∈ regs, s.registry.payload? r.node = some ⟨r.fd, some r.bev⟩
  control : ∀ r ∈ regs, ∃ reading, s.control? r.bev = some ⟨r.fd, r.conn, some r.node, reading⟩
  socket : ∀ r ∈ regs, ∃ nonblocking, s.descriptor r.fd = some ⟨some r.conn, nonblocking⟩
  ordered : (regs.map (·.conn)).Pairwise (· < ·)
  counted : ∀ r ∈ regs, r.conn < s.accepted
  nodes : ∀ a c, s.registry.payload? a = some c → ∃ r ∈ regs, r.node = a
  bevs : ∀ b c, s.control? b = some c → ∃ r ∈ regs, r.bev = b
  sockets : ∀ fd conn nonblocking, s.descriptor fd = some ⟨some conn, nonblocking⟩ →
    ∃ r ∈ regs, r.fd = fd

theorem setBufferevent_view (s : Server) (bev : BevPtr) (content : Option Bufferevent) :
    (s.setBufferevent bev content).view =
      Function.update s.view bev (content.map Bufferevent.view) := by
  funext b
  exact Function.apply_update (fun _ => Option.map Bufferevent.view) s.bufferevent bev content b

theorem control?_eq {s s' : Server} {bev : BevPtr} {v : Option View}
    (views : s'.view = Function.update s.view bev v) :
    s'.control? = Function.update s.control? bev (v.map (·.control)) := by
  funext b
  rw [control?, views]
  exact Function.apply_update (fun _ => Option.map View.control) s.view bev v b

theorem view_eq_some {s : Server} {bev : BevPtr} {v : View} (seen : s.view bev = some v) :
    ∃ ev, s.bufferevent bev = some ev ∧ ev.view = v := Option.map_eq_some_iff.mp seen

theorem view_of_live {s : Server} {bev : BevPtr} {ev : Bufferevent}
    (live : s.bufferevent bev = some ev) : s.view bev = some ev.view := by
  rw [view, live, Option.map_some]

theorem derefBufferevent_eq {s : Server} {bev : BevPtr} {ev : Bufferevent}
    (live : s.bufferevent bev = some ev) : s.derefBufferevent (some bev) = .ok (bev, ev) := by
  simp only [derefBufferevent, live]

/-- `s` and `s'` differ in their buffers alone. -/
structure SameControl (s s' : Server) : Prop where
  registry : s'.registry = s.registry
  descriptor : s'.descriptor = s.descriptor
  accepted : s'.accepted = s.accepted
  control : s'.control? = s.control?

theorem SameControl.refl (s : Server) : SameControl s s := ⟨rfl, rfl, rfl, rfl⟩

theorem SameControl.trans {s t u : Server} (first : SameControl s t) (second : SameControl t u) :
    SameControl s u where
  registry := second.registry.trans first.registry
  descriptor := second.descriptor.trans first.descriptor
  accepted := second.accepted.trans first.accepted
  control := second.control.trans first.control

/-- Registrations do not depend on what is buffered. -/
theorem Valid.of_sameControl {s s' : Server} {regs : List Registration} (valid : s.Valid regs)
    (same : SameControl s s') : s'.Valid regs where
  links := same.registry ▸ valid.links
  client := same.registry ▸ valid.client
  control := same.control ▸ valid.control
  socket := same.descriptor ▸ valid.socket
  ordered := valid.ordered
  counted := same.accepted ▸ valid.counted
  nodes := same.registry ▸ valid.nodes
  bevs := same.control ▸ valid.bevs
  sockets := same.descriptor ▸ valid.sockets

/-- A change of one bufferevent that keeps its control changes buffers alone. -/
theorem sameControl_set {s : Server} {bev : BevPtr} {ev ev' : Bufferevent}
    (live : s.bufferevent bev = some ev) (same : ev'.control = ev.control) :
    SameControl s (s.setBufferevent bev (some ev')) where
  registry := rfl
  descriptor := rfl
  accepted := rfl
  control := by
    rw [control?_eq (setBufferevent_view s bev (some ev')), Function.update_eq_self_iff]
    simp [control?, view, live, Bufferevent.view, same]

namespace Valid

variable {s : Server} {regs : List Registration} {r r' : Registration}

theorem conns_nodup (valid : s.Valid regs) : (regs.map (·.conn)).Nodup :=
  valid.ordered.imp (fun less => Nat.ne_of_lt less)

theorem eq_of_conn (valid : s.Valid regs) (member : r ∈ regs) (member' : r' ∈ regs)
    (same : r.conn = r'.conn) : r = r' :=
  List.inj_on_of_nodup_map valid.conns_nodup member member' same

theorem eq_of_node (valid : s.Valid regs) (member : r ∈ regs) (member' : r' ∈ regs)
    (same : r.node = r'.node) : r = r' :=
  List.inj_on_of_nodup_map valid.links.nodup member member' same

/-- Two clients never share a bufferevent: its callback argument is one node. -/
theorem eq_of_bev (valid : s.Valid regs) (member : r ∈ regs) (member' : r' ∈ regs)
    (same : r.bev = r'.bev) : r = r' := by
  obtain ⟨_, control⟩ := valid.control r member
  obtain ⟨_, control'⟩ := valid.control r' member'
  rw [same, control'] at control
  simp only [Option.some.injEq, Control.mk.injEq] at control
  exact valid.eq_of_node member member' control.2.2.1.symm

/-- Two clients never share a descriptor: it is open on one connection. -/
theorem eq_of_fd (valid : s.Valid regs) (member : r ∈ regs) (member' : r' ∈ regs)
    (same : r.fd = r'.fd) : r = r' := by
  obtain ⟨_, socket⟩ := valid.socket r member
  obtain ⟨_, socket'⟩ := valid.socket r' member'
  rw [same, socket'] at socket
  simp only [Option.some.injEq, Descriptor.mk.injEq] at socket
  exact valid.eq_of_conn member member' socket.1.symm

theorem regs_nodup (valid : s.Valid regs) : regs.Nodup := valid.links.nodup.of_map

/-- The number of queued clients never exceeds the number of accepted connections. -/
theorem length_le (valid : s.Valid regs) : regs.length ≤ s.accepted := by
  have within : regs.map (·.conn) ⊆ List.range s.accepted := by
    intro conn member
    obtain ⟨r, here, rfl⟩ := List.mem_map.mp member
    exact List.mem_range.mpr (valid.counted r here)
  simpa using (List.Nodup.subperm valid.conns_nodup within).length_le

/-- A live bufferevent belongs to a registration that its callback argument names. -/
theorem of_live (valid : s.Valid regs) {bev : BevPtr} {ev : Bufferevent}
    (live : s.bufferevent bev = some ev) : ∃ r ∈ regs, r.bev = bev ∧
      ev.control.cbarg = some r.node ∧ ev.control.conn = r.conn ∧ ev.control.fd = r.fd := by
  have seen : s.control? bev = some ev.control := by
    simp [control?, view, live, Bufferevent.view]
  obtain ⟨r, member, rfl⟩ := valid.bevs bev _ seen
  obtain ⟨reading, control⟩ := valid.control r member
  have same := Option.some.inj (seen.symm.trans control)
  exact ⟨r, member, rfl, by rw [same], by rw [same], by rw [same]⟩

theorem of_view (valid : s.Valid regs) {bev : BevPtr} {v : View} (seen : s.view bev = some v) :
    ∃ r ∈ regs, r.bev = bev ∧ v.control.cbarg = some r.node := by
  obtain ⟨ev, live, rfl⟩ := view_eq_some seen
  obtain ⟨r, member, here, sender, _⟩ := valid.of_live live
  exact ⟨r, member, here, sender⟩

/-- A client's node is the callback argument of its own bufferevent alone. -/
theorem cbarg_iff (valid : s.Valid regs) (member : r ∈ regs) {bev : BevPtr} {v : View}
    (seen : s.view bev = some v) : v.control.cbarg = some r.node ↔ bev = r.bev := by
  obtain ⟨q, inside, rfl, sender⟩ := valid.of_view seen
  rw [sender, Option.some.injEq]
  exact ⟨fun same => by rw [valid.eq_of_node inside member same],
    fun same => by rw [valid.eq_of_bev inside member same]⟩

/-- Every registration has a live bufferevent. -/
theorem live (valid : s.Valid regs) (member : r ∈ regs) : ∃ v, s.view r.bev = some v ∧
    v.control.cbarg = some r.node ∧ v.control.conn = r.conn ∧ v.control.fd = r.fd := by
  obtain ⟨reading, control⟩ := valid.control r member
  obtain ⟨v, seen, same⟩ := Option.map_eq_some_iff.mp control
  exact ⟨v, seen, by rw [same], by rw [same], by rw [same]⟩

end Valid

/-! ## Accepting -/

theorem setnonblock_eq (getfl setfl : Bool) (fd : Fd) (s : Server) :
    ∃ descriptor, (setnonblock getfl setfl fd s).2 = { s with descriptor } ∧
      ∀ other, descriptor other = if other = fd ∧ getfl ∧ setfl then
        (s.descriptor fd).map fun d => { d with nonblocking := true } else s.descriptor other := by
  unfold setnonblock
  cases getfl <;> cases setfl
  · exact ⟨s.descriptor, rfl, by simp⟩
  · exact ⟨s.descriptor, rfl, by simp⟩
  · exact ⟨s.descriptor, rfl, by simp⟩
  · refine ⟨_, rfl, fun other => ?_⟩
    by_cases same : other = fd <;> simp [same]

/-- A successful `on_accept` appends one node and gives the client a bufferevent and a
descriptor of its own. -/
theorem onAccept_eq {s : Server} {regs : List Registration} (valid : s.Valid regs)
    {o : AcceptOutcome} {fd : Fd} {client : Addr} {bev : BevPtr} (fresh : o.Fresh s)
    (accept : o.accept = some fd) (calloc : o.calloc = some client)
    (socketNew : o.socketNew = some bev) :
    ∃ s', s.onAccept o = .ok s' ∧
      s'.registry.Represents (regs.map (·.node) ++ [client]) ∧
      s'.registry.payload? = Function.update s.registry.payload? client (some ⟨fd, some bev⟩) ∧
      s'.view = Function.update s.view bev
        (some ⟨⟨fd, s.accepted, some client, o.enable⟩, [], [], []⟩) ∧
      s'.descriptor = Function.update s.descriptor fd
        (some ⟨some s.accepted, o.getfl && o.setfl⟩) ∧
      s'.accepted = s.accepted + 1 := by
  have outside : client ∉ regs.map (·.node) := by
    intro member
    obtain ⟨n, read⟩ := valid.links.allocated member
    rw [fresh.calloc client calloc] at read
    contradiction
  obtain ⟨descriptor, opened, table⟩ :=
    setnonblock_eq o.getfl o.setfl fd (s.openConnection fd)
  set queue := s.registry.write client (some ⟨⟨fd, some bev⟩, none, .null⟩) with queueEq
  have kept : queue.Represents (regs.map (·.node)) := valid.links.write_outside outside _
  obtain ⟨registry, inserted, links, payloads⟩ :=
    kept.insertTail outside (TailQueue.write_node_self ..)
  refine ⟨{ (({ s.openConnection fd with descriptor, registry := queue } : Server).newBufferevent
      bev fd s.accepted client o.enable) with registry }, ?_, links, ?_, ?_, ?_, rfl⟩
  · simp only [onAccept, accept, calloc, socketNew, opened]
    simp only [newBufferevent, setBufferevent]
    have untouched : (s.openConnection fd).registry = s.registry := rfl
    rw [untouched, ← queueEq, inserted]
  · change registry.payload? = _
    rw [payloads, queueEq, TailQueue.write_payload?]
    rfl
  · exact setBufferevent_view _ bev _
  · change descriptor = _
    funext other
    rw [table other]
    by_cases same : other = fd
    · subst same
      cases o.getfl <;> cases o.setfl <;> simp [openConnection, setDescriptor]
    · simp [openConnection, setDescriptor, same]

/-- The process survives an accepted connection only if both allocations succeeded. -/
theorem allocates_of_onAccept {s s' : Server} {o : AcceptOutcome} {fd : Fd}
    (accept : o.accept = some fd) (ran : s.onAccept o = .ok s') : o.Allocates := by
  simp only [onAccept, accept] at ran
  refine ⟨?_, ?_⟩
  · cases calloc : o.calloc with
    | none => simp [calloc] at ran
    | some client => rfl
  · cases socketNew : o.socketNew with
    | none => cases calloc : o.calloc <;> simp [calloc, socketNew] at ran
    | some bev => rfl

/-- An accepted client joins the registrations at their end. -/
theorem Valid.onAccept {s : Server} {regs : List Registration} (valid : s.Valid regs)
    {o : AcceptOutcome} {fd : Fd} (fresh : o.Fresh s) (accept : o.accept = some fd)
    (allocates : o.Allocates) : ∃ s' client bev, s.onAccept o = .ok s' ∧
      s'.Valid (regs ++ [⟨client, fd, bev, s.accepted⟩]) ∧ s'.accepted = s.accepted + 1 ∧
      s.view bev = none ∧ s'.view = Function.update s.view bev
        (some ⟨⟨fd, s.accepted, some client, o.enable⟩, [], [], []⟩) := by
  obtain ⟨client, calloc⟩ := Option.isSome_iff_exists.mp allocates.1
  obtain ⟨bev, socketNew⟩ := Option.isSome_iff_exists.mp allocates.2
  obtain ⟨s', ran, links, payloads, views, table, count⟩ :=
    onAccept_eq valid fresh accept calloc socketNew
  have unused : s.view bev = none := by simp [view, fresh.socketNew bev socketNew]
  have newFd {r : Registration} (member : r ∈ regs) : r.fd ≠ fd := by
    rintro rfl
    obtain ⟨_, open_⟩ := valid.socket r member
    rw [fresh.accept _ accept] at open_
    contradiction
  have newNode {r : Registration} (member : r ∈ regs) : r.node ≠ client := by
    rintro rfl
    have known := valid.client r member
    simp [TailQueue.payload?, fresh.calloc _ calloc] at known
  have newBev {r : Registration} (member : r ∈ regs) : r.bev ≠ bev := by
    rintro rfl
    obtain ⟨_, known⟩ := valid.control r member
    simp [control?, unused] at known
  have controls : s'.control? =
      Function.update s.control? bev (some ⟨fd, s.accepted, some client, o.enable⟩) :=
    control?_eq views
  let joined : Registration := ⟨client, fd, bev, s.accepted⟩
  refine ⟨s', client, bev, ran, ⟨?_, ?_, ?_, ?_, ?_, ?_, ?_, ?_, ?_⟩, count, unused, views⟩
  · simpa using links
  · rw [payloads]
    exact lookup_insert Registration.node Registration.HasClient valid.client (@newNode) rfl
  · rw [controls]
    exact lookup_insert Registration.bev Registration.HasControl valid.control (@newBev) ⟨_, rfl⟩
  · rw [table]
    exact lookup_insert Registration.fd Registration.HasSocket valid.socket (@newFd) ⟨_, rfl⟩
  · rw [List.map_append, List.pairwise_append]
    refine ⟨valid.ordered, by simp, ?_⟩
    intro conn member last single
    obtain ⟨r, here, rfl⟩ := List.mem_map.mp member
    obtain rfl : last = s.accepted := by simpa using single
    exact valid.counted r here
  · rw [count]
    intro r member
    rcases List.mem_append.mp member with old | new
    · exact Nat.lt_succ_of_lt (valid.counted r old)
    · obtain rfl := List.mem_singleton.mp new
      exact Nat.lt_succ_self _
  · rw [payloads]
    exact fun a c known => owner_insert Registration.node (fun c => ∃ c', c = some c') joined _
      (fun a known => known.elim (valid.nodes a)) a ⟨c, known⟩
  · rw [controls]
    exact fun b c known => owner_insert Registration.bev (fun c => ∃ c', c = some c') joined _
      (fun b known => known.elim (valid.bevs b)) b ⟨c, known⟩
  · rw [table]
    exact fun d conn nonblocking known => owner_insert Registration.fd
      Connected joined _
      (fun d known => known.elim fun conn flags => flags.elim (valid.sockets d conn)) d
      ⟨conn, nonblocking, known⟩

/-! ## Disconnecting -/

theorem sublist_of_split (before after : List Registration) (r : Registration) :
    (before ++ after).Sublist (before ++ r :: after) :=
  (List.Sublist.refl before).append (List.sublist_cons_self r after)

theorem Valid.ne_of_split {s : Server} {before after : List Registration} {q r : Registration}
    (valid : s.Valid (before ++ r :: after)) (member : q ∈ before ++ after) : q ≠ r := by
  have distinct := valid.regs_nodup
  rw [List.nodup_middle] at distinct
  rintro rfl
  exact (List.nodup_cons.mp distinct).1 member

/-- `buffered_on_error` unlinks one node, and frees it with its bufferevent and its descriptor. -/
theorem bufferedOnError_eq {s : Server} {before after : List Registration} {r : Registration}
    (valid : s.Valid (before ++ r :: after)) (bev : BevPtr) (what : What) :
    ∃ s', s.bufferedOnError bev what r.node = .ok s' ∧
      s'.registry.Represents ((before ++ after).map (·.node)) ∧
      s'.registry.payload? = Function.update s.registry.payload? r.node none ∧
      s'.view = Function.update s.view r.bev none ∧
      s'.descriptor = Function.update s.descriptor r.fd none ∧ s'.accepted = s.accepted := by
  have here : r ∈ before ++ r :: after := by simp
  have distinct := valid.links.nodup
  rw [List.map_append, List.map_cons, List.nodup_middle, ← List.map_append] at distinct
  have gone : r.node ∉ (before ++ after).map (·.node) := (List.nodup_cons.mp distinct).1
  have erased : ((before ++ r :: after).map (·.node)).erase r.node =
      (before ++ after).map (·.node) := by
    have outside : r.node ∉ before.map (·.node) := fun inside => gone (by
      rw [List.map_append]
      exact List.mem_append_left _ inside)
    rw [List.map_append, List.map_cons, List.erase_append_right _ outside, List.erase_cons_head,
      List.map_append]
  obtain ⟨registry, removed, links, payloads⟩ :=
    valid.links.remove (a := r.node) (List.mem_map_of_mem here)
  rw [erased] at links
  obtain ⟨v, seen, _⟩ := valid.live here
  obtain ⟨ev, live, _⟩ := view_eq_some seen
  refine ⟨{ ((({ s with registry } : Server).setBufferevent r.bev none).setDescriptor
    r.fd none) with registry := registry.write r.node none }, ?_, links.write_outside gone none, ?_,
    setBufferevent_view _ r.bev none, rfl, rfl⟩
  · have found : ({ s with registry } : Server).deref r.node = .ok ⟨r.fd, some r.bev⟩ := by
      simp only [deref, payloads, valid.client r here]
    have found' : ({ s with registry } : Server).bufferevent r.bev = some ev := live
    simp only [Server.bufferedOnError, removed, found, bind, Except.bind, buffereventFree,
      derefBufferevent_eq found']
    rfl
  · rw [← payloads]
    exact TailQueue.write_payload? registry r.node none

/-- `buffered_on_error` takes exactly the client it is called for out of the registrations and
releases what belongs to it. -/
theorem Valid.bufferedOnError {s : Server} {before after : List Registration} {r : Registration}
    (valid : s.Valid (before ++ r :: after)) (bev : BevPtr) (what : What) :
    ∃ s', s.bufferedOnError bev what r.node = .ok s' ∧ s'.Valid (before ++ after) ∧
      s'.accepted = s.accepted ∧ s'.view = Function.update s.view r.bev none ∧
      s'.descriptor = Function.update s.descriptor r.fd none := by
  obtain ⟨s', ran, links, payloads, views, table, count⟩ := bufferedOnError_eq valid bev what
  have sublist := sublist_of_split before after r
  have here : r ∈ before ++ r :: after := by simp
  have there {q : Registration} (member : q ∈ before ++ after) : q ∈ before ++ r :: after :=
    sublist.subset member
  have controls : s'.control? = Function.update s.control? r.bev none := control?_eq views
  refine ⟨s', ran, ⟨links, ?_, ?_, ?_, valid.ordered.sublist (sublist.map _), ?_, ?_, ?_, ?_⟩,
    count, views, table⟩
  · rw [payloads]
    exact lookup_erase Registration.node Registration.HasClient none valid.client
      fun q member same => valid.ne_of_split member (valid.eq_of_node (there member) here same)
  · rw [controls]
    exact lookup_erase Registration.bev Registration.HasControl none valid.control
      fun q member same => valid.ne_of_split member (valid.eq_of_bev (there member) here same)
  · rw [table]
    exact lookup_erase Registration.fd Registration.HasSocket none valid.socket
      fun q member same => valid.ne_of_split member (valid.eq_of_fd (there member) here same)
  · rw [count]
    exact fun q member => valid.counted q (there member)
  · rw [payloads]
    exact fun a c known => owner_erase Registration.node (fun c => ∃ c', c = some c')
      (by simp) (fun a known => known.elim (valid.nodes a)) a ⟨c, known⟩
  · rw [controls]
    exact fun b c known => owner_erase Registration.bev (fun c => ∃ c', c = some c')
      (by simp) (fun b known => known.elim (valid.bevs b)) b ⟨c, known⟩
  · rw [table]
    exact fun d conn nonblocking known => owner_erase Registration.fd
      Connected (by rintro ⟨_, _, ⟨⟩⟩)
      (fun d known => known.elim fun conn flags => flags.elim (valid.sockets d conn)) d
      ⟨conn, nonblocking, known⟩

/-! ## Relaying -/

theorem buffereventRead_eq {s : Server} {bev : BevPtr} {v : View} (seen : s.view bev = some v)
    (size : ℕ) : ∃ s', s.buffereventRead bev size =
        .ok ((v.input.take size).length, v.input.take size, s') ∧
      SameControl s s' ∧ s'.view = Function.update s.view bev (some (v.take size)) := by
  obtain ⟨ev, live, rfl⟩ := view_eq_some seen
  obtain ⟨count, stored, after⟩ := ev.read_eq size
  refine ⟨s.setBufferevent bev (some (ev.read size).2.2), ?_, sameControl_set live ?_, ?_⟩
  · rw [← stored, ← count.trans (congrArg List.length stored.symm)]
    simp only [buffereventRead, derefBufferevent_eq live, bind, Except.bind]
  · exact congrArg View.control after
  · rw [setBufferevent_view, Option.map_some, after]

theorem buffereventWrite_eq {s : Server} {bev : BevPtr} {v : View} (seen : s.view bev = some v)
    {data : Bytes} (small : data.length ≤ chainMax) :
    ∃ s', s.buffereventWrite (some bev) data data.length = .ok s' ∧ SameControl s s' ∧
      s'.view = Function.update s.view bev (some (v.append data)) := by
  obtain ⟨ev, live, rfl⟩ := view_eq_some seen
  refine ⟨s.setBufferevent bev (some (ev.write data)), ?_, sameControl_set live rfl, ?_⟩
  · simp only [buffereventWrite, derefBufferevent_eq live, bind, Except.bind, List.take_length,
      if_neg (Nat.not_lt.mpr small), if_neg (Nat.lt_irrefl _)]
  · rw [setBufferevent_view, Option.map_some, ev.write_view]

/-- The traversal never changes the queue it walks over. -/
theorem forward_registry {s s' : Server} {this client : Addr} {data : Bytes} {n : ℕ}
    (wrote : s.forward this data n client = .ok s') : s'.registry = s.registry := by
  unfold forward buffereventWrite at wrote
  split at wrote
  · cases found : s.deref client with
    | error stop => simp [found, bind, Except.bind] at wrote
    | ok c =>
      cases live : s.derefBufferevent c.bufEv with
      | error stop => simp [found, live, bind, Except.bind] at wrote
      | ok pair =>
        simp only [found, live, bind, Except.bind] at wrote
        split at wrote
        · cases wrote; rfl
        · split at wrote
          · contradiction
          · cases wrote; rfl
  · cases wrote; rfl

/-- One step of the traversal: everyone but the sender is written to. -/
theorem Valid.forward {s : Server} {regs : List Registration} (valid : s.Valid regs)
    {r : Registration} (member : r ∈ regs) (this : Addr) {data : Bytes}
    (small : data.length ≤ chainMax) :
    ∃ s', s.forward this data data.length r.node = .ok s' ∧ SameControl s s' ∧
      ∀ b, s'.view b = if b = r.bev ∧ r.node ≠ this then (s.view b).map (View.append data)
        else s.view b := by
  by_cases self : r.node = this
  · exact ⟨s, by simp [Server.forward, self], .refl s, by simp [self]⟩
  · obtain ⟨v, seen, _⟩ := valid.live member
    obtain ⟨s', wrote, same, views⟩ := buffereventWrite_eq seen small
    refine ⟨s', ?_, same, fun b => ?_⟩
    · simp only [Server.forward, ne_eq, self, not_false_eq_true, ↓reduceIte, deref,
        valid.client r member]
      exact wrote
    · rw [views]
      by_cases here : b = r.bev
      · subst here
        simp [self, seen]
      · simp [here]

/-- The traversal writes to the clients it visits, each once. -/
theorem Valid.forward_all {s : Server} {regs visited : List Registration} (valid : s.Valid regs)
    (sub : visited ⊆ regs) (distinct : visited.Nodup) (this : Addr) {data : Bytes}
    (small : data.length ≤ chainMax) :
    ∃ s', (visited.map (·.node)).foldlM
        (fun s client => s.forward this data data.length client) s = .ok s' ∧
      SameControl s s' ∧ ∀ b, s'.view b =
        if ∃ r ∈ visited, r.bev = b ∧ r.node ≠ this then (s.view b).map (View.append data)
        else s.view b := by
  induction visited generalizing s with
  | nil => exact ⟨s, rfl, .refl s, by simp⟩
  | cons r rest ih =>
    obtain ⟨notAgain, distinct⟩ := List.nodup_cons.mp distinct
    have member : r ∈ regs := sub (by simp)
    obtain ⟨s₁, wrote, same₁, views₁⟩ := valid.forward member this small
    obtain ⟨s₂, rest_, same₂, views₂⟩ :=
      ih (valid.of_sameControl same₁) (fun q inside => sub (by simp [inside])) distinct
    refine ⟨s₂, ?_, same₁.trans same₂, fun b => ?_⟩
    · rw [List.map_cons, List.foldlM_cons, wrote]
      exact rest_
    · rw [views₂, views₁]
      -- The bufferevent of `r` is not one of those written to later.
      have once : ∀ q ∈ rest, q.bev = b → b ≠ r.bev := by
        rintro q inside rfl same
        exact notAgain (valid.eq_of_bev (sub (by simp [inside])) member same ▸ inside)
      by_cases later : ∃ q ∈ rest, q.bev = b ∧ q.node ≠ this
      · obtain ⟨q, inside, here, other⟩ := later
        rw [if_pos ⟨q, inside, here, other⟩, if_neg (fun now => once q inside here now.1),
          if_pos ⟨q, List.mem_cons_of_mem _ inside, here, other⟩]
      · rw [if_neg later]
        congr 1
        simp only [List.mem_cons, exists_eq_or_imp, later, or_false, eq_comm (a := b)]

/-- A pass of the traversal reaches every live bufferevent but the sender's. -/
theorem Valid.foreach {s : Server} {regs : List Registration} (valid : s.Valid regs)
    (this : Addr) {data : Bytes} (small : data.length ≤ chainMax) :
    ∃ s', TailQueue.foreach registry .fault (fun client s => s.forward this data data.length client)
        s.accepted s.registry.tqhFirst s = .ok s' ∧ SameControl s s' ∧
      ∀ b, s'.view b = (s.view b).map (View.hear · this data) := by
  obtain ⟨s', ran, same, views⟩ :=
    valid.forward_all (List.Subset.refl regs) valid.regs_nodup this small
  refine ⟨s', ?_, same, fun b => ?_⟩
  · rw [valid.links.first, TailQueue.Represents.foreach [] ?_ valid.links]
    · exact ran
    · simpa using valid.length_le
    · exact fun client s s' wrote => forward_registry wrote
  · rw [views]
    cases seen : s.view b with
    | none => simp
    | some v =>
      obtain ⟨r, member, rfl, sender⟩ := valid.of_view seen
      by_cases self : r.node = this
      · rw [if_neg, Option.map_some, View.hear_self (by rw [sender, self])]
        rintro ⟨q, inside, here, other⟩
        exact other (valid.eq_of_bev inside member here ▸ self)
      · rw [if_pos ⟨r, member, rfl, self⟩, Option.map_some, Option.map_some,
          View.hear_other (by simpa [sender] using self)]

/-! ## Moving bytes between buffers and sockets -/

theorem receive_eq {s : Server} {bev : BevPtr} {v : View} (seen : s.view bev = some v)
    (data : Bytes) : SameControl s (s.receive bev data) ∧
      (s.receive bev data).view = Function.update s.view bev (some (v.receive data)) := by
  obtain ⟨ev, live, rfl⟩ := view_eq_some seen
  unfold receive
  rw [live, Option.map_some]
  exact ⟨sameControl_set live rfl, by rw [setBufferevent_view, Option.map_some, ev.receive_view]⟩

theorem flush_eq {s : Server} {bev : BevPtr} {v : View} (seen : s.view bev = some v)
    (count : ℕ) : SameControl s (s.flush bev count) ∧
      (s.flush bev count).view = Function.update s.view bev (some (v.flush count)) := by
  obtain ⟨ev, live, rfl⟩ := view_eq_some seen
  unfold flush
  rw [live, Option.map_some]
  exact ⟨sameControl_set live rfl, by rw [setBufferevent_view, Option.map_some, ev.flush_view]⟩

/-- The state in which the event loop starts has no clients. -/
theorem main_valid (own : Fd → Option Bool) : (main own).Valid [] where
  links := TailQueue.init_represents _
  client := by simp
  control := by simp
  socket := by simp
  ordered := .nil
  counted := by simp
  nodes a c known := by simp [main, TailQueue.payload?, TailQueue.init] at known
  bevs b c known := by simp [main, control?, view] at known
  sockets fd conn nonblocking known := by
    simp [main] at known

end Server

end MerlinC.Model
