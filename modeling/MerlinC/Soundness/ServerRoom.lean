import MerlinC.Math.Broadcast
import MerlinC.Model.RelayPasses

/-! # The relay server is a broadcast room

Every turn of the event loop is matched by what it means in a room whose members are the
connections in `client_tailq_head`: an accepted connection arrives, a read is something said, an
error is a departure, and a flush means nothing. The correspondence is exact on the bytes, which
transports the laws of broadcast to the bytes queued for a client.
-/

namespace MerlinC.Model

open Math

/-- What an event means in the room. -/
def Event.acts : Event → List (Act Conn UInt8)
  | .accept conn _ => [.join conn]
  | .acceptFailed => []
  | .read conn data => [.say conn data]
  | .flush _ _ => []
  | .error conn _ => [.leave conn]

namespace Server

/-- The queue holds the members of the room in their order, each is queued what it was told, and
nothing that was read is still waiting to be relayed. -/
def Mirrors (s : Server) (room : Room Conn UInt8) : Prop :=
  ∃ regs, s.Valid regs ∧ room.members = regs.map (·.conn) ∧
    ∀ r ∈ regs, ∀ v, s.view r.bev = some v → v.queued = room.told r.conn ∧ v.input = []

theorem main_mirrors (own : Fd → Option Bool) : (main own).Mirrors Room.empty :=
  ⟨[], main_valid own, rfl, by simp⟩

/-- Accepting a connection is an arrival. -/
private theorem mirrors_accept {s s' : Server} {room : Room Conn UInt8} {o : AcceptOutcome}
    {fd : Fd} (mirrors : s.Mirrors room) (taken : o.accept = some fd) (fresh : o.Fresh s)
    (ran : s.onAccept o = .ok s') :
    ∃ room', Room.Step room (.join s.accepted) room' ∧ s'.Mirrors room' := by
  obtain ⟨regs, valid, members, told⟩ := mirrors
  obtain ⟨s'', client, bev, ran', valid', _, unused, views⟩ :=
    valid.onAccept fresh taken (allocates_of_onAccept taken ran)
  obtain rfl := Except.ok.inj (ran.symm.trans ran')
  refine ⟨_, .join ?_, _, valid', by simp [members], ?_⟩
  · rw [members]
    intro member
    obtain ⟨r, inside, same⟩ := List.mem_map.mp member
    exact Nat.ne_of_lt (valid.counted r inside) same
  · intro r member v seen
    rw [views] at seen
    rcases List.mem_append.mp member with old | new
    · obtain ⟨w, known, _⟩ := valid.live old
      have elsewhere : r.bev ≠ bev := by
        rintro rfl
        rw [unused] at known
        contradiction
      have earlier : r.conn ≠ s.accepted := Nat.ne_of_lt (valid.counted r old)
      rw [Function.update_of_ne elsewhere] at seen
      simpa [earlier] using told r old v seen
    · obtain rfl := List.mem_singleton.mp new
      rw [Function.update_self] at seen
      obtain rfl := Option.some.inj seen
      simp [View.queued]

/-- A read is something said: the whole of it reaches everyone else. -/
private theorem mirrors_read {s s' : Server} {room : Room Conn UInt8} {bev : BevPtr}
    {ev : Bufferevent} {data : Bytes} (mirrors : s.Mirrors room)
    (live : s.bufferevent bev = some ev)
    (ran : (s.receive bev data).callback ev (fun arg s => s.bufferedOnRead bev arg) = .ok s') :
    ∃ room', Room.Step room (.say ev.control.conn data) room' ∧ s'.Mirrors room' := by
  obtain ⟨regs, valid, members, told⟩ := mirrors
  obtain ⟨r, member, rfl, arg, conn, _⟩ := valid.of_live live
  have seen := view_of_live live
  obtain ⟨same, received⟩ := receive_eq seen data
  have arrived : (s.receive r.bev data).view r.bev = some (ev.view.receive data) := by
    rw [received, Function.update_self]
  obtain ⟨s'', ran', same', views⟩ := (valid.of_sameControl same).bufferedOnRead member arrived
  simp only [callback, arg] at ran
  obtain rfl := Except.ok.inj (ran.symm.trans ran')
  have whole : (ev.view.receive data).input = data := by
    simp [View.receive, (told r member _ seen).2]
  refine ⟨_, .say ?_, regs, valid.of_sameControl (same.trans same'), members, ?_⟩
  · rw [members, conn]
    exact List.mem_map_of_mem member
  · intro q inside w known
    rw [views, whole, received] at known
    by_cases self : q.bev = r.bev
    · obtain rfl := valid.eq_of_bev inside member self
      rw [Function.update_self, Option.map_some,
        View.relayed_self (v := ev.view.receive data) arg] at known
      obtain rfl := Option.some.inj known
      refine ⟨?_, rfl⟩
      simpa [conn, View.queued, View.receive] using (told q inside _ seen).1
    · rw [Function.update_of_ne self] at known
      obtain ⟨u, before, rfl⟩ := Option.map_eq_some_iff.mp known
      have other : u.control.cbarg ≠ some r.node :=
        fun named => self ((valid.cbarg_iff member before).mp named)
      have apart : q.conn ≠ r.conn := fun eq => self (by rw [valid.eq_of_conn inside member eq])
      have present : q.conn ∈ room.members := members ▸ List.mem_map_of_mem inside
      obtain ⟨queued, empty⟩ := told q inside u before
      rw [View.relayed_other other]
      refine ⟨?_, empty⟩
      simp [queued, conn, apart, present]

/-- A partial flush is no event of the room. -/
private theorem mirrors_flush {s : Server} {room : Room Conn UInt8} {bev : BevPtr}
    {ev : Bufferevent} (mirrors : s.Mirrors room) (live : s.bufferevent bev = some ev)
    (count : ℕ) : (s.flush bev count).Mirrors room := by
  obtain ⟨regs, valid, members, told⟩ := mirrors
  have seen := view_of_live live
  obtain ⟨same, views⟩ := flush_eq seen count
  refine ⟨regs, valid.of_sameControl same, members, fun r member v known => ?_⟩
  rw [views] at known
  by_cases here : r.bev = bev
  · subst here
    rw [Function.update_self] at known
    obtain rfl := Option.some.inj known
    obtain ⟨queued, empty⟩ := told r member _ seen
    exact ⟨(View.flush_queued count ev.view).trans queued, empty⟩
  · rw [Function.update_of_ne here] at known
    exact told r member v known

/-- An error is a departure, and touches nobody else. -/
private theorem mirrors_error {s s' : Server} {room : Room Conn UInt8} {bev : BevPtr}
    {ev : Bufferevent} {what : What} (mirrors : s.Mirrors room)
    (live : s.bufferevent bev = some ev)
    (ran : s.callback ev (fun arg s => s.bufferedOnError bev what arg) = .ok s') :
    ∃ room', Room.Step room (.leave ev.control.conn) room' ∧ s'.Mirrors room' := by
  obtain ⟨regs, valid, members, told⟩ := mirrors
  obtain ⟨r, member, rfl, arg, conn, _⟩ := valid.of_live live
  obtain ⟨before, after, rfl⟩ := List.append_of_mem member
  obtain ⟨s'', ran', valid', _, views, _⟩ := valid.bufferedOnError r.bev what
  simp only [callback, arg] at ran
  obtain rfl := Except.ok.inj (ran.symm.trans ran')
  have first : r.conn ∉ before.map (·.conn) := by
    have distinct := valid.conns_nodup
    rw [List.map_append, List.map_cons, List.nodup_middle] at distinct
    exact fun inside => (List.nodup_cons.mp distinct).1 (List.mem_append_left _ inside)
  refine ⟨_, .leave ?_, _, valid', ?_, ?_⟩
  · rw [members, conn]
    exact List.mem_map_of_mem member
  · rw [members, conn, List.map_append, List.map_cons, List.erase_append_right _ first,
      List.erase_cons_head, List.map_append]
  · intro q inside w known
    have old : q ∈ before ++ r :: after := by
      simp only [List.mem_append, List.mem_cons] at inside ⊢
      tauto
    rw [views] at known
    by_cases here : q.bev = r.bev
    · rw [here, Function.update_self] at known
      contradiction
    · rw [Function.update_of_ne here] at known
      exact told q old w known

/-- One turn of the event loop, in the room. -/
theorem Mirrors.step {s s' : Server} {room : Room Conn UInt8} {event : Event}
    (mirrors : s.Mirrors room) (step : Step s event s') :
    ∃ room', Run Room.Step room event.acts room' ∧ s'.Mirrors room' := by
  cases step with
  | accept taken next fresh ran =>
    subst next
    obtain ⟨room', acted, mirrors'⟩ := mirrors_accept mirrors taken fresh ran
    exact ⟨room', .single acted, mirrors'⟩
  | acceptFailed failed ran =>
    simp only [onAccept, failed, Except.ok.injEq] at ran
    exact ⟨room, .nil, ran ▸ mirrors⟩
  | read bev live named _ _ ran =>
    subst named
    obtain ⟨room', acted, mirrors'⟩ := mirrors_read mirrors live ran
    exact ⟨room', .single acted, mirrors'⟩
  | flush bev live _ _ => exact ⟨room, .nil, mirrors_flush mirrors live _⟩
  | error bev live named ran =>
    subst named
    obtain ⟨room', acted, mirrors'⟩ := mirrors_error mirrors live ran
    exact ⟨room', .single acted, mirrors'⟩

/-- A run of the server is a run of the room. -/
theorem run_mirrors {own : Fd → Option Bool} {events : List Event} {s : Server}
    (run : Run Step (main own) events s) :
    ∃ room, Run Room.Step Room.empty (events.flatMap Event.acts) room ∧ s.Mirrors room :=
  run.simulate (fun _ => True) Mirrors Event.acts (main_mirrors own)
    (fun _ _ _ _ mirrors _ step => mirrors.step step) (fun _ _ => trivial)

/-- After every run the registrations are valid, they are those of the connections that are
present, and every bufferevent has queued what its connection was to hear. -/
theorem run_regs {own : Fd → Option Bool} {events : List Event} {s : Server}
    (run : Run Step (main own) events s) :
    ∃ regs, s.Valid regs ∧ regs.map (·.conn) = present (events.flatMap Event.acts) ∧
      ∀ r ∈ regs, ∀ v, s.view r.bev = some v →
        v.queued = heard r.conn (events.flatMap Event.acts) ∧ v.input = [] := by
  obtain ⟨room, acted, regs, valid, members, told⟩ := run_mirrors run
  obtain ⟨membership, words⟩ := Room.run_told acted
  refine ⟨regs, valid, members.symm.trans membership, fun r member v seen => ?_⟩
  obtain ⟨queued, empty⟩ := told r member v seen
  exact ⟨queued.trans (words _ (members ▸ List.mem_map_of_mem member)), empty⟩

end Server

end MerlinC.Model
