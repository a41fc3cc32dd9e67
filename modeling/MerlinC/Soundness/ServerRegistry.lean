import MerlinC.Soundness.ServerRoom

/-! # The client queue owns what it names

In every reachable state the queue's links are well formed, its nodes are the accepted and not
yet removed clients in accept order, and node, bufferevent, descriptor and connection of each
belong together. The registrations are a witness of that, so descriptor numbers, addresses and
bufferevents may be reused freely: the callbacks never reach a client that is gone.
-/

namespace MerlinC.Soundness

open Math Model

/-- Every callback that can be made now returns, and a removal closes the open descriptor of its
own client only. -/
structure CallbacksReturn (s : Server) : Prop where
  accept : ∀ o : AcceptOutcome, o.Fresh s → (o.accept.isSome → o.Allocates) →
    ∃ s', s.onAccept o = .ok s'
  read : ∀ bev ev data, s.bufferevent bev = some ev →
    ∃ s', (s.receive bev data).callback ev (fun arg s => s.bufferedOnRead bev arg) = .ok s'
  error : ∀ bev ev what, s.bufferevent bev = some ev →
    ∃ s', s.callback ev (fun arg s => s.bufferedOnError bev what arg) = .ok s' ∧
      (∃ nonblocking, s.descriptor ev.control.fd = some ⟨some ev.control.conn, nonblocking⟩) ∧
      s'.descriptor = Function.update s.descriptor ev.control.fd none

theorem callbacksReturn_of_valid {s : Server} {regs : List Registration} (valid : s.Valid regs) :
    CallbacksReturn s where
  accept o fresh allocates := by
    cases accepted : o.accept with
    | none => exact ⟨s, by simp only [Server.onAccept, accepted]⟩
    | some fd =>
      obtain ⟨s', _, _, ran, _⟩ := valid.onAccept fresh accepted (allocates (by simp [accepted]))
      exact ⟨s', ran⟩
  read bev ev data live := by
    obtain ⟨r, member, rfl, arg, _⟩ := valid.of_live live
    have seen := Server.view_of_live live
    obtain ⟨same, received⟩ := Server.receive_eq seen data
    have arrived : (s.receive r.bev data).view r.bev = some (ev.view.receive data) := by
      rw [received, Function.update_self]
    obtain ⟨s', ran, _⟩ := (valid.of_sameControl same).bufferedOnRead member arrived
    exact ⟨s', by simpa only [Server.callback, arg] using ran⟩
  error bev ev what live := by
    obtain ⟨r, member, rfl, arg, conn, fd⟩ := valid.of_live live
    obtain ⟨before, after, rfl⟩ := List.append_of_mem member
    obtain ⟨s', ran, _, _, _, table⟩ := valid.bufferedOnError r.bev what
    refine ⟨s', by simpa only [Server.callback, arg] using ran, ?_, by rw [fd]; exact table⟩
    rw [fd, conn]
    exact valid.socket r member

/-- In every reachable state the registry is valid: well-formed links over exactly the clients
accepted and not yet removed, each once and in accept order, each with a node, a bufferevent and
a descriptor of its own that name one another. No callback made there can fail. -/
theorem registry_valid {own : Fd → Option Bool} {events : List Event} {s : Server}
    (run : Run Server.Step (.main own) events s) :
    ∃ regs, s.Valid regs ∧ regs.map (·.conn) = present (events.flatMap Event.acts) ∧
      (regs.map (·.node)).Nodup ∧ (regs.map (·.fd)).Nodup ∧ (regs.map (·.bev)).Nodup ∧
      CallbacksReturn s := by
  obtain ⟨regs, valid, members, _⟩ := Server.run_regs run
  refine ⟨regs, valid, members, valid.links.nodup, ?_, ?_, callbacksReturn_of_valid valid⟩
  · exact List.Nodup.map_on (fun _ member _ member' => valid.eq_of_fd member member')
      valid.regs_nodup
  · exact List.Nodup.map_on (fun _ member _ member' => valid.eq_of_bev member member')
      valid.regs_nodup

/-- The outcome in which `accept` returns descriptor `5 + n` and the allocator slot `n + 1`. -/
def acceptNth (n : ℕ) : AcceptOutcome :=
  { accept := some (5 + n), getfl := true, setfl := true, calloc := some (n + 1),
    socketNew := some (n + 1), enable := true }

/-- The descriptors of a process that has only set up its listening socket. -/
def listening : Fd → Option Bool := fun fd =>
  if fd < 4 then some false else if fd = 4 then some true else none

theorem acceptNth_fresh {n : ℕ} {s : Server} (descriptor : s.descriptor (5 + n) = none)
    (node : s.registry.node (n + 1) = none) (bev : s.bufferevent (n + 1) = none) :
    (acceptNth n).Fresh s where
  accept fd taken := by
    obtain rfl := Option.some.inj taken
    exact descriptor
  calloc client taken := by
    obtain rfl := Option.some.inj taken
    exact node
  socketNew new taken := by
    obtain rfl := Option.some.inj taken
    exact bev

/-- A client that reuses the descriptor, the node and the bufferevent of one that just left is
the only one registered. -/
theorem registry_valid_reused : ∃ s regs, Run Server.Step (.main listening)
    [.accept 0 (acceptNth 0), .error 0 .eof, .accept 1 (acceptNth 0)] s ∧
      s.Valid regs ∧ regs.map (·.conn) = [1] := by
  have run : ∃ s, Run Server.Step (.main listening)
      [.accept 0 (acceptNth 0), .error 0 .eof, .accept 1 (acceptNth 0)] s := by
    exact ⟨_, .cons (.accept rfl rfl (acceptNth_fresh rfl rfl rfl) rfl)
      (.cons (.error 1 rfl rfl rfl) (.single (.accept rfl rfl (acceptNth_fresh rfl rfl rfl) rfl)))⟩
  obtain ⟨s, run⟩ := run
  obtain ⟨regs, valid, members, _⟩ := registry_valid run
  exact ⟨s, regs, run, valid, members⟩

end MerlinC.Soundness
