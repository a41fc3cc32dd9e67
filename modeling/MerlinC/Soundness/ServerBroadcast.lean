import MerlinC.Soundness.ServerRegistry

/-! # Exact, totally ordered broadcast

What the server has queued for a client, flushed or not, is what was read from everyone else
since that client was accepted, in the order of the reads. The statement follows the pointers of
`client_tailq_head`, so it speaks about the clients the server itself would find there.
-/

namespace MerlinC.Soundness

open Math Model

/-- A queued client, seen through its node. -/
structure Queued (s : Server) (client : Addr) (ev : Bufferevent) : Prop where
  found : ∃ c bev, s.registry.payload? client = some c ∧ c.bufEv = some bev ∧
    s.bufferevent bev = some ev

theorem Queued.unique {s : Server} {client : Addr} {ev ev' : Bufferevent}
    (queued : Queued s client ev) (queued' : Queued s client ev') : ev = ev' := by
  obtain ⟨c, bev, found, named, live⟩ := queued.found
  obtain ⟨c', bev', found', named', live'⟩ := queued'.found
  obtain rfl := Option.some.inj (found.symm.trans found')
  obtain rfl := Option.some.inj (named.symm.trans named')
  exact Option.some.inj (live.symm.trans live')

/-- The clients in `client_tailq_head` are those of the connections that are present, one for each,
and what is queued for a client is what it should have heard. -/
theorem queued_run {own : Fd → Option Bool} {events : List Event} {s : Server}
    (run : Run Server.Step (.main own) events s) : ∃ clients, s.registry.Represents clients ∧
      (∀ client ∈ clients, ∃ ev, Queued s client ev ∧
        ev.control.conn ∈ present (events.flatMap Event.acts) ∧
        ev.flushed ++ ev.output.bytes = heard ev.control.conn (events.flatMap Event.acts) ∧
        ev.input.bytes = []) ∧
      ∀ conn ∈ present (events.flatMap Event.acts), ∃ client ∈ clients, ∃ ev,
        Queued s client ev ∧ ev.control.conn = conn := by
  obtain ⟨regs, valid, members, words⟩ := Server.run_regs run
  have found {r : Registration} (inside : r ∈ regs) : ∃ ev, Queued s r.node ev ∧
      ev.control.conn = r.conn ∧ s.view r.bev = some ev.view := by
    obtain ⟨v, seen, _, conn, _⟩ := valid.live inside
    obtain ⟨ev, live, rfl⟩ := Server.view_eq_some seen
    exact ⟨ev, ⟨_, r.bev, valid.client r inside, rfl, live⟩, conn, seen⟩
  refine ⟨regs.map (·.node), valid.links, fun client member => ?_, fun conn here => ?_⟩
  · obtain ⟨r, inside, rfl⟩ := List.mem_map.mp member
    obtain ⟨ev, queued, conn, seen⟩ := found inside
    refine ⟨ev, queued, ?_⟩
    rw [← members, conn]
    exact ⟨List.mem_map_of_mem inside, words r inside _ seen⟩
  · rw [← members] at here
    obtain ⟨r, inside, rfl⟩ := List.mem_map.mp here
    obtain ⟨ev, queued, conn, _⟩ := found inside
    exact ⟨r.node, List.mem_map_of_mem inside, ev, queued, conn⟩

/-- For every run and every client in `client_tailq_head`, flushed and waiting bytes together are
exactly the bytes read from all other connections since its own accept, in the order of the
reads; nothing read is still unrelayed; and what two clients were sent of third parties is the
same sequence of reads from the later of their two accepts on. -/
theorem broadcast_exact {own : Fd → Option Bool} {events : List Event} {s : Server}
    (run : Run Server.Step (.main own) events s) :
    ∃ clients, s.registry.Represents clients ∧
      (∀ client ∈ clients, ∃ ev, Queued s client ev ∧
        ev.flushed ++ ev.output.bytes = heard ev.control.conn (events.flatMap Event.acts) ∧
        ev.input.bytes = []) ∧
      ∀ one other : Conn,
        (utterances one (events.flatMap Event.acts)).filter (·.1 ≠ other) <:+
            (utterances other (events.flatMap Event.acts)).filter (·.1 ≠ one) ∨
          (utterances other (events.flatMap Event.acts)).filter (·.1 ≠ one) <:+
            (utterances one (events.flatMap Event.acts)).filter (·.1 ≠ other) := by
  obtain ⟨clients, links, told, _⟩ := queued_run run
  refine ⟨clients, links, fun client member => ?_, thirdParty_suffix _⟩
  obtain ⟨ev, queued, _, bytes, empty⟩ := told client member
  exact ⟨ev, queued, bytes, empty⟩

/-- The first client was sent the second one's bytes; the second, accepted after the first spoke,
was sent nothing. -/
theorem broadcast_exact_late : ∃ s clients, Run Server.Step (.main listening)
    [.accept 0 (acceptNth 0), .read 0 [1, 2], .accept 1 (acceptNth 1), .read 1 [3],
      .flush 0 1] s ∧ s.registry.Represents clients ∧
    ∀ client ∈ clients, ∃ ev, Queued s client ev ∧
      ev.flushed ++ ev.output.bytes = if ev.control.conn = 0 then [3] else heard ev.control.conn
        [.join 0, .say 0 [1, 2], .join 1, .say 1 [3]] := by
  have run : ∃ s, Run Server.Step (.main listening)
      [.accept 0 (acceptNth 0), .read 0 [1, 2], .accept 1 (acceptNth 1), .read 1 [3],
        .flush 0 1] s := by
    exact ⟨_, .cons (.accept rfl rfl (acceptNth_fresh rfl rfl rfl) rfl)
      (.cons (.read 1 rfl rfl rfl (List.cons_ne_nil _ _) rfl)
      (.cons (.accept rfl rfl (acceptNth_fresh rfl rfl rfl) rfl)
      (.cons (.read 2 rfl rfl rfl (List.cons_ne_nil _ _) rfl)
      (.single (.flush 1 rfl rfl (by decide))))))⟩
  obtain ⟨s, run⟩ := run
  obtain ⟨clients, links, sent, _⟩ := broadcast_exact run
  refine ⟨s, clients, run, links, fun client member => ?_⟩
  obtain ⟨ev, queued, bytes, _⟩ := sent client member
  refine ⟨ev, queued, bytes.trans ?_⟩
  split
  · next first => rw [first]; decide
  · rfl

end MerlinC.Soundness
