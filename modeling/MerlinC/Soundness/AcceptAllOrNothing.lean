import MerlinC.Soundness.ServerRegistry

/-! # Half-registered clients

`on_accept` acts on failures of `accept` and `calloc` only: it returns at the first and ends the
process at the second. A failure of `setnonblock` is warned about, and the client whose descriptor
stays blocking is queued like any other. So accepting is all or nothing exactly when `accept`
fails, or nothing does.
-/

namespace MerlinC.Soundness

open Math Model

/-- A new client has a non-blocking descriptor, a live bufferevent with its callbacks set and
reading enabled, and a node at the tail of `client_tailq_head`. -/
structure FullyRegistered (s s' : Server) (fd : Fd) (client : Addr) (bev : BevPtr) : Prop where
  nonblocking : s'.descriptor fd = some ⟨some s.accepted, true⟩
  live : ∃ ev, s'.bufferevent bev = some ev ∧ ev.control = ⟨fd, s.accepted, some client, true⟩
  node : s'.registry.payload? client = some ⟨fd, some bev⟩
  tail : ∃ nodes, s.registry.Represents nodes ∧ s'.registry.Represents (nodes ++ [client])

/-- Queue and existing clients are as before, and a descriptor that was accepted is closed. -/
structure LeftAlone (o : AcceptOutcome) (s s' : Server) : Prop where
  queue : s'.registry = s.registry
  clients : ∀ bev ev, s.bufferevent bev = some ev → s'.bufferevent bev = some ev
  descriptors : ∀ fd d, s.descriptor fd = some d → s'.descriptor fd = some d
  closed : ∀ fd, o.accept = some fd → s'.descriptor fd = none

/-- `on_accept` returns with a new client that is fully registered, or with nothing changed. -/
def AllOrNothing (o : AcceptOutcome) (s : Server) : Prop :=
  ∃ s', s.onAccept o = .ok s' ∧ ((∃ fd client bev, o.accept = some fd ∧ o.calloc = some client ∧
    o.socketNew = some bev ∧ FullyRegistered s s' fd client bev) ∨ LeftAlone o s s')

/-- A new client is registered like that on a descriptor which is non-blocking if both calls of
`setnonblock` succeeded, and the existing clients are as before. -/
structure Joined (o : AcceptOutcome) (s s' : Server) (fd : Fd) (client : Addr) (bev : BevPtr) :
    Prop where
  socket : s'.descriptor fd = some ⟨some s.accepted, o.getfl && o.setfl⟩
  live : ∃ ev, s'.bufferevent bev = some ev ∧ ev.control = ⟨fd, s.accepted, some client, true⟩
  node : s'.registry.payload? client = some ⟨fd, some bev⟩
  tail : ∃ nodes, s.registry.Represents nodes ∧ s'.registry.Represents (nodes ++ [client])
  nodes : ∀ a, a ≠ client → s'.registry.payload? a = s.registry.payload? a
  views : ∀ b, b ≠ bev → s'.view b = s.view b
  descriptors : ∀ d, d ≠ fd → s'.descriptor d = s.descriptor d

/-- Every call that follows a successful `accept` succeeds. -/
def Smooth (o : AcceptOutcome) : Prop :=
  o.accept.isSome → o.getfl ∧ o.setfl ∧ o.Allocates ∧ o.enable

/-- Without a descriptor `on_accept` does nothing. -/
theorem leftAlone_of_accept {o : AcceptOutcome} (failed : o.accept = none) (s : Server) :
    ∃ s', s.onAccept o = .ok s' ∧ LeftAlone o s s' := by
  refine ⟨s, by simp only [Server.onAccept, failed], rfl, ?_, ?_, ?_⟩
  · exact fun _ _ live => live
  · exact fun _ _ open_ => open_
  · intro fd accepted
    rw [failed] at accepted
    contradiction

section Accepted

variable {s s' : Server} {regs : List Registration} {o : AcceptOutcome} {fd : Fd}

/-- A descriptor that was accepted is never closed, so the client must be fully registered. -/
theorem smooth_of_allOrNothing (valid : s.Valid regs) (fresh : o.Fresh s)
    (accepted : o.accept = some fd) (outcome : AllOrNothing o s) : Smooth o := by
  obtain ⟨s', ran, outcome⟩ := outcome
  have allocates := Server.allocates_of_onAccept accepted ran
  obtain ⟨client, calloc⟩ := Option.isSome_iff_exists.mp allocates.1
  obtain ⟨bev, socketNew⟩ := Option.isSome_iff_exists.mp allocates.2
  obtain ⟨s'', ran', _, _, views, table, _⟩ :=
    Server.onAccept_eq valid fresh accepted calloc socketNew
  obtain rfl := Except.ok.inj (ran.symm.trans ran')
  have opened : s'.descriptor fd = some ⟨some s.accepted, o.getfl && o.setfl⟩ := by
    rw [table, Function.update_self]
  rcases outcome with ⟨fd', client', bev', accepted', _, socketNew', registered⟩ | alone
  · obtain rfl := Option.some.inj (accepted.symm.trans accepted')
    obtain rfl := Option.some.inj (socketNew.symm.trans socketNew')
    obtain ⟨ev, live, control⟩ := registered.live
    have flags := registered.nonblocking
    rw [opened] at flags
    simp only [Option.some.injEq, Descriptor.mk.injEq, Bool.and_eq_true, true_and] at flags
    have seen := Server.view_of_live live
    rw [views, Function.update_self] at seen
    have same := congrArg View.control (Option.some.inj seen)
    have reads : o.enable = true := congrArg Control.reading (same.trans control)
    exact fun _ => ⟨flags.1, flags.2, allocates, reads⟩
  · have closed := alone.closed fd accepted
    rw [opened] at closed
    contradiction

/-- A client joins whether or not its descriptor could be made non-blocking. -/
theorem joined_of_enable (valid : s.Valid regs) (fresh : o.Fresh s) {client : Addr} {bev : BevPtr}
    (accepted : o.accept = some fd) (calloc : o.calloc = some client)
    (socketNew : o.socketNew = some bev) (enable : o.enable = true) :
    ∃ s', s.onAccept o = .ok s' ∧ Joined o s s' fd client bev := by
  obtain ⟨s', ran, links, payloads, views, table, _⟩ :=
    Server.onAccept_eq valid fresh accepted calloc socketNew
  refine ⟨s', ran, ?_, ?_, ?_, ⟨_, valid.links, links⟩, ?_, ?_, ?_⟩
  · rw [table, Function.update_self]
  · have seen : s'.view bev = some ⟨⟨fd, s.accepted, some client, o.enable⟩, [], [], []⟩ := by
      rw [views, Function.update_self]
    obtain ⟨ev, live, same⟩ := Server.view_eq_some seen
    refine ⟨ev, live, (congrArg View.control same).trans ?_⟩
    rw [enable]
  · rw [payloads, Function.update_self]
  · intro a other
    rw [payloads, Function.update_of_ne other]
  · intro b other
    rw [views, Function.update_of_ne other]
  · intro d other
    rw [table, Function.update_of_ne other]

/-- If every call succeeds, the client is fully registered. -/
theorem registered_of_smooth (valid : s.Valid regs) (fresh : o.Fresh s)
    (accepted : o.accept = some fd) (smooth : Smooth o) : AllOrNothing o s := by
  obtain ⟨getfl, setfl, allocates, enable⟩ := smooth (by rw [accepted]; rfl)
  obtain ⟨client, calloc⟩ := Option.isSome_iff_exists.mp allocates.1
  obtain ⟨bev, socketNew⟩ := Option.isSome_iff_exists.mp allocates.2
  obtain ⟨s', ran, joined⟩ := joined_of_enable valid fresh accepted calloc socketNew enable
  have nonblocking := joined.socket
  rw [getfl, setfl] at nonblocking
  exact ⟨s', ran, .inl ⟨fd, client, bev, accepted, calloc, socketNew, nonblocking, joined.live,
    joined.node, joined.tail⟩⟩

end Accepted

/-- In every reachable state, accepting is all or nothing if and only if `accept` fails or no
call does. -/
theorem all_or_nothing_iff {own : Fd → Option Bool} {events : List Event} {s : Server}
    (run : Run Server.Step (.main own) events s) {o : AcceptOutcome} (fresh : o.Fresh s) :
    AllOrNothing o s ↔ Smooth o := by
  obtain ⟨regs, valid, _⟩ := Server.run_regs run
  cases accepted : o.accept with
  | none =>
    obtain ⟨s', ran, alone⟩ := leftAlone_of_accept accepted s
    refine iff_of_true ⟨s', ran, .inr alone⟩ fun taken => ?_
    rw [accepted] at taken
    contradiction
  | some fd =>
    exact ⟨smooth_of_allOrNothing valid fresh accepted,
      registered_of_smooth valid fresh accepted⟩

/-- In every reachable state, `on_accept` changes nothing if `accept` fails, ends the process if
`calloc` does, and registers the client once its bufferevent exists and reads. -/
theorem accept_joins {own : Fd → Option Bool} {events : List Event} {s : Server}
    (run : Run Server.Step (.main own) events s) {o : AcceptOutcome} (fresh : o.Fresh s) :
    (o.accept = none → ∃ s', s.onAccept o = .ok s' ∧ LeftAlone o s s') ∧
    (o.accept.isSome → o.calloc = none → s.onAccept o = .error (.exited 1)) ∧
    ∀ fd client bev, o.accept = some fd → o.calloc = some client → o.socketNew = some bev →
      o.enable = true → ∃ s', s.onAccept o = .ok s' ∧ Joined o s s' fd client bev := by
  obtain ⟨regs, valid, _⟩ := Server.run_regs run
  refine ⟨fun failed => leftAlone_of_accept failed s, fun taken calloc => ?_, ?_⟩
  · obtain ⟨fd, accepted⟩ := Option.isSome_iff_exists.mp taken
    simp only [Server.onAccept, accepted, calloc]
  · exact fun _ _ _ => joined_of_enable valid fresh

/-- The second client joins behind the first. -/
theorem accept_joins_second : ∃ s s', Run Server.Step (.main listening)
    [.accept 0 (acceptNth 0)] s ∧ s.onAccept (acceptNth 1) = .ok s' ∧
      Joined (acceptNth 1) s s' 6 2 2 := by
  have run : ∃ s, Run Server.Step (.main listening) [.accept 0 (acceptNth 0)] s ∧
      (acceptNth 1).Fresh s := by
    exact ⟨_, .single (.accept rfl rfl (acceptNth_fresh rfl rfl rfl) rfl),
      acceptNth_fresh rfl rfl rfl⟩
  obtain ⟨s, run, fresh⟩ := run
  obtain ⟨s', ran, joined⟩ := (accept_joins run fresh).2.2 6 2 2 rfl rfl rfl rfl
  exact ⟨s, s', run, ran, joined⟩

/-- The outcome in which only `fcntl(fd, F_SETFL, …)` fails. -/
def staysBlocking : AcceptOutcome := { acceptNth 0 with setfl := false }

/-- A client whose descriptor stays blocking is registered all the same. -/
theorem all_or_nothing_fails : ¬ ∀ (own : Fd → Option Bool) (events : List Event) (s : Server),
    Run Server.Step (.main own) events s → ∀ o : AcceptOutcome, o.Fresh s → AllOrNothing o s := by
  intro always
  have fresh : staysBlocking.Fresh (.main listening) := by
    obtain ⟨accept, calloc, socketNew⟩ := @acceptNth_fresh 0 (.main listening) rfl rfl rfl
    exact ⟨accept, calloc, socketNew⟩
  have outcome := always listening [] (.main listening) .nil staysBlocking fresh
  have smooth := smooth_of_allOrNothing (Server.main_valid listening) fresh rfl outcome
  have setfl := (smooth rfl).2.1
  contradiction

end MerlinC.Soundness
