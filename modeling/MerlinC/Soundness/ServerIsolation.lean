import MerlinC.Model.ServerProcess
import MerlinC.Soundness.ServerBroadcast

/-! # Where a failing client stays alone

A client that closes, resets or is found dead takes no other client with it, whether the server
learns of it by reading or by a write that fails. The exception is the write to a connection that
its peer closed and then reset: it raises SIGPIPE, which ends the process. A step is harmless
exactly if it is not such a write.
-/

namespace MerlinC.Soundness

open Math Model

/-- The client whose failure a step is: it closes or resets its connection, or the server finds
the connection dead. -/
def failure (p : Process) : Action → Option Conn
  | .close conn => some conn
  | .reset conn => some conn
  | .fail conn _ => some conn
  | .write conn _ => if (p.peer conn).reset then some conn else none
  | _ => none

/-- Every queued client on another connection stays queued, with its output as it was. -/
def OthersKept (s : Server) (conn : Conn) (s' : Server) : Prop :=
  ∀ clients, s.registry.Represents clients →
    ∃ clients', s'.registry.Represents clients' ∧ clients'.Sublist clients ∧
      ∀ client ∈ clients, ∀ ev, Queued s client ev → ev.control.conn ≠ conn →
        client ∈ clients' ∧ ∃ ev', Queued s' client ev' ∧ ev'.control = ev.control ∧
          ev'.output.bytes = ev.output.bytes ∧ ev'.flushed = ev.flushed

/-- The process runs on, and a failing client changes nothing but itself. -/
structure Isolated (p : Process) (action : Action) (p' : Process) : Prop where
  running : p'.ended = none
  others : ∀ conn, failure p action = some conn → OthersKept p.server conn p'.server

/-- The step writes waiting output to a connection that its peer has closed and then reset. -/
def WritesToReset (p : Process) (action : Action) : Prop :=
  ∃ conn count bev ev, action = .write conn count ∧ p.server.bufferevent bev = some ev ∧
    ev.control.conn = conn ∧ (p.peer conn).closed = true ∧ (p.peer conn).reset = true ∧
      ev.output.bytes ≠ []

theorem othersKept_refl (s : Server) (conn : Conn) : OthersKept s conn s :=
  fun clients links => ⟨clients, links, .refl _, fun _ member ev queued _ =>
    ⟨member, ev, queued, rfl, rfl, rfl⟩⟩

/-- Disconnecting a client leaves all others queued with the output they had. -/
theorem othersKept_error {s s' : Server} {regs : List Registration} (valid : s.Valid regs)
    {bev : BevPtr} {ev : Bufferevent} {what : What} (live : s.bufferevent bev = some ev)
    (ran : s.callback ev (fun arg s => s.bufferedOnError bev what arg) = .ok s') :
    OthersKept s ev.control.conn s' := by
  obtain ⟨r, member, rfl, arg, conn, _⟩ := valid.of_live live
  obtain ⟨before, after, rfl⟩ := List.append_of_mem member
  obtain ⟨s'', ran', valid', _, views, _⟩ := valid.bufferedOnError r.bev what
  simp only [Server.callback, arg] at ran
  obtain rfl := Except.ok.inj (ran.symm.trans ran')
  intro clients links
  obtain rfl := links.unique valid.links
  refine ⟨_, valid'.links, ?_, ?_⟩
  · exact ((List.Sublist.refl before).append (List.sublist_cons_self r after)).map _
  · rintro client inside w ⟨⟨c, b, found, same, live'⟩⟩ apart
    obtain ⟨q, member', rfl⟩ := List.mem_map.mp inside
    have known := valid.client q member'
    obtain rfl : c = ⟨q.fd, some q.bev⟩ := Option.some.inj (found.symm.trans known)
    obtain rfl : q.bev = b := Option.some.inj same
    have other : q ≠ r := by
      rintro rfl
      obtain rfl := Option.some.inj (live'.symm.trans live)
      exact apart rfl
    have kept : q ∈ before ++ after := by
      simp only [List.mem_append, List.mem_cons] at member' ⊢
      tauto
    have elsewhere : q.bev ≠ r.bev := fun eq => other (valid.eq_of_bev member' member eq)
    have seen : s'.view q.bev = some w.view := by
      rw [views, Function.update_of_ne elsewhere]
      simp [Server.view, live']
    obtain ⟨w', live'', view'⟩ := Server.view_eq_some seen
    refine ⟨List.mem_map_of_mem kept, w', ⟨_, q.bev, valid'.client q kept, rfl, live''⟩, ?_⟩
    exact ⟨congrArg View.control view', congrArg View.output view', congrArg View.flushed view'⟩

/-- Going on with a callback's result is at most one step of the server. -/
private theorem server_resume (p : Process) {s : Server} {event : Event}
    {result : Except Stop Server} (same : p.server = s)
    (ok : ∀ s', result = .ok s' → Server.Step s event s') :
    ∃ events, Run Server.Step s events (p.resume result).server := by
  cases result with
  | error why => exact ⟨[], same ▸ .nil⟩
  | ok s' => exact ⟨[event], .single (ok s' rfl)⟩

/-- Each step of the process is at most one step of the server. -/
theorem server_step {p p' : Process} {action : Action} (step : p.Step action p') :
    ∃ events, Run Server.Step p.server events p'.server := by
  cases step with
  | accept _ taken next fresh _ =>
    exact server_resume _ rfl fun s' ran => .accept taken next fresh ran
  | acceptFailed _ failed => exact server_resume _ rfl fun s' ran => .acceptFailed failed ran
  | send => exact ⟨[], .nil⟩
  | close => exact ⟨[], .nil⟩
  | reset => exact ⟨[], .nil⟩
  | read bev _ live named reading some_ _ =>
    exact server_resume _ rfl fun s' ran => .read bev live named reading some_ ran
  | fail bev _ live named _ _ =>
    exact server_resume _ rfl fun s' ran => .error bev live named ran
  | write bev _ live named part =>
    unfold Process.writeEvent
    split
    · exact ⟨[], .nil⟩
    · split
      · split
        · exact ⟨[], .nil⟩
        · exact server_resume _ rfl fun s' ran => .error bev live named ran
      · exact ⟨_, .single (.flush bev live named part)⟩

@[simp] private theorem resume_onSigpipe (p : Process) (result : Except Stop Server) :
    (p.resume result).onSigpipe = p.onSigpipe := by
  cases result <;> rfl

/-- No step changes the disposition of SIGPIPE. -/
theorem onSigpipe_step {p p' : Process} {action : Action} (step : p.Step action p') :
    p'.onSigpipe = p.onSigpipe := by
  cases step with
  | write bev _ _ _ _ =>
    unfold Process.writeEvent
    split
    · rfl
    · split
      · split
        · rfl
        · exact resume_onSigpipe _ _
      · rfl
  | send => rfl
  | close => rfl
  | reset => rfl
  | _ => exact resume_onSigpipe _ _

/-- The server inside a run of the process is reachable by itself, so its registry is valid. -/
theorem process_valid {own : Fd → Option Bool} {actions : List Action} {p : Process}
    (run : Run Process.Step (.main own) actions p) :
    (∃ regs, p.server.Valid regs) ∧ p.onSigpipe = .terminate := by
  have reachable : (∃ events, Run Server.Step (.main own) events p.server) ∧
      p.onSigpipe = .terminate := by
    refine run.invariant (fun _ p => (∃ events, Run Server.Step (.main own) events p.server) ∧
      p.onSigpipe = .terminate) ⟨⟨[], .nil⟩, rfl⟩ ?_
    rintro _ p action p' _ ⟨⟨events, reached⟩, signal⟩ step
    obtain ⟨more, advanced⟩ := server_step step
    exact ⟨⟨events ++ more, reached.append advanced⟩, (onSigpipe_step step).trans signal⟩
  obtain ⟨⟨events, reached⟩, signal⟩ := reachable
  obtain ⟨regs, valid, _⟩ := Server.run_regs reached
  exact ⟨⟨regs, valid⟩, signal⟩

/-- A callback that is made while the registry is valid returns, so the process runs on. -/
private theorem resume_running {p : Process} {result : Except Stop Server}
    (running : p.ended = none) (returns : ∃ s', result = .ok s') :
    (p.resume result).ended = none := by
  obtain ⟨s', rfl⟩ := returns
  exact running

/-- Disconnecting the one client whose failure a step is isolates it. -/
private theorem isolated_error {p : Process} {action : Action} {regs : List Registration}
    (valid : p.server.Valid regs) (running : p.ended = none) {bev : BevPtr} {ev : Bufferevent}
    (what : What) (live : p.server.bufferevent bev = some ev)
    (only : ∀ conn, failure p action = some conn → ev.control.conn = conn) :
    Isolated p action
      (p.resume (p.server.callback ev fun arg s => s.bufferedOnError bev what arg)) := by
  obtain ⟨s', ran, _⟩ := (callbacksReturn_of_valid valid).error bev ev what live
  constructor
  · exact resume_running running ⟨s', ran⟩
  · intro conn failed
    obtain rfl := only conn failed
    rw [ran]
    exact othersKept_error valid live ran

/-- A write event finds nothing to write, or meets a reset connection, which its peer closed before
or did not, or writes. -/
private theorem isolated_write_iff {p : Process} {bev : BevPtr} {ev : Bufferevent} {conn : Conn}
    {count : ℕ} {regs : List Registration} (valid : p.server.Valid regs)
    (signal : p.onSigpipe = .terminate) (running : p.ended = none)
    (live : p.server.bufferevent bev = some ev) (named : ev.control.conn = conn)
    (unique : ∀ bev' ev', p.server.bufferevent bev' = some ev' → ev'.control.conn = conn →
      ev' = ev) :
    Isolated p (.write conn count) (p.writeEvent bev ev count) ↔
      ¬ WritesToReset p (.write conn count) := by
  subst named
  have empty_iff : ev.output.getLength = 0 ↔ ev.output.bytes = [] := by
    rw [EvBuffer.getLength_eq, List.length_eq_zero_iff]
  unfold Process.writeEvent
  split
  · next nothing =>
    refine iff_of_true ⟨running, fun conn _ => othersKept_refl p.server conn⟩ ?_
    rintro ⟨_, _, bev', ev', ⟨⟩, live', same, _, _, waiting⟩
    obtain rfl := unique bev' ev' live' same
    exact waiting (empty_iff.mp nothing)
  · next waiting =>
    split
    · next dead =>
      split
      · next gone =>
        refine iff_of_false (fun isolated => Option.some_ne_none _ isolated.running) ?_
        exact not_not_intro
          ⟨_, count, bev, ev, rfl, live, rfl, gone.1, dead, mt empty_iff.mpr waiting⟩
      · next spared =>
        refine iff_of_true (isolated_error valid running .error live fun conn failed => ?_) ?_
        · simpa [failure, dead] using failed
        · rintro ⟨_, _, bev', ev', ⟨⟩, _, _, closed, _⟩
          exact spared ⟨closed, signal⟩
    · next alive =>
      refine iff_of_true ⟨running, fun conn failed => ?_⟩ ?_
      · simp [failure, alive] at failed
      · rintro ⟨_, _, bev', ev', ⟨⟩, _, _, _, dead, _⟩
        exact alive dead

/-- A step of a running server isolates failures unless it writes to a connection that its peer
has closed and reset. -/
theorem isolated_step_iff {p p' : Process} {action : Action} {regs : List Registration}
    (valid : p.server.Valid regs) (signal : p.onSigpipe = .terminate)
    (step : p.Step action p') : Isolated p action p' ↔ ¬ WritesToReset p action := by
  have returns := callbacksReturn_of_valid valid
  cases step with
  | accept running taken next fresh allocates =>
    refine iff_of_true ⟨?_, fun _ failed => by cases failed⟩ (by rintro ⟨_, _, _, _, ⟨⟩, _⟩)
    exact resume_running running (returns.accept _ fresh fun _ => allocates)
  | acceptFailed running failed =>
    refine iff_of_true ⟨?_, fun _ failed => by cases failed⟩ (by rintro ⟨_, _, _, _, ⟨⟩, _⟩)
    exact resume_running running ⟨p.server, by simp only [Server.onAccept, failed]⟩
  | send running _ _ =>
    refine iff_of_true ⟨running, ?_⟩ (by rintro ⟨_, _, _, _, ⟨⟩, _⟩)
    exact fun _ failed => by cases failed
  | close running =>
    refine iff_of_true ⟨running, ?_⟩ (by rintro ⟨_, _, _, _, ⟨⟩, _⟩)
    exact fun conn _ => othersKept_refl p.server conn
  | reset running =>
    refine iff_of_true ⟨running, ?_⟩ (by rintro ⟨_, _, _, _, ⟨⟩, _⟩)
    exact fun conn _ => othersKept_refl p.server conn
  | read bev running live named reading some_ arrived =>
    refine iff_of_true ⟨?_, fun _ failed => by cases failed⟩ (by rintro ⟨_, _, _, _, ⟨⟩, _⟩)
    exact resume_running running (returns.read _ _ _ live)
  | fail bev running live named reading noticed =>
    refine iff_of_true ?_ (by rintro ⟨_, _, _, _, ⟨⟩, _⟩)
    apply isolated_error valid running _ live
    rintro conn ⟨⟩
    exact named
  | write bev running live named part =>
    apply isolated_write_iff valid signal running live named
    intro bev' ev' live' named'
    obtain ⟨r, member, rfl, _, conn, _⟩ := valid.of_live live
    obtain ⟨r', member', rfl, _, conn', _⟩ := valid.of_live live'
    obtain rfl := valid.eq_of_conn member' member (by rw [← conn', ← conn, named, named'])
    exact Option.some.inj (live'.symm.trans live)

/-- The failures in a run stay with the clients that fail if and only if no step of the run
writes waiting output to a connection that its peer has closed and then reset. -/
theorem isolated_iff {own : Fd → Option Bool} {actions : List Action} {p : Process} :
    Run (fun p action p' => p.Step action p' ∧ Isolated p action p')
        (.main own) actions p ↔
      Run (fun p action p' => p.Step action p' ∧ ¬ WritesToReset p action)
        (.main own) actions p := by
  refine Run.guarded_iff fun past middle action target earlier taken => ?_
  obtain ⟨⟨regs, valid⟩, signal⟩ := process_valid earlier
  exact isolated_step_iff valid signal taken

/-- The first client closes and then resets its connection, the second one's message is relayed to
it, and the write event for it comes before the read event: the server is gone. -/
theorem isolated_fails : ¬ ∀ (actions : List Action) (action : Action) (p p' : Process),
    Run Process.Step (.main listening) actions p → p.Step action p' → Isolated p action p' := by
  intro isolated
  have run : ∃ p, Run Process.Step (.main listening)
      [.accept 0 (acceptNth 0) ⟨[], false, false⟩, .accept 1 (acceptNth 1) ⟨[], false, false⟩,
        .close 0, .reset 0, .send 1 [104, 105, 10], .read 1 [104, 105, 10]] p ∧
      ∃ p', p.Step (.write 0 3) p' ∧ p'.ended = some .sigpipe := by
    exact ⟨_, .cons (.accept rfl rfl rfl (acceptNth_fresh rfl rfl rfl) ⟨rfl, rfl⟩)
      (.cons (.accept rfl rfl rfl (acceptNth_fresh rfl rfl rfl) ⟨rfl, rfl⟩)
      (.cons (.close rfl)
      (.cons (.reset rfl)
      (.cons (.send rfl rfl rfl)
      (.single (.read 2 rfl rfl rfl rfl (List.cons_ne_nil _ _) rfl)))))),
      _, .write 1 rfl rfl rfl (by decide), rfl⟩
  obtain ⟨p, run, p', step, gone⟩ := run
  have running := (isolated _ _ _ _ run step).running
  rw [gone] at running
  contradiction

end MerlinC.Soundness
