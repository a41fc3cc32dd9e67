import Mathlib.Data.List.Range
import Mathlib.Tactic.Linarith
import MerlinC.Math.Ledger
import MerlinC.Math.Runs
import MerlinC.Model.FireTestClient
import MerlinC.Model.RelayPasses
import MerlinC.Soundness.ServerRegistry

/-! # The books of the load test

Six kinds of buffer lie between a session's `readcb` and itself: its output, the way to the
server, the server's input and output for it, the way back, and its input. Every transfer moves
bytes from one to the next, a relay of `n` bytes takes them from one input and adds them to the
output of every other session, and `readcb` counts what it moves. The two balances below follow
for every run, and so does what each single step does to the load.
-/

namespace MerlinC.Soundness

open Math Model

/-- How many bytes a relay takes. -/
def taken : Move → ℕ
  | .relay _ taken => taken
  | _ => 0

/-- How many bytes `buffered_on_read` has taken from clients. -/
def relayed (moves : List Move) : ℕ := (moves.map taken).sum

/-- The bytes a session has in its buffers and on the way. -/
def held (x : Session) : ℕ :=
  x.output.bytes.length + x.toServer.length + x.fromServer.length + x.input.bytes.length

/-- The bytes that have left the server for a session and were not yet counted. -/
def coming (x : Session) : ℕ := x.fromServer.length + x.input.bytes.length

/-- A queued client's bufferevent, as byte streams. -/
def clientView (s : Server) (client : Addr) : Option View := do
  let c ← s.registry.payload? client
  let bev ← c.bufEv
  s.view bev

/-- The bytes that the server has in its buffers for a session. -/
def heldAt (v : View) : ℕ := v.input.length + v.output.length

/-- The bytes that the server is still to write to a session. -/
def leaving (v : View) : ℕ := v.output.length

/-- All bytes in flight, where `clients` are the nodes in `client_tailq_head`. -/
def load (w : LoadTest) (clients : List Addr) : ℕ :=
  total (fun conn => held (w.session conn)) (List.range w.sessionCount) +
    total (fun client => (clientView w.server client).elim 0 heldAt) clients

/-- All bytes between `buffered_on_read` and a `readcb`. -/
def pending (w : LoadTest) (clients : List Addr) : ℕ :=
  total (fun conn => coming (w.session conn)) (List.range w.sessionCount) +
    total (fun client => (clientView w.server client).elim 0 leaving) clients

/-- Bytes weighed by where they are, over the registrations of the server. -/
def weigh (session : Session → ℕ) (view : View → ℕ) (w : LoadTest) (regs : List Registration) :
    ℕ :=
  total (fun conn => session (w.session conn)) (List.range w.sessionCount) +
    total (fun r => (w.server.view r.bev).elim 0 view) regs

/-- The registrations are those of the sessions that the server has accepted. -/
structure Settled (w : LoadTest) (regs : List Registration) : Prop where
  valid : w.server.Valid regs
  conns : regs.map (·.conn) = List.range w.server.accepted
  bound : w.server.accepted ≤ w.sessionCount

theorem clients_total {s : Server} {regs : List Registration} (valid : s.Valid regs)
    (view : View → ℕ) : total (fun client => (clientView s client).elim 0 view)
      (regs.map (·.node)) = total (fun r => (s.view r.bev).elim 0 view) regs := by
  rw [total, List.map_map, total]
  congr 1
  refine List.map_congr_left fun r member => ?_
  simp [clientView, valid.client r member]

section Weigh

variable (session : Session → ℕ) (view : View → ℕ) {w : LoadTest} {regs : List Registration}

/-- A change of one session changes its weight. -/
theorem weigh_session (regs : List Registration) {conn : Conn} (opened : conn < w.sessionCount)
    (x : Session) :
    weigh session view (w.setSession conn x) regs + session (w.session conn) =
      weigh session view w regs + session x := by
  have changed := total_update (fun c => session (w.session c))
    (fun c => session ((w.setSession conn x).session c)) List.nodup_range
    (List.mem_range.mpr opened) (fun other _ different => by
      simp [LoadTest.setSession, Function.update_of_ne different])
  simp only [LoadTest.setSession, Function.update_self] at changed
  simp only [weigh, LoadTest.setSession]
  omega

/-- A change of one bufferevent changes its weight. -/
theorem weigh_view (valid : w.server.Valid regs) {r : Registration} (member : r ∈ regs)
    {v v' : View} (seen : w.server.view r.bev = some v) {s' : Server}
    (views : s'.view = Function.update w.server.view r.bev (some v')) :
    weigh session view { w with server := s' } regs + view v =
      weigh session view w regs + view v' := by
  have changed := total_update (fun q => (w.server.view q.bev).elim 0 view)
    (fun q => (s'.view q.bev).elim 0 view) valid.regs_nodup member
    (fun other inside different => by
      have apart : other.bev ≠ r.bev := fun same => different (valid.eq_of_bev inside member same)
      rw [views, Function.update_of_ne apart])
  simp only [views, Function.update_self, seen, Option.elim_some] at changed
  simp only [weigh, views]
  omega

/-- A relay changes the weight of the sender, and gives the same share to all others. -/
theorem weigh_relay (share : ℕ) (valid : w.server.Valid regs) {r : Registration} (member : r ∈ regs)
    {v v' : View} (seen : w.server.view r.bev = some v) {s' : Server}
    (own : s'.view r.bev = some v')
    (others : ∀ other ∈ regs, other ≠ r → (s'.view other.bev).elim 0 view =
      (w.server.view other.bev).elim 0 view + share) :
    weigh session view { w with server := s' } regs + view v + share =
      weigh session view w regs + view v' + regs.length * share := by
  have changed := total_change (fun q => (w.server.view q.bev).elim 0 view)
    (fun q => (s'.view q.bev).elim 0 view) share valid.regs_nodup member others
  simp only [own, seen, Option.elim_some] at changed
  simp only [weigh]
  omega

/-- A new client with empty buffers weighs nothing. -/
theorem weigh_accept (valid : w.server.Valid regs) {r : Registration} {s' : Server} {v : View}
    (unused : w.server.view r.bev = none)
    (views : s'.view = Function.update w.server.view r.bev (some v)) (empty : view v = 0) :
    weigh session view { w with server := s' } (regs ++ [r]) = weigh session view w regs := by
  have old : total (fun q => (s'.view q.bev).elim 0 view) regs =
      total (fun q => (w.server.view q.bev).elim 0 view) regs := by
    refine total_congr fun other inside => ?_
    obtain ⟨u, live, _⟩ := valid.live inside
    have apart : other.bev ≠ r.bev := by
      intro same
      rw [same, unused] at live
      contradiction
    rw [views, Function.update_of_ne apart]
  have new : (s'.view r.bev).elim 0 view = 0 := by
    rw [views, Function.update_self]
    exact empty
  simp only [weigh, total_append, old, total_cons, new, total_nil]
  omega

end Weigh

/-- What a step does to the two balances: nothing, but for a relay. -/
structure Balanced (w : LoadTest) (regs : List Registration) (move : Move) (w' : LoadTest)
    (regs' : List Registration) : Prop where
  settled : Settled w' regs'
  sessions : w'.sessionCount = w.sessionCount
  load : weigh held heldAt w' regs' + 2 * taken move =
    weigh held heldAt w regs + w.sessionCount * taken move
  counted : w'.totalBytesRead + weigh coming leaving w' regs' + taken move =
    w.totalBytesRead + weigh coming leaving w regs + w.sessionCount * taken move

private theorem balanced_accept {w : LoadTest} {regs : List Registration} {s' : Server}
    {o : AcceptOutcome} {fd : Fd} (settled : Settled w regs) (taken : o.accept = some fd)
    (opened : w.server.accepted < w.sessionCount) (fresh : o.Fresh w.server)
    (allocates : o.Allocates) (ran : w.server.onAccept o = .ok s') :
    ∃ regs', Balanced w regs (.accept w.server.accepted o) { w with server := s' } regs' := by
  obtain ⟨s'', client, bev, ran', valid', count, unused, views⟩ :=
    settled.valid.onAccept fresh taken allocates
  obtain rfl := Except.ok.inj (ran'.symm.trans ran)
  refine ⟨_, ⟨valid', ?_, ?_⟩, rfl, ?_, ?_⟩
  · rw [List.map_append, settled.conns, count, List.range_succ]
    rfl
  · rw [count]
    exact opened
  · rw [weigh_accept held heldAt settled.valid unused views rfl]
    rfl
  · rw [weigh_accept coming leaving settled.valid unused views rfl]
    rfl

private theorem settled_setSession {w : LoadTest} {regs : List Registration}
    (settled : Settled w regs) (conn : Conn) (x : Session) :
    Settled (w.setSession conn x) regs := ⟨settled.valid, settled.conns, settled.bound⟩

private theorem settled_server {w : LoadTest} {regs : List Registration} {s' : Server}
    (settled : Settled w regs) (same : Server.SameControl w.server s') :
    Settled { w with server := s' } regs where
  valid := settled.valid.of_sameControl same
  conns := by rw [same.accepted]; exact settled.conns
  bound := by rw [same.accepted]; exact settled.bound

private theorem opened_of_live {w : LoadTest} {regs : List Registration} {bev : BevPtr}
    {ev : Bufferevent} (settled : Settled w regs) (live : w.server.bufferevent bev = some ev) :
    ev.control.conn < w.sessionCount := by
  obtain ⟨r, member, _, _, conn, _⟩ := settled.valid.of_live live
  rw [conn]
  exact Nat.lt_of_lt_of_le (settled.valid.counted r member) settled.bound

private theorem balanced_receive {w : LoadTest} {regs : List Registration} {bev : BevPtr}
    {ev : Bufferevent} {data rest : Bytes} (settled : Settled w regs)
    (live : w.server.bufferevent bev = some ev)
    (way : (w.session ev.control.conn).toServer = data ++ rest) :
    ∃ regs', Balanced w regs (.receive ev.control.conn data)
      { w.setSession ev.control.conn { w.session ev.control.conn with toServer := rest } with
        server := w.server.receive bev data } regs' := by
  have opened := opened_of_live settled live
  obtain ⟨r, member, rfl, _⟩ := settled.valid.of_live live
  have seen := Server.view_of_live live
  obtain ⟨same, views⟩ := Server.receive_eq seen data
  have left (session : Session → ℕ) (view : View → ℕ) :=
    weigh_session session view regs opened
      { w.session ev.control.conn with toServer := rest }
  have came (session : Session → ℕ) (view : View → ℕ) :=
    weigh_view session view (settled_setSession settled ev.control.conn
      { w.session ev.control.conn with toServer := rest }).valid member seen views
  refine ⟨regs, settled_server (settled_setSession settled _ _) same, rfl, ?_, ?_⟩
  · have := left held heldAt
    have := came held heldAt
    simp only [held, heldAt, way, View.receive, List.length_append, taken] at *
    omega
  · have := left coming leaving
    have := came coming leaving
    simp only [coming, leaving, View.receive, taken, LoadTest.setSession] at *
    omega

private theorem balanced_flush {w : LoadTest} {regs : List Registration} {bev : BevPtr}
    {ev : Bufferevent} {count : ℕ} (settled : Settled w regs)
    (live : w.server.bufferevent bev = some ev) :
    ∃ regs', Balanced w regs (.flush ev.control.conn count)
      { w.setSession ev.control.conn { w.session ev.control.conn with
          fromServer := (w.session ev.control.conn).fromServer ++ ev.output.bytes.take count } with
        server := w.server.flush bev count } regs' := by
  have opened := opened_of_live settled live
  obtain ⟨r, member, rfl, _⟩ := settled.valid.of_live live
  have seen := Server.view_of_live live
  obtain ⟨same, views⟩ := Server.flush_eq seen count
  let x : Session := { w.session ev.control.conn with
    fromServer := (w.session ev.control.conn).fromServer ++ ev.output.bytes.take count }
  have left (session : Session → ℕ) (view : View → ℕ) :=
    weigh_session session view regs opened x
  have came (session : Session → ℕ) (view : View → ℕ) :=
    weigh_view session view (settled_setSession settled ev.control.conn x).valid member seen views
  refine ⟨regs, settled_server (settled_setSession settled _ _) same, rfl, ?_, ?_⟩
  · have := left held heldAt
    have := came held heldAt
    simp only [x, held, heldAt, View.flush, Bufferevent.view, List.length_append, List.length_take,
      List.length_drop, taken] at *
    omega
  · have := left coming leaving
    have := came coming leaving
    simp only [x, coming, leaving, View.flush, Bufferevent.view, List.length_append,
      List.length_take, List.length_drop, taken, LoadTest.setSession] at *
    omega

private theorem balanced_relay {w : LoadTest} {regs : List Registration} {bev : BevPtr}
    {ev : Bufferevent} {s' : Server} (settled : Settled w regs)
    (live : w.server.bufferevent bev = some ev)
    (all : w.server.accepted = w.sessionCount)
    (ran : w.server.callback ev (fun arg s => s.bufferedOnRead bev arg) = .ok s') :
    ∃ regs', Balanced w regs (.relay ev.control.conn
      (LoadTest.inputLength w.server bev - LoadTest.inputLength s' bev))
      { w with server := s' } regs' := by
  obtain ⟨r, member, rfl, arg, _⟩ := settled.valid.of_live live
  have seen := Server.view_of_live live
  obtain ⟨s'', ran', same, views⟩ := settled.valid.bufferedOnRead member seen
  simp only [Server.callback, arg] at ran
  obtain rfl := Except.ok.inj (ran'.symm.trans ran)
  have own : s''.view r.bev = some { ev.view with input := [] } := by
    rw [views, seen, Option.map_some,
      View.relayed_self ((settled.valid.cbarg_iff member seen).mpr rfl)]
  have others (other : Registration) (inside : other ∈ regs) (different : other ≠ r) :
      ∃ v, w.server.view other.bev = some v ∧
        s''.view other.bev = some (v.append ev.view.input) := by
    obtain ⟨v, seen', _⟩ := settled.valid.live inside
    refine ⟨v, seen', ?_⟩
    rw [views, seen', Option.map_some, View.relayed_other]
    intro sender
    have here := (settled.valid.cbarg_iff member seen').mp sender
    exact different (settled.valid.eq_of_bev inside member here)
  have length : regs.length = w.sessionCount := by
    rw [← all, ← List.length_map (·.conn), settled.conns, List.length_range]
  have count : LoadTest.inputLength w.server r.bev - LoadTest.inputLength s'' r.bev =
      ev.view.input.length := by
    obtain ⟨ev', live', view'⟩ := Server.view_eq_some own
    have empty : ev'.input.bytes = [] := congrArg View.input view'
    simp [LoadTest.inputLength, live, live', empty, Bufferevent.view]
  refine ⟨regs, settled_server settled same, rfl, ?_, ?_⟩
  · have := weigh_relay held heldAt ev.view.input.length settled.valid member seen own
      (fun other inside different => by
        obtain ⟨v, before, after⟩ := others other inside different
        simp only [before, after, Option.elim_some, heldAt, View.append, List.length_append]
        omega)
    simp only [heldAt, List.length_nil, length] at this
    simp only [taken, count]
    omega
  · have := weigh_relay coming leaving ev.view.input.length settled.valid member seen own
      (fun other inside different => by
        obtain ⟨v, before, after⟩ := others other inside different
        simp only [before, after, Option.elim_some, leaving, View.append, List.length_append])
    simp only [leaving, length] at this
    simp only [taken, count]
    omega

private theorem balanced_readcb {w : LoadTest} {regs : List Registration} {conn : Conn}
    (settled : Settled w regs) (opened : conn < w.sessionCount) :
    ∃ regs', Balanced w regs (.readcb conn) (w.readcb conn) regs' := by
  obtain ⟨joined, left⟩ := Output.addBuffer_bytes (w.session conn).output (w.session conn).input
  have moved (session : Session → ℕ) (view : View → ℕ) :
      weigh session view (w.readcb conn) regs + session (w.session conn) =
        weigh session view w regs + session (w.session conn).echo :=
    weigh_session session view regs opened (w.session conn).echo
  refine ⟨regs, ⟨settled.valid, settled.conns, settled.bound⟩, rfl, ?_, ?_⟩
  · have := moved held heldAt
    simp only [held, Session.echo, joined, left, List.length_append, List.length_nil] at this
    simp only [taken]
    omega
  · have := moved coming leaving
    simp only [coming, Session.echo, left, List.length_nil] at this
    have counted : (w.readcb conn).totalBytesRead =
        w.totalBytesRead + (w.session conn).input.bytes.length := by
      simp only [LoadTest.readcb, EvBuffer.getLength_eq]
    simp only [taken]
    omega

/-- Every step keeps the books. -/
theorem balanced_step {w w' : LoadTest} {regs : List Registration} {move : Move}
    (settled : Settled w regs) (step : LoadTest.Step w move w') :
    ∃ regs', Balanced w regs move w' regs' := by
  cases step with
  | accept taken next opened fresh allocates ran =>
    subst next
    exact balanced_accept settled taken opened fresh allocates ran
  | @send _ conn count opened part =>
    refine ⟨regs, settled_setSession settled _ _, rfl, ?_, ?_⟩
    · have := weigh_session held heldAt regs opened ((w.session conn).flush count)
      simp only [held, Session.flush, Output.flush_bytes, List.length_append, List.length_drop,
        List.length_take, taken] at *
      omega
    · have := weigh_session coming leaving regs opened ((w.session conn).flush count)
      simp only [coming, Session.flush, taken, LoadTest.setSession] at *
      omega
  | receive bev live named reading way =>
    subst named
    exact balanced_receive settled live way
  | relay bev live named all ran took =>
    subst named took
    exact balanced_relay settled live all ran
  | flush bev live named part =>
    subst named
    exact balanced_flush settled live
  | @arrive _ conn data rest opened way =>
    refine ⟨regs, settled_setSession settled _ _, rfl, ?_, ?_⟩
    · have := weigh_session held heldAt regs opened ((w.session conn).arrive data rest)
      simp only [held, Session.arrive, Input.receive_bytes, way, List.length_append, taken] at *
      omega
    · have := weigh_session coming leaving regs opened
        ((w.session conn).arrive data rest)
      simp only [coming, Session.arrive, Input.receive_bytes, way, List.length_append, taken,
        LoadTest.setSession] at *
      omega
  | readcb opened _ _ => exact balanced_readcb settled opened

/-- The balances hold after every run. -/
theorem balanced_run {own : Fd → Option Bool} {sessionCount blockSize : ℕ} {moves : List Move}
    {w : LoadTest} (run : Run LoadTest.Step (.main own sessionCount blockSize) moves w) :
    ∃ regs, Settled w regs ∧ w.sessionCount = sessionCount ∧
      weigh held heldAt w regs + 2 * relayed moves =
        sessionCount * blockSize + sessionCount * relayed moves ∧
      w.totalBytesRead + weigh coming leaving w regs + relayed moves =
        sessionCount * relayed moves := by
  refine run.invariant (fun moves w => ∃ regs, Settled w regs ∧ w.sessionCount = sessionCount ∧
    weigh held heldAt w regs + 2 * relayed moves =
      sessionCount * blockSize + sessionCount * relayed moves ∧
    w.totalBytesRead + weigh coming leaving w regs + relayed moves =
      sessionCount * relayed moves) ?_ ?_
  · refine ⟨[], ⟨Server.main_valid own, rfl, Nat.zero_le _⟩, rfl, ?_, ?_⟩
    · have each (conn : Conn) :
          held ((LoadTest.main own sessionCount blockSize).session conn) = blockSize := by
        simp [held, LoadTest.main, Session.connect, Session.message]
      have start := total_const (List.range sessionCount) fun conn _ => each conn
      rw [List.length_range] at start
      simpa [weigh, relayed, LoadTest.main] using start
    · have each (conn : Conn) :
          coming ((LoadTest.main own sessionCount blockSize).session conn) = 0 := rfl
      have start := total_const (List.range sessionCount) fun conn _ => each conn
      simpa [weigh, relayed, LoadTest.main] using start
  · rintro past w move w' _ ⟨regs, settled, sessions, load, counted⟩ step
    obtain ⟨regs', settled', sessions', load', counted'⟩ := balanced_step settled step
    have more : relayed (past ++ [move]) = relayed past + taken move := by simp [relayed]
    refine ⟨regs', settled', sessions'.trans sessions, ?_, ?_⟩
    · rw [more, Nat.mul_add, Nat.mul_add]
      rw [sessions] at load'
      omega
    · rw [more, Nat.mul_add]
      rw [sessions] at counted'
      omega

/-- Over the registrations, the balances are those of the statement. -/
theorem Settled.load_eq {w : LoadTest} {regs : List Registration} (settled : Settled w regs) :
    load w (regs.map (·.node)) = weigh held heldAt w regs ∧
      pending w (regs.map (·.node)) = weigh coming leaving w regs := by
  simp only [load, pending, weigh, clients_total settled.valid, and_self]

/-- In every reachable state of the load test with `k` sessions and blocks of `B` bytes, if `R`
bytes were relayed, the bytes in flight number `k * B + (k - 2) * R`, and those counted together
with those still on their way from the server to a `readcb` number `(k - 1) * R`. Every step
changes the load by `(k - 2) * n`, where `n` is what it relays: nothing at all for two sessions,
and never less than nothing for more. -/
theorem load_accounted {own : Fd → Option Bool} {k B : ℕ} {moves : List Move} {w : LoadTest}
    (run : Run LoadTest.Step (.main own k B) moves w) :
    ∃ clients, w.server.registry.Represents clients ∧
      (load w clients : ℤ) = k * B + ((k : ℤ) - 2) * relayed moves ∧
      (w.totalBytesRead + pending w clients : ℤ) = ((k : ℤ) - 1) * relayed moves ∧
      ∀ move w', LoadTest.Step w move w' →
        ∃ clients', w'.server.registry.Represents clients' ∧
          (load w' clients' : ℤ) = load w clients + ((k : ℤ) - 2) * taken move ∧
          (k = 2 → load w' clients' = load w clients) ∧
          (3 ≤ k → load w clients ≤ load w' clients') := by
  obtain ⟨regs, settled, sessions, load_, counted⟩ := balanced_run run
  obtain ⟨loads, pendings⟩ := settled.load_eq
  refine ⟨regs.map (·.node), settled.valid.links, ?_, ?_, fun move w' step => ?_⟩
  · rw [loads]
    have : (weigh held heldAt w regs : ℤ) + 2 * relayed moves =
        k * B + k * relayed moves := mod_cast load_
    linarith
  · rw [pendings]
    have : (w.totalBytesRead : ℤ) + weigh coming leaving w regs + relayed moves =
        k * relayed moves := mod_cast counted
    linarith
  · obtain ⟨regs', settled', _, load', _⟩ := balanced_step settled step
    obtain ⟨loads', _⟩ := settled'.load_eq
    rw [sessions] at load'
    refine ⟨regs'.map (·.node), settled'.valid.links, ?_, ?_, ?_⟩
    · rw [loads, loads']
      have : (weigh held heldAt w' regs' : ℤ) + 2 * taken move =
          weigh held heldAt w regs + k * taken move := mod_cast load'
      linarith
    · rintro rfl
      omega
    · intro three
      have := Nat.mul_le_mul_right (taken move) three
      omega

/-- One block of two bytes goes from the first session of three to the second, which counts it. -/
def oneBlock : List Move :=
  [.accept 0 (acceptNth 0), .accept 1 (acceptNth 1), .accept 2 (acceptNth 2), .send 0 2,
    .receive 0 [0, 1], .relay 0 2, .flush 1 2, .arrive 1 [0, 1], .readcb 1]

/-- The relay of that block adds its length to the load of three sessions. -/
theorem load_accounted_block : ∃ w clients,
    Run LoadTest.Step (.main listening 3 2) oneBlock w ∧
      w.server.registry.Represents clients ∧ (load w clients : ℤ) = 8 ∧
      (w.totalBytesRead + pending w clients : ℤ) = 4 := by
  have run : ∃ w, Run LoadTest.Step (.main listening 3 2) oneBlock w := by
    exact ⟨_, .cons (.accept rfl rfl (by decide) (acceptNth_fresh rfl rfl rfl) ⟨rfl, rfl⟩ rfl)
      (.cons (.accept rfl rfl (by decide) (acceptNth_fresh rfl rfl rfl) ⟨rfl, rfl⟩ rfl)
      (.cons (.accept rfl rfl (by decide) (acceptNth_fresh rfl rfl rfl) ⟨rfl, rfl⟩ rfl)
      (.cons (.send (by decide) (by decide))
      (.cons (.receive 1 rfl rfl rfl (show _ = [0, 1] ++ [] from rfl))
      (.cons (.relay 1 rfl rfl rfl rfl rfl)
      (.cons (.flush 2 rfl rfl (by decide))
      (.cons (.arrive (by decide) (show _ = [0, 1] ++ [] from rfl))
      (.single (.readcb (by decide) (by decide) (by decide))))))))))⟩
  obtain ⟨w, run⟩ := run
  obtain ⟨clients, links, inFlight, counted, _⟩ := load_accounted run
  exact ⟨w, clients, run, links, inFlight.trans (by decide), counted.trans (by decide)⟩

end MerlinC.Soundness
