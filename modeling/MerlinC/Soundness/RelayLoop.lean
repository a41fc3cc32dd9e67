import MerlinC.Math.Attempts
import MerlinC.Model.CArray
import MerlinC.Model.RelayPasses
import MerlinC.Soundness.ServerRegistry

/-! # Failing reads in the relay loop

A loop that no read fails takes at most `sizeof(data)` bytes of the input at a time, relays them,
and ends at the first empty read. A failing read looks like one of the largest size: the loop
tries to write that many bytes to every other client, and goes on. So it keeps what it promises
exactly if none of the reads it makes fails, or there is nobody else to write to and enough of
its reads succeed.
-/

namespace MerlinC.Soundness

open Math Model

/-- The reads that the loop needs for its input: one for each `sizeof(data)` bytes or part of them,
and the one that returns 0. -/
def readsNeeded (length : ℕ) : ℕ := (length + Server.dataSize - 1) / Server.dataSize + 1

/-- What a bufferevent has read from its socket and not passed on. -/
def inputOf (s : Server) (bev : BevPtr) : Bytes := ((s.view bev).map (·.input)).getD []

theorem inputOf_eq {s : Server} {bev : BevPtr} {v : View} (seen : s.view bev = some v) :
    inputOf s bev = v.input := by
  rw [inputOf, seen, Option.map_some, Option.getD_some]

/-- The loop ends, every write has the size of what was just stored, and if no read fails the whole
input is forwarded and used up. -/
structure RelaysCleanly (fails : ℕ → Bool) (s : Server) (r : Registration) : Prop where
  ends : ∃ passes t, Run (Relay.Step fails r.bev r.node) (.start s) passes t ∧ t.ended = true
  sizes : ∀ passes t, Run (Relay.Step fails r.bev r.node) (.start s) passes t →
    ∀ p ∈ passes, ∀ size ∈ p.writes, 1 ≤ size ∧ size ≤ Server.dataSize ∧ size = p.stored.length
  forwards : ∀ passes t, Run (Relay.Step fails r.bev r.node) (.start s) passes t →
    t.ended = true → (∀ k < t.calls, fails k = false) →
      ∀ b, t.server.view b = (s.view b).map (View.relayed · r.node (inputOf s r.bev))

/-- None of the reads that are needed fails, or the sender is alone and that many succeed. -/
def ReadsSucceed (fails : ℕ → Bool) (s : Server) (regs : List Registration) (r : Registration) :
    Prop :=
  (∀ k < readsNeeded (inputOf s r.bev).length, fails k = false) ∨
    (∀ q ∈ regs, q = r) ∧
      ∃ calls, readsNeeded (inputOf s r.bev).length ≤ successes fails calls

/-- What a loop has done after some of its reads succeeded. -/
structure Progress (fails : ℕ → Bool) (s : Server) (r : Registration) (m : Relay) : Prop where
  same : Server.SameControl s m.server
  views : ∀ b, m.server.view b = (s.view b).map (View.relaying · r.node
    ((inputOf s r.bev).take (Server.dataSize * successes fails m.calls))
    ((inputOf s r.bev).drop (Server.dataSize * successes fails m.calls)))
  running : m.ended = false → successes fails m.calls < readsNeeded (inputOf s r.bev).length
  finished : m.ended = true → successes fails m.calls = readsNeeded (inputOf s r.bev).length

section Loop

variable {fails : ℕ → Bool} {s : Server} {regs : List Registration} {r : Registration}

theorem progress_start (valid : s.Valid regs) (member : r ∈ regs) :
    Progress fails s r (.start s) where
  same := .refl s
  views b := by
    obtain ⟨v, seen, _⟩ := valid.live member
    rw [Relay.start, successes_zero, Nat.mul_zero, List.take_zero, List.drop_zero,
      inputOf_eq seen]
    exact valid.view_relaying member seen b
  running _ := Nat.succ_pos _
  finished no := by contradiction

/-- The next pass progresses. It writes what it stored, unless its read fails. -/
def Progresses (fails : ℕ → Bool) (s : Server) (regs : List Registration) (r : Registration)
    (m : Relay) : Prop :=
  ∃ p s', m.server.relayPass (fails m.calls) r.bev r.node = .ok (p, s') ∧
    Progress fails s r ⟨s', m.calls + 1, p.returned = 0⟩ ∧
    (fails m.calls = true → p.writes = List.replicate (Server.others regs r.node) sizeMax) ∧
    (fails m.calls = false → ∀ size ∈ p.writes,
      1 ≤ size ∧ size ≤ Server.dataSize ∧ size = p.stored.length)

/-- A failing read uses up nothing. -/
theorem progresses_of_fails (valid : s.Valid regs) {m : Relay} (progress : Progress fails s r m)
    (running : m.ended = false) (failed : fails m.calls = true) :
    Progresses fails s regs r m := by
  have pass := (valid.of_sameControl progress.same).relayPass_fails r.bev r.node
  rw [← failed] at pass
  refine ⟨_, _, pass, ⟨progress.same, ?_, ?_, ?_⟩, fun _ => rfl, fun no => ?_⟩
  · rw [successes_succ_of_fails failed]
    exact progress.views
  · rw [successes_succ_of_fails failed]
    exact fun _ => progress.running running
  · intro no
    have zero : sizeMax = 0 := of_decide_eq_true no
    contradiction
  · rw [failed] at no
    contradiction

/-- As long as there are bytes left, a read relays the next of them. -/
theorem progresses_of_more (valid : s.Valid regs) (member : r ∈ regs) {m : Relay}
    (progress : Progress fails s r m) (succeeded : fails m.calls = false)
    (more : Server.dataSize * successes fails m.calls < (inputOf s r.bev).length) :
    Progresses fails s regs r m := by
  have width : Server.dataSize = 8192 := rfl
  obtain ⟨v, seen, sender, _⟩ := valid.live member
  have here := progress.views r.bev
  rw [seen, Option.map_some, View.relaying_self sender] at here
  have some_ : (inputOf s r.bev).drop (Server.dataSize * successes fails m.calls) ≠ [] := by
    rw [ne_eq, List.drop_eq_nil_iff]
    omega
  obtain ⟨s', ran, same, views⟩ :=
    (valid.of_sameControl progress.same).relayPass_reads member here some_
  have length : (((inputOf s r.bev).drop (Server.dataSize * successes fails m.calls)).take
      Server.dataSize).length ≠ 0 := by
    rw [List.length_take, List.length_drop]
    omega
  rw [← succeeded] at ran
  refine ⟨_, _, ran, ⟨progress.same.trans same, fun b => ?_, fun _ => ?_, fun no => ?_⟩, ?_, ?_⟩
  · rw [views, progress.views b, Option.map_map, successes_succ succeeded, Nat.mul_succ,
      List.take_add, ← List.drop_drop]
    exact congrArg (Option.map · (s.view b))
      (funext fun w => View.relaying_relaying w _ _ _ _ _)
  · rw [successes_succ succeeded, readsNeeded, width]
    rw [width] at more
    omega
  · exact absurd (of_decide_eq_true no) length
  · intro no
    rw [succeeded] at no
    contradiction
  · intro _ size written
    obtain rfl := List.eq_of_mem_replicate written
    exact ⟨Nat.pos_of_ne_zero length, List.length_take_le _ _, rfl⟩

/-- When nothing is left, a read ends the loop. -/
theorem progresses_of_done (valid : s.Valid regs) (member : r ∈ regs) {m : Relay}
    (progress : Progress fails s r m) (running : m.ended = false)
    (succeeded : fails m.calls = false)
    (done : (inputOf s r.bev).length ≤ Server.dataSize * successes fails m.calls) :
    Progresses fails s regs r m := by
  have width : Server.dataSize = 8192 := rfl
  have left := progress.running running
  obtain ⟨v, seen, sender, _⟩ := valid.live member
  have here := progress.views r.bev
  rw [seen, Option.map_some, View.relaying_self sender] at here
  have empty : (inputOf s r.bev).drop (Server.dataSize * successes fails m.calls) = [] :=
    List.drop_eq_nil_iff.mpr done
  have still : (inputOf s r.bev).length ≤ Server.dataSize * (successes fails m.calls + 1) := by
    rw [Nat.mul_succ]
    omega
  obtain ⟨s', ran, same, views⟩ := Server.relayPass_empty here empty r.node
  rw [← succeeded] at ran
  refine ⟨_, _, ran, ⟨progress.same.trans same, fun b => ?_, fun no => ?_, fun _ => ?_⟩, ?_, ?_⟩
  · rw [views, progress.views b, successes_succ succeeded, List.take_of_length_le done,
      List.take_of_length_le still, empty, List.drop_eq_nil_iff.mpr still]
  · change true = false at no
    contradiction
  · rw [readsNeeded, width] at left
    rw [successes_succ succeeded, readsNeeded, width]
    rw [width] at done
    omega
  · intro no
    rw [succeeded] at no
    contradiction
  · exact fun _ size no => absurd no List.not_mem_nil

/-- A loop that has not ended makes a pass, which progresses. -/
theorem progress_pass (valid : s.Valid regs) (member : r ∈ regs) {m : Relay}
    (progress : Progress fails s r m) (running : m.ended = false) :
    Progresses fails s regs r m := by
  cases failed : fails m.calls with
  | true => exact progresses_of_fails valid progress running failed
  | false =>
    rcases Nat.lt_or_ge (Server.dataSize * successes fails m.calls) (inputOf s r.bev).length with
      more | done
    · exact progresses_of_more valid member progress failed more
    · exact progresses_of_done valid member progress running failed done

/-- Every run progresses. -/
theorem progress_run (valid : s.Valid regs) (member : r ∈ regs) {passes : List Pass} {t : Relay}
    (run : Run (Relay.Step fails r.bev r.node) (.start s) passes t) : Progress fails s r t := by
  refine run.invariant (fun _ m => Progress fails s r m) (progress_start valid member) ?_
  intro past m p m' _ progress step
  cases step with
  | pass running ran =>
    obtain ⟨p', s', ran', progress', _⟩ := progress_pass valid member progress running
    obtain ⟨rfl, rfl⟩ := Prod.mk.inj (Except.ok.inj (ran.symm.trans ran'))
    exact progress'

/-- The loop makes as many passes as one likes, unless it ends before. -/
theorem exists_run (fails : ℕ → Bool) (valid : s.Valid regs) (member : r ∈ regs) (calls : ℕ) :
    ∃ passes t, Run (Relay.Step fails r.bev r.node) (.start s) passes t ∧ t.calls ≤ calls ∧
      (t.ended = true ∨ t.calls = calls) := by
  induction calls with
  | zero => exact ⟨[], .start s, .nil, Nat.le_refl 0, .inr rfl⟩
  | succ calls ih =>
    obtain ⟨passes, t, run, most, state⟩ := ih
    cases ended : t.ended with
    | true => exact ⟨passes, t, run, Nat.le_succ_of_le most, .inl ended⟩
    | false =>
      obtain ⟨p, s', ran, _⟩ :=
        progress_pass valid member (progress_run valid member run) ended
      have all : t.calls = calls := state.resolve_left (by rw [ended]; exact Bool.false_ne_true)
      exact ⟨passes ++ [p], _, run.snoc (.pass ended ran), by rw [all], .inr (by rw [all])⟩

/-- The loop ends exactly if enough reads succeed. -/
theorem ends_iff (valid : s.Valid regs) (member : r ∈ regs) :
    (∃ passes t, Run (Relay.Step fails r.bev r.node) (.start s) passes t ∧ t.ended = true) ↔
      ∃ calls, readsNeeded (inputOf s r.bev).length ≤ successes fails calls := by
  constructor
  · rintro ⟨passes, t, run, ended⟩
    exact ⟨t.calls, Nat.le_of_eq ((progress_run valid member run).finished ended).symm⟩
  · rintro ⟨calls, enough⟩
    obtain ⟨passes, t, run, _, state⟩ := exists_run fails valid member calls
    refine ⟨passes, t, run, ?_⟩
    by_contra running
    have all := state.resolve_left running
    have fewer := (progress_run valid member run).running (Bool.eq_false_iff.mpr running)
    rw [all] at fewer
    omega

/-- A loop that ends has relayed its whole input. -/
theorem forwards_of_run (valid : s.Valid regs) (member : r ∈ regs) {passes : List Pass} {t : Relay}
    (run : Run (Relay.Step fails r.bev r.node) (.start s) passes t) (ended : t.ended = true)
    (b : BevPtr) :
    t.server.view b = (s.view b).map (View.relayed · r.node (inputOf s r.bev)) := by
  have progress := progress_run valid member run
  have width : Server.dataSize = 8192 := rfl
  have whole : (inputOf s r.bev).length ≤ Server.dataSize * successes fails t.calls := by
    rw [progress.finished ended, readsNeeded, width]
    omega
  rw [progress.views, List.take_of_length_le whole, List.drop_eq_nil_iff.mpr whole]
  rfl

/-- A loop of which no needed read fails makes no other reads. -/
theorem calls_lt (valid : s.Valid regs) (member : r ∈ regs) {passes : List Pass} {t : Relay}
    (run : Run (Relay.Step fails r.bev r.node) (.start s) passes t) (running : t.ended = false)
    (succeed : ∀ k < readsNeeded (inputOf s r.bev).length, fails k = false) :
    t.calls < readsNeeded (inputOf s r.bev).length := by
  have fewer := (progress_run valid member run).running running
  by_contra more
  have all := successes_mono fails (Nat.le_of_not_lt more)
  rw [successes_eq succeed] at all
  omega

/-- There is nobody to write to exactly if the sender is alone. -/
theorem others_eq_zero (valid : s.Valid regs) (member : r ∈ regs) :
    Server.others regs r.node = 0 ↔ ∀ q ∈ regs, q = r := by
  rw [Server.others, List.countP_eq_zero]
  constructor
  · intro none_ q inside
    have same := none_ q.node (List.mem_map_of_mem inside)
    exact valid.eq_of_node inside member (by simpa using same)
  · intro alone a among
    obtain ⟨q, inside, rfl⟩ := List.mem_map.mp among
    simp [alone q inside]

/-- Under the condition every write has the size of what was stored. -/
theorem sizes_of_readsSucceed (valid : s.Valid regs) (member : r ∈ regs)
    (succeed : ReadsSucceed fails s regs r) {passes : List Pass} {t : Relay}
    (run : Run (Relay.Step fails r.bev r.node) (.start s) passes t) :
    ∀ p ∈ passes, ∀ size ∈ p.writes,
      1 ≤ size ∧ size ≤ Server.dataSize ∧ size = p.stored.length := by
  refine run.invariant (fun past _ => ∀ p ∈ past, ∀ size ∈ p.writes,
    1 ≤ size ∧ size ≤ Server.dataSize ∧ size = p.stored.length) (by simp) ?_
  intro past m p m' earlier sizes step
  refine List.forall_mem_append.mpr ⟨sizes, List.forall_mem_singleton.mpr ?_⟩
  cases step with
  | pass running ran =>
    obtain ⟨p', s', ran', _, failing, reading⟩ :=
      progress_pass valid member (progress_run valid member earlier) running
    obtain ⟨rfl, rfl⟩ := Prod.mk.inj (Except.ok.inj (ran.symm.trans ran'))
    rcases succeed with all | ⟨alone, _⟩
    · exact reading (all _ (calls_lt valid member earlier running all))
    · cases failed : fails m.calls with
      | true =>
        rw [failing failed, (others_eq_zero valid member).mpr alone]
        exact fun _ no => absurd no List.not_mem_nil
      | false => exact reading failed

/-- A failing read that is needed makes the loop write too much to whoever else is there. -/
theorem readsSucceed_of_clean (valid : s.Valid regs) (member : r ∈ regs)
    (clean : RelaysCleanly fails s r) : ReadsSucceed fails s regs r := by
  have enough := (ends_iff valid member).mp clean.ends
  by_cases alone : ∀ q ∈ regs, q = r
  · exact .inr ⟨alone, enough⟩
  refine .inl fun k needed => ?_
  by_contra succeeded
  have failed : fails k = true := (Bool.not_eq_false _).mp succeeded
  obtain ⟨passes, t, run, most, state⟩ := exists_run fails valid member k
  have progress := progress_run valid member run
  have running : t.ended = false := by
    rw [← Bool.not_eq_true]
    intro ended
    have fewer := successes_le fails t.calls
    rw [progress.finished ended] at fewer
    omega
  have here : t.calls = k := state.resolve_left (by rw [running]; exact Bool.false_ne_true)
  obtain ⟨p, s', ran, _, failing, _⟩ := progress_pass valid member progress running
  have someone : Server.others regs r.node ≠ 0 := mt (others_eq_zero valid member).mp alone
  have written : sizeMax ∈ p.writes := by
    rw [failing (by rw [here, failed])]
    exact List.mem_replicate.mpr ⟨someone, rfl⟩
  obtain ⟨_, most, _⟩ := clean.sizes _ _ (run.snoc (.pass running ran)) p
    (List.mem_append_right _ (List.mem_singleton_self p)) sizeMax written
  exact absurd most (by decide)

/-- Passes without a failure are turns of `relayLoop`. -/
theorem relayLoop_of_run {bev : BevPtr} {this : Addr} {passes : List Pass} {t : Relay}
    (run : Run (Relay.Step (fun _ => false) bev this) (.start s) passes t) :
    t.calls = passes.length ∧ ∀ k,
      Server.relayLoop (Server.buffereventRead bev Server.dataSize) this (passes.length + k) s =
        if t.ended then .ok t.server
        else Server.relayLoop (Server.buffereventRead bev Server.dataSize) this k t.server := by
  refine run.invariant (fun past m => m.calls = past.length ∧ ∀ k,
    Server.relayLoop (Server.buffereventRead bev Server.dataSize) this (past.length + k) s =
      if m.ended then .ok m.server
      else Server.relayLoop (Server.buffereventRead bev Server.dataSize) this k m.server) ?_ ?_
  · exact ⟨rfl, fun k => by rw [List.length_nil, Nat.zero_add]; rfl⟩
  · rintro past m p m' _ ⟨calls, earlier⟩ step
    cases step with
    | pass running ran =>
      refine ⟨by rw [List.length_append, calls]; rfl, fun k => ?_⟩
      rw [List.length_append, List.length_singleton, Nat.add_assoc, Nat.add_comm 1 k, earlier,
        running, if_neg Bool.false_ne_true, Server.relayLoop_pass ran]
      by_cases done : p.returned = 0
      · rw [if_pos done, if_pos (decide_eq_true done)]
      · rw [if_neg done, if_neg (by simpa using done)]

/-- Without failures the loop ends where `buffered_on_read` returns. -/
theorem bufferedOnRead_of_run (valid : s.Valid regs) (member : r ∈ regs) {passes : List Pass}
    {t : Relay} (run : Run (Relay.Step (fun _ => false) r.bev r.node) (.start s) passes t)
    (ended : t.ended = true) : s.bufferedOnRead r.bev r.node = .ok t.server := by
  obtain ⟨calls, turns⟩ := relayLoop_of_run run
  have width : Server.dataSize = 8192 := rfl
  have counted := (progress_run valid member run).finished ended
  rw [successes_eq fun _ _ => rfl, calls, readsNeeded, width] at counted
  obtain ⟨v, seen, _⟩ := valid.live member
  obtain ⟨ev, live, rfl⟩ := Server.view_eq_some seen
  have input : inputOf s r.bev = ev.input.bytes := inputOf_eq seen
  have enough : passes.length ≤ ev.input.bytes.length + 1 := by
    rw [← input]
    omega
  have bound : (s.bufferevent r.bev).elim 0 (fun ev => ev.input.getLength) + 1 =
      passes.length + (ev.input.bytes.length + 1 - passes.length) := by
    rw [live, Option.elim_some, EvBuffer.getLength_eq, Nat.add_sub_cancel' enough]
  rw [Server.bufferedOnRead, bound, turns, if_pos ended]

end Loop

/-- The relay loop ends and forwards what it read and nothing else, if and only if no read that it
needs fails, or the sender is alone and as many reads succeed as it needs. -/
theorem relays_cleanly_iff {s : Server} {regs : List Registration} (valid : s.Valid regs)
    {r : Registration} (member : r ∈ regs) (fails : ℕ → Bool) :
    RelaysCleanly fails s r ↔ ReadsSucceed fails s regs r := by
  refine ⟨readsSucceed_of_clean valid member, fun succeed => ⟨?_, ?_, ?_⟩⟩
  · refine (ends_iff valid member).mpr ?_
    rcases succeed with all | ⟨_, enough⟩
    · exact ⟨_, Nat.le_of_eq (successes_eq all).symm⟩
    · exact enough
  · exact fun _ _ => sizes_of_readsSucceed valid member succeed
  · exact fun _ _ run ended _ => forwards_of_run valid member run ended

/-- A client that sends a line while another one is there. -/
theorem two_clients : ∃ s regs r, Server.Valid s regs ∧ r ∈ regs ∧ regs.length = 2 ∧
    inputOf s r.bev = ascii "hello\n" := by
  have run : ∃ s, Run Server.Step (.main listening)
      [.accept 0 (acceptNth 0), .accept 1 (acceptNth 1)] s := by
    exact ⟨_, .cons (.accept rfl rfl (acceptNth_fresh rfl rfl rfl) rfl)
      (.single (.accept rfl rfl (acceptNth_fresh rfl rfl rfl) rfl))⟩
  obtain ⟨s, run⟩ := run
  obtain ⟨regs, valid, members, told⟩ := Server.run_regs run
  have two : regs.length = 2 := by
    have length := congrArg List.length members
    rwa [List.length_map] at length
  obtain ⟨r, q, rfl⟩ := List.length_eq_two.mp two
  have member : r ∈ [r, q] := List.mem_cons_self
  obtain ⟨v, seen, _⟩ := valid.live member
  obtain ⟨same, views⟩ := Server.receive_eq seen (ascii "hello\n")
  refine ⟨s.receive r.bev (ascii "hello\n"), [r, q], r, valid.of_sameControl same, member, rfl, ?_⟩
  rw [inputOf, views, Function.update_self, Option.map_some, View.receive, (told r member v seen).2]
  rfl

/-- Its line is relayed cleanly as long as no read fails. -/
theorem relays_cleanly_iff_line : ∃ s regs r, Server.Valid s regs ∧ r ∈ regs ∧
    inputOf s r.bev = ascii "hello\n" ∧ RelaysCleanly (fun _ => false) s r := by
  obtain ⟨s, regs, r, valid, member, _, input⟩ := two_clients
  refine ⟨s, regs, r, valid, member, input, ?_⟩
  exact (relays_cleanly_iff valid member fun _ => false).mpr (.inl fun _ _ => rfl)

/-- If every read fails the loop never ends. -/
theorem relays_cleanly_fails : ¬ ∀ (s : Server) (regs : List Registration), s.Valid regs →
    ∀ r ∈ regs, ∀ fails : ℕ → Bool, RelaysCleanly fails s r := by
  intro clean
  obtain ⟨s, regs, r, valid, member, _⟩ := two_clients
  obtain ⟨calls, enough⟩ :=
    (ends_iff valid member).mp (clean s regs valid r member fun _ => true).ends
  rw [successes_eq_zero fun _ _ => rfl] at enough
  exact absurd enough (Nat.not_succ_le_zero _)

end MerlinC.Soundness
