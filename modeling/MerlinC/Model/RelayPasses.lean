import MerlinC.Model.ServerCalls

/-! # Passes of the relay loop

`bufferevent_read` passes on the result of `evbuffer_remove`, whose -1 becomes the largest
`size_t`. Here the loop of `buffered_on_read` is taken apart into its passes, each with the size
it was told, the bytes that were stored and the sizes of the writes it made, and any of its reads
may fail. Without failures the passes are those of `relayLoop`.
-/

namespace MerlinC.Model

open Math

/-- What one pass of the loop did. -/
structure Pass where
  returned : ℕ
  stored : Bytes
  writes : List ℕ
deriving DecidableEq, Repr

/-- The loop between two passes: the server, the reads made so far, and whether it has ended. -/
structure Relay where
  server : Server
  calls : ℕ
  ended : Bool

namespace View

/-- What the relay of the front of its input does: the sender keeps the rest. -/
def relaying (v : View) (this : Addr) (data rest : Bytes) : View :=
  if v.control.cbarg = some this then { v with input := rest } else v.append data

theorem relaying_self {this : Addr} {v : View} (sender : v.control.cbarg = some this)
    (data rest : Bytes) : v.relaying this data rest = { v with input := rest } := if_pos sender

theorem relaying_other {this : Addr} {v : View} (other : v.control.cbarg ≠ some this)
    (data rest : Bytes) : v.relaying this data rest = v.append data := if_neg other

/-- One part after the other is relayed like both at once. -/
theorem relaying_relaying (v : View) (this : Addr) (data rest data' rest' : Bytes) :
    (v.relaying this data rest).relaying this data' rest' =
      v.relaying this (data ++ data') rest' := by
  by_cases sender : v.control.cbarg = some this
  · rw [relaying_self sender, relaying_self sender,
      relaying_self (v := { v with input := rest }) sender]
  · rw [relaying_other sender, relaying_other sender,
      relaying_other (v := v.append data) sender, append, append, append, List.append_assoc]

end View

namespace Server

/-- `bufferevent_read`, when `evbuffer_remove` may fail before it copies anything. -/
def readData (fails : Bool) (bev : BevPtr) (s : Server) : Except Stop (ℕ × Bytes × Server) :=
  if fails then .ok (sizeMax, [], s) else s.buffereventRead bev dataSize

/-- The body of the traversal, with a note of the size of each `bufferevent_write`. -/
def forwardNoted (this : Addr) (data : Bytes) (n : ℕ) (client : Addr)
    (noted : Server × List ℕ) : Except Stop (Server × List ℕ) :=
  (noted.1.forward this data n client).map fun s =>
    (s, if client ≠ this then noted.2 ++ [n] else noted.2)

/-- The traversal of the client queue in one pass. -/
def traverse (this : Addr) (data : Bytes) (n : ℕ) (s : Server) :
    Except Stop (Server × List ℕ) :=
  TailQueue.foreach (fun noted => noted.1.registry) .fault (forwardNoted this data n) s.accepted
    s.registry.tqhFirst (s, [])

/-- One pass of the loop. -/
def relayPass (fails : Bool) (bev : BevPtr) (this : Addr) (s : Server) :
    Except Stop (Pass × Server) := do
  let (n, data, s) ← s.readData fails bev
  if n = 0 then .ok (⟨n, data, []⟩, s)
  else
    let (s, writes) ← s.traverse this data n
    .ok (⟨n, data, writes⟩, s)

end Server

namespace Relay

def start (s : Server) : Relay := ⟨s, 0, false⟩

/-- A loop that has not ended makes a pass, and ends if the returned size is 0. -/
inductive Step (fails : ℕ → Bool) (bev : BevPtr) (this : Addr) : Relay → Pass → Relay → Prop
  | pass {m : Relay} {p : Pass} {s' : Server} (running : m.ended = false)
      (ran : m.server.relayPass (fails m.calls) bev this = .ok (p, s')) :
      Step fails bev this m p ⟨s', m.calls + 1, p.returned = 0⟩

end Relay

namespace Server

section Traverse

variable {s : Server} {regs : List Registration} {this : Addr} {data : Bytes} {n : ℕ}

/-- The number of clients that a pass writes to. -/
def others (regs : List Registration) (this : Addr) : ℕ :=
  (regs.map (·.node)).countP (· ≠ this)

/-- The notes of a traversal: as many writes as there are other clients, all of one size. -/
theorem foldlM_forwardNoted (nodes : List Addr) (s : Server) (log : List ℕ) :
    nodes.foldlM (fun noted client => forwardNoted this data n client noted) (s, log) =
      (nodes.foldlM (fun (s : Server) client => s.forward this data n client) s).map fun s' =>
        (s', log ++ List.replicate (nodes.countP (· ≠ this)) n) := by
  induction nodes generalizing s log with
  | nil => simp [pure, Except.pure, Except.map]
  | cons client rest ih =>
    simp only [List.foldlM_cons, forwardNoted, bind, Except.bind]
    cases ran : s.forward this data n client with
    | error stop => rfl
    | ok s' =>
      simp only [Except.map]
      refine (ih s' _).trans (congrArg (Except.map · _) (funext fun s'' => ?_))
      by_cases self : client = this
      · simp [self]
      · simp [self, List.replicate_succ]

/-- The traversal makes one write to each other client, and otherwise only forwards. -/
theorem Valid.traverse_eq (valid : s.Valid regs) : s.traverse this data n =
    ((regs.map (·.node)).foldlM (fun (s : Server) client => s.forward this data n client) s).map
      fun s' => (s', List.replicate (others regs this) n) := by
  have frame (client : Addr) (noted noted' : Server × List ℕ)
      (ran : forwardNoted this data n client noted = .ok noted') :
      noted'.1.registry = noted.1.registry := by
    unfold forwardNoted at ran
    cases wrote : noted.1.forward this data n client with
    | error stop =>
      rw [wrote] at ran
      contradiction
    | ok s' =>
      rw [wrote] at ran
      obtain rfl := Except.ok.inj ran
      exact forward_registry wrote
  have enough : (regs.map (·.node)).length ≤ s.accepted := by
    simpa using valid.length_le
  rw [traverse, valid.links.first, TailQueue.Represents.foreach [] frame valid.links enough,
    foldlM_forwardNoted]
  rfl

/-- Writes of more bytes than a buffer can hold change nothing. -/
theorem Valid.forward_tooLong (valid : s.Valid regs) {visited : List Registration}
    (sub : visited ⊆ regs) (long : chainMax < n) :
    (visited.map (·.node)).foldlM (fun (s : Server) client => s.forward this data n client) s =
      .ok s := by
  induction visited with
  | nil => rfl
  | cons r rest ih =>
    have member : r ∈ regs := sub List.mem_cons_self
    have here : s.forward this data n r.node = .ok s := by
      unfold Server.forward
      split
      · obtain ⟨v, seen, _⟩ := valid.live member
        obtain ⟨ev, live, _⟩ := view_eq_some seen
        simp only [deref, valid.client r member, bind, Except.bind, buffereventWrite,
          derefBufferevent_eq live, if_pos long]
      · rfl
    rw [List.map_cons, List.foldlM_cons, here]
    exact ih fun q inside => sub (List.mem_cons_of_mem r inside)

/-- The traversal with notes is the traversal of the loop. -/
theorem traverse_map (s : Server) : (s.traverse this data n).map Prod.fst =
    TailQueue.foreach registry .fault (forward this data n) s.accepted s.registry.tqhFirst s := by
  refine TailQueue.foreach_map Prod.fst (fun _ => rfl) (fun client noted => ?_) _ _ _
  unfold forwardNoted
  cases noted.1.forward this data n client with
  | error stop => rfl
  | ok s' => rfl

/-- A traversal that returns makes one write to each other client. -/
theorem Valid.traverse_ok (valid : s.Valid regs) {s' : Server}
    (passed : TailQueue.foreach registry .fault (Server.forward this data n) s.accepted
      s.registry.tqhFirst s = .ok s') :
    s.traverse this data n = .ok (s', List.replicate (others regs this) n) := by
  have mapped := (traverse_map s).trans passed
  rw [valid.traverse_eq] at mapped ⊢
  cases ran : (regs.map (·.node)).foldlM
      (fun (s : Server) client => s.forward this data n client) s with
  | error stop =>
    rw [ran] at mapped
    contradiction
  | ok s'' =>
    rw [ran] at mapped
    obtain rfl := Except.ok.inj mapped
    rfl

end Traverse

section Pass

variable {s : Server} {regs : List Registration} {r : Registration} {v : View}

/-- A failing read makes a pass that tries to write far too much, and changes nothing. -/
theorem Valid.relayPass_fails (valid : s.Valid regs) (bev : BevPtr) (this : Addr) :
    s.relayPass true bev this =
      .ok (⟨sizeMax, [], List.replicate (others regs this) sizeMax⟩, s) := by
  have long : chainMax < sizeMax := by decide
  have some_ : sizeMax ≠ 0 := by decide
  simp only [relayPass, readData, ↓reduceIte, bind, Except.bind, if_neg some_, valid.traverse_eq,
    valid.forward_tooLong (List.Subset.refl regs) long, Except.map]

/-- A read of an empty input ends the loop. -/
theorem relayPass_empty (seen : s.view r.bev = some v) (empty : v.input = []) (this : Addr) :
    ∃ s', s.relayPass false r.bev this = .ok (⟨0, [], []⟩, s') ∧ SameControl s s' ∧
      s'.view = s.view := by
  obtain ⟨s', read, same, views⟩ := buffereventRead_eq seen dataSize
  refine ⟨s', ?_, same, ?_⟩
  · simp only [relayPass, readData, read, empty, bind, Except.bind, Bool.false_eq_true, ↓reduceIte,
      List.take_nil, List.length_nil]
  · rw [views, Function.update_eq_self_iff, seen, View.take, empty, List.drop_nil, ← empty]

/-- A read of some bytes makes a pass that relays them. -/
theorem Valid.relayPass_reads (valid : s.Valid regs) (member : r ∈ regs)
    (seen : s.view r.bev = some v) (some_ : v.input ≠ []) :
    ∃ s', s.relayPass false r.bev r.node = .ok (⟨(v.input.take dataSize).length,
        v.input.take dataSize,
        List.replicate (others regs r.node) (v.input.take dataSize).length⟩, s') ∧
      SameControl s s' ∧ ∀ b, s'.view b =
        (s.view b).map
          (View.relaying · r.node (v.input.take dataSize) (v.input.drop dataSize)) := by
  obtain ⟨s₁, read, same₁, views₁⟩ := buffereventRead_eq seen dataSize
  have valid₁ := valid.of_sameControl same₁
  have small : (v.input.take dataSize).length ≤ chainMax :=
    Nat.le_trans (List.length_take_le dataSize v.input) (by decide)
  have nonzero : (v.input.take dataSize).length ≠ 0 := by
    rw [ne_eq, List.length_eq_zero_iff, List.take_eq_nil_iff]
    exact fun none_ => none_.elim (by decide) some_
  obtain ⟨s₂, passed, same₂, views₂⟩ := valid₁.foreach r.node small
  refine ⟨s₂, ?_, same₁.trans same₂, fun b => ?_⟩
  · simp only [relayPass, readData, read, bind, Except.bind, Bool.false_eq_true, ↓reduceIte,
      if_neg nonzero, valid₁.traverse_ok passed]
  · have sender : v.control.cbarg = some r.node := (valid.cbarg_iff member seen).mpr rfl
    rw [views₂, views₁]
    by_cases here : b = r.bev
    · subst here
      rw [Function.update_self, seen, Option.map_some, Option.map_some,
        View.hear_self (v := v.take dataSize) sender, View.relaying_self sender]
      rfl
    · rw [Function.update_of_ne here]
      cases known : s.view b with
      | none => rfl
      | some w =>
        have other : w.control.cbarg ≠ some r.node :=
          fun arg => here ((valid.cbarg_iff member known).mp arg)
        rw [Option.map_some, Option.map_some, View.hear_other other, View.relaying_other other]

/-- A pass without a failure is a turn of `relayLoop`. -/
theorem relayLoop_pass {bev : BevPtr} {this : Addr} {p : Pass} {s' : Server}
    (ran : s.relayPass false bev this = .ok (p, s')) (passes : ℕ) :
    relayLoop (buffereventRead bev dataSize) this (passes + 1) s =
      if p.returned = 0 then .ok s'
      else relayLoop (buffereventRead bev dataSize) this passes s' := by
  simp only [relayPass, readData, Bool.false_eq_true, ↓reduceIte, bind, Except.bind] at ran
  simp only [relayLoop, bind, Except.bind]
  cases read : s.buffereventRead bev dataSize with
  | error stop =>
    rw [read] at ran
    contradiction
  | ok result =>
    obtain ⟨n, data, s₁⟩ := result
    rw [read] at ran
    dsimp only at ran ⊢
    by_cases done : n = 0
    · rw [if_pos done] at ran
      obtain ⟨rfl, rfl⟩ := Prod.mk.inj (Except.ok.inj ran)
      rw [if_pos done, if_pos done]
    · rw [if_neg done] at ran
      rw [if_neg done, ← traverse_map]
      cases passed : s₁.traverse this data n with
      | error stop =>
        rw [passed] at ran
        contradiction
      | ok result =>
        obtain ⟨s₂, writes⟩ := result
        rw [passed] at ran
        obtain ⟨rfl, rfl⟩ := Prod.mk.inj (Except.ok.inj ran)
        rw [if_neg done]
        rfl

/-- Before the first pass nothing is relayed. -/
theorem Valid.view_relaying (valid : s.Valid regs) (member : r ∈ regs)
    (seen : s.view r.bev = some v) (b : BevPtr) :
    s.view b = (s.view b).map (View.relaying · r.node [] v.input) := by
  cases known : s.view b with
  | none => rfl
  | some w =>
    rw [Option.map_some]
    by_cases sender : w.control.cbarg = some r.node
    · obtain rfl := (valid.cbarg_iff member known).mp sender
      obtain rfl := Option.some.inj (known.symm.trans seen)
      rw [View.relaying_self sender]
    · rw [View.relaying_other sender, View.append, List.append_nil]

/-- The loop relays its whole input, however long, and returns. -/
theorem Valid.relayLoop (valid : s.Valid regs) (member : r ∈ regs) (seen : s.view r.bev = some v)
    {passes : ℕ} (enough : v.input.length < passes) :
    ∃ s', relayLoop (buffereventRead r.bev dataSize) r.node passes s = .ok s' ∧
      SameControl s s' ∧ ∀ b, s'.view b = (s.view b).map (View.relayed · r.node v.input) := by
  induction passes generalizing s v with
  | zero => omega
  | succ passes ih =>
    rcases eq_or_ne v.input [] with empty | some_
    · obtain ⟨s', ran, same, views⟩ := relayPass_empty seen empty r.node
      refine ⟨s', by rw [relayLoop_pass ran, if_pos rfl], same, fun b => ?_⟩
      have start := valid.view_relaying member seen b
      rw [empty] at start ⊢
      rw [views]
      exact start
    · obtain ⟨s₁, ran, same₁, views₁⟩ := valid.relayPass_reads member seen some_
      have sender : v.control.cbarg = some r.node := (valid.cbarg_iff member seen).mpr rfl
      have seen₁ : s₁.view r.bev = some { v with input := v.input.drop dataSize } := by
        rw [views₁, seen, Option.map_some, View.relaying_self sender]
      have width : dataSize = 8192 := rfl
      have more : 0 < v.input.length := List.length_pos_of_ne_nil some_
      have read : (v.input.take dataSize).length ≠ 0 := by
        rw [List.length_take]
        omega
      have shorter : (v.input.drop dataSize).length < passes := by
        rw [List.length_drop]
        omega
      obtain ⟨s₂, rest, same₂, views₂⟩ := ih (valid.of_sameControl same₁) seen₁ shorter
      refine ⟨s₂, by rw [relayLoop_pass ran, if_neg read, rest], same₁.trans same₂, fun b => ?_⟩
      rw [views₂, views₁, Option.map_map]
      refine congrArg (Option.map · (s.view b)) (funext fun w => ?_)
      change (w.relaying r.node _ _).relaying r.node (v.input.drop dataSize) [] = _
      rw [View.relaying_relaying, List.take_append_drop]
      rfl

/-- `buffered_on_read` relays the whole input to every other client and leaves it empty. -/
theorem Valid.bufferedOnRead (valid : s.Valid regs) (member : r ∈ regs)
    (seen : s.view r.bev = some v) :
    ∃ s', s.bufferedOnRead r.bev r.node = .ok s' ∧ SameControl s s' ∧
      ∀ b, s'.view b = (s.view b).map (View.relayed · r.node v.input) := by
  apply valid.relayLoop member seen
  obtain ⟨ev, live, rfl⟩ := view_eq_some seen
  simp [live, Bufferevent.view]

end Pass

end Server

end MerlinC.Model
