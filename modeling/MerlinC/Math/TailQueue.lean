import Mathlib.Data.List.Induction
import Mathlib.Data.List.Nodup
import Mathlib.Logic.Function.Basic

/-! # Intrusive tail queues

The queue of `<sys/queue.h>`: the links live inside the queued nodes, every node points back at
the pointer that points to it, and the head keeps the address of the last next pointer. Nodes
carry a payload that the queue operations never touch, and a node may be unallocated, so an
operation that would follow a dangling pointer fails instead of returning something.

`Represents` is the well-formedness of the links together with the list of nodes they hold.
Under it no operation fails, and each acts on that list as its name says.
-/

namespace MerlinC.Math

/-- What a pointer to a next pointer may hold: nothing, the head's pointer, or a node's. -/
inductive Slot (α : Type*) where
  | null
  | first
  | next (node : α)
deriving DecidableEq

/-- `TAILQ_ENTRY` inside the structure it links, whose other members are the payload. -/
structure Node (α β : Type*) where
  payload : β
  tqeNext : Option α
  tqePrev : Slot α

/-- `TAILQ_HEAD` and the memory its nodes live in; `none` is memory that is not allocated. -/
structure TailQueue (α β : Type*) where
  tqhFirst : Option α
  tqhLast : Slot α
  node : α → Option (Node α β)

namespace TailQueue

variable {α β σ κ : Type*} [DecidableEq α]

/-- `TAILQ_INIT`. -/
def init (node : α → Option (Node α β)) : TailQueue α β :=
  { tqhFirst := none, tqhLast := .first, node }

/-- Replace the node at an address; `none` frees it. -/
def write (q : TailQueue α β) (a : α) (content : Option (Node α β)) : TailQueue α β :=
  { q with node := Function.update q.node a content }

/-- Assign through a pointer to a next pointer. -/
def store (q : TailQueue α β) (slot : Slot α) (value : Option α) : Option (TailQueue α β) :=
  match slot with
  | .null => none
  | .first => some { q with tqhFirst := value }
  | .next a => (q.node a).map fun n => q.write a (some { n with tqeNext := value })

/-- `TAILQ_INSERT_TAIL`. -/
def insertTail (q : TailQueue α β) (elm : α) : Option (TailQueue α β) := do
  let n ← q.node elm
  let q := q.write elm (some { n with tqeNext := none, tqePrev := q.tqhLast })
  let q ← q.store q.tqhLast (some elm)
  some { q with tqhLast := .next elm }

/-- Assign the back pointer of a successor, which is the head's own when there is none. -/
def storePrev (q : TailQueue α β) (successor : Option α) (slot : Slot α) :
    Option (TailQueue α β) :=
  match successor with
  | some a => (q.node a).map fun n => q.write a (some { n with tqePrev := slot })
  | none => some { q with tqhLast := slot }

/-- `TAILQ_REMOVE`. The macro's last statement reads `elm` again, after the update of its
successor. -/
def remove (q : TailQueue α β) (elm : α) : Option (TailQueue α β) := do
  let n ← q.node elm
  let q ← q.storePrev n.tqeNext n.tqePrev
  let n ← q.node elm
  q.store n.tqePrev n.tqeNext

/-- `TAILQ_FOREACH` over a queue inside a larger state, with a loop body that may fail. The
next pointer is read after the body ran. A dangling pointer and a loop that outruns its bound
are both reported as the fault. -/
def foreach (queue : σ → TailQueue α β) (fault : κ) (body : α → σ → Except κ σ) :
    ℕ → Option α → σ → Except κ σ
  | _, none, s => .ok s
  | 0, some _, _ => .error fault
  | bound + 1, some a, s => do
    let s ← body a s
    match (queue s).node a with
    | none => .error fault
    | some n => foreach queue fault body bound n.tqeNext s

omit [DecidableEq α] in
/-- A view of the state that the queue and the body respect can be taken before the traversal. -/
theorem foreach_map {τ : Type*} {queue : σ → TailQueue α β} {queue' : τ → TailQueue α β}
    {fault : κ} {body : α → σ → Except κ σ} {body' : α → τ → Except κ τ} (f : σ → τ)
    (same : ∀ s, queue' (f s) = queue s) (respects : ∀ a s, (body a s).map f = body' a (f s))
    (bound : ℕ) (a : Option α) (s : σ) :
    (foreach queue fault body bound a s).map f = foreach queue' fault body' bound a (f s) := by
  induction bound generalizing a s with
  | zero => cases a <;> rfl
  | succ bound ih =>
    cases a with
    | none => rfl
    | some a =>
      have here := respects a s
      simp only [foreach, bind, Except.bind]
      cases ran : body a s with
      | error stop =>
        rw [ran] at here
        rw [← here]
        rfl
      | ok s' =>
        rw [ran] at here
        rw [← here]
        simp only [Except.map, same]
        cases (queue s').node a with
        | none => rfl
        | some n => exact ih n.tqeNext s'

/-- The pointer that the node following `before` is reached through. -/
def slotAfter (before : List α) : Slot α :=
  match before.getLast? with
  | none => .first
  | some a => .next a

/-- The links are well formed and hold exactly these nodes, each once, in this order. -/
structure Represents (q : TailQueue α β) (nodes : List α) : Prop where
  nodup : nodes.Nodup
  first : q.tqhFirst = nodes.head?
  last : q.tqhLast = slotAfter nodes
  linked : ∀ before a after, nodes = before ++ a :: after → ∃ n, q.node a = some n ∧
    n.tqeNext = after.head? ∧ n.tqePrev = slotAfter before

/-- What the queue operations leave alone at an address. -/
def payload? (q : TailQueue α β) (a : α) : Option β := (q.node a).map (·.payload)

omit [DecidableEq α] in
@[simp] theorem slotAfter_nil : slotAfter ([] : List α) = .first := rfl

omit [DecidableEq α] in
@[simp] theorem slotAfter_concat (before : List α) (a : α) :
    slotAfter (before ++ [a]) = .next a := by simp [slotAfter]

@[simp] theorem write_first (q : TailQueue α β) (a : α) (content : Option (Node α β)) :
    (q.write a content).tqhFirst = q.tqhFirst := rfl

@[simp] theorem write_last (q : TailQueue α β) (a : α) (content : Option (Node α β)) :
    (q.write a content).tqhLast = q.tqhLast := rfl

@[simp] theorem write_node_self (q : TailQueue α β) (a : α) (content : Option (Node α β)) :
    (q.write a content).node a = content := Function.update_self ..

theorem write_node_of_ne (q : TailQueue α β) {a b : α} (content : Option (Node α β))
    (different : b ≠ a) : (q.write a content).node b = q.node b :=
  Function.update_of_ne different ..

/-- A write of a changed node changes that node. -/
theorem write_node_map {q : TailQueue α β} {a : α} {n : Node α β} (read : q.node a = some n)
    (change : Node α β → Node α β) (b : α) :
    (q.write a (some (change n))).node b =
      (q.node b).map fun n => if a = b then change n else n := by
  rcases eq_or_ne b a with rfl | different
  · simp [read]
  · rw [write_node_of_ne q _ different]
    simp [Ne.symm different]

omit [DecidableEq α] in
theorem init_represents (node : α → Option (Node α β)) : (init node).Represents [] where
  nodup := List.nodup_nil
  first := rfl
  last := rfl
  linked before a after whole := by simp at whole

omit [DecidableEq α] in
theorem slotAfter_eq_next_iff (before : List α) (a : α) :
    slotAfter before = .next a ↔ before.getLast? = some a := by
  unfold slotAfter
  split <;> simp_all

omit [DecidableEq α] in
theorem slotAfter_eq_first_iff (before : List α) : slotAfter before = .first ↔ before = [] := by
  rcases List.eq_nil_or_concat before with rfl | ⟨rest, a, rfl⟩
  · simp
  · rw [List.concat_eq_append, slotAfter_concat]
    simp

omit [DecidableEq α] in
theorem slotAfter_append_cons (before : List α) (a : α) (rest : List α) :
    slotAfter (before ++ a :: rest) = slotAfter (a :: rest) := by
  simp only [slotAfter, List.getLast?_append_cons]

/-- A store through a pointer changes that one pointer. -/
theorem store_eq {q q' : TailQueue α β} {slot : Slot α} {value : Option α}
    (stored : q.store slot value = some q') : q'.tqhLast = q.tqhLast ∧
      q'.tqhFirst = (if slot = .first then value else q.tqhFirst) ∧
      ∀ b, q'.node b = (q.node b).map fun n =>
        if slot = .next b then { n with tqeNext := value } else n := by
  cases slot with
  | null => simp [store] at stored
  | first =>
    obtain rfl := Option.some.inj stored
    simp
  | next a =>
    obtain ⟨n, read, rfl⟩ := Option.map_eq_some_iff.mp stored
    refine ⟨rfl, by simp, fun b => ?_⟩
    simpa using write_node_map read (fun n => { n with tqeNext := value }) b

/-- A store succeeds through the head and through every allocated node. -/
theorem store_slotAfter {q : TailQueue α β} (before : List α) (value : Option α)
    (allocated : ∀ a ∈ before, ∃ n, q.node a = some n) :
    ∃ q', q.store (slotAfter before) value = some q' := by
  unfold slotAfter
  split
  · exact ⟨_, rfl⟩
  · next a last =>
    obtain ⟨n, read⟩ := allocated a (List.mem_of_getLast? last)
    exact ⟨_, by simp only [store, read, Option.map_some]; rfl⟩

/-- An update of a back pointer changes that one pointer. -/
theorem storePrev_eq {q q' : TailQueue α β} {successor : Option α} {slot : Slot α}
    (stored : q.storePrev successor slot = some q') : q'.tqhFirst = q.tqhFirst ∧
      q'.tqhLast = (if successor = none then slot else q.tqhLast) ∧
      ∀ b, q'.node b = (q.node b).map fun n =>
        if successor = some b then { n with tqePrev := slot } else n := by
  cases successor with
  | none =>
    obtain rfl := Option.some.inj stored
    simp
  | some a =>
    obtain ⟨n, read, rfl⟩ := Option.map_eq_some_iff.mp stored
    refine ⟨rfl, by simp, fun b => ?_⟩
    simpa using write_node_map read (fun n => { n with tqePrev := slot }) b

theorem store_payload? {q q' : TailQueue α β} {slot : Slot α} {value : Option α}
    (stored : q.store slot value = some q') : q'.payload? = q.payload? := by
  funext b
  rw [payload?, (store_eq stored).2.2, Option.map_map]
  refine congrArg (Option.map · (q.node b)) (funext fun n => ?_)
  rw [Function.comp_apply]
  split
  · rfl
  · rfl

theorem storePrev_payload? {q q' : TailQueue α β} {successor : Option α} {slot : Slot α}
    (stored : q.storePrev successor slot = some q') : q'.payload? = q.payload? := by
  funext b
  rw [payload?, (storePrev_eq stored).2.2, Option.map_map]
  refine congrArg (Option.map · (q.node b)) (funext fun n => ?_)
  rw [Function.comp_apply]
  split
  · rfl
  · rfl

theorem write_payload? (q : TailQueue α β) (a : α) (content : Option (Node α β)) :
    (q.write a content).payload? =
      Function.update q.payload? a (content.map (·.payload)) := by
  funext b
  exact Function.apply_update (fun _ => Option.map Node.payload) q.node a content b

namespace Represents

variable {q : TailQueue α β} {nodes : List α}

omit [DecidableEq α] in
theorem allocated (represents : q.Represents nodes) {a : α} (member : a ∈ nodes) :
    ∃ n, q.node a = some n := by
  obtain ⟨before, after, whole⟩ := List.append_of_mem member
  obtain ⟨n, read, _⟩ := represents.linked before a after whole
  exact ⟨n, read⟩

/-- Memory outside the queue may be allocated, changed and freed. -/
theorem write_outside (represents : q.Represents nodes) {a : α} (outside : a ∉ nodes)
    (content : Option (Node α β)) : (q.write a content).Represents nodes where
  nodup := represents.nodup
  first := represents.first
  last := represents.last
  linked before b after whole := by
    have different : b ≠ a := by
      rintro rfl
      exact outside (by simp [whole])
    rw [write_node_of_ne q content different]
    exact represents.linked before b after whole

omit [DecidableEq α] in
/-- The links determine the list of queued nodes. -/
theorem unique {other : List α} (represents : q.Represents nodes)
    (another : q.Represents other) : nodes = other := by
  have suffixes : ∀ rest before rest' before', nodes = before ++ rest → other = before' ++ rest' →
      rest.head? = rest'.head? → rest = rest' := by
    intro rest
    induction rest with
    | nil =>
      intro before rest' before' _ _ heads
      exact (List.head?_eq_none_iff.mp heads.symm).symm
    | cons a rest ih =>
      intro before rest' before' whole whole' heads
      cases rest' with
      | nil => simp at heads
      | cons b rest' =>
        obtain rfl : a = b := by simpa using heads
        obtain ⟨n, read, next, _⟩ := represents.linked before a rest whole
        obtain ⟨m, read', next', _⟩ := another.linked before' a rest' whole'
        obtain rfl : n = m := Option.some.inj (read.symm.trans read')
        rw [ih (before ++ [a]) rest' (before' ++ [a]) (by simp [whole]) (by simp [whole'])
          (next.symm.trans next')]
  exact suffixes nodes [] other [] rfl rfl (represents.first.symm.trans another.first)

/-- Inserting an allocated node at the tail appends it and touches links only. -/
theorem insertTail (represents : q.Represents nodes) {a : α} {n : Node α β}
    (outside : a ∉ nodes) (read : q.node a = some n) :
    ∃ q', q.insertTail a = some q' ∧ q'.Represents (nodes ++ [a]) ∧ q'.payload? = q.payload? := by
  set linked := q.write a (some { n with tqeNext := none, tqePrev := q.tqhLast }) with linkedEq
  have kept : linked.Represents nodes := represents.write_outside outside _
  obtain ⟨q', stored⟩ := store_slotAfter nodes (some a) (fun b member => kept.allocated member)
  have effect := store_eq stored
  have notLast : slotAfter nodes ≠ .next a := by
    rw [Ne, slotAfter_eq_next_iff]
    exact fun last => outside (List.mem_of_getLast? last)
  have atNew : q'.node a = some { n with tqeNext := none, tqePrev := slotAfter nodes } := by
    rw [effect.2.2, linkedEq, write_node_self, Option.map_some, if_neg notLast, represents.last]
  refine ⟨{ q' with tqhLast := .next a }, ?_, ⟨?_, ?_, ?_, ?_⟩, ?_⟩
  · simp only [TailQueue.insertTail, read, bind, Option.bind_some, ← linkedEq]
    rw [kept.last, stored, Option.bind_some]
  · refine List.nodup_append.mpr ⟨represents.nodup, by simp, ?_⟩
    rintro b member _ single rfl
    exact outside (List.mem_singleton.mp single ▸ member)
  · change q'.tqhFirst = _
    rw [effect.2.1, kept.first]
    cases nodes <;> simp [slotAfter_eq_first_iff]
  · exact (slotAfter_concat nodes a).symm
  · intro before b after whole
    change ∃ n, q'.node b = some n ∧ _
    rcases List.eq_nil_or_concat after with rfl | ⟨rest, last, rfl⟩
    · obtain ⟨rfl, same⟩ := List.append_inj' whole rfl
      obtain rfl := (List.cons.inj same).1
      exact ⟨_, atNew, rfl, rfl⟩
    · rw [List.concat_eq_append, ← List.cons_append, ← List.append_assoc] at whole
      obtain ⟨old, same⟩ := List.append_inj' whole rfl
      obtain rfl := (List.cons.inj same).1
      obtain ⟨m, readOld, next, prev⟩ := kept.linked before b rest old
      refine ⟨_, by rw [effect.2.2, readOld, Option.map_some], ?_, ?_⟩
      · cases rest with
        | nil => rw [if_pos (by simp [old])]; rfl
        | cons c rest =>
          have distinct : b ∉ c :: rest := by
            have split := represents.nodup
            rw [old, List.nodup_append] at split
            exact (List.nodup_cons.mp split.2.1).1
          rw [if_neg ?_, next]
          · rfl
          · rw [old, slotAfter_eq_next_iff, List.getLast?_append, List.getLast?_cons_cons]
            intro last
            exact distinct (List.mem_of_getLast? (by simpa using last))
      · split <;> exact prev
  · have same : linked.payload? = q.payload? := by
      rw [linkedEq, write_payload?, Function.update_eq_self_iff, payload?, read]
      rfl
    exact (store_payload? stored).trans same

/-- What the two stores of a removal leave at every address. -/
theorem remove_eq (represents : q.Represents nodes) {before after : List α} {a : α}
    (whole : nodes = before ++ a :: after) :
    ∃ q', q.remove a = some q' ∧
      q'.tqhFirst = (if slotAfter before = .first then after.head? else q.tqhFirst) ∧
      q'.tqhLast = (if after.head? = none then slotAfter before else q.tqhLast) ∧
      q'.payload? = q.payload? ∧ ∀ b, q'.node b = ((q.node b).map fun n =>
        if after.head? = some b then { n with tqePrev := slotAfter before } else n).map fun n =>
        if slotAfter before = .next b then { n with tqeNext := after.head? } else n := by
  have distinct : (before ++ a :: after).Nodup := whole ▸ represents.nodup
  have outside : a ∉ after := (List.nodup_cons.mp (List.nodup_append.mp distinct).2.1).1
  obtain ⟨n, read, next, prev⟩ := represents.linked before a after whole
  obtain ⟨q₁, patched⟩ : ∃ q₁, q.storePrev after.head? (slotAfter before) = some q₁ := by
    cases after with
    | nil => exact ⟨_, rfl⟩
    | cons s rest =>
      obtain ⟨m, readNext⟩ := represents.allocated (a := s) (by simp [whole])
      exact ⟨_, by simp only [List.head?_cons, storePrev, readNext, Option.map_some]; rfl⟩
  have effect₁ := storePrev_eq patched
  have still : q₁.node a = some n := by
    rw [effect₁.2.2, read, Option.map_some, if_neg]
    exact fun head => outside (List.mem_of_head? head)
  have allocated : ∀ b ∈ before, ∃ m, q₁.node b = some m := by
    intro b inside
    obtain ⟨m, readBefore⟩ := represents.allocated (a := b) (by simp [whole, inside])
    exact ⟨_, by rw [effect₁.2.2, readBefore, Option.map_some]⟩
  obtain ⟨q₂, stored⟩ := store_slotAfter before after.head? allocated
  have effect₂ := store_eq stored
  refine ⟨q₂, ?_, ?_, ?_, (store_payload? stored).trans (storePrev_payload? patched), fun b => ?_⟩
  · simp only [TailQueue.remove, read, bind, Option.bind_some, next, prev, patched, still, stored]
  · rw [effect₂.2.1, effect₁.1]
  · rw [effect₂.1, effect₁.2.1]
  · rw [effect₂.2.2, effect₁.2.2]

omit [DecidableEq α] in
/-- A node left after closing a gap stood before it or after it. -/
private theorem split_at_gap {before after left right : List α} {b : α}
    (parts : before ++ after = left ++ b :: right) :
    (∃ rest, before = left ++ b :: rest ∧ right = rest ++ after) ∨
      ∃ rest, left = before ++ rest ∧ after = rest ++ b :: right := by
  rcases List.append_eq_append_iff.mp parts with ⟨rest, hl, ha⟩ | ⟨rest, hb, hr⟩
  · exact .inr ⟨rest, hl, ha⟩
  · cases rest with
    | nil => exact .inr ⟨[], by simpa using hb.symm, by simpa using hr.symm⟩
    | cons c rest =>
      obtain ⟨rfl, rfl⟩ := List.cons.inj hr
      exact .inl ⟨rest, hb, rfl⟩

/-- Removing a queued node closes the gap it leaves, at the head, in the middle, at the tail or
as the only node, and touches links only. -/
theorem remove (represents : q.Represents nodes) {a : α} (member : a ∈ nodes) :
    ∃ q', q.remove a = some q' ∧ q'.Represents (nodes.erase a) ∧ q'.payload? = q.payload? := by
  obtain ⟨before, after, whole⟩ := List.append_of_mem member
  have distinct : (before ++ a :: after).Nodup := whole ▸ represents.nodup
  obtain ⟨beforeNodup, tailNodup, apart⟩ := List.nodup_append.mp distinct
  have afterNodup := (List.nodup_cons.mp tailNodup).2
  have outside : a ∉ before := fun inside => apart a inside a (by simp) rfl
  have closed : nodes.erase a = before ++ after := by
    rw [whole, List.erase_append_right _ outside, List.erase_cons_head]
  obtain ⟨q', removed, first, last, payloads, links⟩ := represents.remove_eq whole
  refine ⟨q', removed, ⟨represents.nodup.erase a, ?_, ?_, ?_⟩, payloads⟩
  · rw [first, represents.first, closed, whole]
    cases before <;> simp [slotAfter_eq_first_iff]
  · rw [last, represents.last, closed, whole, slotAfter_append_cons]
    cases after with
    | nil => simp
    | cons s rest =>
      rw [if_neg (by simp), slotAfter_append_cons]
      exact slotAfter_append_cons [a] s rest
  · intro left b right parts
    rw [closed] at parts
    rw [links b]
    rcases split_at_gap parts with ⟨rest, rfl, rfl⟩ | ⟨rest, rfl, rfl⟩
    · -- A node before the removed one may be its predecessor.
      obtain ⟨m, readOld, oldNext, oldPrev⟩ :=
        represents.linked left b (rest ++ a :: after) (by simp [whole])
      have notHead : after.head? ≠ some b := fun head =>
        apart b (by simp) b (List.mem_cons_of_mem _ (List.mem_of_head? head)) rfl
      refine ⟨_, by rw [readOld, Option.map_some, Option.map_some, if_neg notHead], ?_, ?_⟩
      · cases rest with
        | nil => rw [if_pos (slotAfter_concat left b), List.nil_append]
        | cons c rest =>
          have inner : b ∉ c :: rest :=
            (List.nodup_cons.mp (List.nodup_append.mp beforeNodup).2.1).1
          rw [if_neg ?_, oldNext]
          · rfl
          · rw [slotAfter_append_cons, slotAfter_eq_next_iff, List.getLast?_cons_cons]
            exact fun last => inner (List.mem_of_getLast? last)
      · split <;> exact oldPrev
    · -- A node after the removed one may be its successor.
      obtain ⟨m, readOld, oldNext, oldPrev⟩ :=
        represents.linked (before ++ a :: rest) b right (by simp [whole])
      have notLast : slotAfter before ≠ .next b := by
        rw [Ne, slotAfter_eq_next_iff]
        exact fun last => apart b (List.mem_of_getLast? last) b (by simp) rfl
      refine ⟨_, by rw [readOld, Option.map_some, Option.map_some, if_neg notLast], ?_, ?_⟩
      · split <;> exact oldNext
      · cases rest with
        | nil => rw [List.nil_append, List.head?_cons, if_pos rfl, List.append_nil]
        | cons c rest =>
          have inner : c ≠ b := fun same => (List.nodup_cons.mp afterNodup).1 (by simp [same])
          rw [if_neg (by simpa using inner), oldPrev, slotAfter_append_cons, slotAfter_append_cons]
          exact slotAfter_append_cons [a] c rest

omit [DecidableEq α] in
/-- Visiting the queue folds the body over its nodes in order, as long as the body leaves the
queue alone and the bound covers the nodes that are left. -/
theorem foreach {queue : σ → TailQueue α β} {fault : κ} {body : α → σ → Except κ σ}
    (before : List α) (frame : ∀ a s s', body a s = .ok s' → queue s' = queue s)
    {bound : ℕ} {rest : List α} {s : σ} (represents : (queue s).Represents (before ++ rest))
    (enough : rest.length ≤ bound) :
    TailQueue.foreach queue fault body bound rest.head? s =
      rest.foldlM (fun s a => body a s) s := by
  induction rest generalizing bound before s with
  | nil => cases bound <;> rfl
  | cons a rest ih =>
    obtain ⟨bound, rfl⟩ : ∃ k, bound = k + 1 := ⟨bound - 1, by simp at enough; omega⟩
    simp only [List.head?_cons, TailQueue.foreach, List.foldlM_cons]
    cases ran : body a s with
    | error stop => rfl
    | ok s' =>
      have same := frame a s s' ran
      obtain ⟨n, read, next, _⟩ := represents.linked before a rest rfl
      change (match (queue s').node a with
        | none => Except.error fault
        | some n => TailQueue.foreach queue fault body bound n.tqeNext s') = _
      rw [same, read]
      change TailQueue.foreach queue fault body bound n.tqeNext s' = _
      rw [next]
      apply ih (before ++ [a])
      · rw [same]
        simpa using represents
      · simpa using enough

end Represents

end TailQueue

end MerlinC.Math
