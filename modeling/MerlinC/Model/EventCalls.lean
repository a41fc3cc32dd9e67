import Mathlib.Data.Finset.Card
import MerlinC.Model.EventBase

/-! # What the calls on an event base do

An agenda is what the users of an event base know of their events. The heap, the queue and the
counts of a base agree with the flags of its events, and every call changes the agenda as it is to.
-/

namespace MerlinC.Model

namespace Timeval

/-- The microseconds are less than a second. -/
def Normal (tv : Timeval) : Prop := 0 ≤ tv.usec ∧ tv.usec < 1000000

instance (tv : Timeval) : Decidable tv.Normal :=
  inferInstanceAs (Decidable (0 ≤ tv.usec ∧ tv.usec < 1000000))

theorem zero_normal : zero.Normal := ⟨le_refl _, by decide⟩

theorem Normal.add {tv uv : Timeval} (normal : tv.Normal) (normal' : uv.Normal) :
    (tv.add uv).Normal := by
  unfold Normal Timeval.add at *
  dsimp only
  split <;> dsimp only <;> omega

theorem add_zero {tv : Timeval} (normal : tv.Normal) : tv.add zero = tv := by
  unfold Timeval.add zero
  dsimp only
  rw [if_neg (by have := normal.2; omega), Int.add_zero, Int.add_zero]

/-- What is left of a time until a later one. -/
theorem sub_of_lt {now tv : Timeval} (normal : now.Normal) (normal' : tv.Normal)
    (later : now < tv) :
    0 ≤ (tv.sub now).sec ∧ (tv.sub now).Normal ∧ now.add (tv.sub now) = tv := by
  have later := greater_iff.mpr later
  obtain ⟨sec, usec⟩ := now
  obtain ⟨sec', usec'⟩ := tv
  have sooner : sec < sec' ∨ sec = sec' ∧ usec < usec' := by
    unfold greater at later
    split at later
    · next same => exact .inr ⟨same.symm, of_decide_eq_true later⟩
    · exact .inl (of_decide_eq_true later)
  unfold Normal Timeval.add Timeval.sub at *
  dsimp only at *
  split
  · refine ⟨by dsimp only; omega, by dsimp only; omega, ?_⟩
    rw [if_pos (by dsimp only; omega)]
    congr 1 <;> dsimp only <;> omega
  · refine ⟨by dsimp only; omega, by dsimp only; omega, ?_⟩
    rw [if_neg (by dsimp only; omega)]
    congr 1 <;> dsimp only <;> omega

end Timeval

variable {ι : Type} [DecidableEq ι]

/-- Which events are registered, scheduled and active, what they are told and when they are due. -/
structure Agenda (ι : Type) where
  flags : ι → EventFlags
  res : ι → ℕ
  ioTimeout : ι → Timeval
  timeout : ι → Timeval
  active : List ι

namespace Agenda

def setFlags (a : Agenda ι) (ev : ι) (flags : EventFlags) : Agenda ι :=
  { a with flags := Function.update a.flags ev flags }

def register (a : Agenda ι) (ev : ι) : Agenda ι :=
  a.setFlags ev { a.flags ev with inserted := true }

def unregister (a : Agenda ι) (ev : ι) : Agenda ι :=
  a.setFlags ev { a.flags ev with inserted := false }

def unschedule (a : Agenda ι) (ev : ι) : Agenda ι :=
  a.setFlags ev { a.flags ev with timeout := false }

def deactivate (a : Agenda ι) (ev : ι) : Agenda ι :=
  { a with active := a.active.erase ev }.setFlags ev { a.flags ev with active := false }

/-- An event that is not active becomes active, and one that is is told more. -/
def activate (a : Agenda ι) (ev : ι) (res : ℕ) : Agenda ι :=
  if (a.flags ev).active then { a with res := Function.update a.res ev (a.res ev ||| res) }
  else setFlags { a with res := Function.update a.res ev res, active := a.active ++ [ev] } ev
    { a.flags ev with active := true }

/-- Take an event out of everything. -/
def del (a : Agenda ι) (ev : ι) : Agenda ι :=
  { a with active := a.active.erase ev }.setFlags ev ⟨false, false, false⟩

/-- What happens to an event that is due. -/
def fire (a : Agenda ι) (ev : ι) : Agenda ι := (a.del ev).activate ev EventBase.evTimeout

/-- An event is no longer active for having been due. -/
def dropFired (a : Agenda ι) (ev : ι) : Agenda ι :=
  if (a.flags ev).active && (a.res ev).testBit 0 then a.deactivate ev else a

/-- An event is due at a time. -/
def dueAt (a : Agenda ι) (ev : ι) (tv : Timeval) : Agenda ι :=
  setFlags { a with timeout := Function.update a.timeout ev tv } ev
    { a.flags ev with timeout := true }

def schedule (kind : ι → EventKind) (now : Timeval) (a : Agenda ι) (ev : ι) (tv : Timeval)
    (absolute : Bool) : Agenda ι :=
  let a := if (kind ev).persist && !absolute then
      { a with ioTimeout := Function.update a.ioTimeout ev tv } else a
  (a.dropFired ev).dueAt ev (if absolute then tv else now.add tv)

/-- An event that waits for a descriptor is registered unless it is, or is active. -/
def enlist (kind : ι → EventKind) (a : Agenda ι) (ev : ι) : Agenda ι :=
  if (kind ev).io && !((a.flags ev).inserted || (a.flags ev).active) then a.register ev else a

def add (kind : ι → EventKind) (now : Timeval) (a : Agenda ι) (ev : ι) (tv : Option Timeval)
    (absolute : Bool) : Agenda ι :=
  match tv with
  | none => a.enlist kind ev
  | some tv => (a.enlist kind ev).schedule kind now ev tv absolute

/-- When a persistent event is due again: an interval after it was last due, or else after now. -/
def nextRun (now : Timeval) (a : Agenda ι) (ev : ι) : Timeval :=
  let delay := a.ioTimeout ev
  let runAt := (if (a.res ev).testBit 0 then a.timeout ev else now).add delay
  if now.greater runAt then now.add delay else runAt

/-- A persistent event with an interval is scheduled again. -/
def renew (kind : ι → EventKind) (now : Timeval) (a : Agenda ι) (ev : ι) : Agenda ι :=
  if (a.ioTimeout ev).sec ≠ 0 ∨ (a.ioTimeout ev).usec ≠ 0 then
    a.add kind now ev (some (a.nextRun now ev)) true
  else a

theorem res_renew (kind : ι → EventKind) (now : Timeval) (a : Agenda ι) (ev : ι) :
    (a.renew kind now ev).res = a.res := by
  unfold renew add schedule enlist dropFired
  dsimp only
  repeat' split
  all_goals rfl

/-- The times an agenda keeps are normal. -/
def Timed (a : Agenda ι) : Prop := ∀ ev, (a.timeout ev).Normal ∧ (a.ioTimeout ev).Normal

namespace Timed

variable {a : Agenda ι} (timed : a.Timed)
include timed

omit [DecidableEq ι] in
theorem of_eq {a' : Agenda ι} (timeout : a'.timeout = a.timeout)
    (ioTimeout : a'.ioTimeout = a.ioTimeout) : a'.Timed := by
  intro ev
  rw [timeout, ioTimeout]
  exact timed ev

theorem activate (ev : ι) (res : ℕ) : (a.activate ev res).Timed := by
  unfold Agenda.activate
  split
  · exact timed.of_eq rfl rfl
  · exact timed.of_eq rfl rfl

theorem fires (fired : List ι) : (fired.foldl fire a).Timed := by
  induction fired generalizing a with
  | nil => exact timed
  | cons ev later ih =>
    have deleted : (a.del ev).Timed := timed.of_eq rfl rfl
    exact ih (deleted.activate ev _)

theorem dropFired (ev : ι) : (a.dropFired ev).Timed := by
  unfold Agenda.dropFired
  split
  · exact timed.of_eq rfl rfl
  · exact timed

theorem dueAt (ev : ι) {tv : Timeval} (normal : tv.Normal) : (a.dueAt ev tv).Timed := by
  intro x
  refine ⟨?_, (timed x).2⟩
  change (Function.update a.timeout ev tv x).Normal
  rcases eq_or_ne x ev with rfl | apart
  · rwa [Function.update_self]
  · rw [Function.update_of_ne apart]
    exact (timed x).1

theorem enlist (kind : ι → EventKind) (ev : ι) : (a.enlist kind ev).Timed := by
  unfold Agenda.enlist
  split
  · exact timed.of_eq rfl rfl
  · exact timed

theorem schedule (kind : ι → EventKind) {now : Timeval} (normal : now.Normal) (ev : ι)
    {tv : Timeval} (normal' : tv.Normal) (absolute : Bool) :
    (a.schedule kind now ev tv absolute).Timed := by
  unfold Agenda.schedule
  dsimp only
  have kept : Timed (if ((kind ev).persist && !absolute) = true then
      { a with ioTimeout := Function.update a.ioTimeout ev tv } else a) := by
    split
    · intro x
      refine ⟨(timed x).1, ?_⟩
      change (Function.update a.ioTimeout ev tv x).Normal
      rcases eq_or_ne x ev with rfl | apart
      · rwa [Function.update_self]
      · rw [Function.update_of_ne apart]
        exact (timed x).2
    · exact timed
  apply (kept.dropFired ev).dueAt
  split
  · exact normal'
  · exact normal.add normal'

theorem add (kind : ι → EventKind) {now : Timeval} (normal : now.Normal) (ev : ι)
    {tv : Option Timeval} (normal' : ∀ given ∈ tv, given.Normal) (absolute : Bool) :
    (a.add kind now ev tv absolute).Timed := by
  cases tv with
  | none => exact timed.enlist kind ev
  | some tv => exact (timed.enlist kind ev).schedule kind normal ev (normal' tv rfl) absolute

omit [DecidableEq ι] in
theorem nextRun {now : Timeval} (normal : now.Normal) (ev : ι) : (a.nextRun now ev).Normal := by
  unfold Agenda.nextRun
  dsimp only
  split
  · split
    · exact normal.add (timed ev).2
    · exact (timed ev).1.add (timed ev).2
  · split <;> exact normal.add (timed ev).2

theorem renew (kind : ι → EventKind) {now : Timeval} (normal : now.Normal) (ev : ι) :
    (a.renew kind now ev).Timed := by
  unfold Agenda.renew
  split
  · apply timed.add kind normal ev
    rintro tv ⟨⟩
    exact timed.nextRun normal ev
  · exact timed

end Timed

/-- What is said of how long to wait. -/
def Waits (a : Agenda ι) (now : Timeval) : Option Timeval → Prop
  | none => ∀ ev, (a.flags ev).timeout = false
  | some tv => ∃ ev, (a.flags ev).timeout = true ∧
      (∀ other, (a.flags other).timeout = true → a.timeout ev ≤ a.timeout other) ∧
      if now < a.timeout ev then 0 ≤ tv.sec ∧ tv.Normal ∧ now.add tv = a.timeout ev else tv = .zero

/-- The events that are due, in the order in which they are. -/
structure Due (a : Agenda ι) (now : Timeval) (fired : List ι) : Prop where
  members : ∀ ev, ev ∈ fired ↔ (a.flags ev).timeout = true ∧ a.timeout ev ≤ now
  once : fired.Nodup
  ordered : fired.Pairwise fun ev later => a.timeout ev ≤ a.timeout later

theorem timeout_fire (a : Agenda ι) (ev : ι) : (a.fire ev).timeout = a.timeout := by
  unfold fire activate
  split <;> rfl

variable {a : Agenda ι} {ev : ι}

theorem setFlags_self {flags : EventFlags} (same : flags = a.flags ev) :
    a.setFlags ev flags = a := by
  unfold setFlags
  rw [same, Function.update_eq_self]

theorem unschedule_of (idle : (a.flags ev).timeout = false) : a.unschedule ev = a := by
  apply setFlags_self
  rw [← idle]

theorem unregister_of (idle : (a.flags ev).inserted = false) : a.unregister ev = a := by
  apply setFlags_self
  rw [← idle]

theorem deactivate_of (idle : (a.flags ev).active = false) (absent : ev ∉ a.active) :
    a.deactivate ev = a := by
  unfold deactivate
  rw [List.erase_of_not_mem absent]
  apply setFlags_self
  rw [← idle]

theorem del_eq : ((a.unschedule ev).deactivate ev).unregister ev = a.del ev := by
  simp [del, unschedule, deactivate, unregister, setFlags]

theorem dueAt_unscheduled (tv : Timeval) :
    ((a.unschedule ev).dropFired ev).dueAt ev tv = (a.dropFired ev).dueAt ev tv := by
  have same : ((a.unschedule ev).flags ev).active = (a.flags ev).active := by
    simp [unschedule, setFlags]
  unfold dropFired
  rw [same]
  change dueAt (if ((a.flags ev).active && (a.res ev).testBit 0) = true then _ else _) ev tv = _
  split
  · simp [unschedule, deactivate, dueAt, setFlags]
  · simp [unschedule, dueAt, setFlags]

end Agenda

namespace EventBase

def agenda (base : EventBase ι) : Agenda ι where
  flags := base.flags
  res := base.res
  ioTimeout := base.ioTimeout
  timeout := base.timeheap.timeout
  active := base.activequeue

/-- What every base satisfies between calls: the heap holds the events that are flagged as
scheduled, the queue those flagged as active, and the counts count the flags. -/
structure Sound (base : EventBase ι) (scheduled inserted : Finset ι) : Prop where
  represents : base.timeheap.Represents scheduled
  timeouts : ∀ ev, ev ∈ scheduled ↔ (base.flags ev).timeout = true
  inserts : ∀ ev, ev ∈ inserted ↔ (base.flags ev).inserted = true
  actives : ∀ ev, ev ∈ base.activequeue ↔ (base.flags ev).active = true
  nodup : base.activequeue.Nodup
  count : base.eventCount = scheduled.card + inserted.card + base.activequeue.length
  countActive : base.eventCountActive = base.activequeue.length

variable {base : EventBase ι} {scheduled inserted : Finset ι} {ev : ι}

/-- A set that stands for a flag still does when both change alike at one event. -/
theorem flagged {flags : ι → EventFlags} {part : EventFlags → Bool} {member member' : ι → Prop}
    (known : ∀ x, member x ↔ part (flags x) = true) {changed : EventFlags}
    (here : member' ev ↔ part changed = true)
    (others : ∀ x, x ≠ ev → (member' x ↔ member x)) (x : ι) :
    member' x ↔ part (Function.update flags ev changed x) = true := by
  rcases eq_or_ne x ev with rfl | apart
  · rwa [Function.update_self]
  · rw [others x apart, known, Function.update_of_ne apart]

omit [DecidableEq ι] in
theorem new_sound [Inhabited ι] : (new : EventBase ι).Sound ∅ ∅ where
  represents := TimeHeap.new_represents _
  timeouts := by simp [new]
  inserts := by simp [new]
  actives := by simp [new]
  nodup := List.nodup_nil
  count := rfl
  countActive := rfl

namespace Sound

variable (sound : base.Sound scheduled inserted)
include sound

omit [DecidableEq ι] in
theorem absent (idle : (base.flags ev).active = false) : ev ∉ base.activequeue := fun member =>
  Bool.false_ne_true (idle.symm.trans ((sound.actives ev).mp member))

theorem insertInserted (idle : (base.flags ev).inserted = false) :
    ∃ base', base.insertInserted ev = some base' ∧ base'.Sound scheduled (insert ev inserted) ∧
      base'.agenda = base.agenda.register ev ∧ base'.timeheap = base.timeheap := by
  have fresh : ev ∉ inserted := fun member =>
    Bool.false_ne_true (idle.symm.trans ((sound.inserts ev).mp member))
  refine ⟨_, if_neg (by simp [idle]), ?_, rfl, rfl⟩
  constructor
  · exact sound.represents
  · exact flagged sound.timeouts (sound.timeouts ev) fun _ _ => Iff.rfl
  · exact flagged sound.inserts (by simp) fun x apart => by simp [apart]
  · exact flagged sound.actives (sound.actives ev) fun _ _ => Iff.rfl
  · exact sound.nodup
  · change base.eventCount + 1 = _ + _ + base.activequeue.length
    rw [Finset.card_insert_of_notMem fresh, sound.count]
    omega
  · exact sound.countActive

theorem dropInserted (ev : ι) : ∃ base', base.dropInserted ev = some base' ∧
      base'.Sound scheduled (inserted.erase ev) ∧ base'.agenda = base.agenda.unregister ev ∧
      base'.timeheap = base.timeheap := by
  unfold EventBase.dropInserted
  split
  · next there =>
    have member := (sound.inserts ev).mpr there
    refine ⟨_, if_neg (by simp [there]), ?_, rfl, rfl⟩
    constructor
    · exact sound.represents
    · exact flagged sound.timeouts (sound.timeouts ev) fun _ _ => Iff.rfl
    · exact flagged sound.inserts (by simp) fun x apart => by simp [apart]
    · exact flagged sound.actives (sound.actives ev) fun _ _ => Iff.rfl
    · exact sound.nodup
    · change base.eventCount - 1 = _ + _ + base.activequeue.length
      have := Finset.card_erase_add_one member
      rw [sound.count]
      omega
    · exact sound.countActive
  · next idle =>
    have idle := Bool.eq_false_iff.mpr idle
    refine ⟨base, rfl, ?_, (Agenda.unregister_of idle).symm, rfl⟩
    rwa [Finset.erase_eq_of_notMem fun member =>
      Bool.false_ne_true (idle.symm.trans ((sound.inserts ev).mp member))]

theorem insertActive (idle : (base.flags ev).active = false) (res : ι → ℕ) :
    Sound ({ base with res }.insertActive ev) scheduled inserted ∧
      ({ base with res }.insertActive ev).timeheap = base.timeheap ∧
      ({ base with res }.insertActive ev).agenda =
        Agenda.setFlags { base.agenda with res, active := base.activequeue ++ [ev] } ev
          { base.flags ev with active := true } := by
  have fresh := sound.absent idle
  unfold EventBase.insertActive
  rw [if_neg (by simp [idle])]
  refine ⟨?_, rfl, rfl⟩
  constructor
  · exact sound.represents
  · exact flagged sound.timeouts (sound.timeouts ev) fun _ _ => Iff.rfl
  · exact flagged sound.inserts (sound.inserts ev) fun _ _ => Iff.rfl
  · exact flagged sound.actives (by simp [setFlags]) fun x apart => by simp [setFlags, apart]
  · exact List.nodup_append.mpr ⟨sound.nodup, List.nodup_singleton ev, fun x member y other => by
      rintro rfl
      exact fresh (List.mem_singleton.mp other ▸ member)⟩
  · change base.eventCount + 1 = _ + _ + (base.activequeue ++ [ev]).length
    rw [List.length_append, sound.count]
    rfl
  · change base.eventCountActive + 1 = (base.activequeue ++ [ev]).length
    rw [List.length_append, sound.countActive]
    rfl

theorem dropActive (ev : ι) : ∃ base', base.dropActive ev = some base' ∧
      base'.Sound scheduled inserted ∧ base'.agenda = base.agenda.deactivate ev ∧
      base'.timeheap = base.timeheap := by
  unfold EventBase.dropActive
  split
  · next there =>
    have member := (sound.actives ev).mpr there
    have shorter := List.length_erase_of_mem member
    have some_ := List.length_pos_of_mem member
    refine ⟨_, if_neg (by simp [there]), ?_, rfl, rfl⟩
    constructor
    · exact sound.represents
    · exact flagged sound.timeouts (sound.timeouts ev) fun _ _ => Iff.rfl
    · exact flagged sound.inserts (sound.inserts ev) fun _ _ => Iff.rfl
    · exact flagged sound.actives (by simp [setFlags, sound.nodup.mem_erase_iff])
        fun x apart => List.mem_erase_of_ne apart
    · exact sound.nodup.erase ev
    · change base.eventCount - 1 = _ + _ + (base.activequeue.erase ev).length
      rw [sound.count]
      omega
    · change base.eventCountActive - 1 = (base.activequeue.erase ev).length
      rw [sound.countActive, shorter]
  · next idle =>
    have idle := Bool.eq_false_iff.mpr idle
    exact ⟨base, rfl, sound, (Agenda.deactivate_of idle (sound.absent idle)).symm, rfl⟩

theorem dropTimeout (ev : ι) : ∃ base', base.dropTimeout ev = some base' ∧
      base'.Sound (scheduled.erase ev) inserted ∧ base'.agenda = base.agenda.unschedule ev ∧
      base'.timeheap.p.length = base.timeheap.p.length ∧
      base'.timeheap.n + (if ev ∈ scheduled then 1 else 0) = base.timeheap.n := by
  obtain ⟨heap, erased, timeout, size, room, represents⟩ := TimeHeap.erase_eq sound.represents ev
  unfold EventBase.dropTimeout
  split
  · next there =>
    have member := (sound.timeouts ev).mpr there
    refine ⟨setFlags { base with eventCount := base.eventCount - 1, timeheap := heap } ev
      { base.flags ev with timeout := false }, ?_, ?_, ?_, room, ?_⟩
    · unfold EventBase.removeTimeout
      rw [if_neg (by simp [there]), erased]
      rfl
    · constructor
      · exact represents
      · exact flagged sound.timeouts (by simp) fun x apart => by simp [apart]
      · exact flagged sound.inserts (sound.inserts ev) fun _ _ => Iff.rfl
      · exact flagged sound.actives (sound.actives ev) fun _ _ => Iff.rfl
      · exact sound.nodup
      · change base.eventCount - 1 = _ + _ + base.activequeue.length
        have := Finset.card_erase_add_one member
        rw [sound.count]
        omega
      · exact sound.countActive
    · unfold agenda Agenda.unschedule Agenda.setFlags setFlags
      rw [timeout]
    · rw [if_pos member]
      exact size member
  · next idle =>
    have idle := Bool.eq_false_iff.mpr idle
    have absent : ev ∉ scheduled := fun member =>
      Bool.false_ne_true (idle.symm.trans ((sound.timeouts ev).mp member))
    refine ⟨base, rfl, ?_, (Agenda.unschedule_of idle).symm, rfl, ?_⟩
    · rwa [Finset.erase_eq_of_notMem absent]
    · rw [if_neg absent, Nat.add_zero]

theorem dropFired (ev : ι) : ∃ base', base.dropFired ev = some base' ∧
    base'.Sound scheduled inserted ∧ base'.timeheap = base.timeheap ∧
    base'.agenda = base.agenda.dropFired ev := by
  unfold EventBase.dropFired
  split
  · next fired =>
    obtain ⟨base', done, sound', agenda, heap⟩ := sound.dropActive ev
    unfold EventBase.dropActive at done
    rw [if_pos (Bool.and_eq_true_iff.mp fired).1] at done
    exact ⟨base', done, sound', heap, agenda.trans (if_pos fired).symm⟩
  · next spared => exact ⟨base, rfl, sound, rfl, (if_neg spared).symm⟩

/-- An event is scheduled when there is room in the heap. -/
theorem insertTimeout (realloc : ℕ → Bool) (idle : ev ∉ scheduled)
    (room : base.timeheap.n + 1 ≤ base.timeheap.p.length) (tv : Timeval) :
    ∃ base', EventBase.insertTimeout realloc { base with timeheap := { base.timeheap with
        timeout := Function.update base.timeheap.timeout ev tv } } ev = some base' ∧
      base'.Sound (insert ev scheduled) inserted ∧
      base'.agenda = base.agenda.dueAt ev tv := by
  obtain ⟨ok, heap, pushed, timeout, represents, refused⟩ :=
    TimeHeap.push_eq realloc (sound.represents.retime idle tv) idle
  cases ok with
  | false =>
    have full : base.timeheap.p.length < base.timeheap.n + 1 := (refused rfl).1
    omega
  | true =>
    have unflagged : (base.flags ev).timeout = false :=
      Bool.eq_false_iff.mpr fun there => idle ((sound.timeouts ev).mpr there)
    refine ⟨setFlags { base with eventCount := base.eventCount + 1, timeheap := heap } ev
      { base.flags ev with timeout := true }, ?_, ?_, ?_⟩
    · unfold EventBase.insertTimeout
      rw [if_neg (by simp [unflagged]), pushed]
      rfl
    · constructor
      · exact represents
      · exact flagged sound.timeouts (by simp) fun x apart => by simp [apart]
      · exact flagged sound.inserts (sound.inserts ev) fun _ _ => Iff.rfl
      · exact flagged sound.actives (sound.actives ev) fun _ _ => Iff.rfl
      · exact sound.nodup
      · change base.eventCount + 1 = _ + _ + base.activequeue.length
        rw [Finset.card_insert_of_notMem idle, sound.count]
        omega
      · exact sound.countActive
    · unfold agenda Agenda.dueAt Agenda.setFlags setFlags
      rw [timeout]

/-- `event_del_nolock_` -/
theorem unlink_eq (ev : ι) : ∃ base', base.unlink ev = some base' ∧
    base'.Sound (scheduled.erase ev) (inserted.erase ev) ∧ base'.agenda = base.agenda.del ev ∧
    base'.timeheap.n + (if ev ∈ scheduled then 1 else 0) = base.timeheap.n := by
  obtain ⟨first, one, sound, agenda, -, size⟩ := sound.dropTimeout ev
  obtain ⟨second, two, sound, agenda', heap⟩ := sound.dropActive ev
  obtain ⟨third, three, sound, agenda'', heap'⟩ := sound.dropInserted ev
  refine ⟨third, ?_, sound, ?_, ?_⟩
  · unfold unlink
    simp only [one, two, three, Option.bind_eq_bind, Option.bind_some]
  · rw [agenda'', agenda', agenda, Agenda.del_eq]
  · rwa [heap', heap]

/-- `event_active_nolock_` -/
theorem activate_eq (ev : ι) (res : ℕ) : (base.activate ev res).Sound scheduled inserted ∧
    (base.activate ev res).agenda = base.agenda.activate ev res ∧
    (base.activate ev res).timeheap = base.timeheap := by
  unfold activate Agenda.activate
  change _ ∧ _ = (if (base.flags ev).active then _ else _) ∧ _
  split
  · exact ⟨⟨sound.represents, sound.timeouts, sound.inserts, sound.actives, sound.nodup,
      sound.count, sound.countActive⟩, rfl, rfl⟩
  · next idle =>
    obtain ⟨sound', heap, agenda⟩ := sound.insertActive (Bool.eq_false_iff.mpr idle)
      (Function.update base.res ev res)
    exact ⟨sound', agenda, heap⟩

/-- The part of `event_add_nolock_` that changes the timeout -/
theorem schedule_eq (realloc : ℕ → Bool) (now : Timeval) (kind : ι → EventKind) (tv : Timeval)
    (absolute : Bool)
    (room : ev ∈ scheduled ∨ base.timeheap.n + 1 ≤ base.timeheap.p.length) :
    ∃ base', base.schedule realloc now kind ev tv absolute = some base' ∧
      base'.Sound (insert ev scheduled) inserted ∧
      base'.agenda = base.agenda.schedule kind now ev tv absolute := by
  unfold schedule Agenda.schedule
  dsimp only
  generalize kept : (if ((kind ev).persist && !absolute) = true then
    { base with ioTimeout := Function.update base.ioTimeout ev tv } else base) = base0
  have sound0 : base0.Sound scheduled inserted := by
    subst kept
    split
    · exact ⟨sound.represents, sound.timeouts, sound.inserts, sound.actives, sound.nodup,
        sound.count, sound.countActive⟩
    · exact sound
  have heap0 : base0.timeheap = base.timeheap := by
    subst kept
    split <;> rfl
  have agenda0 : (if ((kind ev).persist && !absolute) = true then
      { base.agenda with ioTimeout := Function.update base.agenda.ioTimeout ev tv }
      else base.agenda) = base0.agenda := by
    subst kept
    split <;> rfl
  rw [agenda0]
  obtain ⟨first, one, sound1, agenda1, length, size⟩ := sound0.dropTimeout ev
  obtain ⟨second, two, sound2, heap2, agenda2⟩ := sound1.dropFired ev
  have room : second.timeheap.n + 1 ≤ second.timeheap.p.length := by
    obtain ⟨q, holds, -, -⟩ := sound.represents.heap
    have bound := holds.room
    rw [heap2, length, heap0]
    rw [heap0] at size
    split at size
    · omega
    · next absent =>
      have := room.resolve_left absent
      omega
  obtain ⟨third, three, sound3, agenda3⟩ := sound2.insertTimeout realloc
    (Finset.notMem_erase ev scheduled) room (if absolute = true then tv else now.add tv)
  refine ⟨third, ?_, ?_, ?_⟩
  · simp only [one, two, Option.bind_eq_bind, Option.bind_some]
    exact three
  · have same : insert ev (scheduled.erase ev) = insert ev scheduled := by
      ext x
      by_cases here : x = ev <;> simp [here]
    rwa [same] at sound3
  · rw [agenda3, agenda2, agenda1, Agenda.dueAt_unscheduled]

/-- The part of `event_add_nolock_` that asks the back end -/
theorem register_eq (evmap : Bool) (kind : ι → EventKind) (ev : ι) :
    base.register evmap kind ev = some (false, base) ∧ evmap = false ∨
      ∃ base' inserted', base.register evmap kind ev = some (true, base') ∧
        base'.Sound scheduled inserted' ∧ base'.agenda = base.agenda.enlist kind ev ∧
        base'.timeheap = base.timeheap := by
  unfold register
  split
  · next wanted =>
    cases evmap with
    | false => exact .inl ⟨rfl, rfl⟩
    | true =>
      have idle : (base.flags ev).inserted = false := by
        simp only [Bool.and_eq_true, Bool.not_eq_true', Bool.or_eq_false_iff] at wanted
        exact wanted.2.1
      obtain ⟨base', done, sound', agenda, heap⟩ := sound.insertInserted idle
      refine .inr ⟨base', _, ?_, sound', agenda.trans (if_pos wanted).symm, heap⟩
      rw [if_pos rfl, done]
      rfl
  · next unwanted => exact .inr ⟨base, _, rfl, sound, (if_neg unwanted).symm, rfl⟩

/-- `event_add_nolock_` does what it is to, or fails and changes nothing. -/
theorem add_eq (realloc : ℕ → Bool) (evmap : Bool) (now : Timeval) (kind : ι → EventKind) (ev : ι)
    (tv : Option Timeval) (absolute : Bool) :
    ∃ ok base', base.add realloc evmap now kind ev tv absolute = some (ok, base') ∧
      (∃ scheduled' inserted', base'.Sound scheduled' inserted') ∧
      base'.agenda = (if ok then base.agenda.add kind now ev tv absolute else base.agenda) ∧
      (ok = false → evmap = false ∨ ∃ a, realloc a = false) := by
  have reserving : ∃ reserved heap, (if (tv.isSome && !(base.flags ev).timeout) = true then
      base.timeheap.reserve realloc (1 + base.timeheap.n) else (true, base.timeheap)) =
        (reserved, heap) ∧ heap.Represents scheduled ∧ heap.timeout = base.timeheap.timeout ∧
      (reserved = true → tv.isSome = true → ev ∈ scheduled ∨ heap.n + 1 ≤ heap.p.length) ∧
      (reserved = false → ∃ a, realloc a = false) := by
    split
    · obtain ⟨reserved, heap, done, represents, size, timeout, room, refused⟩ :=
        TimeHeap.reserve_eq realloc sound.represents (1 + base.timeheap.n)
      refine ⟨reserved, heap, done, represents, timeout, fun there _ => .inr ?_,
        fun failed => (refused failed).2.2⟩
      have := room there
      omega
    · next unneeded =>
      refine ⟨true, _, rfl, sound.represents, rfl, fun _ given => .inl ?_, by simp⟩
      simpa [given, sound.timeouts] using unneeded
  obtain ⟨reserved, heap, reserve, represents, timeout, room, refused⟩ := reserving
  have sound0 : Sound { base with timeheap := heap } scheduled inserted :=
    ⟨represents, sound.timeouts, sound.inserts, sound.actives, sound.nodup, sound.count,
      sound.countActive⟩
  have agenda0 : agenda { base with timeheap := heap } = base.agenda := by
    unfold agenda
    rw [timeout]
  unfold add
  rw [reserve]
  cases reserved with
  | false => exact ⟨false, _, rfl, ⟨_, _, sound0⟩, agenda0, fun _ => .inr (refused rfl)⟩
  | true =>
    dsimp only
    rw [if_neg Bool.true_eq_false.mp]
    rcases sound0.register_eq evmap kind ev with ⟨failed, none_⟩ | ⟨middle, inserted', done, sound',
      agenda', heap'⟩
    · rw [failed]
      exact ⟨false, _, rfl, ⟨_, _, sound0⟩, agenda0, fun _ => .inl none_⟩
    · rw [done, Option.bind_some]
      rw [agenda0] at agenda'
      cases tv with
      | none => exact ⟨true, middle, rfl, ⟨_, _, sound'⟩, agenda', by simp⟩
      | some tv =>
        obtain ⟨last, scheduled_, sound'', agenda''⟩ := sound'.schedule_eq realloc now kind tv
          absolute (by rw [heap']; exact room rfl rfl)
        refine ⟨true, last, ?_, ⟨_, _, sound''⟩, ?_, by simp⟩
        · dsimp only
          rw [scheduled_]
          rfl
        · rw [agenda'', agenda']
          rfl

omit [DecidableEq ι] in
theorem due_iff (now : Timeval) (ev : ι) : ev ∈ scheduled ∧ base.timeheap.timeout ev ≤ now ↔
    (base.agenda.flags ev).timeout = true ∧ base.agenda.timeout ev ≤ now :=
  and_congr_left fun _ => sound.timeouts ev

/-- The loop of `timeout_process` stops when nothing is due. -/
theorem timeoutLoop_stop (now : Timeval) (quiet : ∀ ev ∈ scheduled, now < base.timeheap.timeout ev)
    (fuel : ℕ) : timeoutLoop now fuel base = some base ∧ base.agenda.Due now [] := by
  constructor
  · unfold timeoutLoop
    rcases sound.represents.top_eq with ⟨-, -, top⟩ | ⟨ev, top, -, member, -, -⟩
    · simp only [top, Option.bind_eq_bind, Option.bind_some]
    · simp only [top, Option.bind_eq_bind, Option.bind_some]
      rw [if_pos (Timeval.greater_iff.mpr (quiet ev member))]
  · refine ⟨fun ev => ?_, List.nodup_nil, .nil⟩
    rw [← sound.due_iff now ev]
    constructor
    · exact fun member => absurd member List.not_mem_nil
    · exact fun ⟨member, due⟩ => absurd due (not_le.mpr (quiet ev member))

/-- The loop of `timeout_process` fires the events that are due in order. -/
theorem timeoutLoop_eq (now : Timeval) (fuel : ℕ) (enough : base.timeheap.n ≤ fuel) :
    ∃ fired base', timeoutLoop now fuel base = some base' ∧
      (∃ scheduled' inserted', base'.Sound scheduled' inserted') ∧ base.agenda.Due now fired ∧
      base'.agenda = fired.foldl Agenda.fire base.agenda := by
  induction fuel generalizing base scheduled inserted with
  | zero =>
    rcases sound.represents.top_eq with ⟨rfl, -, -⟩ | ⟨-, -, positive, -, -, -⟩
    · obtain ⟨stops, due⟩ := sound.timeoutLoop_stop now (by simp) 0
      exact ⟨[], base, stops, ⟨_, _, sound⟩, due, rfl⟩
    · omega
  | succ fuel ih =>
    by_cases quiet : ∀ ev ∈ scheduled, now < base.timeheap.timeout ev
    · obtain ⟨stops, due⟩ := sound.timeoutLoop_stop now quiet (fuel + 1)
      exact ⟨[], base, stops, ⟨_, _, sound⟩, due, rfl⟩
    rcases sound.represents.top_eq with ⟨rfl, -, -⟩ | ⟨ev, top, -, member, -, least⟩
    · exact absurd (by simp) quiet
    -- The first event is due, as another one is that is not due before it.
    have dueNow : base.timeheap.timeout ev ≤ now := by
      by_contra early
      exact quiet fun x other => (not_le.mp early).trans_le (least x other)
    obtain ⟨middle, deleted, sound1, agenda1, size⟩ := sound.unlink_eq ev
    obtain ⟨sound2, agenda2, heap2⟩ := sound1.activate_eq ev evTimeout
    have agenda2 : (middle.activate ev evTimeout).agenda = base.agenda.fire ev := by
      rw [agenda2, agenda1]
      rfl
    rw [if_pos member] at size
    obtain ⟨fired, last, done, sound3, due, agenda3⟩ := ih sound2 (by rw [heap2]; omega)
    have timeouts : (middle.activate ev evTimeout).agenda.timeout = base.agenda.timeout := by
      rw [agenda2, Agenda.timeout_fire]
    have others (x : ι) : x ∈ fired ↔ x ≠ ev ∧ x ∈ scheduled ∧ base.timeheap.timeout x ≤ now := by
      rw [due.members, ← sound2.due_iff now x, Finset.mem_erase, and_assoc]
      change _ ∧ _ ∧ (middle.activate ev evTimeout).agenda.timeout x ≤ now ↔ _
      rw [timeouts]
      rfl
    refine ⟨ev :: fired, last, ?_, sound3, ⟨fun x => ?_, ?_, ?_⟩, ?_⟩
    · rw [timeoutLoop]
      simp only [top, Option.bind_eq_bind, Option.bind_some]
      rw [if_neg fun early => not_lt.mpr dueNow (Timeval.greater_iff.mp early), deleted]
      exact done
    · rw [← sound.due_iff now x, List.mem_cons, others]
      constructor
      · rintro (rfl | ⟨-, there⟩)
        · exact ⟨member, dueNow⟩
        · exact there
      · rcases eq_or_ne x ev with rfl | apart
        · exact fun _ => .inl rfl
        · exact fun there => .inr ⟨apart, there⟩
    · exact List.nodup_cons.mpr ⟨fun again => ((others ev).mp again).1 rfl, due.once⟩
    · refine List.pairwise_cons.mpr ⟨fun x later => least x ((others x).mp later).2.1, ?_⟩
      rw [← timeouts]
      exact due.ordered
    · rw [agenda3, agenda2, List.foldl_cons]

/-- `timeout_process` -/
theorem timeoutProcess_eq (now : Timeval) :
    ∃ fired base', base.timeoutProcess now = some base' ∧
      (∃ scheduled' inserted', base'.Sound scheduled' inserted') ∧ base.agenda.Due now fired ∧
      base'.agenda = fired.foldl Agenda.fire base.agenda := by
  unfold timeoutProcess
  split
  · next empty =>
    rcases sound.represents.top_eq with ⟨rfl, -, -⟩ | ⟨-, -, positive, -, -, -⟩
    · obtain ⟨-, due⟩ := sound.timeoutLoop_stop now (by simp) 0
      exact ⟨[], base, rfl, ⟨_, _, sound⟩, due, rfl⟩
    · simp only [TimeHeap.empty, decide_eq_true_eq] at empty
      omega
  · exact sound.timeoutLoop_eq now _ (Nat.le_refl _)

/-- What `event_persist_closure` does before the callback -/
theorem persistClosure_eq (realloc : ℕ → Bool) (evmap : Bool) (now : Timeval) (kind : ι → EventKind)
    (ev : ι) :
    ∃ base', base.persistClosure realloc evmap now kind ev = some base' ∧
      (∃ scheduled' inserted', base'.Sound scheduled' inserted') ∧
      (base'.agenda = base.agenda.renew kind now ev ∨
        base'.agenda = base.agenda ∧ (evmap = false ∨ ∃ a, realloc a = false)) := by
  unfold persistClosure Agenda.renew
  dsimp only
  split
  · next interval =>
    obtain ⟨ok, base', added, sound', agenda, failed⟩ := sound.add_eq realloc evmap now kind ev
      (some (base.agenda.nextRun now ev)) true
    refine ⟨base', ?_, sound', ?_⟩
    · exact congrArg (Option.map (·.2)) added
    · cases ok with
      | true => exact .inl (agenda.trans (if_pos interval).symm)
      | false => exact .inr ⟨agenda, failed rfl⟩
  · next never => exact ⟨base, rfl, ⟨_, _, sound⟩, .inl (if_neg never).symm⟩

/-- One iteration of `event_process_active_single_queue` -/
theorem processActive_eq (realloc : ℕ → Bool) (evmap : Bool) (now : Timeval)
    (kind : ι → EventKind) :
    ∃ callback base', base.processActive realloc evmap now kind = some (callback, base') ∧
      (∃ scheduled' inserted', base'.Sound scheduled' inserted') ∧
      match callback with
      | none => base.agenda.active = [] ∧ base'.agenda = base.agenda
      | some (ev, res) => base.agenda.active.head? = some ev ∧ res = base.agenda.res ev ∧
          if (kind ev).persist then
            base'.agenda = (base.agenda.deactivate ev).renew kind now ev ∨
              base'.agenda = base.agenda.deactivate ev ∧ (evmap = false ∨ ∃ a, realloc a = false)
          else base'.agenda = base.agenda.del ev := by
  unfold processActive
  cases queue : base.activequeue with
  | nil => exact ⟨none, base, rfl, ⟨_, _, sound⟩, queue, rfl⟩
  | cons ev rest =>
    have there : (base.flags ev).active = true := by
      apply (sound.actives ev).mp
      rw [queue]
      exact List.mem_cons_self
    have first : base.agenda.active.head? = some ev := by
      change base.activequeue.head? = some ev
      rw [queue, List.head?_cons]
    dsimp only
    split
    · next persist =>
      obtain ⟨middle, removed, sound1, agenda1, -⟩ := sound.dropActive ev
      rw [EventBase.dropActive, if_pos there] at removed
      obtain ⟨last, closed, sound2, outcome⟩ := sound1.persistClosure_eq realloc evmap now kind ev
      rw [agenda1] at outcome
      refine ⟨some (ev, last.res ev), last, ?_, sound2, first, ?_, ?_⟩
      · simp only [removed, closed, Option.bind_eq_bind, Option.bind_some]
      · change last.agenda.res ev = _
        rcases outcome with renewed | ⟨kept, -⟩
        · rw [renewed, Agenda.res_renew]
          rfl
        · rw [kept]
          rfl
      · rwa [if_pos persist]
    · next once =>
      obtain ⟨last, deleted, sound1, agenda1, -⟩ := sound.unlink_eq ev
      refine ⟨some (ev, last.res ev), last, ?_, ⟨_, _, sound1⟩, first, ?_, ?_⟩
      · simp only [deleted, Option.bind_eq_bind, Option.bind_some]
      · change last.agenda.res ev = _
        rw [agenda1]
        rfl
      · rwa [if_neg once]

omit [DecidableEq ι] in
/-- `timeout_next` -/
theorem timeoutNext_eq {now : Timeval} (normal : now.Normal) (timed : base.agenda.Timed) :
    ∃ wait, base.timeoutNext now = some wait ∧ base.agenda.Waits now wait := by
  unfold timeoutNext
  rcases sound.represents.top_eq with ⟨rfl, -, top⟩ | ⟨ev, top, -, member, -, least⟩
  · refine ⟨none, ?_, fun ev => ?_⟩
    · simp only [top, Option.bind_eq_bind, Option.bind_some]
    · rw [← Bool.not_eq_true, show (base.agenda.flags ev).timeout = true ↔ _ from
        (sound.timeouts ev).symm]
      exact Finset.notMem_empty ev
  · simp only [top, Option.bind_eq_bind, Option.bind_some]
    have first (other : ι) (there : (base.agenda.flags other).timeout = true) :
        base.agenda.timeout ev ≤ base.agenda.timeout other :=
      least other ((sound.timeouts other).mpr there)
    split
    · next later =>
      have later := Timeval.greater_iff.mp later
      obtain ⟨positive, normal', reached⟩ := Timeval.sub_of_lt normal (timed ev).1 later
      refine ⟨_, if_pos ⟨positive, normal'.1⟩, ev, (sound.timeouts ev).mp member, first, ?_⟩
      rw [if_pos (show now < base.agenda.timeout ev from later)]
      exact ⟨positive, normal', reached⟩
    · next due =>
      refine ⟨_, rfl, ev, (sound.timeouts ev).mp member, first, ?_⟩
      rw [if_neg fun later : now < base.agenda.timeout ev => due (Timeval.greater_iff.mpr later)]

end Sound

end EventBase

/-- What a call finds: whether there is memory, whether the back end takes a descriptor, and what
time it is. -/
structure Moment where
  realloc : ℕ → Bool
  evmap : Bool
  now : Timeval

/-- Nothing is refused. -/
def Moment.Grants (moment : Moment) : Prop :=
  moment.evmap = true ∧ ∀ a, moment.realloc a = true

theorem Moment.not_grants {moment : Moment}
    (refused : moment.evmap = false ∨ ∃ a, moment.realloc a = false) : ¬moment.Grants := by
  rintro ⟨taken, enough⟩
  rcases refused with none_ | ⟨a, none_⟩
  · exact Bool.false_ne_true (none_.symm.trans taken)
  · exact Bool.false_ne_true (none_.symm.trans (enough a))

/-- A call on an event base, by the program or by the event loop. -/
inductive BaseCall (ι : Type) where
  | add (moment : Moment) (ev : ι) (tv : Option Timeval)
  | del (evmap : Bool) (ev : ι)
  | active (ev : ι) (res : ℕ)
  | next (now : Timeval)
  | timeouts (now : Timeval)
  | callback (moment : Moment)

/-- What a call gives back: success, how long to wait, or the callback that is made and what it is
told. -/
inductive BaseReply (ι : Type) where
  | done (ok : Bool)
  | wait (tv : Option Timeval)
  | called (callback : Option (ι × ℕ))
deriving DecidableEq

namespace BaseCall

def run (kind : ι → EventKind) (base : EventBase ι) :
    BaseCall ι → Option (BaseReply ι × EventBase ι)
  | add moment ev tv =>
    (base.add moment.realloc moment.evmap moment.now kind ev tv false).map fun (ok, base) =>
      (.done ok, base)
  | del evmap ev => (base.del evmap ev).map fun (ok, base) => (.done ok, base)
  | active ev res => some (.done true, base.activate ev res)
  | next now => (base.timeoutNext now).map fun tv => (.wait tv, base)
  | timeouts now => (base.timeoutProcess now).map ((.done true, ·))
  | callback moment =>
    (base.processActive moment.realloc moment.evmap moment.now kind).map fun (told, base) =>
      (.called told, base)

/-- What callers see to: the times they give are normal. -/
def Pre : BaseCall ι → Prop
  | add moment _ tv => moment.now.Normal ∧ ∀ given ∈ tv, given.Normal
  | next now => now.Normal
  | callback moment => moment.now.Normal
  | _ => True

instance : (call : BaseCall ι) → Decidable call.Pre
  | add moment _ tv =>
    inferInstanceAs (Decidable (moment.now.Normal ∧ ∀ given ∈ tv, given.Normal))
  | next now => inferInstanceAs (Decidable now.Normal)
  | callback moment => inferInstanceAs (Decidable moment.now.Normal)
  | del _ _ | active _ _ | timeouts _ => .isTrue trivial

/-- What a call may reply and do to an agenda. -/
def Allows (kind : ι → EventKind) (a : Agenda ι) :
    BaseCall ι → BaseReply ι → Agenda ι → Prop
  | add moment ev tv, .done ok, a' =>
    a' = (if ok then a.add kind moment.now ev tv false else a) ∧ (ok = false → ¬moment.Grants)
  | del evmap ev, .done ok, a' =>
    ok = (!(a.flags ev).inserted || evmap) ∧ a' = a.del ev
  | active ev res, .done ok, a' => ok = true ∧ a' = a.activate ev res
  | next now, .wait tv, a' => a' = a ∧ a.Waits now tv
  | timeouts now, .done ok, a' => ok = true ∧ ∃ fired, a.Due now fired ∧
    a' = fired.foldl Agenda.fire a
  | callback _, .called none, a' => a.active = [] ∧ a' = a
  | callback moment, .called (some (ev, res)), a' => a.active.head? = some ev ∧ res = a.res ev ∧
    if (kind ev).persist then
      a' = (a.deactivate ev).renew kind moment.now ev ∨ a' = a.deactivate ev ∧ ¬moment.Grants
    else a' = a.del ev
  | _, _, _ => False

variable {base : EventBase ι} {scheduled inserted : Finset ι} {kind : ι → EventKind}

/-- Every call on a sound base is defined, leaves a sound base and does what it may to the
agenda. -/
theorem run_eq (sound : base.Sound scheduled inserted) (timed : base.agenda.Timed)
    (call : BaseCall ι) (pre : call.Pre) :
    ∃ reply base', call.run kind base = some (reply, base') ∧
      (∃ scheduled' inserted', base'.Sound scheduled' inserted') ∧ base'.agenda.Timed ∧
      call.Allows kind base.agenda reply base'.agenda := by
  cases call with
  | add moment ev tv =>
    obtain ⟨ok, base', done, sound', agenda, failed⟩ := sound.add_eq moment.realloc moment.evmap
      moment.now kind ev tv false
    refine ⟨.done ok, base', ?_, sound', ?_, agenda, fun refused =>
      Moment.not_grants (failed refused)⟩
    · simp only [run, done, Option.map_some]
    · rw [agenda]
      split
      · exact timed.add kind pre.1 ev pre.2 false
      · exact timed
  | del evmap ev =>
    obtain ⟨base', done, sound', agenda, -⟩ := sound.unlink_eq ev
    refine ⟨.done (!(base.flags ev).inserted || evmap), base', ?_, ⟨_, _, sound'⟩, ?_,
      ⟨rfl, agenda⟩⟩
    · simp only [run, EventBase.del, done, Option.map_some]
    · rw [agenda]
      exact timed.of_eq rfl rfl
  | active ev res =>
    obtain ⟨sound', agenda, -⟩ := sound.activate_eq ev res
    refine ⟨.done true, _, rfl, ⟨_, _, sound'⟩, ?_, ⟨rfl, agenda⟩⟩
    rw [agenda]
    exact timed.activate ev res
  | next now =>
    obtain ⟨wait, said, waits⟩ := sound.timeoutNext_eq pre timed
    refine ⟨.wait wait, base, ?_, ⟨_, _, sound⟩, timed, ⟨rfl, waits⟩⟩
    simp only [run, said, Option.map_some]
  | timeouts now =>
    obtain ⟨fired, base', done, sound', due, agenda⟩ := sound.timeoutProcess_eq now
    refine ⟨.done true, base', ?_, sound', ?_, ⟨rfl, fired, due, agenda⟩⟩
    · simp only [run, done, Option.map_some]
    · rw [agenda]
      exact timed.fires fired
  | callback moment =>
    obtain ⟨callback, base', done, sound', outcome⟩ := sound.processActive_eq moment.realloc
      moment.evmap moment.now kind
    have ran : (BaseCall.callback moment).run kind base = some (.called callback, base') := by
      simp only [run, done, Option.map_some]
    cases callback with
    | none =>
      refine ⟨_, base', ran, sound', ?_, outcome⟩
      rwa [outcome.2]
    | some told =>
      obtain ⟨ev, res⟩ := told
      obtain ⟨first, same, closed⟩ := outcome
      have idle : (base.agenda.deactivate ev).Timed := timed.of_eq rfl rfl
      refine ⟨_, base', ran, sound', ?_, ⟨first, same, ?_⟩⟩
      · split at closed
        · rcases closed with renewed | ⟨kept, -⟩
          · rw [renewed]
            exact idle.renew kind pre ev
          · rwa [kept]
        · rw [closed]
          exact timed.of_eq rfl rfl
      · split at closed
        · next persist =>
          rw [if_pos persist]
          exact closed.imp_right (And.imp_right Moment.not_grants)
        · next once => rwa [if_neg once]

end BaseCall

end MerlinC.Model
