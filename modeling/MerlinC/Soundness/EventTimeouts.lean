import MerlinC.Math.Runs
import MerlinC.Model.EventCalls

/-! # Timeouts over whole runs

Whatever calls the program and the event loop make on an event base, and whatever they are refused,
the base does to its events what an agenda says. The wait for a timeout ends when the first event is
due, the events that are due become active in the order in which they are, and the callbacks are
made in the order in which events became active.
-/

namespace MerlinC.Soundness.EventTimeouts

open Math Model

variable {ι : Type} [DecidableEq ι] [Inhabited ι] {kind : ι → EventKind}

/-- A call on a base, with its reply. -/
def Calls (kind : ι → EventKind) (base : EventBase ι) (event : BaseCall ι × BaseReply ι)
    (base' : EventBase ι) : Prop :=
  event.1.Pre ∧ event.1.run kind base = some (event.2, base')

/-- A call on an agenda, with a reply it may give. -/
def Plans (kind : ι → EventKind) (a : Agenda ι) (event : BaseCall ι × BaseReply ι)
    (a' : Agenda ι) : Prop :=
  event.1.Pre ∧ event.1.Allows kind a event.2 a'

/-- Nothing is planned. -/
def blank : Agenda ι where
  flags _ := ⟨false, false, false⟩
  res _ := 0
  ioTimeout _ := .zero
  timeout _ := .zero
  active := []

/-- What is true of every base between calls. -/
def Settled (base : EventBase ι) : Prop :=
  (∃ scheduled inserted, base.Sound scheduled inserted) ∧ base.agenda.Timed

variable {events : List (BaseCall ι × BaseReply ι)} {base : EventBase ι}

omit [Inhabited ι] in
/-- Every call on a settled base is defined. -/
theorem Settled.total (settled : Settled base) (call : BaseCall ι) (pre : call.Pre) :
    ∃ reply base', Calls kind base (call, reply) base' := by
  obtain ⟨⟨scheduled, inserted, sound⟩, timed⟩ := settled
  obtain ⟨reply, base', ran, -⟩ := BaseCall.run_eq sound timed call pre
  exact ⟨reply, base', pre, ran⟩

omit [Inhabited ι] in
/-- A call on a settled base leaves a settled base and does what is planned. -/
theorem Settled.step (settled : Settled base) {event : BaseCall ι × BaseReply ι}
    {base' : EventBase ι} (calls : Calls kind base event base') :
    Settled base' ∧ Plans kind base.agenda event base'.agenda := by
  obtain ⟨⟨scheduled, inserted, sound⟩, timed⟩ := settled
  obtain ⟨pre, ran⟩ := calls
  obtain ⟨reply, target, ran', sound', timed', allows⟩ := BaseCall.run_eq sound timed event.1 pre
  obtain ⟨rfl, rfl⟩ := Prod.mk.inj (Option.some.inj (ran.symm.trans ran'))
  exact ⟨⟨sound', timed'⟩, pre, allows⟩

omit [DecidableEq ι] in
theorem new_settled : Settled (.new : EventBase ι) :=
  ⟨⟨∅, ∅, EventBase.new_sound⟩, fun _ => ⟨Timeval.zero_normal, Timeval.zero_normal⟩⟩

theorem runs_settled (run : Run (Calls kind) .new events base) : Settled base := by
  apply run.invariant (fun _ => Settled)
  · exact new_settled
  · exact fun past middle event target _ settled calls => (settled.step calls).1

/-- A run of calls on an event base is a run of calls on an agenda with the same replies, and the
next call is defined whatever it is. -/
theorem bases_are_agendas (run : Run (Calls kind) .new events base) :
    Run (Plans kind) blank events base.agenda ∧
      ∀ call : BaseCall ι, call.Pre → ∃ reply base', Calls kind base (call, reply) base' := by
  constructor
  · have simulated : ∃ a, Run (Plans kind) blank (events.flatMap fun event => [event]) a ∧
        Settled base ∧ base.agenda = a := by
      apply run.simulate (fun _ => True) (fun base a => Settled base ∧ base.agenda = a)
      · exact ⟨new_settled, rfl⟩
      · rintro middle _ event target ⟨settled, rfl⟩ - calls
        obtain ⟨settled', plans⟩ := settled.step calls
        exact ⟨_, .single plans, settled', rfl⟩
      · exact fun _ _ => trivial
    rw [List.flatMap_singleton'] at simulated
    obtain ⟨a, abstract, -, rfl⟩ := simulated
    exact abstract
  · exact (runs_settled run).total

/-- Events without descriptors that are not persistent. -/
def oneShot : ℕ → EventKind := fun _ => ⟨false, false⟩

/-- Ten seconds past the start of the clock, with nothing refused. -/
def ten : Moment := ⟨fun _ => true, true, ⟨10, 0⟩⟩

/-- One event is to be due in a second, and another one in half of one. -/
def alarms : List (BaseCall ℕ × BaseReply ℕ) :=
  [(.add ten 0 (some ⟨1, 0⟩), .done true), (.add ten 1 (some ⟨0, 500000⟩), .done true)]

/-- One call, if it gives this reply. -/
def next (kind : ι → EventKind) :
    EventBase ι → BaseCall ι × BaseReply ι → Option (EventBase ι) :=
  replay (fun _ call => call.Pre) fun base call => call.run kind base

theorem alarms_run : ∃ base : EventBase ℕ, Run (Calls oneShot) .new alarms base ∧
    base.flags 0 = ⟨false, true, false⟩ ∧ base.timeheap.timeout 0 = ⟨11, 0⟩ ∧
      base.activequeue = [] ∧ base.timeoutNext ten.now = some (some ⟨0, 500000⟩) := by
  have computed : (alarms.foldlM (next oneShot) .new).map (fun base =>
      (base.flags 0, base.timeheap.timeout 0, base.activequeue, base.timeoutNext ten.now)) =
      some (⟨false, true, false⟩, ⟨11, 0⟩, [], some (some ⟨0, 500000⟩)) := by
    decide +kernel
  obtain ⟨base, done, seen⟩ := Option.map_eq_some_iff.mp computed
  simp only [Prod.mk.injEq] at seen
  exact ⟨base, .of_foldlM of_replay done, seen⟩

/-- Events that wait for descriptors. -/
def watchers : ℕ → EventKind := fun _ => ⟨true, false⟩

/-- The back end takes one descriptor and refuses another, and then does not give up the first. -/
def refusals : List (BaseCall ℕ × BaseReply ℕ) :=
  [(.add ten 0 (some ⟨1, 0⟩), .done true), (.add { ten with evmap := false } 1 none, .done false),
    (.del false 0, .done false), (.next ten.now, .wait none)]

theorem refusals_planned : ∃ a : Agenda ℕ, Run (Plans watchers) blank refusals a ∧
    a.flags 0 = ⟨false, false, false⟩ ∧ a.flags 1 = ⟨false, false, false⟩ := by
  have computed : (refusals.foldlM (next watchers) .new).map (fun base =>
      (base.flags 0, base.flags 1)) = some (⟨false, false, false⟩, ⟨false, false, false⟩) := by
    decide +kernel
  obtain ⟨base, done, seen⟩ := Option.map_eq_some_iff.mp computed
  exact ⟨base.agenda, (bases_are_agendas (.of_foldlM of_replay done)).1,
    Prod.mk.inj seen⟩

/-- The counts of a base count its events that are scheduled, registered and active, and the queue
holds each active event once. -/
theorem counts_are_exact (run : Run (Calls kind) .new events base) :
    ∃ scheduled inserted : Finset ι,
      (∀ ev, ev ∈ scheduled ↔ (base.flags ev).timeout = true) ∧
      (∀ ev, ev ∈ inserted ↔ (base.flags ev).inserted = true) ∧
      (∀ ev, ev ∈ base.activequeue ↔ (base.flags ev).active = true) ∧
      base.activequeue.Nodup ∧ base.eventCountActive = base.activequeue.length ∧
      base.eventCount = scheduled.card + inserted.card + base.activequeue.length := by
  obtain ⟨⟨scheduled, inserted, sound⟩, -⟩ := runs_settled run
  exact ⟨scheduled, inserted, sound.timeouts, sound.inserts, sound.actives, sound.nodup,
    sound.countActive, sound.count⟩

theorem alarms_counted : ∃ (base : EventBase ℕ) (scheduled inserted : Finset ℕ), 0 ∈ scheduled ∧
    base.eventCount = scheduled.card + inserted.card + base.activequeue.length := by
  obtain ⟨base, run, flags, -⟩ := alarms_run
  obtain ⟨scheduled, inserted, timeouts, -, -, -, -, count⟩ := counts_are_exact run
  exact ⟨base, scheduled, inserted, (timeouts 0).mpr (by rw [flags]), count⟩

omit [Inhabited ι] [DecidableEq ι] in
/-- How long a settled base says to wait. -/
theorem Settled.waits (settled : Settled base) {now : Timeval} (normal : now.Normal) :
    ∃ wait, base.timeoutNext now = some wait ∧
      match wait with
      | none => ∀ ev, (base.flags ev).timeout = false
      | some tv => ∀ time, now ≤ time →
        (now.add tv ≤ time ↔ ∃ ev, (base.flags ev).timeout = true ∧
          base.timeheap.timeout ev ≤ time) := by
  obtain ⟨⟨scheduled, inserted, sound⟩, timed⟩ := settled
  obtain ⟨wait, said, waits⟩ := sound.timeoutNext_eq normal timed
  refine ⟨wait, said, ?_⟩
  cases wait with
  | none => exact waits
  | some tv =>
    obtain ⟨ev, there, first, after⟩ := waits
    intro time passed
    have reached : now.add tv ≤ time ↔ base.agenda.timeout ev ≤ time := by
      split at after
      · rw [after.2.2]
      · next due =>
        rw [after, Timeval.add_zero normal]
        exact iff_of_true passed ((not_lt.mp due).trans passed)
    rw [reached]
    constructor
    · exact fun due => ⟨ev, there, due⟩
    · exact fun ⟨other, there', due⟩ => (first other there').trans due

/-- `timeout_next` says to wait just until an event is due, or for ever when none is scheduled. -/
theorem waits_until_due (run : Run (Calls kind) .new events base) {now : Timeval}
    (normal : now.Normal) :
    ∃ wait, base.timeoutNext now = some wait ∧
      match wait with
      | none => ∀ ev, (base.flags ev).timeout = false
      | some tv => ∀ time, now ≤ time →
        (now.add tv ≤ time ↔ ∃ ev, (base.flags ev).timeout = true ∧
          base.timeheap.timeout ev ≤ time) :=
  (runs_settled run).waits normal

theorem alarms_awaited : ∃ (base : EventBase ℕ) (tv : Timeval),
    Run (Calls oneShot) .new alarms base ∧ base.timeoutNext ten.now = some (some tv) := by
  obtain ⟨base, run, flags, -⟩ := alarms_run
  obtain ⟨wait, said, until_⟩ := waits_until_due run (show ten.now.Normal by decide)
  cases wait with
  | none =>
    have never := until_ 0
    rw [flags] at never
    exact absurd never (by decide)
  | some tv => exact ⟨base, tv, run, said⟩

section Firing

omit [Inhabited ι]

variable {a : Agenda ι}

theorem fire_eq (ev : ι) : a.fire ev =
    { a with
      flags := Function.update a.flags ev ⟨false, false, true⟩
      res := Function.update a.res ev EventBase.evTimeout
      active := a.active.erase ev ++ [ev] } := by
  simp [Agenda.fire, Agenda.activate, Agenda.del, Agenda.setFlags]

theorem timeout_fires (fired : List ι) (a : Agenda ι) :
    (fired.foldl Agenda.fire a).timeout = a.timeout := by
  induction fired generalizing a with
  | nil => rfl
  | cons ev later ih => rw [List.foldl_cons, ih, Agenda.timeout_fire]

/-- What becomes of the events that fire, of the others and of the queue. -/
theorem fires_eq {fired : List ι} (once : fired.Nodup) (nodup : a.active.Nodup) :
    (∀ ev ∈ fired, (fired.foldl Agenda.fire a).flags ev = ⟨false, false, true⟩ ∧
      (fired.foldl Agenda.fire a).res ev = EventBase.evTimeout) ∧
    (∀ ev ∉ fired, (fired.foldl Agenda.fire a).flags ev = a.flags ev ∧
      (fired.foldl Agenda.fire a).res ev = a.res ev) ∧
    (fired.foldl Agenda.fire a).active = a.active.filter (· ∉ fired) ++ fired := by
  induction fired generalizing a with
  | nil => simp
  | cons ev later ih =>
    obtain ⟨fresh, once⟩ := List.nodup_cons.mp once
    have active : (a.fire ev).active = a.active.erase ev ++ [ev] := by rw [fire_eq]
    have nodup' : (a.fire ev).active.Nodup := by
      rw [active]
      apply List.nodup_append.mpr
      refine ⟨nodup.erase ev, List.nodup_singleton ev, ?_⟩
      rintro x member y there rfl
      obtain rfl := List.mem_singleton.mp there
      exact nodup.not_mem_erase member
    obtain ⟨those, others, queue⟩ := ih once nodup'
    refine ⟨fun x member => ?_, fun x absent => ?_, ?_⟩
    · rcases List.mem_cons.mp member with rfl | member
      · obtain ⟨flags, res⟩ := others x fresh
        rw [List.foldl_cons, flags, res, fire_eq]
        exact ⟨Function.update_self .., Function.update_self ..⟩
      · exact those x member
    · rw [List.mem_cons, not_or] at absent
      obtain ⟨apart, absent⟩ := absent
      obtain ⟨flags, res⟩ := others x absent
      rw [List.foldl_cons, flags, res, fire_eq]
      exact ⟨Function.update_of_ne apart .., Function.update_of_ne apart ..⟩
    · rw [List.foldl_cons, queue, active, List.filter_append, nodup.erase_eq_filter,
        List.filter_filter]
      have last : [ev].filter (· ∉ later) = [ev] := by simp [fresh]
      rw [last, List.append_assoc]
      congr 1
      apply List.filter_congr
      intro x _
      rcases eq_or_ne x ev with rfl | apart
      · simp
      · simp [apart]

end Firing

omit [Inhabited ι] in
/-- What the processing of timeouts does to a settled base. -/
theorem Settled.fires (settled : Settled base) (now : Timeval) :
    ∃ fired base', base.timeoutProcess now = some base' ∧ fired.Nodup ∧
      (∀ ev, ev ∈ fired ↔ (base.flags ev).timeout = true ∧ base.timeheap.timeout ev ≤ now) ∧
      fired.Pairwise (fun ev later => base.timeheap.timeout ev ≤ base.timeheap.timeout later) ∧
      base'.activequeue = base.activequeue.filter (· ∉ fired) ++ fired ∧
      (∀ ev ∈ fired, base'.flags ev = ⟨false, false, true⟩ ∧ base'.res ev = EventBase.evTimeout) ∧
      ∀ ev ∉ fired, base'.flags ev = base.flags ev ∧ base'.res ev = base.res ev := by
  obtain ⟨⟨scheduled, inserted, sound⟩, -⟩ := settled
  obtain ⟨fired, base', done, -, due, agenda⟩ := sound.timeoutProcess_eq now
  obtain ⟨those, others, queue⟩ := fires_eq (a := base.agenda) due.once sound.nodup
  rw [← agenda] at those others queue
  exact ⟨fired, base', done, due.once, due.members, due.ordered, queue, those, others⟩

/-- `timeout_process` makes active just the events that are due, each once, in the order in which
they are, behind the others that were active, and leaves those as they were. -/
theorem due_events_fire (run : Run (Calls kind) .new events base) (now : Timeval) :
    ∃ fired base', base.timeoutProcess now = some base' ∧ fired.Nodup ∧
      (∀ ev, ev ∈ fired ↔ (base.flags ev).timeout = true ∧ base.timeheap.timeout ev ≤ now) ∧
      fired.Pairwise (fun ev later => base.timeheap.timeout ev ≤ base.timeheap.timeout later) ∧
      base'.activequeue = base.activequeue.filter (· ∉ fired) ++ fired ∧
      (∀ ev ∈ fired, base'.flags ev = ⟨false, false, true⟩ ∧ base'.res ev = EventBase.evTimeout) ∧
      ∀ ev ∉ fired, base'.flags ev = base.flags ev ∧ base'.res ev = base.res ev :=
  (runs_settled run).fires now

theorem alarms_fire : ∃ (base base' : EventBase ℕ) (fired : List ℕ),
    Run (Calls oneShot) .new alarms base ∧ base.timeoutProcess ⟨12, 0⟩ = some base' ∧
      0 ∈ fired ∧ base'.activequeue = base.activequeue.filter (· ∉ fired) ++ fired := by
  obtain ⟨base, run, flags, timeout, -⟩ := alarms_run
  obtain ⟨fired, base', done, -, members, -, queue, -⟩ := due_events_fire run ⟨12, 0⟩
  refine ⟨base, base', fired, run, done, (members 0).mpr ⟨by rw [flags], ?_⟩, queue⟩
  rw [timeout]
  exact le_of_lt (Timeval.greater_iff.mp (by decide))

section Keeping

omit [Inhabited ι]

/-- Whether and when an event is due is the same. -/
def SameTimer (ev : ι) (a a' : Agenda ι) : Prop :=
  (a'.flags ev).timeout = (a.flags ev).timeout ∧ a'.timeout ev = a.timeout ev

/-- Calls that do not stop, move or end the timeout of an event that is due at a time. -/
def Spares (ev : ι) (due : Timeval) : BaseCall ι × BaseReply ι → Prop
  | (.add _ other tv, _) => other = ev → tv = none
  | (.del _ other, _) => other ≠ ev
  | (.timeouts now, _) => now < due
  | (.callback _, .called (some (other, _))) => other ≠ ev
  | _ => True

variable {ev other : ι} {a a' a'' : Agenda ι}

omit [DecidableEq ι] in
theorem SameTimer.refl (ev : ι) (a : Agenda ι) : SameTimer ev a a := ⟨rfl, rfl⟩

omit [DecidableEq ι] in
theorem SameTimer.trans (first : SameTimer ev a a') (second : SameTimer ev a' a'') :
    SameTimer ev a a'' :=
  ⟨second.1.trans first.1, second.2.trans first.2⟩

theorem sameTimer_setFlags {flags : EventFlags} (a : Agenda ι)
    (same : other = ev → flags.timeout = (a.flags ev).timeout) :
    SameTimer ev a (a.setFlags other flags) := by
  refine ⟨?_, rfl⟩
  change (Function.update a.flags other flags ev).timeout = _
  rcases eq_or_ne other ev with rfl | apart
  · rw [Function.update_self]
    exact same rfl
  · rw [Function.update_of_ne apart.symm]

theorem sameTimer_deactivate (ev other : ι) (a : Agenda ι) :
    SameTimer ev a (a.deactivate other) := by
  apply sameTimer_setFlags
  rintro rfl
  rfl

theorem sameTimer_activate (ev other : ι) (a : Agenda ι) (res : ℕ) :
    SameTimer ev a (a.activate other res) := by
  unfold Agenda.activate
  split
  · exact ⟨rfl, rfl⟩
  · apply sameTimer_setFlags
    rintro rfl
    rfl

theorem sameTimer_enlist (ev other : ι) (a : Agenda ι) :
    SameTimer ev a (a.enlist kind other) := by
  unfold Agenda.enlist
  split
  · apply sameTimer_setFlags
    rintro rfl
    rfl
  · exact .refl ev a

theorem sameTimer_schedule (apart : other ≠ ev) (a : Agenda ι) (now tv : Timeval)
    (absolute : Bool) : SameTimer ev a (a.schedule kind now other tv absolute) := by
  unfold Agenda.schedule Agenda.dueAt
  dsimp only
  generalize kept : (if ((kind other).persist && !absolute) = true then
    { a with ioTimeout := Function.update a.ioTimeout other tv } else a) = b
  have first : SameTimer ev a b := by
    subst kept
    split
    · exact ⟨rfl, rfl⟩
    · exact .refl ev a
  have second : SameTimer ev b (b.dropFired other) := by
    unfold Agenda.dropFired
    split
    · exact sameTimer_deactivate ev other b
    · exact .refl ev b
  apply (first.trans second).trans
  refine .trans ?_ (sameTimer_setFlags _ fun same => absurd same apart)
  exact ⟨rfl, Function.update_of_ne apart.symm ..⟩

theorem sameTimer_add {tv : Option Timeval} (spared : other = ev → tv = none) (a : Agenda ι)
    (now : Timeval) (absolute : Bool) : SameTimer ev a (a.add kind now other tv absolute) := by
  cases tv with
  | none => exact sameTimer_enlist ev other a
  | some tv =>
    have apart : other ≠ ev := fun same => Option.some_ne_none tv (spared same)
    exact (sameTimer_enlist ev other a).trans (sameTimer_schedule apart _ now tv absolute)

theorem sameTimer_renew (apart : other ≠ ev) (a : Agenda ι) (now : Timeval) :
    SameTimer ev a (a.renew kind now other) := by
  unfold Agenda.renew
  split
  · exact sameTimer_add (fun same => absurd same apart) a now true
  · exact .refl ev a

/-- A call that spares the timeout of an event leaves it. -/
theorem sameTimer_call {event : BaseCall ι × BaseReply ι} (nodup : a.active.Nodup)
    (spares : Spares ev (a.timeout ev) event) (plans : Plans kind a event a') :
    SameTimer ev a a' := by
  obtain ⟨call, reply⟩ := event
  obtain ⟨-, allows⟩ := plans
  cases call with
  | add moment other tv =>
    cases reply with
    | done ok =>
      obtain ⟨rfl, -⟩ := allows
      cases ok with
      | true => exact sameTimer_add spares a moment.now false
      | false => exact .refl ev a
    | wait | called => exact allows.elim
  | del evmap other =>
    cases reply with
    | done ok =>
      obtain ⟨-, rfl⟩ := allows
      exact sameTimer_setFlags _ fun same => absurd same spares
    | wait | called => exact allows.elim
  | active other res =>
    cases reply with
    | done ok =>
      obtain ⟨-, rfl⟩ := allows
      exact sameTimer_activate ev other a res
    | wait | called => exact allows.elim
  | next now =>
    cases reply with
    | wait tv =>
      obtain ⟨rfl, -⟩ := allows
      exact .refl ev a'
    | done | called => exact allows.elim
  | timeouts now =>
    cases reply with
    | done ok =>
      obtain ⟨-, fired, due, rfl⟩ := allows
      have early : ev ∉ fired := fun member =>
        absurd ((due.members ev).mp member).2 (not_le.mpr spares)
      refine ⟨by rw [((fires_eq due.once nodup).2.1 ev early).1], ?_⟩
      rw [timeout_fires]
    | wait | called => exact allows.elim
  | callback moment =>
    cases reply with
    | called told =>
      rcases told with _ | ⟨other, res⟩
      · obtain ⟨-, rfl⟩ := allows
        exact .refl ev a'
      · obtain ⟨-, -, closed⟩ := allows
        split at closed
        · have idle := sameTimer_deactivate ev other a
          rcases closed with rfl | ⟨rfl, -⟩
          · exact idle.trans (sameTimer_renew spares _ moment.now)
          · exact idle
        · rw [closed]
          exact sameTimer_setFlags _ fun same => absurd same spares
    | done | wait => exact allows.elim

end Keeping

/-- A timeout is neither lost nor early: however many calls come between, an event is scheduled as
it was until the time is reached, and then is told of it, unless it was itself deleted, scheduled
again or called back. -/
theorem timers_are_kept (run : Run (Calls kind) .new events base) {ev : ι}
    (there : (base.flags ev).timeout = true) {later : List (BaseCall ι × BaseReply ι)}
    {base' : EventBase ι} (run' : Run (Calls kind) base later base')
    (spared : ∀ event ∈ later, Spares ev (base.timeheap.timeout ev) event) (now : Timeval) :
    ∃ base'', base'.timeoutProcess now = some base'' ∧
      if base.timeheap.timeout ev ≤ now then
        base''.flags ev = ⟨false, false, true⟩ ∧ base''.res ev = EventBase.evTimeout ∧
          ev ∈ base''.activequeue
      else
        (base''.flags ev).timeout = true ∧
          base''.timeheap.timeout ev = base.timeheap.timeout ev := by
  have kept : Settled base' ∧ SameTimer ev base.agenda base'.agenda := by
    apply run'.invariant_of_allowed (Spares ev (base.timeheap.timeout ev))
      (fun _ middle => Settled middle ∧ SameTimer ev base.agenda middle.agenda)
    · exact ⟨runs_settled run, .refl ev _⟩
    · rintro past middle event target - ⟨settled, same⟩ spares calls
      obtain ⟨settled', plans⟩ := settled.step calls
      obtain ⟨⟨_, _, sound⟩, -⟩ := settled
      refine ⟨settled', same.trans (sameTimer_call sound.nodup ?_ plans)⟩
      rwa [same.2]
    · exact spared
  obtain ⟨⟨⟨scheduled, inserted, sound⟩, -⟩, same⟩ := kept
  obtain ⟨fired, base'', done, -, due, agenda⟩ := sound.timeoutProcess_eq now
  obtain ⟨those, others, queue⟩ := fires_eq (a := base'.agenda) due.once sound.nodup
  have timeouts := timeout_fires fired base'.agenda
  rw [← agenda] at those others queue timeouts
  have member : ev ∈ fired ↔ base.timeheap.timeout ev ≤ now := by
    rw [due.members, same.1, same.2]
    exact and_iff_right there
  refine ⟨base'', done, ?_⟩
  split
  · next reached =>
    obtain ⟨flags, res⟩ := those ev (member.mpr reached)
    refine ⟨flags, res, ?_⟩
    change ev ∈ base''.agenda.active
    rw [queue]
    exact List.mem_append_right _ (member.mpr reached)
  · next early =>
    obtain ⟨flags, -⟩ := others ev fun there => early (member.mp there)
    constructor
    · change (base''.agenda.flags ev).timeout = true
      rw [flags, same.1]
      exact there
    · change base''.agenda.timeout ev = base.agenda.timeout ev
      rw [timeouts, same.2]

theorem alarm_kept : ∃ base base' : EventBase ℕ, Run (Calls oneShot) .new alarms base ∧
    base'.flags 0 = ⟨false, false, true⟩ ∧ base'.res 0 = EventBase.evTimeout := by
  obtain ⟨base, run, flags, timeout, -⟩ := alarms_run
  obtain ⟨reply, middle, calls⟩ :=
    (runs_settled run).total (.timeouts ⟨10, 600000⟩) (by simp [BaseCall.Pre])
  obtain ⟨base', -, told⟩ := timers_are_kept run (by rw [flags]) (.single calls) (by
    intro event member
    obtain rfl := List.mem_singleton.mp member
    rw [timeout]
    exact Timeval.greater_iff.mp (by decide)) ⟨11, 0⟩
  rw [timeout, if_pos (le_refl _)] at told
  exact ⟨base, base', run, told.1, told.2.1⟩

section Calling

omit [Inhabited ι]

variable {ev : ι} {a a' : Agenda ι}

theorem active_enlist (kind : ι → EventKind) (a : Agenda ι) (ev : ι) :
    (a.enlist kind ev).active = a.active ∧
      ∀ x, ((a.enlist kind ev).flags x).active = (a.flags x).active := by
  unfold Agenda.enlist
  split
  · refine ⟨rfl, fun x => ?_⟩
    change (Function.update a.flags ev _ x).active = _
    rcases eq_or_ne x ev with rfl | apart
    · rw [Function.update_self]
    · rw [Function.update_of_ne apart]
  · exact ⟨rfl, fun _ => rfl⟩

/-- An event that is not active is scheduled without a change of the queue. -/
theorem active_schedule (idle : (a.flags ev).active = false) (now tv : Timeval) (absolute : Bool) :
    (a.schedule kind now ev tv absolute).active = a.active := by
  unfold Agenda.schedule Agenda.dueAt Agenda.setFlags Agenda.dropFired
  split
  · dsimp only
    rw [idle, Bool.false_and, if_neg Bool.false_ne_true]
  · dsimp only
    rw [idle, Bool.false_and, if_neg Bool.false_ne_true]

theorem active_renew (idle : (a.flags ev).active = false) (now : Timeval) :
    (a.renew kind now ev).active = a.active := by
  obtain ⟨active, flags⟩ := active_enlist kind a ev
  unfold Agenda.renew
  split
  · exact (active_schedule ((flags ev).trans idle) now _ true).trans active
  · rfl

/-- The callback that is made is the one of the first active event. -/
theorem called_first {moment : Moment} {reply : BaseReply ι} {rest : List ι}
    (queue : a.active = ev :: rest) (plans : Plans kind a (.callback moment, reply) a') :
    reply = .called (some (ev, a.res ev)) ∧ a'.active = rest ∧ a'.res = a.res := by
  obtain ⟨-, allows⟩ := plans
  cases reply with
  | called told =>
    rcases told with _ | ⟨other, res⟩
    · obtain ⟨none_, -⟩ := allows
      rw [queue] at none_
      exact absurd none_ (List.cons_ne_nil ev rest)
    · obtain ⟨first, rfl, closed⟩ := allows
      rw [queue, List.head?_cons] at first
      obtain rfl := Option.some.inj first
      have left : (a.deactivate ev).active = rest := by
        change a.active.erase ev = rest
        rw [queue, List.erase_cons_head]
      have idle : ((a.deactivate ev).flags ev).active = false := by
        simp [Agenda.deactivate, Agenda.setFlags]
      refine ⟨rfl, ?_⟩
      split at closed
      · rcases closed with rfl | ⟨rfl, -⟩
        · exact ⟨(active_renew idle moment.now).trans left, Agenda.res_renew ..⟩
        · exact ⟨left, rfl⟩
      · rw [closed]
        exact ⟨left, rfl⟩
  | done | wait => exact allows.elim

theorem Settled.serves (settled : Settled base) (moments : List Moment)
    (normal : ∀ moment ∈ moments, moment.now.Normal)
    (enough : moments.length = base.activequeue.length) :
    ∃ base', Run (Calls kind) base (moments.zipWith (fun moment ev =>
        (.callback moment, .called (some (ev, base.res ev)))) base.activequeue) base' ∧
      base'.activequeue = [] := by
  induction moments generalizing base with
  | nil => exact ⟨base, .nil, List.eq_nil_of_length_eq_zero enough.symm⟩
  | cons moment later ih =>
    cases queue : base.activequeue with
    | nil => simp [queue] at enough
    | cons ev rest =>
      obtain ⟨reply, middle, calls⟩ := settled.total (.callback moment)
        (normal moment List.mem_cons_self)
      obtain ⟨settled', plans⟩ := settled.step calls
      obtain ⟨rfl, active, res⟩ := called_first queue plans
      have active : middle.activequeue = rest := active
      have res : middle.res = base.res := res
      obtain ⟨base', run, empty⟩ := ih settled'
        (fun other member => normal other (List.mem_cons_of_mem moment member)) (by
          rw [queue, List.length_cons, List.length_cons] at enough
          rw [active]
          omega)
      rw [active, res] at run
      exact ⟨base', .cons calls run, empty⟩

end Calling

/-- The event loop makes the callbacks of the active events in the order in which they became
active, each with what it is to be told, and no others. -/
theorem active_events_called (run : Run (Calls kind) .new events base) (moments : List Moment)
    (normal : ∀ moment ∈ moments, moment.now.Normal)
    (enough : moments.length = base.activequeue.length) :
    ∃ base', Run (Calls kind) base (moments.zipWith (fun moment ev =>
        (.callback moment, .called (some (ev, base.res ev)))) base.activequeue) base' ∧
      base'.activequeue = [] :=
  (runs_settled run).serves moments normal enough

/-- Two events become active, and are called back in that order. -/
theorem alarms_called : ∃ base base' : EventBase ℕ, Run (Calls oneShot) .new
      [(.active 1 2, .done true), (.active 0 4, .done true)] base ∧
    Run (Calls oneShot) base [(.callback ten, .called (some (1, 2))),
      (.callback ten, .called (some (0, 4)))] base' ∧ base'.activequeue = [] := by
  have computed : ([(.active 1 2, .done true), (.active 0 4, .done true)].foldlM (next oneShot)
      .new).map (fun base => (base.activequeue, base.res 1, base.res 0)) =
      some ([1, 0], 2, 4) := by
    decide +kernel
  obtain ⟨base, done, seen⟩ := Option.map_eq_some_iff.mp computed
  simp only [Prod.mk.injEq] at seen
  obtain ⟨queue, first, second⟩ := seen
  have run := Run.of_foldlM of_replay done
  obtain ⟨base', called, empty⟩ := active_events_called run [ten, ten] (by decide)
    (by rw [queue]; rfl)
  simp only [queue, List.zipWith_cons_cons, List.zipWith_nil_left, first, second] at called
  exact ⟨base, base', run, called, empty⟩

/-- One turn of an idle event loop. Where something is scheduled, the loop waits as long as
`timeout_next` says; then something is due, and just the events that are due are called back, each
once, in the order in which they are, and told so. -/
theorem idle_loop_serves (run : Run (Calls kind) .new events base) (idle : base.activequeue = [])
    {now tv time : Timeval} (normal : now.Normal)
    (said : base.timeoutNext now = some (some tv)) (passed : now ≤ time)
    (elapsed : now.add tv ≤ time) :
    ∃ fired base', base.timeoutProcess time = some base' ∧ fired ≠ [] ∧ fired.Nodup ∧
      (∀ ev, ev ∈ fired ↔ (base.flags ev).timeout = true ∧ base.timeheap.timeout ev ≤ time) ∧
      fired.Pairwise (fun ev later => base.timeheap.timeout ev ≤ base.timeheap.timeout later) ∧
      ∀ moments : List Moment, (∀ moment ∈ moments, moment.now.Normal) →
        moments.length = fired.length →
        ∃ base'', Run (Calls kind) base' (moments.zipWith (fun moment ev =>
          (.callback moment, .called (some (ev, EventBase.evTimeout)))) fired) base'' ∧
          base''.activequeue = [] := by
  have settled := runs_settled run
  obtain ⟨wait, said', until_⟩ := settled.waits normal
  obtain rfl := Option.some.inj (said.symm.trans said')
  obtain ⟨ev, there, due⟩ := (until_ time passed).mp elapsed
  obtain ⟨fired, base', done, once, members, ordered, queue, those, -⟩ := settled.fires time
  refine ⟨fired, base', done, List.ne_nil_of_mem ((members ev).mpr ⟨there, due⟩), once, members,
    ordered, fun moments normal enough => ?_⟩
  rw [idle, List.filter_nil, List.nil_append] at queue
  have processed : Calls kind base (.timeouts time, .done true) base' := by
    refine ⟨trivial, ?_⟩
    simp only [BaseCall.run, done, Option.map_some]
  obtain ⟨base'', called, empty⟩ := (settled.step processed).1.serves moments normal
    (by rw [enough, queue])
  refine ⟨base'', ?_, empty⟩
  rw [queue] at called
  have told : fired.map (fun ev => (ev, base'.res ev)) =
      fired.map fun ev => (ev, EventBase.evTimeout) := by
    apply List.map_congr_left
    intro ev member
    rw [(those ev member).2]
  have paired : Run (Calls kind) base' (moments.zipWith (fun moment told =>
      (.callback moment, .called (some told))) (fired.map fun ev => (ev, base'.res ev)))
        base'' := by
    rwa [List.zipWith_map_right]
  rwa [told, List.zipWith_map_right] at paired

theorem alarms_served : ∃ (base base' : EventBase ℕ) (fired : List ℕ),
    Run (Calls oneShot) .new alarms base ∧ base.timeoutProcess ⟨12, 0⟩ = some base' ∧
      fired ≠ [] ∧ ∀ ev, ev ∈ fired ↔ (base.flags ev).timeout = true ∧
        base.timeheap.timeout ev ≤ ⟨12, 0⟩ := by
  obtain ⟨base, run, -, -, idle, said⟩ := alarms_run
  obtain ⟨fired, base', done, some_, -, members, -⟩ := idle_loop_serves run idle
    (show ten.now.Normal by decide) said
    (show ten.now ≤ ⟨12, 0⟩ from le_of_lt (Timeval.greater_iff.mp (by decide)))
    (le_of_lt (Timeval.greater_iff.mp (by decide)))
  exact ⟨base, base', fired, run, done, some_, members⟩

section Recurring

omit [Inhabited ι]

variable {ev other : ι} {a a' : Agenda ι}

/-- Calls that do not give an event another interval. -/
def Leaves (ev : ι) : BaseCall ι × BaseReply ι → Prop
  | (.add _ other tv, _) => other = ev → tv = none
  | _ => True

theorem ioTimeout_dropFired (a : Agenda ι) (other : ι) :
    (a.dropFired other).ioTimeout = a.ioTimeout := by
  unfold Agenda.dropFired
  split <;> rfl

theorem ioTimeout_enlist (a : Agenda ι) (other : ι) :
    (a.enlist kind other).ioTimeout = a.ioTimeout := by
  unfold Agenda.enlist
  split <;> rfl

/-- Scheduling after an interval keeps the interval of a persistent event. -/
theorem ioTimeout_schedule (a : Agenda ι) (now tv : Timeval) (absolute : Bool) (other : ι) :
    (a.schedule kind now other tv absolute).ioTimeout =
      if (kind other).persist && !absolute then Function.update a.ioTimeout other tv
      else a.ioTimeout := by
  unfold Agenda.schedule
  change (Agenda.dropFired _ other).ioTimeout = _
  rw [ioTimeout_dropFired]
  split <;> rfl

theorem ioTimeout_renew (a : Agenda ι) (now : Timeval) (other : ι) :
    (a.renew kind now other).ioTimeout = a.ioTimeout := by
  unfold Agenda.renew
  split
  · change ((a.enlist kind other).schedule kind now other _ true).ioTimeout = _
    rw [ioTimeout_schedule, Bool.not_true, Bool.and_false, if_neg Bool.false_ne_true,
      ioTimeout_enlist]
  · rfl

theorem ioTimeout_fires (fired : List ι) (a : Agenda ι) :
    (fired.foldl Agenda.fire a).ioTimeout = a.ioTimeout := by
  induction fired generalizing a with
  | nil => rfl
  | cons ev later ih => rw [List.foldl_cons, ih, fire_eq]

theorem ioTimeout_call {event : BaseCall ι × BaseReply ι} (leaves : Leaves ev event)
    (plans : Plans kind a event a') : a'.ioTimeout ev = a.ioTimeout ev := by
  obtain ⟨call, reply⟩ := event
  obtain ⟨-, allows⟩ := plans
  cases call with
  | add moment other tv =>
    cases reply with
    | done ok =>
      obtain ⟨rfl, -⟩ := allows
      cases ok with
      | false => rfl
      | true =>
        cases tv with
        | none => exact congrFun (ioTimeout_enlist a other) ev
        | some tv =>
          have apart : ev ≠ other := fun same => Option.some_ne_none tv (leaves same.symm)
          change ((a.enlist kind other).schedule kind moment.now other tv false).ioTimeout ev = _
          rw [ioTimeout_schedule, ioTimeout_enlist]
          split
          · exact Function.update_of_ne apart ..
          · rfl
    | wait | called => exact allows.elim
  | del evmap other =>
    cases reply with
    | done ok => rw [allows.2]; rfl
    | wait | called => exact allows.elim
  | active other res =>
    cases reply with
    | done ok =>
      rw [allows.2]
      unfold Agenda.activate
      split <;> rfl
    | wait | called => exact allows.elim
  | next now =>
    cases reply with
    | wait tv => rw [allows.1]
    | done | called => exact allows.elim
  | timeouts now =>
    cases reply with
    | done ok =>
      obtain ⟨-, fired, -, rfl⟩ := allows
      rw [ioTimeout_fires]
    | wait | called => exact allows.elim
  | callback moment =>
    cases reply with
    | called told =>
      rcases told with _ | ⟨other, res⟩
      · rw [allows.2]
      · obtain ⟨-, -, closed⟩ := allows
        split at closed
        · rcases closed with rfl | ⟨rfl, -⟩
          · rw [ioTimeout_renew]
            rfl
          · rfl
        · rw [closed]
          rfl
    | done | wait => exact allows.elim

theorem renew_due (some_ : (a.ioTimeout ev).sec ≠ 0 ∨ (a.ioTimeout ev).usec ≠ 0) (now : Timeval) :
    ((a.renew kind now ev).flags ev).timeout = true ∧
      (a.renew kind now ev).timeout ev = a.nextRun now ev := by
  unfold Agenda.renew
  rw [if_pos some_]
  change ((Agenda.schedule kind now (a.enlist kind ev) ev (a.nextRun now ev) true).flags
    ev).timeout = true ∧ _
  unfold Agenda.schedule Agenda.dueAt Agenda.setFlags
  dsimp only
  rw [Function.update_self]
  exact ⟨rfl, Function.update_self ..⟩

end Recurring

/-- A persistent event recurs. Whatever comes between, when it is called back it is due again one
interval after it was due, or after now if it was not called for that or if the time has passed. -/
theorem persistent_events_recur (run : Run (Calls kind) .new events base) {ev : ι}
    (persist : (kind ev).persist = true) {moment : Moment} {interval : Timeval}
    (some_ : interval.sec ≠ 0 ∨ interval.usec ≠ 0) {base₁ base₂ base₃ : EventBase ι}
    (added : Calls kind base (.add moment ev (some interval), .done true) base₁)
    {later : List (BaseCall ι × BaseReply ι)} (run' : Run (Calls kind) base₁ later base₂)
    (leaves : ∀ event ∈ later, Leaves ev event) {moment' : Moment} {res : ℕ}
    (called : Calls kind base₂ (.callback moment', .called (some (ev, res))) base₃)
    (granted : moment'.Grants) :
    (base₃.flags ev).timeout = true ∧ base₃.timeheap.timeout ev =
      let runAt := (if res.testBit 0 then base₂.timeheap.timeout ev else moment'.now).add interval
      if moment'.now.greater runAt then moment'.now.add interval else runAt := by
  obtain ⟨settled, -, agenda, -⟩ := (runs_settled run).step added
  have first : base₁.ioTimeout ev = interval := by
    change base₁.agenda.ioTimeout ev = interval
    rw [agenda, if_pos rfl]
    change ((base.agenda.enlist kind ev).schedule kind moment.now ev interval false).ioTimeout ev =
      _
    rw [ioTimeout_schedule, persist, Bool.not_false, Bool.and_true, if_pos rfl,
      Function.update_self]
  have kept : Settled base₂ ∧ base₂.ioTimeout ev = interval := by
    apply run'.invariant_of_allowed (Leaves ev)
      (fun _ middle => Settled middle ∧ middle.ioTimeout ev = interval)
    · exact ⟨settled, first⟩
    · rintro past middle event target - ⟨settled, same⟩ leaves calls
      obtain ⟨settled', plans⟩ := settled.step calls
      exact ⟨settled', (ioTimeout_call leaves plans).trans same⟩
    · exact leaves
  obtain ⟨settled₂, same⟩ := kept
  obtain ⟨-, -, -, rfl, closed⟩ := settled₂.step called
  rw [if_pos persist] at closed
  have renewed := closed.resolve_right fun refused => refused.2 granted
  have same : (base₂.agenda.deactivate ev).ioTimeout ev = interval := same
  obtain ⟨due, time⟩ := @renew_due _ _ kind ev (base₂.agenda.deactivate ev) (same ▸ some_)
    moment'.now
  rw [← renewed] at due time
  refine ⟨due, time.trans ?_⟩
  unfold Agenda.nextRun
  rw [same]
  rfl

/-- Persistent events without descriptors. -/
def always : ℕ → EventKind := fun _ => ⟨false, true⟩

def eleven : Moment := ⟨fun _ => true, true, ⟨11, 0⟩⟩

/-- An event that is to be called every second. -/
theorem alarm_recurs : ∃ base : EventBase ℕ, (base.flags 0).timeout = true ∧
    base.timeheap.timeout 0 = ⟨12, 0⟩ := by
  have computed : (next always .new (.add ten 0 (some ⟨1, 0⟩), .done true)).bind (fun first =>
      (next always first (.timeouts ⟨11, 0⟩, .done true)).bind fun second =>
        (next always second (.callback eleven, .called (some (0, 1)))).map fun _ =>
          second.timeheap.timeout 0) = some ⟨11, 0⟩ := by
    decide +kernel
  obtain ⟨first, added, rest⟩ := Option.bind_eq_some_iff.mp computed
  obtain ⟨second, fired, rest⟩ := Option.bind_eq_some_iff.mp rest
  obtain ⟨third, called, time⟩ := Option.map_eq_some_iff.mp rest
  have leaves : ∀ event ∈ [(BaseCall.timeouts ⟨11, 0⟩, BaseReply.done true)], Leaves 0 event := by
    intro event member
    obtain rfl := List.mem_singleton.mp member
    exact trivial
  obtain ⟨due, again⟩ := persistent_events_recur .nil rfl (.inl (by decide)) (of_replay added)
    (.single (of_replay fired)) leaves (of_replay called) ⟨rfl, fun _ => rfl⟩
  rw [time] at again
  exact ⟨third, due, again⟩

end MerlinC.Soundness.EventTimeouts
