import MerlinC.Model.MinHeap

/-! # Events and their timeouts

`event.c` for an event base with one priority and without common timeouts: `event_add`,
`event_del`, `event_active`, the processing of timeouts and of active events. The flags of an event
say in which of the queues of the base it is. Where the source asserts something that does not hold,
the model has no result. What the back end says of a descriptor and what time it is are arguments.
The model names the callbacks that are made; what they do are further calls.
-/

namespace MerlinC.Model

namespace Timeval

/-- `evutil_timeradd`. -/
def add (tv uv : Timeval) : Timeval :=
  let sec := tv.sec + uv.sec
  let usec := tv.usec + uv.usec
  if 1000000 ≤ usec then ⟨sec + 1, usec - 1000000⟩ else ⟨sec, usec⟩

/-- `evutil_timersub`. -/
def sub (tv uv : Timeval) : Timeval :=
  let sec := tv.sec - uv.sec
  let usec := tv.usec - uv.usec
  if usec < 0 then ⟨sec - 1, usec + 1000000⟩ else ⟨sec, usec⟩

/-- `evutil_timerclear`. -/
def zero : Timeval := ⟨0, 0⟩

end Timeval

/-- `ev_events` and `ev_closure`, which an event keeps: whether it waits for a descriptor, and
whether it is `EV_PERSIST`. -/
structure EventKind where
  io : Bool
  persist : Bool
deriving DecidableEq, Repr

/-- `EVLIST_INSERTED`, `EVLIST_TIMEOUT` and `EVLIST_ACTIVE`. -/
structure EventFlags where
  inserted : Bool
  timeout : Bool
  active : Bool
deriving DecidableEq, Repr

variable {ι : Type} [DecidableEq ι]

/-- `struct event_base`, and what changes of its events. -/
structure EventBase (ι : Type) where
  timeheap : TimeHeap ι
  flags : ι → EventFlags
  res : ι → ℕ
  ioTimeout : ι → Timeval
  activequeue : List ι
  eventCount : ℕ
  eventCountActive : ℕ

namespace EventBase

/-- `EV_TIMEOUT`. -/
def evTimeout : ℕ := 1

/-- `event_base_new`, and events that `event_assign` set up. -/
def new : EventBase ι where
  timeheap := .new fun _ => .zero
  flags := fun _ => ⟨false, false, false⟩
  res := fun _ => 0
  ioTimeout := fun _ => .zero
  activequeue := []
  eventCount := 0
  eventCountActive := 0

/-- An event with other flags. -/
def setFlags (base : EventBase ι) (ev : ι) (flags : EventFlags) : EventBase ι :=
  { base with flags := Function.update base.flags ev flags }

/-- `event_queue_insert_inserted`. -/
def insertInserted (base : EventBase ι) (ev : ι) : Option (EventBase ι) :=
  if (base.flags ev).inserted then none
  else some ({ base with eventCount := base.eventCount + 1 }.setFlags ev
    { base.flags ev with inserted := true })

/-- `event_queue_remove_inserted`. -/
def removeInserted (base : EventBase ι) (ev : ι) : Option (EventBase ι) :=
  if (base.flags ev).inserted = false then none
  else some ({ base with eventCount := base.eventCount - 1 }.setFlags ev
    { base.flags ev with inserted := false })

/-- `event_queue_insert_active`. -/
def insertActive (base : EventBase ι) (ev : ι) : EventBase ι :=
  if (base.flags ev).active then base
  else setFlags { base with
    eventCount := base.eventCount + 1
    eventCountActive := base.eventCountActive + 1
    activequeue := base.activequeue ++ [ev] } ev { base.flags ev with active := true }

/-- `event_queue_remove_active`. -/
def removeActive (base : EventBase ι) (ev : ι) : Option (EventBase ι) :=
  if (base.flags ev).active = false then none
  else some (setFlags { base with
    eventCount := base.eventCount - 1
    eventCountActive := base.eventCountActive - 1
    activequeue := base.activequeue.erase ev } ev { base.flags ev with active := false })

/-- `event_queue_insert_timeout`, which takes no notice when the heap does not grow. -/
def insertTimeout (realloc : ℕ → Bool) (base : EventBase ι) (ev : ι) : Option (EventBase ι) :=
  if (base.flags ev).timeout then none
  else do
    let (_, timeheap) ← base.timeheap.push realloc ev
    some (setFlags { base with eventCount := base.eventCount + 1, timeheap } ev
      { base.flags ev with timeout := true })

/-- `event_queue_remove_timeout`. -/
def removeTimeout (base : EventBase ι) (ev : ι) : Option (EventBase ι) :=
  if (base.flags ev).timeout = false then none
  else do
    let (_, timeheap) ← base.timeheap.erase ev
    some (setFlags { base with eventCount := base.eventCount - 1, timeheap } ev
      { base.flags ev with timeout := false })

def dropTimeout (base : EventBase ι) (ev : ι) : Option (EventBase ι) :=
  if (base.flags ev).timeout then base.removeTimeout ev else some base

def dropActive (base : EventBase ι) (ev : ι) : Option (EventBase ι) :=
  if (base.flags ev).active then base.removeActive ev else some base

def dropInserted (base : EventBase ι) (ev : ι) : Option (EventBase ι) :=
  if (base.flags ev).inserted then base.removeInserted ev else some base

/-- `event_del_nolock_`, of which `timeout_process` and `event_process_active` ignore the result. -/
def unlink (base : EventBase ι) (ev : ι) : Option (EventBase ι) := do
  let base ← base.dropTimeout ev
  let base ← base.dropActive ev
  base.dropInserted ev

/-- `event_del_nolock_` with its result, which is that of the back end when it is to give up the
descriptor of the event. -/
def del (evmap : Bool) (base : EventBase ι) (ev : ι) : Option (Bool × EventBase ι) :=
  (base.unlink ev).map ((!(base.flags ev).inserted || evmap, ·))

/-- An event is no longer active for having been due. -/
def dropFired (base : EventBase ι) (ev : ι) : Option (EventBase ι) :=
  if (base.flags ev).active && (base.res ev).testBit 0 then base.removeActive ev else some base

/-- The part of `event_add_nolock_` that changes the timeout. -/
def schedule (realloc : ℕ → Bool) (now : Timeval) (kind : ι → EventKind) (base : EventBase ι)
    (ev : ι) (tv : Timeval) (absolute : Bool) : Option (EventBase ι) := do
  let base := if (kind ev).persist && !absolute then
      { base with ioTimeout := Function.update base.ioTimeout ev tv } else base
  let base ← base.dropTimeout ev
  let base ← base.dropFired ev
  let timeout := Function.update base.timeheap.timeout ev (if absolute then tv else now.add tv)
  insertTimeout realloc { base with timeheap := { base.timeheap with timeout } } ev

/-- The part of `event_add_nolock_` that asks the back end, where `evmap` says whether it takes the
descriptor. -/
def register (evmap : Bool) (kind : ι → EventKind) (base : EventBase ι) (ev : ι) :
    Option (Bool × EventBase ι) :=
  if (kind ev).io && !((base.flags ev).inserted || (base.flags ev).active) then
    if evmap then (base.insertInserted ev).map ((true, ·)) else some (false, base)
  else some (true, base)

/-- `event_add_nolock_`. -/
def add (realloc : ℕ → Bool) (evmap : Bool) (now : Timeval) (kind : ι → EventKind)
    (base : EventBase ι) (ev : ι) (tv : Option Timeval) (absolute : Bool) :
    Option (Bool × EventBase ι) :=
  let (reserved, timeheap) := if tv.isSome && !(base.flags ev).timeout then
      base.timeheap.reserve realloc (1 + base.timeheap.n) else (true, base.timeheap)
  let base := { base with timeheap }
  if reserved = false then some (false, base)
  else
    (base.register evmap kind ev).bind fun (registered, base) =>
      match registered, tv with
      | false, _ => some (false, base)
      | true, none => some (true, base)
      | true, some tv => (base.schedule realloc now kind ev tv absolute).map ((true, ·))

/-- `event_active_nolock_`. -/
def activate (base : EventBase ι) (ev : ι) (res : ℕ) : EventBase ι :=
  if (base.flags ev).active then
    { base with res := Function.update base.res ev (base.res ev ||| res) }
  else insertActive { base with res := Function.update base.res ev res } ev

/-- `timeout_next`: how long to wait for the next timeout, if there is one. -/
def timeoutNext (now : Timeval) (base : EventBase ι) : Option (Option Timeval) := do
  match ← base.timeheap.top with
  | none => some none
  | some ev =>
    if (base.timeheap.timeout ev).greater now then
      let tv := (base.timeheap.timeout ev).sub now
      if 0 ≤ tv.sec ∧ 0 ≤ tv.usec then some (some tv) else none
    else some (some .zero)

/-- The loop of `timeout_process`, which runs at most so many times. -/
def timeoutLoop (now : Timeval) : ℕ → EventBase ι → Option (EventBase ι)
  | fuel, base => do
    match ← base.timeheap.top with
    | none => some base
    | some ev =>
      if (base.timeheap.timeout ev).greater now then some base
      else
        match fuel with
        | 0 => none
        | fuel + 1 => do
          let base ← base.unlink ev
          timeoutLoop now fuel (base.activate ev evTimeout)

/-- `timeout_process`. -/
def timeoutProcess (now : Timeval) (base : EventBase ι) : Option (EventBase ι) :=
  if base.timeheap.empty then some base else timeoutLoop now base.timeheap.n base

/-- What `event_persist_closure` does before the callback. -/
def persistClosure (realloc : ℕ → Bool) (evmap : Bool) (now : Timeval) (kind : ι → EventKind)
    (base : EventBase ι) (ev : ι) : Option (EventBase ι) :=
  let delay := base.ioTimeout ev
  if delay.sec ≠ 0 ∨ delay.usec ≠ 0 then
    let relativeTo := if (base.res ev).testBit 0 then base.timeheap.timeout ev else now
    let runAt := relativeTo.add delay
    let runAt := if now.greater runAt then now.add delay else runAt
    (base.add realloc evmap now kind ev (some runAt) true).map (·.2)
  else some base

/-- One iteration of `event_process_active_single_queue`: the callback that is made and what it is
told, if any event is active. -/
def processActive (realloc : ℕ → Bool) (evmap : Bool) (now : Timeval) (kind : ι → EventKind)
    (base : EventBase ι) : Option (Option (ι × ℕ) × EventBase ι) :=
  match base.activequeue with
  | [] => some (none, base)
  | ev :: _ =>
    if (kind ev).persist then do
      let base ← base.removeActive ev
      let base ← base.persistClosure realloc evmap now kind ev
      some (some (ev, base.res ev), base)
    else do
      let base ← base.unlink ev
      some (some (ev, base.res ev), base)

end EventBase

end MerlinC.Model
