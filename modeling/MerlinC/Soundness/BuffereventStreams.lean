import MerlinC.Math.Runs
import MerlinC.Model.BuffereventCalls
import MerlinC.Model.CArray
import MerlinC.Soundness.EvbufferStreams

/-! # Socket bufferevents over whole runs

Calls of the program and of the event loop on a socket bufferevent, in any order. The bufferevent
behaves as a pair of byte streams; its events are pending just when they are enabled, not suspended
and of use; its input stays within the high watermark; and what waits in its output leaves when the
socket takes it.
-/

namespace MerlinC.Soundness.BuffereventStreams

open Math Model
open EvbufferStreams (plenty holding)

/-- A bufferevent and what its socket has taken. -/
structure Wired where
  bufev : BuffereventSock
  flushed : Bytes

/-- A call, what `event_add` would do in it, and the reply. -/
structure Called where
  adds : EventAdd
  call : SockCall
  reply : SockReply

/-- One call on the bufferevent, whose caller sees to what callers see to. -/
def Calls (wired : Wired) (event : Called) (wired' : Wired) : Prop :=
  event.call.Pre wired.bufev ∧
    event.call.run event.adds wired.bufev = some (event.reply, wired'.bufev) ∧
    wired'.flushed = wired.flushed ++ SockCall.taken wired.bufev.output.bytes event.reply

/-- One call on the byte streams. -/
def Streams (v : View) (event : Called) (v' : View) : Prop := event.call.Allows v event.reply v'

/-- No `event_add` fails in a call. -/
def Called.Adds (event : Called) : Prop := event.adds = ⟨true, true⟩

def Wired.view (control : Control) (wired : Wired) : View :=
  wired.bufev.view control wired.flushed

/-- A bufferevent as `bufferevent_socket_new` makes it. -/
def fresh (readcb writecb errorcb : Bool) : Wired := ⟨.new readcb writecb errorcb, []⟩

variable {wired wired' : Wired} {event : Called}
  {events : List Called}

theorem Calls.settled {sure : Prop} (idle : wired.bufev.Idle sure) (surely : sure → event.Adds)
    (control : Control) (calls : Calls wired event wired') :
    event.call.Settled sure control wired.flushed wired.bufev event.reply wired'.bufev := by
  obtain ⟨reply, bufev', done, settled⟩ :=
    event.call.run_settled idle surely control wired.flushed calls.1
  obtain ⟨rfl, rfl⟩ := Prod.mk.inj (Option.some.inj (done.symm.trans calls.2.1))
  exact settled

theorem Calls.streams (idle : wired.bufev.Idle False) (control : Control)
    (calls : Calls wired event wired') :
    Streams (wired.view control) event (wired'.view control) := by
  have settled := calls.settled idle False.elim control
  rw [Wired.view, Wired.view, calls.2.2]
  exact settled.allowed

/-- No call takes back what was queued. -/
theorem Streams.queued {v v' : View} {event : Called} (streams : Streams v event v') :
    v.queued <+: v'.queued := by
  unfold Streams SockCall.Allows at streams
  split at streams
  · obtain ⟨rfl, -⟩ := streams
    split
    · rw [View.append_queued]
      exact List.prefix_append ..
    · exact List.prefix_refl _
  · obtain ⟨rfl, -⟩ := streams
    split
    · rw [View.append_queued]
      exact List.prefix_append ..
    · exact List.prefix_refl _
  · obtain ⟨-, rfl⟩ := streams
    exact List.prefix_refl _
  · obtain ⟨-, rfl⟩ := streams
    exact List.prefix_refl _
  · obtain ⟨rfl, -⟩ := streams
    split
    · exact List.prefix_refl _
    · exact List.prefix_refl _
  · obtain ⟨-, rfl⟩ := streams
    change v.queued <+: (v.append v.input).queued
    rw [View.append_queued]
    exact List.prefix_append ..
  · obtain ⟨rfl, -⟩ := streams
    exact List.prefix_refl _
  · obtain ⟨rfl, -⟩ := streams
    rw [View.flush_queued]
  all_goals first
    | contradiction
    | (obtain rfl := streams; exact List.prefix_refl _)

section Runs

variable {readcb writecb errorcb : Bool}

theorem runs_idle (run : Run Calls (fresh readcb writecb errorcb) events wired) :
    wired.bufev.Idle (∀ event ∈ events, event.Adds) := by
  apply run.invariant (fun events wired => wired.bufev.Idle (∀ event ∈ events, event.Adds))
  · exact BuffereventSock.new_sound ..
  · intro past middle event target _ idle calls
    have before : middle.bufev.Idle (∀ other ∈ past ++ [event], other.Adds) :=
      idle.mono fun added other member => added other (List.mem_append_left _ member)
    exact (calls.settled before (fun added => added event (by simp)) ⟨0, 0, none, false⟩).idle

/-- A socket that takes one byte at a time. -/
def nibbler : WriteSocket where
  writev offered := some (min 1 offered.length)
  bounded := by
    rintro offered count took
    obtain rfl := Option.some.inj took
    exact Nat.min_le_right ..

theorem nibbler_willing : nibbler.Willing := by
  intro offered some_
  have positive := List.length_pos_of_ne_nil some_
  exact ⟨0, congrArg some (by omega)⟩

/-- Whether a call asks no more of its caller than memory for the callback of a watermark. -/
def undemanding : SockCall → Bool
  | .writeBuffer _ | .readBuffer _ | .suspendRead _ | .unsuspendRead _ => false
  | .setwatermark malloc .. => (malloc.block BuffereventSock.cbEntrySize).isSome
  | _ => true

theorem pre_of_undemanding {call : SockCall} (easy : undemanding call = true)
    (bufev : BuffereventSock) : call.Pre bufev := by
  cases call with
  | setwatermark =>
    intro _ _ _ refused
    rw [undemanding, refused] at easy
    contradiction
  | writeBuffer | readBuffer | suspendRead | unsuspendRead => contradiction
  | _ => trivial

/-- One such call, if it replies as it should. -/
def next (wired : Wired) (event : Called) : Option Wired :=
  if undemanding event.call then
    (event.call.run event.adds wired.bufev).bind fun (reply, bufev) =>
      if reply = event.reply then
        some ⟨bufev, wired.flushed ++ SockCall.taken wired.bufev.output.bytes reply⟩
      else none
  else none

theorem calls_of_next (done : next wired event = some wired') : Calls wired event wired' := by
  unfold next at done
  split at done
  · next easy =>
    obtain ⟨⟨reply, bufev⟩, ran, same⟩ := Option.bind_eq_some_iff.mp done
    simp only [Option.ite_none_right_eq_some, Option.some.injEq] at same
    obtain ⟨rfl, rfl⟩ := same
    exact ⟨pre_of_undemanding easy _, ran, rfl⟩
  · contradiction

/-- A greeting goes out in two parts, and in between an answer arrives, of which a part is read, and
there is more to say. -/
def greeting : List Called :=
  [⟨⟨true, true⟩, .write plenty (ascii "hi"), .done true⟩,
    ⟨⟨true, true⟩, .writecb nibbler false .other, .sent [] 1⟩,
    ⟨⟨true, true⟩, .enable true false, .done true⟩,
    ⟨⟨true, true⟩, .readcb plenty (holding (ascii "you") 3) false .other,
      .arrived [.readcb] (ascii "you")⟩,
    ⟨⟨true, true⟩, .read 2, .text (some (ascii "yo"))⟩,
    ⟨⟨true, true⟩, .write plenty (ascii "!"), .done true⟩,
    ⟨⟨true, true⟩, .writecb nibbler false .other, .sent [] 1⟩]

theorem greeting_run : ∃ wired wired', Run Calls (fresh true true true) (greeting.take 1) wired ∧
    (wired.flushed, wired.bufev.output.bytes) = ([], ascii "hi") ∧
    (wired.bufev.enabledWrite, wired.bufev.writeSuspended) = (true, ∅) ∧
    Run Calls wired (greeting.drop 1) wired' ∧
    wired'.view ⟨0, 0, none, false⟩ = ⟨⟨0, 0, none, false⟩, ascii "u", ascii "!", ascii "hi"⟩ := by
  have computed : ((greeting.take 1).foldlM next (fresh true true true)).map (fun wired =>
      ((wired.flushed, wired.bufev.output.bytes),
        (wired.bufev.enabledWrite, wired.bufev.writeSuspended),
        ((greeting.drop 1).foldlM next wired).map (Wired.view ⟨0, 0, none, false⟩))) =
      some (([], ascii "hi"), (true, ∅),
        some ⟨⟨0, 0, none, false⟩, ascii "u", ascii "!", ascii "hi"⟩) := by
    decide +kernel
  obtain ⟨wired, first, seen⟩ := Option.map_eq_some_iff.mp computed
  obtain ⟨queued, free, after⟩ := (Prod.mk.inj seen).imp_right Prod.mk.inj
  obtain ⟨wired', second, view⟩ := Option.map_eq_some_iff.mp after
  exact ⟨wired, wired', .of_foldlM calls_of_next first, queued, free,
    .of_foldlM calls_of_next second, view⟩

/-- What the socket took and what waits for it are together what was queued: from then on no call
loses, repeats or reorders any of it, and what the socket took it keeps. -/
theorem queued_bytes_stay {later : List Called}
    (run : Run Calls (fresh readcb writecb errorcb) events wired)
    (run' : Run Calls wired later wired') :
    wired.flushed ++ wired.bufev.output.bytes <+: wired'.flushed ++ wired'.bufev.output.bytes ∧
      wired.flushed <+: wired'.flushed := by
  have control : Control := ⟨0, 0, none, false⟩
  have kept : wired'.bufev.Idle False ∧
      (wired.view control).queued <+: (wired'.view control).queued ∧
      wired.flushed <+: wired'.flushed := by
    apply run'.invariant (fun _ middle => middle.bufev.Idle False ∧
      (wired.view control).queued <+: (middle.view control).queued ∧
      wired.flushed <+: middle.flushed)
    · exact ⟨(runs_idle run).mono False.elim, List.prefix_refl _, List.prefix_refl _⟩
    · rintro past middle event target - ⟨idle, queued, flushed⟩ calls
      refine ⟨(calls.settled idle False.elim control).idle,
        queued.trans (calls.streams idle control).queued, ?_⟩
      rw [calls.2.2]
      exact flushed.trans (List.prefix_append ..)
  exact kept.2

/-- The greeting goes out in parts, and what is written later comes behind it. -/
theorem greeting_stays : ∃ wired wired', Run Calls (fresh true true true) (greeting.take 1) wired ∧
    Run Calls wired (greeting.drop 1) wired' ∧ wired'.flushed = ascii "hi" ∧
      ascii "hi" <+: wired'.flushed ++ wired'.bufev.output.bytes := by
  obtain ⟨wired, wired', first, queued, -, second, view⟩ := greeting_run
  have stays := (queued_bytes_stay first second).1
  obtain ⟨flushed, bytes⟩ := Prod.mk.inj queued
  rw [flushed, bytes] at stays
  exact ⟨wired, wired', first, second, congrArg View.flushed view, stays⟩

/-- A socket on which one byte after another arrives. -/
def chatter : ReadSocket where
  ready := 0
  readv room := some (List.replicate room 97)
  bounded := by
    rintro room data arrived
    obtain rfl := Option.some.inj arrived
    exact Nat.le_of_eq List.length_replicate

/-- Once the input is within the high watermark it stays within it, until the watermark is
moved. -/
theorem input_within_watermark {later : List Called}
    (run : Run Calls (fresh readcb writecb errorcb) events wired)
    (high : wired.bufev.wmRead.high ≠ 0)
    (within : wired.bufev.input.bytes.length ≤ wired.bufev.wmRead.high)
    (run' : Run Calls wired later wired') (still : ∀ event ∈ later, ¬event.call.Sets) :
    wired'.bufev.wmRead = wired.bufev.wmRead ∧
      wired'.bufev.input.bytes.length ≤ wired.bufev.wmRead.high := by
  have kept : wired'.bufev.Idle False ∧ wired'.bufev.wmRead = wired.bufev.wmRead ∧
      wired'.bufev.input.bytes.length ≤ wired.bufev.wmRead.high := by
    apply run'.invariant_of_allowed (fun event => ¬event.call.Sets)
      (fun _ middle => middle.bufev.Idle False ∧ middle.bufev.wmRead = wired.bufev.wmRead ∧
        middle.bufev.input.bytes.length ≤ wired.bufev.wmRead.high)
    · exact ⟨(runs_idle run).mono False.elim, rfl, within⟩
    · rintro past middle event target - ⟨idle, same, below⟩ unset calls
      have settled := calls.settled idle False.elim ⟨0, 0, none, false⟩
      have stays := settled.within unset
      rw [same] at stays
      exact ⟨settled.idle, (settled.wmRead unset).trans same, stays high below⟩
    · exact still
  exact kept.2

/-- A bufferevent with a high watermark of four reads four bytes and then no more. -/
theorem chatter_within : ∃ wired wired', Run Calls (fresh true true true)
    [⟨⟨true, true⟩, .setwatermark plenty true false 0 4, .done true⟩] wired ∧
      Run Calls wired [⟨⟨true, true⟩, .readcb plenty chatter false .other,
        .arrived [.readcb] [97, 97, 97, 97]⟩] wired' ∧
      wired'.bufev.input.bytes.length ≤ 4 := by
  have computed : ([⟨⟨true, true⟩, .setwatermark plenty true false 0 4, .done true⟩].foldlM next
      (fresh true true true)).map (fun wired =>
        ((wired.bufev.wmRead.high, wired.bufev.input.bytes), ([⟨⟨true, true⟩,
          .readcb plenty chatter false .other, .arrived [.readcb] [97, 97, 97, 97]⟩].foldlM
            next wired).isSome)) =
      some ((4, []), true) := by
    decide +kernel
  obtain ⟨wired, first, seen⟩ := Option.map_eq_some_iff.mp computed
  simp only [Prod.mk.injEq] at seen
  obtain ⟨⟨high, input⟩, goes⟩ := seen
  obtain ⟨wired', second⟩ := Option.isSome_iff_exists.mp goes
  have run := Run.of_foldlM calls_of_next first
  have run' := Run.of_foldlM calls_of_next second
  refine ⟨wired, wired', run, run', ?_⟩
  have within := (input_within_watermark run (by simp [high]) (by simp [high, input]) run'
    (by simp [SockCall.Sets])).2
  rwa [high] at within

/-- The event loop calls `bufferevent_writecb` while the write event is pending, each time with
the socket as it then is. -/
def serve (adds : EventAdd) : List WriteSocket → Wired → Option Wired
  | [], wired => some wired
  | socket :: later, wired =>
      if wired.bufev.evWrite then do
        let (_, count, bufev) ← wired.bufev.buffereventWritecb adds socket false .retriable
        serve adds later ⟨bufev, wired.flushed ++ wired.bufev.output.bytes.take count⟩
      else some wired

theorem serve_quiet (adds : EventAdd) (sockets : List WriteSocket) {wired : Wired}
    (quiet : wired.bufev.evWrite = false) : serve adds sockets wired = some wired := by
  cases sockets with
  | nil => rfl
  | cons socket later => rw [serve, quiet, if_neg Bool.false_ne_true]

theorem serve_sends {sure : Prop} {adds : EventAdd} (surely : sure → adds = ⟨true, true⟩)
    (sockets : List WriteSocket) (willing : ∀ socket ∈ sockets, socket.Willing) {wired : Wired}
    (idle : wired.bufev.Idle sure)
    (pending : wired.bufev.output.bytes ≠ [] → wired.bufev.evWrite = true)
    (enough : wired.bufev.output.bytes.length < sockets.length) :
    ∃ wired', serve adds sockets wired = some wired' ∧ wired'.bufev.Idle sure ∧
      wired'.bufev.output.bytes = [] ∧ wired'.bufev.evWrite = false ∧
      wired'.bufev.input.bytes = wired.bufev.input.bytes ∧
      wired'.flushed = wired.flushed ++ wired.bufev.output.bytes := by
  induction sockets generalizing wired with
  | nil => simp at enough
  | cons socket later ih =>
    unfold serve
    split
    · next due =>
      obtain ⟨calls, count, bufev', done, became, -⟩ :=
        BuffereventSock.buffereventWritecb_eq idle surely socket false .retriable
      obtain ⟨calls', count', bufev'', done', took, left⟩ :=
        @BuffereventSock.buffereventWritecb_pending _ _ adds idle due socket
          (willing socket (by simp)) .retriable
      rw [done'] at done
      obtain ⟨rfl, rfl, rfl⟩ : calls' = calls ∧ count' = count ∧ bufev'' = bufev' := by
        simpa using done
      simp only [done', Option.bind_eq_bind, Option.bind_some]
      have sent : wired.flushed ++ wired.bufev.output.bytes.take count' ++
          bufev''.output.bytes = wired.flushed ++ wired.bufev.output.bytes := by
        rw [became.output, List.append_assoc, List.take_append_drop]
      rcases eq_or_ne bufev''.output.bytes [] with none_ | some_
      · have stopped : bufev''.evWrite = false := by simpa [none_] using left
        refine ⟨_, serve_quiet adds later stopped, became.idle, none_, stopped, became.input, ?_⟩
        rw [← sent, none_, List.append_nil]
      · have shorter : bufev''.output.bytes.length < later.length := by
          have waiting : wired.bufev.output.bytes ≠ [] := by
            intro none_
            rw [became.output, none_, List.drop_nil] at some_
            exact some_ rfl
          have some' := took waiting
          have positive := List.length_pos_of_ne_nil waiting
          rw [became.output, List.length_drop]
          rw [List.length_cons] at enough
          omega
        obtain ⟨wired', served, idle', empty, stopped, input, flushed⟩ :=
          @ih (fun other member => willing other (List.mem_cons_of_mem _ member))
            ⟨bufev'', wired.flushed ++ wired.bufev.output.bytes.take count'⟩ became.idle
            left.mpr shorter
        exact ⟨wired', served, idle', empty, stopped, input.trans became.input,
          flushed.trans sent⟩
    · next quiet =>
      have none_ : wired.bufev.output.bytes = [] := by
        rw [← not_not (a := wired.bufev.output.bytes = [])]
        exact fun waiting => quiet (pending waiting)
      refine ⟨wired, rfl, idle, none_, by simpa using quiet, rfl, ?_⟩
      rw [none_, List.append_nil]

/-- What waits in the output of a bufferevent that may write is sent whole and in order, when the
socket takes something each time, and then the write event is no longer pending. -/
theorem waiting_output_is_sent (run : Run Calls (fresh readcb writecb errorcb) events wired)
    (added : ∀ event ∈ events, event.Adds) (enabled : wired.bufev.enabledWrite = true)
    (free : wired.bufev.writeSuspended = ∅) (sockets : List WriteSocket)
    (willing : ∀ socket ∈ sockets, socket.Willing)
    (enough : wired.bufev.output.bytes.length < sockets.length) :
    ∃ wired', serve ⟨true, true⟩ sockets wired = some wired' ∧
      wired'.bufev.output.bytes = [] ∧ wired'.bufev.evWrite = false ∧
      wired'.flushed = wired.flushed ++ wired.bufev.output.bytes := by
  have idle := runs_idle run
  obtain ⟨wired', served, -, empty, stopped, -, flushed⟩ :=
    serve_sends (fun _ => rfl) sockets willing idle
      (fun waiting => idle.writing.prompt added waiting enabled free) enough
  exact ⟨wired', served, empty, stopped, flushed⟩

theorem greeting_sent : ∃ wired wired', Run Calls (fresh true true true) (greeting.take 1) wired ∧
    serve ⟨true, true⟩ [nibbler, nibbler, nibbler] wired = some wired' ∧
    wired'.flushed = ascii "hi" := by
  obtain ⟨wired, -, run, queued, may, -⟩ := greeting_run
  obtain ⟨flushed, bytes⟩ := Prod.mk.inj queued
  obtain ⟨enabled, free⟩ := Prod.mk.inj may
  obtain ⟨wired', served, -, -, sent⟩ := waiting_output_is_sent run
    (by simp [greeting, Called.Adds]) enabled free [nibbler, nibbler, nibbler]
    (by simp [nibbler_willing]) (by rw [bytes]; decide)
  refine ⟨wired, wired', run, served, ?_⟩
  rw [sent, flushed, bytes, List.nil_append]

end Runs

end MerlinC.Soundness.BuffereventStreams
