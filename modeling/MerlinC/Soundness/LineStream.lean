import MerlinC.Model.ChainLines
import MerlinC.Soundness.EvbufferStreams

/-! # Lines of a stream that arrives in pieces

A program adds what arrives to an evbuffer and calls `evbuffer_readln` now and then. For every kind
of line end but one, the lines it gets are those of the whole stream, however it was cut into
arrivals and whenever the program looked. `EVBUFFER_EOL_ANY` is the exception: a run of line end
characters that is cut in two ends two lines.
-/

namespace MerlinC.Model

/-- A line that has come to its end is not changed by what follows. -/
theorem EolStyle.Ends.append {style : EolStyle} (fixed : style ≠ .any) {line eol rest : Bytes}
    (ends : style.Ends line eol rest) (more : Bytes) : style.Ends line eol (rest ++ more) := by
  cases style with
  | any => exact absurd rfl fixed
  | crlf => exact ends
  | crlfStrict =>
    obtain ⟨rfl, absent⟩ := ends
    refine ⟨rfl, fun i inside follows => absent i inside ?_⟩
    have length : [carriageReturn, lineFeed].length ≤
        ((line ++ [carriageReturn, lineFeed] ++ rest).drop i).length := by
      simp only [List.length_drop, List.length_append]
      omega
    have within : i ≤ (line ++ [carriageReturn, lineFeed] ++ rest).length := by
      simp only [List.length_append]
      omega
    have shorter : (line ++ [carriageReturn, lineFeed] ++ rest).drop i <+:
        (line ++ [carriageReturn, lineFeed] ++ (rest ++ more)).drop i := by
      rw [← List.append_assoc, List.drop_append_of_le_length within]
      exact List.prefix_append _ _
    exact List.prefix_of_prefix_length_le follows shorter length
  | lf => exact ends
  | nul => exact ends

/-- A line that is found stays where it is when more text follows. -/
theorem EolStyle.split_append {style : EolStyle} (fixed : style ≠ .any) {text : Bytes} {i len : ℕ}
    (found : style.split text = some (i, len)) (more : Bytes) :
    style.split (text ++ more) = some (i, len) ∧ i + len ≤ text.length := by
  obtain ⟨line, eol, rest, rfl, rfl, rfl, ends⟩ := (split_eq_some ..).mp found
  constructor
  · exact (split_eq_some ..).mpr
      ⟨line, eol, rest ++ more, by simp, rfl, rfl, ends.append fixed more⟩
  · simp only [List.length_append]
    omega

end MerlinC.Model

namespace MerlinC.Soundness.LineStream

open Math Model EvbufferStreams

/-- `lines` are cut off the front of a text one after the other, and `rest` is left. -/
inductive Cuts (style : EolStyle) : Bytes → List Bytes → Bytes → Prop
  | nil (text : Bytes) : Cuts style text [] text
  | cons {text rest : Bytes} {lines : List Bytes} {i len : ℕ}
      (found : style.split text = some (i, len))
      (onward : Cuts style (text.drop (i + len)) lines rest) :
      Cuts style text (text.take i :: lines) rest

namespace Cuts

variable {style : EolStyle} {text rest rest' : Bytes} {lines lines' : List Bytes}

/-- What follows the text follows what is left of it. -/
theorem append (fixed : style ≠ .any) (cuts : Cuts style text lines rest) (more : Bytes) :
    Cuts style (text ++ more) lines (rest ++ more) := by
  induction cuts with
  | nil text => exact .nil _
  | @cons text rest lines i len found onward ih =>
    obtain ⟨found', inside⟩ := style.split_append fixed found more
    rw [← List.take_append_of_le_length (show i ≤ text.length by omega)]
    apply Cuts.cons found'
    rwa [List.drop_append_of_le_length inside]

/-- One more line is cut off what is left. -/
theorem concat (cuts : Cuts style text lines rest) {i len : ℕ}
    (found : style.split rest = some (i, len)) :
    Cuts style text (lines ++ [rest.take i]) (rest.drop (i + len)) := by
  induction cuts with
  | nil text => exact .cons found (.nil _)
  | cons first onward ih => exact .cons first (ih found)

/-- The lines of a text are what they are. -/
theorem unique (cuts : Cuts style text lines rest) (cuts' : Cuts style text lines' rest')
    (ended : style.split rest = none) (ended' : style.split rest' = none) :
    lines = lines' ∧ rest = rest' := by
  induction cuts generalizing lines' with
  | nil text =>
    cases cuts' with
    | nil => exact ⟨rfl, rfl⟩
    | cons found => rw [ended] at found; contradiction
  | cons found onward ih =>
    cases cuts' with
    | nil => rw [ended'] at found; contradiction
    | cons found' onward' =>
      obtain ⟨rfl, rfl⟩ := Prod.mk.inj (Option.some.inj (found.symm.trans found'))
      obtain ⟨rfl, rfl⟩ := ih onward' ended
      exact ⟨rfl, rfl⟩

end Cuts

/-- What happens to the buffer: bytes are added, bytes are read from a socket, or a line is asked
for, and this is what comes of it. -/
inductive LineEvent where
  | add (data : Bytes)
  | read (data : Bytes)
  | line (text : Option Bytes)

/-- The bytes that an event brings. -/
def LineEvent.arrived : LineEvent → Bytes
  | add data | read data => data
  | line _ => []

/-- The line that an event gives. -/
def LineEvent.given : LineEvent → Option Bytes
  | line text => text
  | _ => none

/-- One call, with any allocator and any behaviour of the socket. -/
inductive Asks (style : EolStyle) : ChainBuffer → LineEvent → ChainBuffer → Prop
  | add (malloc : Malloc) {buf buf' : ChainBuffer} {data : Bytes}
      (added : buf.add malloc data = some (true, buf')) : Asks style buf (.add data) buf'
  | read (malloc : Malloc) (socket : ReadSocket) (howmuch : ℤ) {buf buf' : ChainBuffer}
      {data : Bytes} (arrived : buf.read malloc socket howmuch = some (some data, buf')) :
      Asks style buf (.read data) buf'
  | line (malloc : Malloc) {buf buf' : ChainBuffer} {text : Option Bytes}
      (sized : buf.totalLen ≤ sizeMax) (asked : buf.readln malloc style = some (text, buf')) :
      Asks style buf (.line text) buf'

variable {style : EolStyle} {events events' : List LineEvent} {buf buf' : ChainBuffer}

/-- The program asked for another line, with memory at hand, and there is none. -/
def Exhausted (style : EolStyle) (buf : ChainBuffer) : Prop :=
  buf.totalLen ≤ sizeMax ∧ ∃ malloc : Malloc, ¬malloc.Refuses ∧
    buf.readln malloc style = some (none, buf)

/-- The lines given so far are cut off the stream that arrived, and the rest is in the buffer. -/
structure Cutting (style : EolStyle) (past : List LineEvent) (buf : ChainBuffer) : Prop where
  wf : buf.Wf
  thawed : buf.freezeStart = false
  cuts : Cuts style (past.flatMap LineEvent.arrived) (past.filterMap LineEvent.given) buf.bytes

theorem Cutting.step (fixed : style ≠ .any) {past : List LineEvent} {event : LineEvent}
    (cutting : Cutting style past buf) (asks : Asks style buf event buf') :
    Cutting style (past ++ [event]) buf' := by
  obtain ⟨wf, thawed, cuts⟩ := cutting
  have arrives {data : Bytes} (wf' : buf'.Wf) (stream : buf'.stream = buf.stream.append data) :
      buf'.Wf ∧ buf'.freezeStart = false ∧
        Cuts style (past.flatMap LineEvent.arrived ++ data)
          (past.filterMap LineEvent.given) buf'.bytes := by
    have start : buf'.freezeStart = buf.freezeStart := congrArg ByteStream.freezeStart stream
    have bytes : buf'.bytes = buf.bytes ++ data := congrArg ByteStream.bytes stream
    refine ⟨wf', start.trans thawed, ?_⟩
    rw [bytes]
    exact cuts.append fixed data
  cases asks with
  | @add malloc _ _ data added =>
    obtain ⟨ok, buf₁, done, outcome⟩ := ChainBuffer.add_eq malloc wf data
    obtain ⟨rfl, rfl⟩ := Prod.mk.inj (Option.some.inj (added.symm.trans done))
    obtain ⟨wf', thawed', cuts'⟩ := arrives outcome.wf (outcome.stream.trans (if_pos rfl))
    refine ⟨wf', thawed', ?_⟩
    simpa [LineEvent.arrived, LineEvent.given, List.filterMap_cons] using cuts'
  | @read malloc socket howmuch _ _ data arrived =>
    obtain ⟨result, buf₁, done, wf₁, stream, -⟩ := ChainBuffer.read_eq malloc wf socket howmuch
    obtain ⟨rfl, rfl⟩ := Prod.mk.inj (Option.some.inj (arrived.symm.trans done))
    obtain ⟨wf', thawed', cuts'⟩ := arrives wf₁ stream
    refine ⟨wf', thawed', ?_⟩
    simpa [LineEvent.arrived, LineEvent.given, List.filterMap_cons] using cuts'
  | @line malloc _ _ text sized asked =>
    obtain ⟨line, buf₁, done, wf', outcome⟩ := ChainBuffer.readln_eq malloc wf sized style
    obtain ⟨rfl, rfl⟩ := Prod.mk.inj (Option.some.inj (asked.symm.trans done))
    cases text with
    | none =>
      obtain ⟨rfl, -⟩ := outcome
      refine ⟨wf, thawed, ?_⟩
      simpa [LineEvent.arrived, LineEvent.given, List.filterMap_cons] using cuts
    | some text =>
      obtain ⟨eol, found, front, stream⟩ := outcome
      have start : buf'.freezeStart = buf.freezeStart := congrArg ByteStream.freezeStart stream
      have bytes : buf'.bytes = buf.bytes.drop (text.length + eol) :=
        congrArg ByteStream.bytes stream
      have cuts' := cuts.concat found
      rw [← front, ← bytes] at cuts'
      refine ⟨wf', start.trans thawed, ?_⟩
      simpa [LineEvent.arrived, LineEvent.given, List.filterMap_cons] using cuts'

/-- An exhausted buffer holds no whole line. -/
theorem Exhausted.split (exhausted : Exhausted style buf) (wf : buf.Wf)
    (thawed : buf.freezeStart = false) : style.split buf.bytes = none := by
  obtain ⟨sized, malloc, memory, asked⟩ := exhausted
  obtain ⟨line, buf₁, done, -, outcome⟩ := ChainBuffer.readln_eq malloc wf sized style
  obtain ⟨rfl, rfl⟩ := Prod.mk.inj (Option.some.inj (asked.symm.trans done))
  rcases outcome.2 with frozen | none_ | refused
  · rw [thawed] at frozen
    contradiction
  · exact none_
  · exact absurd refused memory

theorem cutting_run (fixed : style ≠ .any) (run : Run (Asks style) .new events buf) :
    Cutting style events buf := by
  refine run.invariant (Cutting style) ⟨new_wf, rfl, .nil _⟩ ?_
  exact fun _ _ _ _ _ cutting asks => cutting.step fixed asks

/-- Two programs that get the same stream get the same lines and are left with the same rest, once
each of them has asked until there is no line left. How the stream was cut into arrivals, when
they asked, what the allocator refused and how the bytes lie in chains makes no difference. -/
theorem lines_of_stream (fixed : style ≠ .any) (run : Run (Asks style) .new events buf)
    (run' : Run (Asks style) .new events' buf')
    (same : events.flatMap LineEvent.arrived = events'.flatMap LineEvent.arrived)
    (exhausted : Exhausted style buf) (exhausted' : Exhausted style buf') :
    events.filterMap LineEvent.given = events'.filterMap LineEvent.given ∧
      buf.bytes = buf'.bytes := by
  obtain ⟨wf, thawed, cuts⟩ := cutting_run fixed run
  obtain ⟨wf', thawed', cuts'⟩ := cutting_run fixed run'
  rw [← same] at cuts'
  exact cuts.unique cuts' (exhausted.split wf thawed) (exhausted'.split wf' thawed')

/-- Two pieces that make up one line and a rest, and a program that asks for the line. -/
theorem asked {first second : Bytes} (computed : ((ChainBuffer.new.add plenty first).bind fun a =>
    (a.2.add plenty second).bind fun b => (b.2.readln plenty .lf).bind fun c =>
      (c.2.readln plenty .lf).map fun d => (c.1, d.1, decide (a.1 = true ∧ b.1 = true ∧
        b.2.totalLen ≤ sizeMax ∧ c.2.totalLen ≤ sizeMax))) = some (some [97], none, true)) :
    ∃ buf, Run (Asks .lf) .new [.add first, .add second, .line (some [97])] buf ∧
      Exhausted .lf buf := by
  obtain ⟨⟨ok, buf₁⟩, added, computed⟩ := Option.bind_eq_some_iff.mp computed
  obtain ⟨⟨ok', buf₂⟩, added', computed⟩ := Option.bind_eq_some_iff.mp computed
  obtain ⟨⟨line, buf₃⟩, given, computed⟩ := Option.bind_eq_some_iff.mp computed
  obtain ⟨⟨none_, buf₄⟩, ended, computed⟩ := Option.map_eq_some_iff.mp computed
  simp only [Prod.mk.injEq, decide_eq_true_eq] at computed
  obtain ⟨rfl, rfl, rfl, rfl, sized, sized'⟩ := computed
  have run : Run (Asks .lf) .new [.add first, .add second, .line (some [97])] buf₃ :=
    .cons (.add plenty added) (.cons (.add plenty added') (.single (.line plenty sized given)))
  refine ⟨buf₃, run, sized', plenty, fun ⟨size, refused⟩ => Option.some_ne_none _ refused, ?_⟩
  obtain ⟨text, buf₅, again, -, outcome⟩ := ChainBuffer.readln_eq plenty
    (cutting_run (by decide) run).wf sized' .lf
  obtain ⟨rfl, rfl⟩ := Prod.mk.inj (Option.some.inj (ended.symm.trans again))
  rw [again, outcome.1]

theorem lines_of_stream_cut : ∃ buf buf' : ChainBuffer,
    Run (Asks .lf) .new [.add [97, 10, 98], .add [], .line (some [97])] buf ∧
      Run (Asks .lf) .new [.add [97], .add [10, 98], .line (some [97])] buf' ∧
        buf.bytes = buf'.bytes := by
  obtain ⟨buf, run, exhausted⟩ := @asked [97, 10, 98] [] (by decide +kernel)
  obtain ⟨buf', run', exhausted'⟩ := @asked [97] [10, 98] (by decide +kernel)
  exact ⟨buf, buf', run, run', (lines_of_stream (by decide) run run' rfl exhausted exhausted').2⟩

/-- A cut within a run of line end characters makes two ends of one. -/
example : EolStyle.any.split [97, 13, 10] = some (1, 2) ∧
    EolStyle.any.split [97, 13] = some (1, 1) ∧ EolStyle.any.split [10] = some (0, 1) := by
  decide

end MerlinC.Soundness.LineStream
