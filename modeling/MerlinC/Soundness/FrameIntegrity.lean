import MerlinC.Math.Lines
import MerlinC.Model.FireClientSend
import MerlinC.Soundness.ServerBroadcast

/-! # Frames through the relay

The server relays the bytes of one read at a time and knows nothing of frames. A frame of one
sender therefore stays whole in what the server has queued for a receiver exactly as far as no
read of another sender, and not the receiver's own accept, falls between two pieces of it.
-/

namespace MerlinC.Soundness

open Math Model

/-- The bytes of a read, with their sender. -/
def received? : Event → Option (Conn × Bytes)
  | .read conn data => some (conn, data)
  | _ => none

/-- What was read from whom, oldest first. -/
def reads (events : List Event) : List (Conn × Bytes) := events.filterMap received?

/-- The stream the server has read from one client. -/
def readFrom (conn : Conn) (events : List Event) : Bytes := wordsOf conn (reads events)

/-- The reader is not in the middle of a frame of this client. -/
def BetweenFrames (conn : Conn) (events : List Event) : Prop :=
  (cut newline (readFrom conn events)).2 = []

/-- How many frames of this client the server has read to their end. -/
def framesEnded (conn : Conn) (events : List Event) : ℕ := linesEnded newline conn (reads events)

/-- How many frames of this client the server has read the first byte of. -/
def framesBegun (conn : Conn) (events : List Event) : ℕ := linesBegun newline conn (reads events)

/-- The reading of frame `k` of client `c` overlaps no unfinished frame of a third client, one that
is neither `c` nor `r`: none is in the middle of a frame when the first byte is read, and none is
read from until the last byte is. -/
structure ReadAlone (r : Conn) (events : List Event) (c : Conn) (k : ℕ) : Prop where
  first : ∀ past data future, events = past ++ .read c data :: future →
    framesBegun c past ≤ k → k < framesBegun c (past ++ [.read c data]) →
    ∀ other, other ≠ r → other ≠ c → BetweenFrames other past
  throughout : ∀ past other data future, events = past ++ .read other data :: future →
    other ≠ r → other ≠ c → framesBegun c past = k + 1 → BetweenFrames c past

/-- What is queued for `r`, which was accepted after `before`, is cut at newlines into lines that
each end with a frame of another client. Each frame that ended since that accept ends one line, and
those of one client end lines in their order. The line is the frame if the frame was begun since
that accept and read alone. -/
def FramesKept (r : Conn) (sent : Conn → List Frame) (before events : List Event)
    (queued : Bytes) : Prop :=
  ∃ lines : List (Conn × Bytes), cut newline queued = (lines.map (·.2), []) ∧
    (∀ line ∈ lines, line.1 ≠ r) ∧ ∀ c, c ≠ r →
      (linesOf c lines).length + framesEnded c before = (sent c).length ∧
      ∀ k f, (sent c)[k]? = some f → framesBegun c before ≤ k → ReadAlone r events c k →
        (linesOf c lines)[k - framesEnded c before]? = some f.line

/-- The stream queued for `r`, which was accepted after `before`, is cut at newlines into frames
of other clients only: for each of them, the frames begun after that accept, each once and in
their order. -/
def Intact (r : Conn) (sent : Conn → List Frame) (before : List Event) (queued : Bytes) : Prop :=
  ∃ lines : List (Conn × Bytes), cut newline queued = (lines.map (·.2), []) ∧
    (∀ line ∈ lines, line.1 ≠ r) ∧
    ∀ c, c ≠ r → linesOf c lines = ((sent c).drop (framesBegun c before)).map Frame.line

/-- Nothing that concerns `r` divides a frame: `r` is accepted between the frames of all others,
and each frame begun since is read alone. -/
structure FramesUndivided (r : Conn) (sent : Conn → List Frame) (before events : List Event) :
    Prop where
  accepted : ∀ c, c ≠ r → BetweenFrames c before
  read : ∀ c, c ≠ r → ∀ k, framesBegun c before ≤ k → k < (sent c).length → ReadAlone r events c k

theorem reads_concat (events : List Event) (event : Event) :
    reads (events ++ [event]) = reads events ++ (received? event).toList := by
  rw [reads, List.filterMap_append, reads]
  cases words : received? event <;> simp [words]

/-- The words of another client among those that `r` is to be told. -/
theorem wordsOf_others {c r : Conn} (other : c ≠ r) (spoken : List (Conn × Bytes)) :
    wordsOf c (spoken.filter (·.1 ≠ r)) = wordsOf c spoken := by
  rw [wordsOf, wordsOf, List.filter_filter]
  congr 2
  funext piece
  by_cases same : piece.1 = c
  · simp [same, other]
  · simp [same]

theorem wordsOf_self (r : Conn) (spoken : List (Conn × Bytes)) :
    wordsOf r (spoken.filter (·.1 ≠ r)) = [] := by
  rw [wordsOf, List.filter_filter]
  simp

/-- What `r` is told in between is a read from another client. -/
theorem reads_split {r who : Conn} {events : List Event} {past future : List (Conn × Bytes)}
    {what : Bytes} (split_ : (reads events).filter (·.1 ≠ r) = past ++ (who, what) :: future) :
    who ≠ r ∧ ∃ past' future', events = past' ++ .read who what :: future' ∧
      (reads past').filter (·.1 ≠ r) = past := by
  have told : (who, what) ∈ (reads events).filter (·.1 ≠ r) := by
    rw [split_]
    exact List.mem_append_right _ List.mem_cons_self
  refine ⟨by simpa using (List.mem_filter.mp told).2, ?_⟩
  simp only [reads, List.filter_filterMap] at split_ ⊢
  obtain ⟨front, back, rfl, rfl, later⟩ := List.filterMap_eq_append_iff.mp split_
  obtain ⟨unheard, event, rest, rfl, silent, heard_, -⟩ := List.filterMap_eq_cons_iff.mp later
  refine ⟨front ++ unheard, rest, ?_, ?_⟩
  · cases event with
    | read conn data =>
      obtain ⟨same, -⟩ := Option.filter_eq_some_iff.mp heard_
      obtain ⟨rfl, rfl⟩ := Prod.mk.inj (Option.some.inj same)
      rw [List.append_assoc]
    | _ => simp [received?] at heard_
  · rw [List.filterMap_append, List.filterMap_eq_nil_iff.mpr silent, List.append_nil]

/-- Sent frames are cut into their lines. -/
theorem cut_frames (frames : List Frame) :
    cut newline (frames.flatMap Frame.bytes) = (frames.map Frame.line, []) := by
  have lines := cut_lines newline (frames.map Frame.line) (by
    intro line member
    obtain ⟨f, _, rfl⟩ := List.mem_map.mp member
    exact f.line_oneLine)
  rwa [List.flatMap_map] at lines

/-- A member was accepted, and is told what was read from the others since. -/
theorem accepted_split {events : List Event} {r : Conn}
    (member : r ∈ present (events.flatMap Event.acts)) :
    ∃ before o after, events = before ++ .accept r o :: after ∧
      utterances r (events.flatMap Event.acts) = (reads after).filter (·.1 ≠ r) := by
  induction events using List.reverseRecOn with
  | nil => simp at member
  | append_singleton events event ih =>
    rw [List.flatMap_append, List.flatMap_singleton] at member ⊢
    have extend (act : Act Conn UInt8) (acts : event.acts = [act])
        (stays : act.joins r = false) (old : r ∈ present (events.flatMap Event.acts))
        (same : act.spoken? = received? event) :
        ∃ before o after, events ++ [event] = before ++ .accept r o :: after ∧
          utterances r (events.flatMap Event.acts ++ event.acts) =
            (reads after).filter (·.1 ≠ r) := by
      obtain ⟨before, o, after, split_, told⟩ := ih old
      refine ⟨before, o, after ++ [event], by rw [split_]; simp, ?_⟩
      rw [acts, utterances_concat _ stays, told, same, reads_concat, List.filter_append]
    have unheard (silent : event.acts = []) (unread : received? event = none) :
        ∃ before o after, events ++ [event] = before ++ .accept r o :: after ∧
          utterances r (events.flatMap Event.acts ++ event.acts) =
            (reads after).filter (·.1 ≠ r) := by
      rw [silent, List.append_nil] at member ⊢
      obtain ⟨before, o, after, split_, told⟩ := ih member
      refine ⟨before, o, after ++ [event], by rw [split_]; simp, ?_⟩
      rw [told, reads_concat, unread, Option.toList_none, List.append_nil]
    cases event with
    | acceptFailed => exact unheard rfl rfl
    | flush conn count => exact unheard rfl rfl
    | accept conn o =>
      by_cases self : conn = r
      · subst self
        refine ⟨events, o, [], rfl, ?_⟩
        simp [utterances, since, Event.acts, Act.joins, reads]
      · refine extend (.join conn) rfl (by simp [Act.joins, self]) ?_ rfl
        rw [Event.acts, present_join] at member
        simpa [Ne.symm self] using member
    | read conn data =>
      refine extend (.say conn data) rfl rfl ?_ rfl
      rwa [Event.acts, present_say] at member
    | error conn what =>
      refine extend (.leave conn) rfl rfl ?_ rfl
      rw [Event.acts, present_leave] at member
      exact List.mem_of_mem_erase member

theorem between_told {r c : Conn} (other : c ≠ r) (events : List Event) :
    Between newline c ((reads events).filter (·.1 ≠ r)) ↔ BetweenFrames c events := by
  rw [Between, wordsOf_others other]
  rfl

theorem linesEnded_told {r c : Conn} (other : c ≠ r) (events : List Event) :
    linesEnded newline c ((reads events).filter (·.1 ≠ r)) = framesEnded c events := by
  rw [framesEnded, linesEnded, linesEnded, wordsOf_others other]

theorem linesBegun_told {r c : Conn} (other : c ≠ r) (events : List Event) :
    linesBegun newline c ((reads events).filter (·.1 ≠ r)) = framesBegun c events :=
  congrArg₂ (· + ·) (linesEnded_told other events) (if_congr (between_told other events) rfl rfl)

/-- A frame that is read alone is so in what `r` is told. -/
theorem ReadAlone.alone {r c : Conn} {events : List Event} {k : ℕ} (other : c ≠ r)
    (alone : ReadAlone r events c k) :
    Alone newline c ((reads events).filter (·.1 ≠ r)) k := by
  constructor
  · intro past what future split_ before after who different
    obtain ⟨-, past', future', rfl, rfl⟩ := reads_split split_
    have extended : (reads past').filter (·.1 ≠ r) ++ [(c, what)] =
        (reads (past' ++ [.read c what])).filter (·.1 ≠ r) := by
      rw [reads_concat, List.filter_append]
      simp [received?, other]
    rw [linesBegun_told other] at before
    rw [extended, linesBegun_told other] at after
    by_cases own : who = r
    · subst own
      rw [Between, wordsOf_self, cut_nil]
    · rw [between_told own]
      exact alone.first past' what future' rfl before after who own different
  · intro past who what future split_ different begins
    obtain ⟨third, past', future', rfl, rfl⟩ := reads_split split_
    rw [linesBegun_told other] at begins
    rw [between_told other]
    exact alone.throughout past' who what future' rfl third different begins

/-- What `r` is told since its accept keeps the frames, if all that were begun have ended. -/
theorem framesKept {r : Conn} {o : AcceptOutcome} {before after : List Event}
    {sent : Conn → List Frame}
    (whole : ∀ c, readFrom c (before ++ .accept r o :: after) = (sent c).flatMap Frame.bytes) :
    FramesKept r sent before (before ++ .accept r o :: after)
      (((reads after).filter (·.1 ≠ r)).flatMap (·.2)) := by
  obtain ⟨lines, heard⟩ := exists_heardLate newline ((reads before).filter (·.1 ≠ r))
    ((reads after).filter (·.1 ≠ r))
  have joined : (reads before).filter (·.1 ≠ r) ++ (reads after).filter (·.1 ≠ r) =
      (reads (before ++ .accept r o :: after)).filter (·.1 ≠ r) := by
    rw [reads, reads, reads, List.filterMap_append, List.filter_append]
    rfl
  have cuts (c : Conn) (other : c ≠ r) :
      cut newline (wordsOf c ((reads (before ++ .accept r o :: after)).filter (·.1 ≠ r))) =
        ((sent c).map Frame.line, []) := by
    rw [wordsOf_others other, ← cut_frames, ← whole]
    rfl
  have quiet (c : Conn) :
      Between newline c ((reads (before ++ .accept r o :: after)).filter (·.1 ≠ r)) := by
    by_cases own : c = r
    · rw [own, Between, wordsOf_self, cut_nil]
    · rw [Between, cuts c own]
  refine ⟨lines, Prod.ext heard.finished (heard.quiet (joined.symm ▸ quiet)), ?_, ?_⟩
  · intro line member
    obtain ⟨piece, heard_, same⟩ := List.mem_map.mp (heard.speakers line member)
    rw [← same]
    simpa using (List.mem_filter.mp heard_).2
  · intro c other
    have count := heard.count c
    rw [joined, linesEnded_told other] at count
    constructor
    · rw [count, linesEnded, cuts c other, List.length_map]
    · intro k f frame late alone
      rw [← linesEnded_told other]
      apply heard.own c k f.line
      · rw [joined, cuts c other, List.getElem?_map, frame]
        rfl
      · rwa [linesBegun_told other]
      · rw [joined]
        exact alone.alone other

/-- Where nothing divides a frame, the lines are the frames. -/
theorem FramesKept.intact {r : Conn} {sent : Conn → List Frame} {before events : List Event}
    {queued : Bytes} (kept : FramesKept r sent before events queued)
    (undivided : FramesUndivided r sent before events) : Intact r sent before queued := by
  obtain ⟨lines, finished, others, own⟩ := kept
  refine ⟨lines, finished, others, fun c other => ?_⟩
  obtain ⟨count, each⟩ := own c other
  have begins : framesBegun c before = framesEnded c before :=
    linesBegun_of_between (undivided.accepted c other)
  refine List.ext_getElem? fun i => ?_
  rw [List.getElem?_map, List.getElem?_drop, begins]
  cases found : (sent c)[framesEnded c before + i]? with
  | none =>
    rw [List.getElem?_eq_none_iff] at found
    rw [Option.map_none, List.getElem?_eq_none_iff]
    omega
  | some f =>
    have inside := (List.getElem?_eq_some_iff.mp found).1
    have late : framesBegun c before ≤ framesEnded c before + i := begins ▸ Nat.le_add_right _ _
    have line := each _ f found late (undivided.read c other _ late inside)
    rwa [Nat.add_sub_cancel_left] at line

/-- Every line of an intact stream is a frame of another client. -/
theorem Intact.frame {r : Conn} {sent : Conn → List Frame} {before : List Event} {queued : Bytes}
    (intact : Intact r sent before queued) {line : Bytes}
    (member : line ∈ (cut newline queued).1) : ∃ c, c ≠ r ∧ ∃ f ∈ sent c, f.line = line := by
  obtain ⟨lines, finished, others, own⟩ := intact
  rw [finished] at member
  obtain ⟨⟨c, text⟩, inside, rfl⟩ := List.mem_map.mp member
  have among : text ∈ linesOf c lines :=
    List.mem_map.mpr ⟨(c, text), List.mem_filter.mpr ⟨inside, by simp⟩, rfl⟩
  rw [own c (others _ inside)] at among
  obtain ⟨f, dropped, rfl⟩ := List.mem_map.mp among
  exact ⟨c, others _ inside, f, List.mem_of_mem_drop dropped, rfl⟩

/-- Let every client send whole frames, each of which the server has read to its end. For every
client in `client_tailq_head`, whenever it was accepted, each frame of another one that was begun
since and read alone is one line of what the server has queued for it, once and in order. If all
are, and no frame was divided by the accept, then that is all there is. -/
theorem frames_intact {own : Fd → Option Bool} {events : List Event} {s : Server}
    {sent : Conn → List Frame} (run : Run Server.Step (.main own) events s)
    (whole : ∀ c, readFrom c events = (sent c).flatMap Frame.bytes) :
    ∃ clients, s.registry.Represents clients ∧ ∀ client ∈ clients, ∃ ev before o after,
      Queued s client ev ∧ events = before ++ .accept ev.control.conn o :: after ∧
        FramesKept ev.control.conn sent before events (ev.flushed ++ ev.output.bytes) ∧
        (FramesUndivided ev.control.conn sent before events →
          Intact ev.control.conn sent before (ev.flushed ++ ev.output.bytes)) := by
  obtain ⟨clients, links, told, _⟩ := queued_run run
  refine ⟨clients, links, fun client member => ?_⟩
  obtain ⟨ev, queued, here, bytes, _⟩ := told client member
  obtain ⟨before, o, after, rfl, since⟩ := accepted_split here
  have kept := framesKept whole
  rw [← since, ← heard, ← bytes] at kept
  exact ⟨ev, before, o, after, queued, rfl, kept, kept.intact⟩

/-- One frame each from the first and the second client. -/
def twoFrames : Conn → List Frame
  | 0 => [⟨ascii "a", by decide⟩]
  | 1 => [⟨ascii "b", by decide⟩]
  | _ => []

/-- The third client is accepted inside the first frame, after which the second one arrives in two
pieces. -/
def lateListener : List Event :=
  [.accept 0 (acceptNth 0), .accept 1 (acceptNth 1), .read 0 (ascii "[FIRE]:a"),
    .accept 2 (acceptNth 2), .read 0 [newline], .read 1 (ascii "[FIRE]:b"), .read 1 [newline]]

/-- The second frame arrives between the two pieces of the first. -/
def divided : List Event :=
  [.accept 0 (acceptNth 0), .accept 1 (acceptNth 1), .accept 2 (acceptNth 2),
    .read 0 (ascii "[FIRE]:a"), .read 1 (ascii "[FIRE]:b\n"), .read 0 [newline]]

/-- What precedes an event is the beginning of the run up to its place. -/
private theorem past_eq_take {events past future : List Event} {event : Event}
    (split_ : events = past ++ event :: future) :
    past = events.take past.length ∧ events[past.length]? = some event := by
  subst split_
  simp

/-- The third client was accepted as the fourth event. -/
private theorem lateListener_before {before after : List Event} {o : AcceptOutcome}
    (split_ : lateListener = before ++ .accept 2 o :: after) : before = lateListener.take 3 := by
  obtain ⟨early, here⟩ := past_eq_take split_
  generalize before.length = place at early here
  rcases place with _ | _ | _ | _ | _ | _ | _ | place
  case succ.succ.succ.zero => exact early
  all_goals simp [lateListener] at here

/-- The second frame is read alone, for the third client. -/
private theorem lateListener_alone : ReadAlone 2 lateListener 1 0 := by
  constructor
  · intro past data future split_ before _ other third different
    obtain ⟨early, here⟩ := past_eq_take split_
    generalize past.length = place at early here
    subst early
    rcases place with _ | _ | _ | _ | _ | _ | _ | place
    case succ.succ.succ.succ.succ.zero =>
      rcases other with _ | _ | other
      · rfl
      · contradiction
      · rfl
    case succ.succ.succ.succ.succ.succ.zero => exact absurd before (by decide)
    all_goals simp [lateListener] at here
  · intro past other data future split_ third different begins
    obtain ⟨early, here⟩ := past_eq_take split_
    generalize past.length = place at early here
    subst early
    rcases place with _ | _ | _ | _ | _ | _ | _ | place
    case succ.succ.zero => exact absurd begins (by decide)
    case succ.succ.succ.succ.zero => exact absurd begins (by decide)
    all_goals simp [lateListener, Ne.symm different] at here

/-- The third client was accepted inside the first frame and has the second one as a line. -/
theorem frames_intact_late : ∃ s clients, Run Server.Step (.main listening) lateListener s ∧
    s.registry.Represents clients ∧ ∃ client ∈ clients, ∃ ev, Queued s client ev ∧
      ev.control.conn = 2 ∧
      ascii "[FIRE]:b" ∈ (cut newline (ev.flushed ++ ev.output.bytes)).1 := by
  have run : ∃ s, Run Server.Step (.main listening) lateListener s := by
    exact ⟨_, .cons (.accept rfl rfl (acceptNth_fresh rfl rfl rfl) rfl)
      (.cons (.accept rfl rfl (acceptNth_fresh rfl rfl rfl) rfl)
      (.cons (.read 1 rfl rfl rfl (by decide) rfl)
      (.cons (.accept rfl rfl (acceptNth_fresh rfl rfl rfl) rfl)
      (.cons (.read 1 rfl rfl rfl (by decide) rfl)
      (.cons (.read 2 rfl rfl rfl (by decide) rfl)
      (.single (.read 2 rfl rfl rfl (by decide) rfl)))))))⟩
  obtain ⟨s, run⟩ := run
  have whole (c : Conn) : readFrom c lateListener = (twoFrames c).flatMap Frame.bytes := by
    rcases c with _ | _ | c
    · decide
    · decide
    · rfl
  obtain ⟨clients, links, intact⟩ := frames_intact run whole
  obtain ⟨clients', links', _, each⟩ := queued_run run
  obtain rfl := links.unique links'
  obtain ⟨client, member, ev, queued, third⟩ := each 2 (by decide)
  obtain ⟨ev', before, o, after, queued', split_, kept, -⟩ := intact client member
  obtain rfl := queued.unique queued'
  rw [third] at split_ kept
  obtain rfl := lateListener_before split_
  obtain ⟨lines, finished, -, own⟩ := kept
  have line := (own 1 (by decide)).2 0 _ rfl (by decide) lateListener_alone
  obtain ⟨⟨_, _⟩, among, rfl⟩ := List.mem_map.mp (List.mem_of_getElem? line)
  refine ⟨s, clients, run, links, client, member, ev, queued, third, ?_⟩
  rw [finished]
  exact List.mem_map_of_mem (List.mem_filter.mp among).1

/-- Read between the pieces of the other frame, a frame becomes part of a mixture. -/
theorem frames_not_intact : ¬ ∀ (events : List Event) (s : Server) (sent : Conn → List Frame),
    Run Server.Step (.main listening) events s →
    (∀ c, readFrom c events = (sent c).flatMap Frame.bytes) →
    ∃ clients, s.registry.Represents clients ∧ ∀ client ∈ clients, ∃ ev before o after,
      Queued s client ev ∧ events = before ++ .accept ev.control.conn o :: after ∧
        Intact ev.control.conn sent before (ev.flushed ++ ev.output.bytes) := by
  intro intact
  have run : ∃ s, Run Server.Step (.main listening) divided s := by
    exact ⟨_, .cons (.accept rfl rfl (acceptNth_fresh rfl rfl rfl) rfl)
      (.cons (.accept rfl rfl (acceptNth_fresh rfl rfl rfl) rfl)
      (.cons (.accept rfl rfl (acceptNth_fresh rfl rfl rfl) rfl)
      (.cons (.read 1 rfl rfl rfl (by decide) rfl)
      (.cons (.read 2 rfl rfl rfl (by decide) rfl)
      (.single (.read 1 rfl rfl rfl (by decide) rfl))))))⟩
  obtain ⟨s, run⟩ := run
  have whole (c : Conn) : readFrom c divided = (twoFrames c).flatMap Frame.bytes := by
    rcases c with _ | _ | c
    · decide
    · decide
    · rfl
  obtain ⟨clients, links, intact_⟩ := intact divided s twoFrames run whole
  obtain ⟨clients', links', told, each⟩ := queued_run run
  obtain rfl := links.unique links'
  obtain ⟨client, member, ev, queued, third⟩ := each 2 (by decide)
  obtain ⟨ev', before, o, after, queued', _, whole'⟩ := intact_ client member
  obtain rfl := queued.unique queued'
  obtain ⟨ev', queued', _, bytes, _⟩ := told client member
  obtain rfl := queued.unique queued'
  -- The newline that ends the first frame is left over as an empty line.
  have fragment : [] ∈ (cut newline (ev.flushed ++ ev.output.bytes)).1 := by
    rw [bytes, third]
    decide
  obtain ⟨c, _, f, _, empty⟩ := whole'.frame fragment
  exact absurd empty (by simp [Frame.line, ascii])

end MerlinC.Soundness
