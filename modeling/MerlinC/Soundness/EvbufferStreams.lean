import MerlinC.Math.Runs
import MerlinC.Model.CArray
import MerlinC.Model.ChainSearch
import MerlinC.Model.EvbufferPool

/-! # Evbuffers are byte streams

Whatever calls a program makes on its evbuffers, in whatever order and with whatever allocations
failing, no call leaves memory or breaks an assertion, and a program that sees only the replies
cannot tell the chains from plain byte streams. The counts that the callbacks are told add up: a
listener that starts at zero and follows them knows the length of the buffer.
-/

namespace MerlinC.Soundness.EvbufferStreams

open Math Model

variable {ι : Type*} [DecidableEq ι]

/-- One call on the chains, whose caller sees to what callers see to. -/
def Calls (pool : ι → ChainBuffer) (event : BufferCall ι × CallResult)
    (pool' : ι → ChainBuffer) : Prop :=
  event.1.Pre pool ∧ event.1.run pool = some (event.2, pool')

/-- One call on the byte streams. -/
def Streams (streams : ι → ByteStream) (event : BufferCall ι × CallResult)
    (streams' : ι → ByteStream) : Prop :=
  event.1.Allows streams event.2 streams'

/-- The evbuffers of a program as `evbuffer_new` makes them. -/
def fresh : ι → ChainBuffer := fun _ => .new

/-- The streams that those stand for. -/
def silence : ι → ByteStream := fun _ => ⟨[], 0, 0, false, false⟩

def streams (pool : ι → ChainBuffer) : ι → ByteStream := fun buf => (pool buf).stream

variable {pool pool' : ι → ChainBuffer} {events : List (BufferCall ι × CallResult)}

theorem new_wf : ChainBuffer.new.Wf :=
  ⟨by simp [ChainBuffer.new, ChainBuffer.chains], absurd rfl, by simp [ChainBuffer.new],
    by simp [ChainBuffer.new], rfl⟩

/-- A call keeps every evbuffer well formed and is a call on the streams. -/
theorem Calls.streams {event : BufferCall ι × CallResult} (wf : ∀ buf, (pool buf).Wf)
    (calls : Calls pool event pool') :
    (∀ buf, (pool' buf).Wf) ∧ Streams (streams pool) event (streams pool') := by
  obtain ⟨reply, after, done, wf', allowed⟩ := event.1.run_allows wf calls.1
  obtain ⟨same, rfl⟩ := Prod.mk.inj (Option.some.inj (done.symm.trans calls.2))
  refine ⟨wf', ?_⟩
  rw [Streams, ← same]
  exact allowed

theorem runs_wf (run : Run Calls fresh events pool) : ∀ buf, (pool buf).Wf := by
  apply run.invariant (fun _ pool => ∀ buf, (pool buf).Wf) (fun _ => new_wf)
  intro _ _ _ event _ wf calls
  exact (calls.streams wf).1

/-- A run of calls on the chains is a run of calls on the byte streams with the same replies, and
the next call is defined whatever it is. -/
theorem chains_are_streams (run : Run Calls fresh events pool) :
    Run Streams silence events (streams pool) ∧
      ∀ call : BufferCall ι, call.Pre pool → ∃ reply pool', Calls pool (call, reply) pool' := by
  constructor
  · have simulated : ∃ flow : ι → ByteStream,
        Run Streams silence (events.flatMap fun event => [event]) flow ∧
          (∀ buf, (pool buf).Wf) ∧ streams pool = flow := by
      apply run.simulate (fun _ => True)
        (fun pool flow => (∀ buf, (pool buf).Wf) ∧ streams pool = flow)
      · exact ⟨fun _ => new_wf, rfl⟩
      · rintro pool _ event pool' ⟨wf, rfl⟩ - calls
        obtain ⟨wf', allowed⟩ := calls.streams wf
        exact ⟨_, .single allowed, wf', rfl⟩
      · exact fun _ _ => trivial
    rw [List.flatMap_singleton'] at simulated
    obtain ⟨flow, abstract, -, rfl⟩ := simulated
    exact abstract
  · intro call pre
    obtain ⟨reply, pool', done, -, -⟩ := call.run_allows (runs_wf run) pre
    exact ⟨reply, pool', pre, done⟩

/-- An allocator that always has memory. -/
def plenty : Malloc where
  block size := some (List.replicate size 0)
  sized := by
    rintro size mem allocated
    obtain rfl := Option.some.inj allocated
    exact List.length_replicate

/-- One call, if it gives this reply. -/
def next : (ι → ChainBuffer) → BufferCall ι × CallResult → Option (ι → ChainBuffer) :=
  replay BufferCall.Pre BufferCall.run

/-- A greeting is put together from two evbuffers and taken out again across its chains. -/
def greeting : List (BufferCall Bool × CallResult) :=
  [(.on false (.add plenty (ascii "hello")), .done true),
    (.on true (.add plenty (ascii "oh, ")), .done true),
    (.between true false .addBuffer, .done true),
    (.on true (.runCallbacks true true), .told (some ⟨0, 9, 0⟩)),
    (.on true (.remove 6), .text (some (ascii "oh, he"))),
    (.on true (.runCallbacks true true), .told (some ⟨9, 0, 6⟩))]

theorem greeting_run : ∃ pool, Run Calls fresh greeting pool := by
  obtain ⟨pool, done⟩ : ∃ pool, greeting.foldlM next fresh = some pool :=
    Option.isSome_iff_exists.mp (by decide +kernel)
  exact ⟨pool, .of_foldlM of_replay done⟩

theorem greeting_is_a_stream : ∃ flow, Run Streams silence greeting flow := by
  obtain ⟨pool, run⟩ := greeting_run
  exact ⟨_, (chains_are_streams run).1⟩

/-- A socket that has this to read. -/
def holding (text : Bytes) (ready : ℤ) : ReadSocket where
  ready := ready
  readv room := some (text.take room)
  bounded := by
    rintro room data arrived
    obtain rfl := Option.some.inj arrived
    exact List.length_take_le room text

/-- A source that has read to the end of its file goes in front of two chains of a buffer, of which
a part is moved on. -/
def misplaced : List (BufferCall (Fin 3)) :=
  [.on 0 (.read plenty (holding (ascii "hello") 5) (-1)),
    .on 0 (.read plenty (holding [] 0) (-1)),
    .on 1 (.add plenty (List.replicate 976 1)), .on 1 (.add plenty (List.replicate 10 2)),
    .between 1 0 .prependBuffer, .between 1 2 (.removeBuffer plenty 984)]

/-- Of the bytes that are moved on, the last ones come before others that were in front of them:
`evbuffer_prepend_buffer` is not called so. -/
example :
    (misplaced.foldlM (fun pool call => (BufferCall.run pool call).map (·.2)) fresh).map
        (fun pool => (pool 2).bytes) =
      some (ascii "hello" ++ (List.replicate 3 2 ++ List.replicate 976 1)) := by
  decide +kernel

/-- In any state of a run `evbuffer_find` finds where a text first occurs in the stream, and then
the text lies in one piece in the first chain. It fails where the text does not occur, or for want
of memory. The stream stays as it is. -/
theorem texts_are_found (run : Run Calls fresh events pool) (buf : ι) (malloc : Malloc)
    {what : Bytes} (some_ : what ≠ []) (short : what.length ≤ ssizeMax)
    (sized : (pool buf).totalLen ≤ sizeMax) :
    ∃ found buf', (pool buf).find malloc what = some (found, buf') ∧
      buf'.stream = (pool buf).stream ∧
      match found with
      | none => (∀ i, ¬what <+: (pool buf).bytes.drop i) ∨
        OutOfMemory malloc (pool buf).bytes.length
      | some pos => what <+: (pool buf).bytes.drop pos ∧
        (∀ i < pos, ¬what <+: (pool buf).bytes.drop i) ∧
        ∃ chain, buf'.chains.head? = some chain ∧ pos + what.length ≤ chain.off := by
  obtain ⟨found, buf', done, -, same, result⟩ :=
    ChainBuffer.find_eq malloc (runs_wf run buf) sized short some_
  refine ⟨found, buf', done, same, ?_⟩
  cases found with
  | none => exact result.imp_left find_eq_none
  | some pos =>
    obtain ⟨here, first⟩ := find_eq_some result.1
    exact ⟨here, first, result.2⟩

/-- In the greeting a text is found that lies across its chains. -/
theorem greeting_is_found : ∃ (pool : Bool → ChainBuffer) (buf' : ChainBuffer),
    Run Calls fresh (greeting.take 4) pool ∧
      (pool true).find plenty (ascii ", he") = some (some 2, buf') ∧
      buf'.stream = (pool true).stream ∧
      ∃ chain, buf'.chains.head? = some chain ∧ 6 ≤ chain.off := by
  have computed : ((greeting.take 4).foldlM next fresh).map (fun pool =>
      ((pool true).bytes, decide ((pool true).totalLen ≤ sizeMax))) =
        some (ascii "oh, hello", true) := by
    decide +kernel
  obtain ⟨pool, done, both⟩ := Option.map_eq_some_iff.mp computed
  obtain ⟨text, sized⟩ := Prod.mk.inj both
  have run : Run Calls fresh (greeting.take 4) pool := .of_foldlM of_replay done
  obtain ⟨found, buf', searched, same, place⟩ := texts_are_found run true plenty
    (by decide : ascii ", he" ≠ []) (by decide) (of_decide_eq_true sized)
  rw [text] at place
  cases found with
  | none =>
    rcases place with absent | ⟨_, refused⟩ | large
    · exact absurd (by decide) (absent 2)
    · exact absurd refused (Option.some_ne_none _)
    · exact absurd large (by decide)
  | some pos =>
    obtain ⟨here, first, inside⟩ := place
    rcases pos with _ | _ | _ | pos
    · exact absurd here (by decide)
    · exact absurd here (by decide)
    · exact ⟨pool, buf', run, searched, same, inside⟩
    · exact absurd (by decide) (first 2 (by omega))

/-- The length of a stream is what its listeners know, but for the changes not yet told. -/
def Balanced (s : ByteStream) (known : ℕ) : Prop :=
  s.bytes.length + s.deleted = known + s.added

/-- What a listener on one evbuffer is told. -/
def notices (buf : ι) : BufferCall ι × CallResult → List CbInfo
  | (.on other (.runCallbacks _ _), .told (some info)) => if other = buf then [info] else []
  | _ => []

/-- The callbacks of an evbuffer that run are there, and none of them waits. -/
def Attended (buf : ι) (event : BufferCall ι × CallResult) : Prop :=
  ∀ callbacks clear, event.1 = .on buf (.runCallbacks callbacks clear) →
    callbacks = true ∧ clear = true

/-- Notices of which each begins at the length the one before it ended at. -/
def Tallies : ℕ → List CbInfo → ℕ → Prop
  | known, [], length => length = known
  | known, info :: rest, length =>
      info.origSize = known ∧
        ∃ next, next + info.nDeleted = known + info.nAdded ∧ Tallies next rest length

theorem Tallies.snoc {known middle length : ℕ} {infos : List CbInfo} {info : CbInfo}
    (tallies : Tallies known infos middle) (starts : info.origSize = middle)
    (ends : length + info.nDeleted = middle + info.nAdded) :
    Tallies known (infos ++ [info]) length := by
  induction infos generalizing known with
  | nil =>
    obtain rfl : middle = known := tallies
    exact ⟨starts, length, ends, rfl⟩
  | cons first rest ih =>
    obtain ⟨start, next, change, later⟩ := tallies
    exact ⟨start, next, change, ih later⟩

section Balance

variable {s s' t t' : ByteStream} {known : ℕ}

theorem balanced_append (text : Bytes) : Balanced (s.append text) known ↔ Balanced s known := by
  simp only [Balanced, ByteStream.append, List.length_append]
  omega

theorem balanced_prepend (text : Bytes) : Balanced (s.prepend text) known ↔ Balanced s known := by
  simp only [Balanced, ByteStream.prepend, List.length_append]
  omega

theorem balanced_drop (count : ℕ) : Balanced (s.drop count) known ↔ Balanced s known := by
  simp only [Balanced, ByteStream.drop, List.length_drop]
  omega

theorem balanced_ite {ok : Prop} [Decidable ok] (done : Balanced s' known ↔ Balanced s known) :
    Balanced (if ok then s' else s) known ↔ Balanced s known := by
  split
  · exact done
  · rfl

/-- A call other than the callbacks' own changes the length and the counts together. -/
theorem Op.balanced {op : Op} {reply : CallResult} (allowed : op.Allows s reply s')
    (other : ∀ callbacks clear, op ≠ .runCallbacks callbacks clear) :
    Balanced s' known ↔ Balanced s known := by
  cases op with
  | add malloc data =>
    cases reply with
    | done ok => exact allowed.1 ▸ balanced_ite (balanced_append data)
    | _ => exact allowed.elim
  | prepend malloc data =>
    cases reply with
    | done ok =>
      obtain ⟨text, rfl, -⟩ := allowed
      exact balanced_prepend text
    | _ => exact allowed.elim
  | drain len =>
    cases reply with
    | done ok => exact allowed.1 ▸ balanced_ite (balanced_drop len)
    | _ => exact allowed.elim
  | copyout datlen =>
    cases reply with
    | text data => exact allowed.1 ▸ Iff.rfl
    | _ => exact allowed.elim
  | remove datlen =>
    cases reply with
    | text data =>
      rw [allowed.1]
      split
      · rfl
      · exact balanced_drop datlen
    | _ => exact allowed.elim
  | readln malloc style =>
    cases reply with
    | text data =>
      cases data with
      | none => exact allowed.1 ▸ Iff.rfl
      | some line =>
        obtain ⟨eol, -, -, rfl⟩ := allowed
        exact balanced_drop _
    | _ => exact allowed.elim
  | pullup malloc size =>
    cases reply with
    | done ok => exact allowed.1 ▸ Iff.rfl
    | _ => exact allowed.elim
  | read malloc socket howmuch =>
    cases reply with
    | text data => exact allowed.1 ▸ balanced_append _
    | _ => exact allowed.elim
  | write socket howmuch =>
    cases reply with
    | amount count => exact allowed.1 ▸ balanced_drop _
    | _ => exact allowed.elim
  | freeze start =>
    cases reply with
    | done ok => cases start <;> exact allowed.2 ▸ Iff.rfl
    | _ => exact allowed.elim
  | unfreeze start =>
    cases reply with
    | done ok => cases start <;> exact allowed.2 ▸ Iff.rfl
    | _ => exact allowed.elim
  | runCallbacks callbacks clear => exact absurd rfl (other callbacks clear)

/-- So does a call that moves bytes from one stream to another, for both of them. -/
theorem Transfer.balanced {transfer : Transfer} {reply : CallResult} (known : ℕ)
    (allowed : transfer.Allows s t reply s' t') :
    (Balanced s' known ↔ Balanced s known) ∧ (Balanced t' known ↔ Balanced t known) := by
  cases transfer with
  | addBuffer =>
    cases reply with
    | done ok =>
      obtain ⟨rfl, rfl, -⟩ := allowed
      exact ⟨balanced_ite (balanced_append _), balanced_ite (balanced_drop _)⟩
    | _ => exact allowed.elim
  | prependBuffer =>
    cases reply with
    | done ok =>
      obtain ⟨rfl, rfl, -⟩ := allowed
      exact ⟨balanced_ite (balanced_prepend _), balanced_ite (balanced_drop _)⟩
    | _ => exact allowed.elim
  | removeBuffer malloc datlen =>
    cases reply with
    | amount count =>
      cases count with
      | none =>
        obtain ⟨rfl, rfl, -⟩ := allowed
        exact ⟨Iff.rfl, Iff.rfl⟩
      | some n =>
        obtain ⟨-, rfl, text, -, rfl, -⟩ := allowed
        exact ⟨balanced_drop _, balanced_append _⟩
    | _ => exact allowed.elim

end Balance

theorem notices_other {buf other : ι} {op : Op} {reply : CallResult}
    (quiet : (∀ callbacks clear, op ≠ .runCallbacks callbacks clear) ∨ other ≠ buf) :
    notices buf (.on other op, reply) = [] := by
  unfold notices
  split
  · next callbacks clear info same =>
    obtain ⟨same, -⟩ := Prod.mk.inj same
    obtain ⟨rfl, rfl⟩ := BufferCall.on.inj same
    rcases quiet with quiet | apart
    · exact absurd rfl (quiet callbacks clear)
    · exact if_neg apart
  · rfl

/-- A call that tells nothing of an evbuffer keeps what is known of it. -/
theorem BufferCall.balanced {call : BufferCall ι} {reply : CallResult}
    {flow flow' : ι → ByteStream} {buf : ι} (known : ℕ) (allowed : call.Allows flow reply flow')
    (other : ∀ callbacks clear, call ≠ .on buf (.runCallbacks callbacks clear)) :
    notices buf (call, reply) = [] ∧ (Balanced (flow' buf) known ↔ Balanced (flow buf) known) := by
  cases call with
  | on named op =>
    rcases eq_or_ne named buf with rfl | apart
    · have quiet : ∀ callbacks clear, op ≠ .runCallbacks callbacks clear := by
        rintro callbacks clear rfl
        exact other callbacks clear rfl
      exact ⟨notices_other (.inl quiet), Op.balanced allowed.1 quiet⟩
    · exact ⟨notices_other (.inr apart), by rw [allowed.2 buf apart.symm]⟩
  | between first second transfer =>
    refine ⟨rfl, ?_⟩
    obtain ⟨named, others⟩ := allowed
    split at named
    · next same =>
      subst same
      rcases eq_or_ne buf first with rfl | apart
      · rw [named.2]
      · rw [others buf apart apart]
    · have both := Transfer.balanced known named
      rcases eq_or_ne buf first with rfl | apart
      · exact both.1
      · rcases eq_or_ne buf second with rfl | apart'
        · exact both.2
        · rw [others buf apart apart']

/-- What is told leads from the length that was known to the length there is. -/
theorem told {s s' : ByteStream} {info : Option CbInfo} {known : ℕ} (balanced : Balanced s known)
    (allowed : (Op.runCallbacks true true).Allows s (.told info) s') :
    match info with
    | none => Balanced s' known
    | some info => info.origSize = known ∧ s'.bytes.length + info.nDeleted = known + info.nAdded ∧
        Balanced s' s'.bytes.length := by
  obtain ⟨same, cleared⟩ := allowed
  rw [if_pos (.inr rfl)] at cleared
  unfold Balanced at balanced
  subst cleared
  split at same
  · subst same
    refine ⟨?_, balanced, rfl⟩
    simp only [ByteStream.info]
    omega
  · next nothing =>
    subst same
    have : s.added = 0 ∧ s.deleted = 0 := by
      simp only [true_and] at nothing
      omega
    simp only [Balanced, ByteStream.clear]
    omega

/-- What a listener is told in a run of calls that it attends adds up to a length, and the changes
not yet told lead from there to the length of the evbuffer. -/
theorem listeners_know_the_length (run : Run Calls fresh events pool) (buf : ι)
    (attended : ∀ event ∈ events, Attended buf event) :
    ∃ known, Tallies 0 (events.flatMap (notices buf)) known ∧
      (pool buf).bytes.length + (pool buf).nDelForCb = known + (pool buf).nAddForCb := by
  refine run.invariant_of_allowed (Attended buf)
    (fun past pool => ∃ known, Tallies 0 (past.flatMap (notices buf)) known ∧
      Balanced (pool buf).stream known) ⟨0, rfl, ?_⟩ ?_ attended
  · rfl
  · rintro past pool ⟨call, reply⟩ pool' earlier ⟨known, tallies, balanced⟩ heard calls
    obtain ⟨-, allowed⟩ := calls.streams (runs_wf earlier)
    rw [List.flatMap_append, List.flatMap_singleton]
    by_cases speaks : ∃ callbacks clear, call = .on buf (.runCallbacks callbacks clear)
    · obtain ⟨callbacks, clear, rfl⟩ := speaks
      obtain ⟨rfl, rfl⟩ := heard callbacks clear rfl
      cases reply with
      | told info =>
        have result := told balanced allowed.1
        cases info with
        | none =>
          refine ⟨known, ?_, result⟩
          simpa only [notices, List.append_nil] using tallies
        | some info =>
          refine ⟨_, ?_, result.2.2⟩
          rw [notices, if_pos rfl]
          exact tallies.snoc result.1 result.2.1
      | _ => exact allowed.1.elim
    · obtain ⟨silent, kept⟩ := BufferCall.balanced known allowed
        fun callbacks clear same => speaks ⟨callbacks, clear, same⟩
      refine ⟨known, ?_, kept.mpr balanced⟩
      rw [silent, List.append_nil]
      exact tallies

theorem greeting_is_known : ∃ pool : Bool → ChainBuffer, ∃ known,
    Tallies 0 [⟨0, 9, 0⟩, ⟨9, 0, 6⟩] known ∧
      (pool true).bytes.length + (pool true).nDelForCb = known + (pool true).nAddForCb := by
  obtain ⟨pool, run⟩ := greeting_run
  refine ⟨pool, listeners_know_the_length run true ?_⟩
  intro event member callbacks clear same
  simp only [greeting, List.mem_cons, List.not_mem_nil, or_false] at member
  rcases member with rfl | rfl | rfl | rfl | rfl | rfl <;> simp_all

end MerlinC.Soundness.EvbufferStreams
