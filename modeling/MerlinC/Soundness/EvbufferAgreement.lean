import MerlinC.Soundness.EvbufferStreams

/-! # Two models of an evbuffer

The servers and clients are modelled over `EvBuffer`, a list of texts that opens a new chain for
every text. The chains of `ChainBuffer` have memory that fills up, moves and is linked again. As
long as no allocation fails and no length overflows, a program that adds, copies, removes, drains
and hands over bytes gets the same replies from both and finds the same bytes in them.
-/

namespace MerlinC.Soundness.EvbufferAgreement

open Math Model EvbufferStreams

variable {ι : Type*} [DecidableEq ι]

/-- The calls on one evbuffer that `EvBuffer` has. -/
def perform (plain : EvBuffer) : Op → Option (CallResult × EvBuffer)
  | .add _ data => some (match plain.add data with
      | some plain => (.done true, plain)
      | none => (.done false, plain))
  | .drain len => some (match plain.drain len with
      | some plain => (.done true, plain)
      | none => (.done false, plain))
  | .copyout datlen => some (.text (plain.copyout datlen), plain)
  | .remove datlen => some (match plain.remove datlen with
      | some (data, plain) => (.text (some data), plain)
      | none => (.text none, plain))
  | .freeze true => some (.done true, { plain with freezeStart := true })
  | .freeze false => some (.done true, { plain with freezeEnd := true })
  | .unfreeze true => some (.done true, { plain with freezeStart := false })
  | .unfreeze false => some (.done true, { plain with freezeEnd := false })
  | _ => none

/-- The call between two evbuffers that `EvBuffer` has. -/
def exchange (outbuf inbuf : EvBuffer) : Transfer → Option (CallResult × EvBuffer × EvBuffer)
  | .addBuffer => some (match outbuf.addBuffer inbuf with
      | some bufs => (.done true, bufs)
      | none => (.done false, outbuf, inbuf))
  | _ => none

/-- One call on the evbuffers of the simple model. -/
def PlainCalls (plain : ι → EvBuffer) (event : BufferCall ι × CallResult)
    (plain' : ι → EvBuffer) : Prop :=
  match event.1 with
  | .on buf op => ∃ buf', perform (plain buf) op = some (event.2, buf') ∧
      plain' = Function.update plain buf buf'
  | .between first second transfer =>
      if first = second then event.2 = transfer.idle ∧ plain' = plain
      else ∃ first' second', exchange (plain first) (plain second) transfer =
          some (event.2, first', second') ∧
        plain' = Function.update (Function.update plain first first') second second'

/-- An evbuffer of the simple model stands for a stream. -/
structure Stands (plain : EvBuffer) (s : ByteStream) : Prop where
  bytes : plain.bytes = s.bytes
  freezeStart : plain.freezeStart = s.freezeStart
  freezeEnd : plain.freezeEnd = s.freezeEnd

/-- A call that the simple model has. -/
def Simple : BufferCall ι → Prop
  | .on _ op => (perform ⟨[], false, false⟩ op).isSome
  | .between _ _ transfer => (exchange ⟨[], false, false⟩ ⟨[], false, false⟩ transfer).isSome

/-- No allocation fails in a call, and no length overflows: what is not added meets a frozen end. -/
def Afforded (pool : ι → ChainBuffer) (event : BufferCall ι × CallResult) : Prop :=
  ∀ buf malloc data, event = (.on buf (.add malloc data), .done false) →
    (pool buf).freezeEnd = true

variable {plain plain' : EvBuffer} {s s' t t' : ByteStream}

theorem Stands.of_eq (stands : Stands plain s) (same : s' = s) : Stands plain s' := same ▸ stands

theorem copyout_eq (plain : EvBuffer) (datlen : ℕ) :
    plain.copyout datlen = if plain.bytes.take datlen ≠ [] ∧ plain.freezeStart then none
      else some (plain.bytes.take datlen) := by
  cases frozen : plain.freezeStart with
  | false => rw [EvBuffer.copyout_eq frozen, if_neg (by simp)]
  | true =>
    have length : (plain.bytes.take datlen).length = min datlen plain.bytes.length :=
      List.length_take
    simp only [EvBuffer.copyout, EvBuffer.getLength_eq, frozen, and_true, ↓reduceIte]
    rcases eq_or_ne (plain.bytes.take datlen) [] with none_ | some_
    · rw [none_, List.length_nil] at length
      rw [if_pos length.symm, none_, if_neg (by simp)]
    · have := List.length_pos_iff.mpr some_
      rw [if_neg (by omega), if_pos some_]

theorem drain_frozen (frozen : plain.freezeStart = true) (some_ : plain.bytes ≠ []) (len : ℕ) :
    plain.drain len = none := by
  have := List.length_pos_iff.mpr some_
  rw [EvBuffer.drain, EvBuffer.getLength_eq, if_neg (by omega), if_pos frozen]

theorem drain_empty (none_ : plain.bytes = []) (len : ℕ) : plain.drain len = some plain := by
  rw [EvBuffer.drain, EvBuffer.getLength_eq, none_, List.length_nil, if_pos rfl]

theorem remove_frozen (frozen : plain.freezeStart = true) (datlen : ℕ) :
    plain.remove datlen =
      if plain.bytes.take datlen ≠ [] then none else some (plain.bytes.take datlen, plain) := by
  rw [EvBuffer.remove, copyout_eq, frozen]
  rcases eq_or_ne (plain.bytes.take datlen) [] with none_ | some_
  · rw [if_neg (by simp [none_]), if_neg (not_not_intro none_), none_]
    rfl
  · rw [if_pos ⟨some_, rfl⟩, if_pos some_]
    rfl

theorem Stands.drop {len : ℕ} (stands : Stands plain s)
    (bytes : plain'.bytes = plain.bytes.drop len)
    (start : plain'.freezeStart = plain.freezeStart)
    (end_ : plain'.freezeEnd = plain.freezeEnd) :
    Stands plain' (s.drop len) :=
  ⟨bytes.trans (congrArg _ stands.bytes), start.trans stands.freezeStart,
    end_.trans stands.freezeEnd⟩

/-- A call on one evbuffer gets the same reply from the simple model. -/
theorem perform_eq (stands : Stands plain s) {op : Op} {reply : CallResult}
    (simple : (perform ⟨[], false, false⟩ op).isSome) (allowed : op.Allows s reply s')
    (afforded : ∀ malloc data, op = .add malloc data → reply = .done false →
      s.freezeEnd = true) :
    ∃ plain', perform plain op = some (reply, plain') ∧ Stands plain' s' := by
  cases op with
  | add malloc data =>
    cases reply with
    | done ok =>
      obtain ⟨rfl, frozen, -⟩ := allowed
      cases ok with
      | true =>
        have open_ : plain.freezeEnd = false := by
          rw [stands.freezeEnd, ← Bool.not_eq_true]
          exact fun closed => nomatch frozen closed
        obtain ⟨plain', done, bytes, start, end_⟩ := EvBuffer.add_eq open_ data
        refine ⟨plain', by rw [perform, done], ?_, start.trans stands.freezeStart,
          end_.trans (open_.symm.trans stands.freezeEnd)⟩
        rw [bytes, stands.bytes]
        rfl
      | false =>
        have closed := stands.freezeEnd.trans (afforded malloc data rfl rfl)
        exact ⟨plain, by rw [perform, EvBuffer.add, if_pos closed], stands⟩
    | _ => exact allowed.elim
  | drain len =>
    cases reply with
    | done ok =>
      obtain ⟨rfl, refused⟩ := allowed
      cases ok with
      | true =>
        rcases eq_or_ne s.bytes [] with none_ | some_
        · have none' := stands.bytes.trans none_
          refine ⟨plain, by rw [perform, drain_empty none'], stands.drop ?_ rfl rfl⟩
          rw [none', List.drop_nil]
        · have open_ : plain.freezeStart = false := by
            rw [stands.freezeStart, ← Bool.not_eq_true]
            exact fun closed => nomatch refused.mpr ⟨closed, some_⟩
          obtain ⟨rest, done, bytes, start, end_⟩ := EvBuffer.drain_eq open_ len
          exact ⟨rest, by rw [perform, done], stands.drop bytes (start.trans open_.symm) end_⟩
      | false =>
        obtain ⟨closed, some_⟩ := refused.mp rfl
        have done := drain_frozen (stands.freezeStart.trans closed) (stands.bytes ▸ some_) len
        exact ⟨plain, by rw [perform, done], stands⟩
    | _ => exact allowed.elim
  | copyout datlen =>
    cases reply with
    | text data =>
      obtain ⟨rfl, rfl⟩ := allowed
      refine ⟨plain, ?_, stands⟩
      rw [perform, copyout_eq, stands.bytes, stands.freezeStart]
    | _ => exact allowed.elim
  | remove datlen =>
    cases reply with
    | text data =>
      obtain ⟨rfl, rfl⟩ := allowed
      cases frozen : s.freezeStart with
      | true =>
        have done := remove_frozen (stands.freezeStart.trans frozen) datlen
        rw [stands.bytes] at done
        refine ⟨plain, ?_, stands⟩
        rcases eq_or_ne (s.bytes.take datlen) [] with none_ | some_
        · rw [perform, done, if_neg (not_not_intro none_), if_neg (by simp [none_])]
        · rw [perform, done, if_pos some_, if_pos ⟨some_, rfl⟩]
      | false =>
        have open_ := stands.freezeStart.trans frozen
        obtain ⟨rest, done, bytes, start, end_⟩ := EvBuffer.remove_eq open_ datlen
        refine ⟨rest, ?_, stands.drop bytes (start.trans open_.symm) end_⟩
        rw [perform, done, stands.bytes, if_neg (by simp)]
    | _ => exact allowed.elim
  | freeze start =>
    cases reply with
    | done ok =>
      obtain ⟨rfl, rfl⟩ := allowed
      cases start with
      | false => exact ⟨_, rfl, stands.bytes, stands.freezeStart, rfl⟩
      | true => exact ⟨_, rfl, stands.bytes, rfl, stands.freezeEnd⟩
    | _ => exact allowed.elim
  | unfreeze start =>
    cases reply with
    | done ok =>
      obtain ⟨rfl, rfl⟩ := allowed
      cases start with
      | false => exact ⟨_, rfl, stands.bytes, stands.freezeStart, rfl⟩
      | true => exact ⟨_, rfl, stands.bytes, rfl, stands.freezeEnd⟩
    | _ => exact allowed.elim
  | _ => simp [perform] at simple

/-- A call that hands over bytes gets the same reply from the simple model. -/
theorem exchange_eq {outbuf inbuf : EvBuffer} (stands : Stands outbuf s) (stands' : Stands inbuf t)
    {transfer : Transfer} {reply : CallResult}
    (simple : (exchange ⟨[], false, false⟩ ⟨[], false, false⟩ transfer).isSome)
    (allowed : transfer.Allows s t reply s' t') :
    ∃ outbuf' inbuf', exchange outbuf inbuf transfer = some (reply, outbuf', inbuf') ∧
      Stands outbuf' s' ∧ Stands inbuf' t' := by
  cases transfer with
  | addBuffer =>
    cases reply with
    | done ok =>
      obtain ⟨rfl, rfl, refused⟩ := allowed
      rw [← stands.freezeEnd, ← stands'.freezeStart, ← stands'.bytes] at refused
      have length := EvBuffer.getLength_eq inbuf
      cases ok with
      | true =>
        rcases eq_or_ne inbuf.bytes [] with none_ | some_
        · refine ⟨outbuf, inbuf, ?_, ?_, stands'.drop ?_ rfl rfl⟩
          · rw [exchange, EvBuffer.addBuffer, length, none_, List.length_nil, if_pos rfl]
          · rw [← stands'.bytes, none_, if_pos rfl, ByteStream.append_nil]
            exact stands
          · rw [none_, List.drop_nil]
        · have open_ : (outbuf.freezeEnd || inbuf.freezeStart) = false := by
            rw [← Bool.not_eq_true]
            intro closed
            have failed := refused.mpr ⟨closed, some_⟩
            contradiction
          have positive := List.length_pos_iff.mpr some_
          refine ⟨{ outbuf with chains := outbuf.chains ++ inbuf.chains },
            { inbuf with chains := [] }, ?_, ⟨?_, stands.freezeStart, stands.freezeEnd⟩,
            ⟨?_, stands'.freezeStart, stands'.freezeEnd⟩⟩
          · rw [exchange, EvBuffer.addBuffer, length, if_neg (by omega), open_]
            rfl
          · simp [EvBuffer.bytes, ByteStream.append, ← stands.bytes, ← stands'.bytes]
          · simp [EvBuffer.bytes, ByteStream.drop]
      | false =>
        obtain ⟨closed, some_⟩ := refused.mp rfl
        have positive := List.length_pos_iff.mpr some_
        refine ⟨outbuf, inbuf, ?_, stands, stands'⟩
        rw [exchange, EvBuffer.addBuffer, length, if_neg (by omega), if_pos closed]
    | _ => exact allowed.elim
  | _ => simp [exchange] at simple

/-- One call on the chains is one on the simple model. -/
theorem Calls.agree {pool pool' : ι → ChainBuffer} {plain : ι → EvBuffer}
    {event : BufferCall ι × CallResult} (wf : ∀ buf, (pool buf).Wf)
    (stands : ∀ buf, Stands (plain buf) (pool buf).stream) (simple : Simple event.1)
    (calls : Calls pool event pool') (afforded : Afforded pool event) :
    (∀ buf, (pool' buf).Wf) ∧
      ∃ plain', PlainCalls plain event plain' ∧ ∀ buf, Stands (plain' buf) (pool' buf).stream := by
  obtain ⟨wf', allowed⟩ := calls.streams wf
  refine ⟨wf', ?_⟩
  obtain ⟨call, reply⟩ := event
  cases call with
  | on named op =>
    obtain ⟨here, others⟩ := allowed
    obtain ⟨buf', done, stands'⟩ := perform_eq (stands named) simple here (by
      rintro malloc data rfl rfl
      exact afforded named malloc data rfl)
    refine ⟨Function.update plain named buf', ⟨buf', done, rfl⟩, fun buf => ?_⟩
    rcases eq_or_ne buf named with rfl | apart
    · rwa [Function.update_self]
    · rw [Function.update_of_ne apart]
      exact (stands buf).of_eq (others buf apart)
  | between first second transfer =>
    obtain ⟨named, others⟩ := allowed
    split at named
    · next same =>
      subst same
      refine ⟨plain, ?_, fun buf => ?_⟩
      · rw [PlainCalls]
        simp only [↓reduceIte]
        exact ⟨named.1, trivial⟩
      · rcases eq_or_ne buf first with rfl | apart
        · exact (stands buf).of_eq named.2
        · exact (stands buf).of_eq (others buf apart apart)
    · next distinct =>
      obtain ⟨first', second', done, stands₁, stands₂⟩ :=
        exchange_eq (stands first) (stands second) simple named
      refine ⟨Function.update (Function.update plain first first') second second', ?_,
        fun buf => ?_⟩
      · rw [PlainCalls]
        simp only [distinct, ↓reduceIte]
        exact ⟨first', second', done, rfl⟩
      · rcases eq_or_ne buf second with rfl | apart
        · rwa [Function.update_self]
        · rw [Function.update_of_ne apart]
          rcases eq_or_ne buf first with rfl | apart'
          · rwa [Function.update_self]
          · rw [Function.update_of_ne apart']
            exact (stands buf).of_eq (others buf apart' apart)

/-- As long as no allocation fails, a run of the chains in memory is a run of the simple model with
the same replies, which ends with the same bytes and the same ends frozen. -/
theorem chains_agree {pool : ι → ChainBuffer} {events : List (BufferCall ι × CallResult)}
    (run : Run (fun pool event pool' => Calls pool event pool' ∧ Afforded pool event)
      fresh events pool) (simple : ∀ event ∈ events, Simple event.1) :
    ∃ plain, Run PlainCalls (fun _ => ⟨[], false, false⟩) events plain ∧
      ∀ buf, Stands (plain buf) (pool buf).stream := by
  have simulated : ∃ plain : ι → EvBuffer,
      Run PlainCalls (fun _ => ⟨[], false, false⟩) (events.flatMap fun event => [event]) plain ∧
        (∀ buf, (pool buf).Wf) ∧ ∀ buf, Stands (plain buf) (pool buf).stream := by
    apply run.simulate (fun event => Simple event.1) fun pool (plain : ι → EvBuffer) =>
      (∀ buf, (pool buf).Wf) ∧ ∀ buf, Stands (plain buf) (pool buf).stream
    · exact ⟨fun _ => new_wf, fun _ => ⟨rfl, rfl, rfl⟩⟩
    · rintro pool plain event pool' ⟨wf, stands⟩ simple ⟨calls, afforded⟩
      obtain ⟨wf', plain', step, stands'⟩ := Calls.agree wf stands simple calls afforded
      exact ⟨plain', .single step, wf', stands'⟩
    · exact simple
  rw [List.flatMap_singleton'] at simulated
  obtain ⟨plain, abstract, -, stands⟩ := simulated
  exact ⟨plain, abstract, stands⟩

/-- One call, if it replies as it should and without a failure. -/
def nextAfforded (pool : ι → ChainBuffer) (event : BufferCall ι × CallResult) :
    Option (ι → ChainBuffer) :=
  if event.2 = .done false then none else next pool event

theorem calls_of_nextAfforded {pool pool' : ι → ChainBuffer} {event : BufferCall ι × CallResult}
    (done : nextAfforded pool event = some pool') :
    Calls pool event pool' ∧ Afforded pool event := by
  rw [nextAfforded, Option.ite_none_left_eq_some] at done
  refine ⟨of_replay done.2, ?_⟩
  rintro buf malloc data rfl
  exact absurd rfl done.1

/-- A greeting is put together from two evbuffers and the first bytes of it are taken out. -/
def plainGreeting : List (BufferCall Bool × CallResult) :=
  greeting.take 3 ++ [(.on true (.remove 6), .text (some (ascii "oh, he")))]

theorem greeting_agrees : ∃ plain,
    Run PlainCalls (fun _ => ⟨[], false, false⟩) plainGreeting plain ∧
      (plain true).bytes = ascii "llo" := by
  have computed : (plainGreeting.foldlM nextAfforded fresh).map (fun pool => (pool true).bytes) =
      some (ascii "llo") := by
    decide +kernel
  obtain ⟨pool, done, text⟩ := Option.map_eq_some_iff.mp computed
  obtain ⟨plain, abstract, stands⟩ :=
    chains_agree (.of_foldlM calls_of_nextAfforded done)
      (by simp [plainGreeting, greeting, Simple, perform, exchange])
  exact ⟨plain, abstract, (stands true).bytes.trans text⟩

end MerlinC.Soundness.EvbufferAgreement
