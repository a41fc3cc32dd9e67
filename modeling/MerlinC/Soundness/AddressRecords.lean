import MerlinC.Math.Runs
import MerlinC.Model.DnsProvider

/-! # One address record for one name

A run of the script adds a record when its query told it of none. That is right as long as the
query was not merely lost, and nobody else added a record in the meantime. With this condition on
the requests that the provider carries out, the name never has two records; without it, it does.
-/

namespace MerlinC.Soundness

open Math Model Model.UpdateScript

/-- The script sends an add next. -/
def atAdd : Script → Bool
  | .run (.fetch (.add _ _ _)) _ => true
  | _ => false

/-- What a run without a stored record id can be at. -/
inductive Stage (cfg : Settings) : Script → Prop
  | main : Stage cfg (main cfg)
  | detected (address : Reply) : Stage cfg (detected cfg address)
  | resolve (ip : Bytes) : Stage cfg (resolve cfg ip)
  | compareIp (ip : Bytes) (answer : Reply) : Stage cfg (compareIp cfg ip answer)
  | addOrUpdate (ip recordId : Bytes) : Stage cfg (addOrUpdate cfg ip recordId)
  | finish (ip recordId : Bytes) : Stage cfg (finish ip recordId)
  | exit : Stage cfg .exit

/-- A record exists after these events. -/
def Recorded (records : List Record) (past : List DnsEvent) : Prop :=
  records ≠ [] ∨ ∃ run reply, .add run true reply ∈ past

/-- Every accepted add comes after a query of the same run that was answered, or failed while
there was no record, and no other add is accepted between the two. -/
def Checked (records : List Record) (events : List DnsEvent) : Prop :=
  ∀ run before answered reply between reply' future,
    events = before ++ .query run answered reply :: (between ++ .add run true reply' :: future) →
    (answered = true ∨ ¬ Recorded records before) ∧
      ∀ other reply'', .add other true reply'' ∉ between

/-- The run has been told by its query that there is no record. -/
def Asked (run : ℕ) (past : List DnsEvent) : Prop :=
  ∃ before answered reply between, past = before ++ .query run answered reply :: between ∧
    getRecordid reply.output = []

section Stages

variable (cfg : Settings)

theorem atAdd_detected (address : Reply) : atAdd (detected cfg address) = false := by
  dsimp only [detected]
  split
  · rfl
  · rfl

theorem atAdd_compareIp (unstored : cfg.recordId = []) (ip : Bytes) (answer : Reply) :
    atAdd (compareIp cfg ip answer) = false := by
  rw [compareIp, unstored]
  split
  · split
    · rfl
    · rfl
  · rfl

theorem atAdd_addOrUpdate {ip recordId : Bytes}
    (adds : atAdd (addOrUpdate cfg ip recordId) = true) : recordId = [] := by
  unfold addOrUpdate at adds
  split at adds
  · assumption
  · cases adds

/-- The first `if` on the record id leads to a query. -/
theorem stage_lookUp {ip : Bytes} {command : Command} {next : Reply → Script}
    (here : lookUp cfg ip [] = .run command next) (reply : Reply) :
    Stage cfg (next reply) ∧ (atAdd (next reply) = true →
      (∃ rr domain, command = .fetch (.query rr domain)) ∧ getRecordid reply.output = []) := by
  rw [lookUp, if_pos rfl] at here
  cases here
  refine ⟨.addOrUpdate _ _, fun adds => ⟨⟨_, _, rfl⟩, ?_⟩⟩
  exact recordIdText_eq_nil.mp (atAdd_addOrUpdate cfg adds)

/-- The script adds a record only in answer to a query without ids. -/
theorem stage_next (unstored : cfg.recordId = []) {script : Script} (stage : Stage cfg script)
    {command : Command} {next : Reply → Script} (here : script = .run command next)
    (reply : Reply) :
    Stage cfg (next reply) ∧ (atAdd (next reply) = true →
      (∃ rr domain, command = .fetch (.query rr domain)) ∧ getRecordid reply.output = []) := by
  have never {script : Script} (calm : atAdd script = false) (stage : Stage cfg script) :
      Stage cfg script ∧ (atAdd script = true →
        (∃ rr domain, command = .fetch (.query rr domain)) ∧ getRecordid reply.output = []) := by
    refine ⟨stage, fun adds => ?_⟩
    rw [calm] at adds
    contradiction
  cases stage with
  | main =>
    unfold main at here
    split at here
    · cases here
    · cases here
      exact never (atAdd_detected cfg reply) (.detected reply)
  | detected address =>
    dsimp only [detected] at here
    split at here
    · cases here
      exact never (atAdd_compareIp cfg unstored _ reply) (.compareIp _ reply)
    · cases here
      exact never rfl (.resolve _)
  | resolve ip =>
    cases here
    exact never (atAdd_compareIp cfg unstored ip reply) (.compareIp ip reply)
  | compareIp ip answer =>
    rw [compareIp, unstored] at here
    split at here
    · split at here
      · cases here
        exact never rfl .exit
      · exact stage_lookUp cfg here reply
    · exact stage_lookUp cfg here reply
  | addOrUpdate ip recordId =>
    unfold addOrUpdate at here
    split at here
    · cases here
      exact never rfl (.finish _ _)
    · cases here
      exact never rfl (.finish _ _)
  | finish ip recordId =>
    cases here
    exact never rfl .exit
  | exit => cases here

end Stages

section Runs

variable {cfg : Settings} {records : List Record} {events : List DnsEvent} {w : World}

/-- How many adds were accepted. -/
def adds (events : List DnsEvent) : ℕ :=
  events.countP fun event => match event with
    | .add _ accepted _ => accepted
    | _ => false

theorem adds_concat (past : List DnsEvent) (event : DnsEvent) :
    adds (past ++ [event]) = adds past + adds [event] := List.countP_append

/-- Nothing but an accepted add changes the number of records. -/
theorem records_step {w w' : World} {event : DnsEvent} (step : w.Step event w') :
    w'.records.length = w.records.length + adds [event] := by
  cases step with
  | updateAccepted => simp [adds]
  | addAccepted => simp [adds]
  | _ => rfl

theorem records_run (run : Run World.Step (.start cfg records) events w) :
    w.records.length = records.length + adds events := by
  refine run.invariant (fun past m => m.records.length = records.length + adds past) rfl ?_
  intro past m event m' _ counted step
  rw [records_step step, counted, adds_concat, Nat.add_assoc]

/-- A step takes one run from a command to what follows its reply, and a query is seen as one. -/
theorem script_step {w w' : World} {event : DnsEvent} (step : w.Step event w') :
    ∃ run command next reply, w.script run = .run command next ∧
      w'.script = Function.update w.script run (next reply) ∧
      ∀ rr domain, command = .fetch (.query rr domain) →
        ∃ answered, event = .query run answered reply := by
  cases step with
  | command at_ other => exact ⟨_, _, _, _, at_, rfl, fun _ _ same => absurd same (other _)⟩
  | queryAnswered at_ _ => exact ⟨_, _, _, _, at_, rfl, fun _ _ _ => ⟨_, rfl⟩⟩
  | queryFailed at_ _ => exact ⟨_, _, _, _, at_, rfl, fun _ _ _ => ⟨_, rfl⟩⟩
  | updateAccepted at_ _ => exact ⟨_, _, _, _, at_, rfl, fun _ _ same => by cases same⟩
  | updateFailed at_ => exact ⟨_, _, _, _, at_, rfl, fun _ _ same => by cases same⟩
  | addAccepted at_ _ _ => exact ⟨_, _, _, _, at_, rfl, fun _ _ same => by cases same⟩
  | addFailed at_ _ => exact ⟨_, _, _, _, at_, rfl, fun _ _ same => by cases same⟩

/-- A run that is at an add has asked. -/
theorem asked_run (unstored : cfg.recordId = [])
    (run : Run World.Step (.start cfg records) events w) (i : ℕ) :
    Stage cfg (w.script i) ∧ (atAdd (w.script i) = true → Asked i events) := by
  refine run.invariant (fun past m => Stage cfg (m.script i) ∧
    (atAdd (m.script i) = true → Asked i past)) ⟨.main, fun adds => ?_⟩ ?_
  · change atAdd (main cfg) = true at adds
    unfold main at adds
    split at adds <;> cases adds
  · intro past m event m' _ ⟨stage, asked⟩ step
    obtain ⟨j, command, next, reply, here, moved, queried⟩ := script_step step
    by_cases same : i = j
    · subst same
      obtain ⟨stage', adding⟩ := stage_next cfg unstored stage here reply
      rw [moved, Function.update_self]
      refine ⟨stage', fun adds => ?_⟩
      obtain ⟨⟨rr, domain, query⟩, told⟩ := adding adds
      obtain ⟨answered, rfl⟩ := queried rr domain query
      exact ⟨past, answered, reply, [], rfl, told⟩
    · rw [moved, Function.update_of_ne same]
      refine ⟨stage, fun adds => ?_⟩
      obtain ⟨before, answered, reply, between, rfl, told⟩ := asked adds
      exact ⟨before, answered, reply, between ++ [event], by simp, told⟩

/-- An accepted add is made by a run that is at one. -/
theorem atAdd_of_accepted {w w' : World} {run : ℕ} {reply : Reply}
    (step : w.Step (.add run true reply) w') : atAdd (w.script run) = true := by
  cases step with
  | addAccepted at_ _ _ =>
    rw [at_]
    rfl

theorem adds_eq_zero : adds events = 0 ↔ ∀ run reply, .add run true reply ∉ events := by
  rw [adds, List.countP_eq_zero]
  constructor
  · exact fun none_ run reply member => none_ _ member rfl
  · intro none_ event member accepted
    cases event with
    | add run ok reply =>
      obtain rfl : ok = true := accepted
      exact none_ run reply member
    | _ => cases accepted

/-- There is a record exactly if there was one at first or one was added. -/
theorem not_recorded_iff {past : List DnsEvent} :
    ¬ Recorded records past ↔ records.length + adds past = 0 := by
  rw [Nat.add_eq_zero_iff, List.length_eq_zero_iff, adds_eq_zero, Recorded, not_or, not_not]
  simp only [not_exists]

/-- An answered query without ids was asked when there was no record. -/
theorem unrecorded_of_answered {w' : World} {run : ℕ} {reply : Reply}
    (earlier : Run World.Step (.start cfg records) events w)
    (step : w.Step (.query run true reply) w') (told : getRecordid reply.output = []) :
    ¬ Recorded records events := by
  rw [not_recorded_iff, ← records_run earlier, List.length_eq_zero_iff]
  cases step with
  | queryAnswered _ told' => exact List.map_eq_nil_iff.mp (told'.symm.trans told)

/-- The first steps of a run form a run. -/
theorem prefix_run {past future : List DnsEvent}
    (run : Run World.Step (.start cfg records) (past ++ future) w) :
    ∃ m, Run World.Step (.start cfg records) past m := by
  obtain ⟨m, before, _⟩ := Run.append_iff.mp run
  exact ⟨m, before⟩

/-- Under the condition, an accepted add finds no record. -/
theorem first_of_checked (unstored : cfg.recordId = []) {run : ℕ} {reply : Reply} {w' : World}
    {future : List DnsEvent} (checked : Checked records (events ++ .add run true reply :: future))
    (earlier : Run World.Step (.start cfg records) events w)
    (step : w.Step (.add run true reply) w') : records.length + adds events = 0 := by
  obtain ⟨before, answered, query, between, rfl, told⟩ :=
    (asked_run unstored earlier run).2 (atAdd_of_accepted step)
  obtain ⟨clean, quiet⟩ := checked run before answered query between reply future (by simp)
  have none_ : ¬ Recorded records before := by
    rcases clean with rfl | none_
    · obtain ⟨m, first, rest⟩ := Run.append_iff.mp earlier
      rw [← List.singleton_append] at rest
      obtain ⟨m', queried, _⟩ := Run.append_iff.mp rest
      exact unrecorded_of_answered first (Run.single_iff.mp queried) told
    · exact none_
  have split_ : adds (before ++ .query run answered query :: between) =
      adds before + adds between := by
    simp [adds]
  rw [split_, adds_eq_zero.mpr quiet]
  exact not_recorded_iff.mp none_

/-- Under the condition, no prefix of a run adds a second record. -/
theorem count_of_checked (unstored : cfg.recordId = []) (single : records.length ≤ 1)
    (run : Run World.Step (.start cfg records) events w) (checked : Checked records events)
    {past : List DnsEvent} (front : past <+: events) : records.length + adds past ≤ 1 := by
  induction past using List.reverseRecOn with
  | nil => exact single
  | append_singleton past event ih =>
    obtain ⟨future, rfl⟩ := front
    have before := ih ⟨event :: future, by simp⟩
    rw [adds_concat]
    by_cases more : adds [event] = 0
    · rw [more]
      exact before
    · obtain ⟨i, reply, rfl⟩ : ∃ i reply, event = .add i true reply := by
        by_contra other
        refine more (adds_eq_zero.mpr fun i reply member => other ⟨i, reply, ?_⟩)
        exact (List.mem_singleton.mp member).symm
      rw [List.append_assoc, List.singleton_append] at run checked
      obtain ⟨m, earlier, rest⟩ := Run.append_iff.mp run
      rw [← List.singleton_append] at rest
      obtain ⟨m', taken, _⟩ := Run.append_iff.mp rest
      have none_ := first_of_checked unstored checked earlier (Run.single_iff.mp taken)
      have one : adds [DnsEvent.add i true reply] = 1 := rfl
      omega

/-- From at most one record on and without a stored id, the name has at most one record at every
point of a run, if and only if every accepted add was checked. -/
theorem single_record_iff (unstored : cfg.recordId = []) (single : records.length ≤ 1)
    (run : Run World.Step (.start cfg records) events w) :
    (∀ past m, past <+: events → Run World.Step (.start cfg records) past m →
      m.records.length ≤ 1) ↔ Checked records events := by
  constructor
  · intro most i before answered reply between reply' future whole
    let past := before ++ .query i answered reply :: (between ++ [.add i true reply'])
    have front : past <+: events := ⟨future, by rw [whole]; simp [past]⟩
    obtain ⟨m, reached⟩ : ∃ m, Run World.Step (.start cfg records) past m := by
      obtain ⟨rest, rfl⟩ := front
      exact prefix_run run
    have count := most past m front reached
    have split_ : adds past = adds before + adds between + 1 := by
      simp [past, adds]
      omega
    rw [records_run reached, split_] at count
    exact ⟨.inr (not_recorded_iff.mpr (by omega)), adds_eq_zero.mp (by omega)⟩
  · intro checked past m front reached
    rw [records_run reached]
    exact count_of_checked unstored single run checked front

end Runs

/-- The settings of a script that asks for one name and has no stored record id. -/
def oneName : Settings := .forDomain (ascii "www.example.com")

/-- A run detects an address, `nslookup` fails, and the query gets a reply. -/
def asks (answered : Bool) (reply : Reply) : List DnsEvent :=
  [.command 0 ⟨0, ascii "1.2.3.4"⟩, .command 0 ⟨1, []⟩, .query 0 answered reply]

/-- The reply to an accepted add. -/
def addedReply : Reply := ⟨0, ascii "\"RecordId\":\"7\""⟩

/-- Asked for, a missing record is added once. -/
theorem single_record_iff_asked : ∃ w, Run World.Step (.start oneName [])
    (asks true ⟨0, []⟩ ++ [.add 0 true addedReply]) w ∧
      Checked [] (asks true ⟨0, []⟩ ++ [.add 0 true addedReply]) := by
  have told : getRecordid addedReply.output = [ascii "7"] := by decide
  have run : ∃ w, Run World.Step (.start oneName [])
      (asks true ⟨0, []⟩ ++ [.add 0 true addedReply]) w := by
    refine ⟨_, .cons (.command rfl fun _ => by simp) (.cons (.command rfl fun _ => by simp)
      (.cons (.queryAnswered rfl rfl) (.single (.addAccepted rfl ?_ told))))⟩
    exact List.not_mem_nil
  obtain ⟨w, run⟩ := run
  refine ⟨w, run, (single_record_iff rfl (by decide) run).mp ?_⟩
  rintro past m ⟨future, whole⟩ reached
  have split_ : adds past + adds future = 1 := by
    rw [adds, adds, ← List.countP_append, whole]
    rfl
  rw [records_run reached]
  change 0 + adds past ≤ 1
  omega

/-- With its query lost, a run adds a second record. -/
theorem single_record_fails : ¬ ∀ (cfg : Settings) (records : List Record)
    (events : List DnsEvent) (w : World), cfg.recordId = [] → records.length ≤ 1 →
    Run World.Step (.start cfg records) events w → w.records.length ≤ 1 := by
  intro single
  have told : getRecordid addedReply.output = [ascii "7"] := by decide
  have run : ∃ w, Run World.Step (.start oneName [⟨ascii "5", ascii "9.9.9.9"⟩])
      (asks false ⟨0, []⟩ ++ [.add 0 true addedReply]) w := by
    refine ⟨_, .cons (.command rfl fun _ => by simp) (.cons (.command rfl fun _ => by simp)
      (.cons (.queryFailed rfl rfl) (.single (.addAccepted rfl ?_ told))))⟩
    change ascii "7" ∉ [ascii "5"]
    decide
  obtain ⟨w, run⟩ := run
  have one := single _ _ _ w rfl (by decide) run
  rw [records_run run] at one
  have two : adds (asks false ⟨0, []⟩ ++ [.add 0 true addedReply]) = 1 := rfl
  rw [two] at one
  change 1 + 1 ≤ 1 at one
  omega

end MerlinC.Soundness
