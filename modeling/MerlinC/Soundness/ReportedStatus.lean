import MerlinC.Model.UpdateScript

/-! # The status the update script reports

The last text in `aliddns_last_act` depends on one variable, whether a record id is known at the
end, while the outcome depends on the replies to the address command and to the last request.
The two agree exactly when the conditions of `Honest` hold of the outcomes.
-/

namespace MerlinC.Soundness

open Math Model Model.Shell Model.UpdateScript

/-- The outcomes of all external commands in one run: their replies, whether the provider accepted
the update or the add, and the addresses that the configured name has. -/
structure Outcomes where
  address : Reply
  nslookup : Reply
  query : Reply
  update : Reply
  add : Reply
  updated : Bool
  added : Bool
  addresses : List Bytes

namespace Outcomes

/-- The reply to a command. -/
def reply (o : Outcomes) : Command → Reply
  | .address _ => o.address
  | .nslookup _ => o.nslookup
  | .fetch (.query _ _) => o.query
  | .fetch (.update _ _ _) => o.update
  | .fetch (.add _ _ _) => o.add
  | .write _ => ⟨0, []⟩

/-- The commands that a script runs. -/
def play (o : Outcomes) : Script → List Command
  | .exit => []
  | .run command next => command :: o.play (next (o.reply command))

/-- The output of the address command, as the script keeps it. -/
def ip (o : Outcomes) : Bytes := commandSubst o.address.output

/-- The address command succeeded, so its output is the detected address. -/
def Detected (o : Outcomes) : Prop := o.address.status = 0

/-- The name has the detected address already. -/
def Resolved (o : Outcomes) : Prop := o.Detected ∧ o.ip ∈ o.addresses

/-- The provider accepted a request that carries this address. -/
def accepts (o : Outcomes) (ip : Bytes) : Command → Prop
  | .fetch (.update _ _ value) => o.updated = true ∧ value = ip
  | .fetch (.add _ _ value) => o.added = true ∧ value = ip
  | _ => False

/-- An add or update that carries the detected address was accepted. -/
def Accepted (o : Outcomes) (log : List Command) : Prop :=
  o.Detected ∧ ∃ command ∈ log, o.accepts o.ip command

end Outcomes

/-- What a command writes to `aliddns_last_act`. -/
def written? : Command → Option Status
  | .write status => some status
  | _ => none

def lastWritten (log : List Command) : Option Status := (log.filterMap written?).getLast?

/-- The last text written tells of success only if the name has the detected address already, or
the provider has accepted it. -/
def Truthful (cfg : Settings) (o : Outcomes) : Prop :=
  ∃ status, lastWritten (o.play (main cfg)) = some status ∧
    (status.success = true → o.Resolved ∨ o.Accepted (o.play (main cfg)))

/-- The script takes its update to be done already. -/
def Skips (o : Outcomes) : Prop := o.nslookup.status = 0 ∧ o.ip = currentIp o.nslookup.output

/-- A record id is known without an add: a stored one, which a failing `nslookup` forgets, or one
in the reply to the query. -/
def Known (cfg : Settings) (o : Outcomes) : Prop :=
  (o.nslookup.status = 0 ∧ cfg.recordId ≠ []) ∨ getRecordid o.query.output ≠ []

/-- Where the script takes its work to be done, the name has the detected address, or an address
was detected and the request that carries it was accepted. -/
structure Honest (cfg : Settings) (o : Outcomes) : Prop where
  skip : Skips o → o.Resolved
  update : ¬ Skips o → Known cfg o → o.Resolved ∨ (o.Detected ∧ o.updated = true)
  add : ¬ Skips o → ¬ Known cfg o → getRecordid o.add.output ≠ [] →
    o.Resolved ∨ (o.Detected ∧ o.added = true)

/-- The statement about the rest of a run. -/
def TruthfulFrom (o : Outcomes) (script : Script) : Prop :=
  ∃ status, lastWritten (o.play script) = some status ∧
    (status.success = true → o.Resolved ∨ o.Accepted (o.play script))

/-- The rest of a run writes a status. -/
def Reports (o : Outcomes) (script : Script) : Prop :=
  ∃ status, lastWritten (o.play script) = some status

/-- The last status of the rest of a run is not that of a failed address command. -/
def Closes (o : Outcomes) (script : Script) : Prop :=
  ∃ status, lastWritten (o.play script) = some status ∧ ∀ ip, status ≠ .died ip

theorem lastWritten_append {log : List Command} {status : Status}
    (last : lastWritten log = some status) (front : List Command) :
    lastWritten (front ++ log) = some status := by
  unfold lastWritten at last ⊢
  rw [List.filterMap_append, List.getLast?_append, last]
  rfl

/-- A command in front of a script does not change its last status. -/
theorem closes_run {o : Outcomes} {command : Command} {next : Reply → Script}
    (closes : Closes o (next (o.reply command))) : Closes o (.run command next) := by
  obtain ⟨status, last, other⟩ := closes
  exact ⟨status, lastWritten_append last [command], other⟩

theorem Closes.reports {o : Outcomes} {script : Script} (closes : Closes o script) :
    Reports o script := by
  obtain ⟨status, last, _⟩ := closes
  exact ⟨status, last⟩

/-- Only a request can change whether a run that reports is truthful. -/
theorem truthful_front {o : Outcomes} {script rest : Script} (front : List Command)
    (whole : o.play script = front ++ o.play rest)
    (silent : ∀ command ∈ front, ¬ o.accepts o.ip command) (reports : Reports o rest) :
    TruthfulFrom o script ↔ TruthfulFrom o rest := by
  obtain ⟨status, last⟩ := reports
  have same : o.Accepted (o.play script) ↔ o.Accepted (o.play rest) := by
    rw [Outcomes.Accepted, Outcomes.Accepted, whole]
    refine and_congr_right fun _ => ⟨?_, ?_⟩
    · rintro ⟨command, member, accepted⟩
      rcases List.mem_append.mp member with early | late
      · exact absurd accepted (silent command early)
      · exact ⟨command, late, accepted⟩
    · rintro ⟨command, late, accepted⟩
      exact ⟨command, List.mem_append_right front late, accepted⟩
  rw [TruthfulFrom, TruthfulFrom, same, whole, last, lastWritten_append last]

/-- Whatever the address command returned, an enabled script goes on with the answer of
`nslookup`, and has sent no request before. -/
theorem play_main {cfg : Settings} (enabled : cfg.enable = ascii "1") (o : Outcomes) :
    ∃ front, o.play (main cfg) = front ++ o.play (compareIp cfg o.ip o.nslookup) ∧
      ∀ request, .fetch request ∉ front := by
  have goesOn : ∃ front, o.play (detected cfg o.address) =
      front ++ o.play (compareIp cfg o.ip o.nslookup) ∧ ∀ request, .fetch request ∉ front := by
    unfold detected
    split
    · exact ⟨[_], rfl, by simp⟩
    · exact ⟨[_, _], rfl, by simp⟩
  obtain ⟨front, whole, silent⟩ := goesOn
  refine ⟨.address (fields (curl cfg)) :: front, ?_, by simpa using silent⟩
  rw [main, if_neg (not_not_intro enabled), Outcomes.play, Outcomes.reply, whole, List.cons_append]

section Stages

variable (cfg : Settings) (o : Outcomes)

theorem play_finish (ip recordId : Bytes) : o.play (finish ip recordId) =
    [.write (if recordId = [] then .failed else .succeeded ip)] := rfl

theorem closes_finish (ip recordId : Bytes) : Closes o (finish ip recordId) := by
  refine ⟨_, rfl, fun failed => ?_⟩
  split
  · exact Status.noConfusion
  · exact Status.noConfusion

theorem closes_addOrUpdate (ip recordId : Bytes) : Closes o (addOrUpdate cfg ip recordId) := by
  unfold addOrUpdate
  split
  · exact closes_run (closes_finish o _ _)
  · exact closes_run (closes_finish o _ _)

theorem closes_lookUp (ip recordId : Bytes) : Closes o (lookUp cfg ip recordId) := by
  unfold lookUp
  split
  · exact closes_run (closes_addOrUpdate cfg o _ _)
  · exact closes_addOrUpdate cfg o _ _

theorem closes_compareIp (ip : Bytes) : Closes o (compareIp cfg ip o.nslookup) := by
  unfold compareIp
  split
  · split
    · exact ⟨_, rfl, fun _ => Status.noConfusion⟩
    · exact closes_lookUp cfg o _ _
  · exact closes_lookUp cfg o _ _

/-- A request before the last text is reported truthfully if a success text is deserved. -/
theorem truthful_last {request : Request} {next : Reply → Script} {status : Status}
    (last : o.play (next (o.reply (.fetch request))) = [.write status]) :
    TruthfulFrom o (.run (.fetch request) next) ↔ (status.success = true →
      o.Resolved ∨ (o.Detected ∧ o.accepts o.ip (.fetch request))) := by
  have log : o.play (.run (.fetch request) next) = [.fetch request, .write status] := by
    rw [Outcomes.play, last]
  have accepted : o.Accepted [.fetch request, .write status] ↔
      o.Detected ∧ o.accepts o.ip (.fetch request) := by
    have never : ¬ o.accepts o.ip (.write status) := fun no => no
    simp only [Outcomes.Accepted, List.mem_cons, List.not_mem_nil, or_false, exists_eq_or_imp,
      exists_eq_left, never]
  rw [TruthfulFrom, log, ← accepted]
  constructor
  · rintro ⟨status', last', told⟩
    obtain rfl := Option.some.inj last'
    exact told
  · exact fun told => ⟨status, rfl, told⟩

/-- Updating is reported truthfully if the update was accepted. -/
theorem truthful_update {recordId : Bytes} (known : recordId ≠ []) :
    TruthfulFrom o (addOrUpdate cfg o.ip recordId) ↔
      o.Resolved ∨ (o.Detected ∧ o.updated = true) := by
  rw [addOrUpdate, if_neg known, truthful_last o (play_finish o _ _), if_neg known]
  simp only [Status.success, Outcomes.accepts, and_true, forall_const]

/-- Adding is reported truthfully if the add was accepted, or no id came back. -/
theorem truthful_add : TruthfulFrom o (addOrUpdate cfg o.ip []) ↔
    (getRecordid o.add.output ≠ [] → o.Resolved ∨ (o.Detected ∧ o.added = true)) := by
  rw [addOrUpdate, if_pos rfl, truthful_last o (play_finish o _ _), Outcomes.reply]
  by_cases none_ : getRecordid o.add.output = []
  · rw [if_pos (recordIdText_eq_nil.mpr none_)]
    exact ⟨fun _ back => absurd none_ back, fun _ no => by cases no⟩
  · rw [if_neg (mt recordIdText_eq_nil.mp none_)]
    simp only [Status.success, Outcomes.accepts, and_true, forall_const, ne_eq, none_,
      not_false_eq_true]

/-- Without a stored id, the reply to the query decides. -/
theorem truthful_query : TruthfulFrom o (lookUp cfg o.ip []) ↔
    TruthfulFrom o (addOrUpdate cfg o.ip (recordIdText o.query.output)) := by
  rw [lookUp, if_pos rfl]
  exact truthful_front [_] rfl (List.forall_mem_singleton.mpr id)
    (closes_addOrUpdate cfg o _ _).reports

theorem truthful_skip : TruthfulFrom o skip ↔ o.Resolved := by
  constructor
  · rintro ⟨status, last, told⟩
    obtain rfl := Option.some.inj last
    rcases told rfl with resolved | ⟨_, command, member, accepted⟩
    · exact resolved
    · obtain rfl := List.mem_singleton.mp member
      exact accepted.elim
  · exact fun resolved => ⟨_, rfl, fun _ => .inl resolved⟩

/-- The record id that the script has when it looks for one. -/
def storedId : Bytes := if o.nslookup.status = 0 then cfg.recordId else []

theorem compareIp_eq (skips : ¬ Skips o) :
    compareIp cfg o.ip o.nslookup = lookUp cfg o.ip (storedId cfg o) := by
  unfold compareIp storedId
  split
  · next answered => rw [if_neg fun same => skips ⟨answered, same⟩]
  · rfl

theorem known_iff : Known cfg o ↔ storedId cfg o ≠ [] ∨ getRecordid o.query.output ≠ [] := by
  unfold Known storedId
  split
  · next answered => simp [answered]
  · next failed => simp [failed]

/-- What comes before `nslookup` does not matter. -/
theorem truthful_main (enabled : cfg.enable = ascii "1") :
    Truthful cfg o ↔ TruthfulFrom o (compareIp cfg o.ip o.nslookup) := by
  obtain ⟨front, whole, silent⟩ := play_main enabled o
  change TruthfulFrom o (main cfg) ↔ _
  refine truthful_front front whole (fun command early accepted => ?_)
    (closes_compareIp cfg o o.ip).reports
  cases command with
  | fetch request => exact silent request early
  | address _ => exact accepted
  | nslookup _ => exact accepted
  | write _ => exact accepted

end Stages

/-- The status of an enabled run is truthful if and only if the outcomes are honest. -/
theorem truthful_iff {cfg : Settings} (enabled : cfg.enable = ascii "1") (o : Outcomes) :
    Truthful cfg o ↔ Honest cfg o := by
  rw [truthful_main cfg o enabled]
  by_cases skips : Skips o
  · rw [compareIp, if_pos skips.1, if_pos skips.2, truthful_skip]
    exact ⟨fun resolved =>
      ⟨fun _ => resolved, fun no => absurd skips no, fun no => absurd skips no⟩,
      fun honest => honest.skip skips⟩
  rw [compareIp_eq cfg o skips]
  by_cases known : Known cfg o
  · have updates : TruthfulFrom o (lookUp cfg o.ip (storedId cfg o)) ↔
        o.Resolved ∨ (o.Detected ∧ o.updated = true) := by
      by_cases stored : storedId cfg o = []
      · have found := ((known_iff cfg o).mp known).resolve_left (not_not_intro stored)
        rw [stored, truthful_query]
        exact truthful_update cfg o (mt recordIdText_eq_nil.mp found)
      · rw [lookUp, if_neg stored]
        exact truthful_update cfg o stored
    rw [updates]
    exact ⟨fun truthful => ⟨fun yes => absurd yes skips, fun _ _ => truthful,
      fun _ no => absurd known no⟩, fun honest => honest.update skips known⟩
  · obtain ⟨stored, unknown⟩ := not_or.mp (mt (known_iff cfg o).mpr known)
    rw [not_not] at stored unknown
    rw [stored, truthful_query, recordIdText_eq_nil.mpr unknown, truthful_add]
    exact ⟨fun truthful => ⟨fun yes => absurd yes skips, fun _ yes => absurd yes known,
      fun _ _ => truthful⟩, fun honest => honest.add skips known⟩

/-- The settings of a run for one name. -/
def enabledSettings : Settings := .forDomain (ascii "www.example.com")

/-- The name has no record yet, and the add is accepted. -/
def accepted : Outcomes where
  address := ⟨0, ascii "1.2.3.4"⟩
  nslookup := ⟨1, []⟩
  query := ⟨0, []⟩
  update := ⟨0, []⟩
  add := ⟨0, ascii "\"RecordId\":\"7\""⟩
  updated := false
  added := true
  addresses := []

/-- The name has a record, and its update is refused. -/
def refused : Outcomes where
  address := ⟨0, ascii "1.2.3.4"⟩
  nslookup := ⟨1, []⟩
  query := ⟨0, ascii "\"RecordId\":\"7\""⟩
  update := ⟨0, ascii "\"Code\":\"Throttling\""⟩
  add := ⟨0, []⟩
  updated := false
  added := false
  addresses := []

/-- An accepted add is reported truthfully. -/
theorem truthful_iff_accepted : Truthful enabledSettings accepted := by
  refine (truthful_iff rfl accepted).mpr ⟨?_, ?_, ?_⟩
  · rintro ⟨no, _⟩
    cases no
  · rintro _ (⟨no, _⟩ | no)
    · cases no
    · exact absurd rfl no
  · exact fun _ _ _ => .inr ⟨rfl, rfl⟩

/-- A refused update is reported as a success. -/
theorem truthful_fails : ¬ ∀ (cfg : Settings) (o : Outcomes), cfg.enable = ascii "1" →
    Truthful cfg o := by
  intro truthful
  have fromHere := (truthful_main enabledSettings refused rfl).mp
    (truthful enabledSettings refused rfl)
  have skips : ¬ Skips refused := by
    rintro ⟨no, _⟩
    cases no
  have found : recordIdText refused.query.output ≠ [] := by decide
  rw [compareIp_eq enabledSettings refused skips, storedId, if_neg (by decide), truthful_query,
    truthful_update enabledSettings refused found] at fromHere
  rcases fromHere with ⟨_, member⟩ | ⟨_, no⟩
  · cases member
  · cases no

end MerlinC.Soundness
