import MerlinC.Soundness.ReportedStatus

/-! # A failed address command

`die` writes its text and returns, so the script goes on with the error text as the address. The
next status overwrites that of `die` in every run, and unless `nslookup` answers with the same
text, a request publishes it.
-/

namespace MerlinC.Soundness

open Model Model.Shell Model.UpdateScript

/-- The requests that change the provider's records. -/
def Publishes : Command → Prop
  | .fetch (.update _ _ _) => True
  | .fetch (.add _ _ _) => True
  | _ => False

/-- The rest of a run sends neither an update nor an add. -/
def Quiet (o : Outcomes) (script : Script) : Prop := ∀ command ∈ o.play script, ¬ Publishes command

/-- The run sends neither an update nor an add, and the text of `die` is the last one written. -/
def ChangesNothing (cfg : Settings) (o : Outcomes) (now : Bytes) : Prop :=
  Quiet o (main cfg) ∧ (lastWritten (o.play (main cfg))).map (Status.text now) =
    some ((Status.died o.ip).text now)

/-- The text of `die` ends with a parenthesis, every other one with a tag. -/
theorem text_ne_died {status : Status} (other : ∀ ip, status ≠ .died ip) (now ip : Bytes) :
    status.text now ≠ (Status.died ip).text now := by
  have tag (front : Bytes) (text : String) (closing : (utf8 text).getLast? = some 62) :
      (front ++ utf8 text).getLast? = some 62 := by
    rw [List.getLast?_append, closing]
    rfl
  have last : (status.text now).getLast? = some 62 := by
    cases status with
    | died ip => exact absurd rfl (other ip)
    | skipped => exact tag _ _ (by decide +kernel)
    | failed => exact tag _ _ (by decide +kernel)
    | succeeded ip => exact tag _ _ (by decide +kernel)
  have parenthesis : ((Status.died ip).text now).getLast? = some 41 := by
    have closing : (utf8 ")").getLast? = some 41 := by decide +kernel
    rw [Status.text, List.getLast?_append, closing]
    rfl
  intro same
  rw [same, parenthesis] at last
  contradiction

section Requests

variable (cfg : Settings) (o : Outcomes)

theorem quiet_skip : Quiet o skip := by
  intro command member
  obtain rfl := List.mem_singleton.mp member
  exact id

/-- With or without a record id, a request is sent. -/
theorem not_quiet_addOrUpdate (ip recordId : Bytes) : ¬ Quiet o (addOrUpdate cfg ip recordId) := by
  unfold addOrUpdate
  split
  · exact fun quiet => quiet _ List.mem_cons_self trivial
  · exact fun quiet => quiet _ List.mem_cons_self trivial

theorem not_quiet_lookUp (ip recordId : Bytes) : ¬ Quiet o (lookUp cfg ip recordId) := by
  unfold lookUp
  split
  · rw [Quiet, Outcomes.play, List.forall_mem_cons]
    exact fun quiet => not_quiet_addOrUpdate cfg o _ _ quiet.2
  · exact not_quiet_addOrUpdate cfg o _ _

/-- Only the answer of `nslookup` can keep a run from sending a request. -/
theorem quiet_compareIp : Quiet o (compareIp cfg o.ip o.nslookup) ↔ Skips o := by
  constructor
  · intro quiet
    by_contra skips
    rw [compareIp_eq cfg o skips] at quiet
    exact not_quiet_lookUp cfg o _ _ quiet
  · rintro ⟨answered, same⟩
    rw [compareIp, if_pos answered, if_pos same]
    exact quiet_skip o

end Requests

/-- In no run of an enabled script, whether the address command fails or not, is the text of `die`
the last one written, and an add or update is sent unless `nslookup` answered with what the address
command printed. -/
theorem failed_lookup_never {cfg : Settings} (enabled : cfg.enable = ascii "1") (o : Outcomes)
    (now : Bytes) :
    ¬ ChangesNothing cfg o now ∧ (Quiet o (main cfg) ↔ Skips o) := by
  obtain ⟨front, whole, silent⟩ := play_main enabled o
  constructor
  · rintro ⟨_, died⟩
    obtain ⟨status, last, other⟩ := closes_compareIp cfg o o.ip
    rw [whole, lastWritten_append last] at died
    exact text_ne_died other now o.ip (Option.some.inj died)
  · rw [Quiet, whole, List.forall_mem_append]
    refine (and_iff_right fun command early publishes => ?_).trans (quiet_compareIp cfg o)
    cases command with
    | fetch request => exact silent request early
    | address _ => exact publishes
    | nslookup _ => exact publishes
    | write _ => exact publishes

/-- The address command fails while the network is down. -/
def unreachable : Outcomes where
  address := ⟨6, ascii "curl: (6) Could not resolve host"⟩
  nslookup := ⟨1, []⟩
  query := ⟨0, []⟩
  update := ⟨0, []⟩
  add := ⟨0, ascii "\"RecordId\":\"7\""⟩
  updated := false
  added := true
  addresses := []

/-- The moment of that run. -/
def outage : Bytes := ascii "2024-01-01 00:00:00"

/-- In that run the text of the error is sent as the address. -/
theorem failed_lookup_never_unreachable : ¬ ChangesNothing enabledSettings unreachable outage ∧
    ¬ Quiet unreachable (main enabledSettings) := by
  have enabled : enabledSettings.enable = ascii "1" := rfl
  obtain ⟨changes, requests⟩ := failed_lookup_never enabled unreachable outage
  refine ⟨changes, fun quiet => ?_⟩
  obtain ⟨no, _⟩ := requests.mp quiet
  cases no

/-- A failed address command does not stop the script. -/
theorem failed_lookup_publishes : ¬ ∀ (cfg : Settings) (o : Outcomes) (now : Bytes),
    cfg.enable = ascii "1" → o.address.status ≠ 0 → ChangesNothing cfg o now := by
  intro nothing
  obtain ⟨quiet, _⟩ := nothing enabledSettings unreachable outage rfl (by decide)
  have added : Command.fetch (.add (ascii "www") (ascii "example.com") unreachable.ip) ∈
      unreachable.play (main enabledSettings) := by decide
  exact quiet _ added trivial

end MerlinC.Soundness
