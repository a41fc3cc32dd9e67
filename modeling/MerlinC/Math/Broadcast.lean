import Mathlib.Data.List.DropRight
import MerlinC.Math.Runs

/-! # Totally ordered broadcast

A room relays what a member says to every other member. Its history alone determines who is in
it and what each of them was told: the words of the others since its own arrival, in the order
in which they were spoken. Two members therefore never disagree about the order of what third
parties said.
-/

namespace MerlinC.Math

/-- What happens in a room. -/
inductive Act (κ β : Type*) where
  | join (who : κ)
  | say (who : κ) (what : List β)
  | leave (who : κ)

/-- The members in the order of their arrival, and everything each of them was told. -/
structure Room (κ β : Type*) where
  members : List κ
  told : κ → List β

variable {κ β : Type*} [DecidableEq κ]

namespace Act

def joins (who : κ) : Act κ β → Bool
  | join other => other = who
  | _ => false

/-- The utterance in an act, with its speaker. -/
def spoken? : Act κ β → Option (κ × List β)
  | say who what => some (who, what)
  | _ => none

end Act

/-- Who is present after these acts, in the order of arrival. -/
def present : List (Act κ β) → List κ :=
  List.foldl (fun members act => match act with
    | .join who => members ++ [who]
    | .say _ _ => members
    | .leave who => members.erase who) []

/-- The acts after the last arrival of `who`. -/
def since (who : κ) (acts : List (Act κ β)) : List (Act κ β) :=
  acts.rtakeWhile fun act => !act.joins who

/-- The utterances `who` is to be told, each with its speaker, oldest first. -/
def utterances (who : κ) (acts : List (Act κ β)) : List (κ × List β) :=
  ((since who acts).filterMap Act.spoken?).filter fun spoken => spoken.1 ≠ who

/-- The words `who` is to be told. -/
def heard (who : κ) (acts : List (Act κ β)) : List β :=
  (utterances who acts).flatMap (·.2)

namespace Room

def empty : Room κ β := ⟨[], fun _ => []⟩

/-- Nobody arrives twice at once, and only members speak or leave. -/
inductive Step : Room κ β → Act κ β → Room κ β → Prop
  | join {r : Room κ β} {who : κ} (absent : who ∉ r.members) :
      Step r (.join who) ⟨r.members ++ [who], Function.update r.told who []⟩
  | say {r : Room κ β} {who : κ} {what : List β} (present : who ∈ r.members) :
      Step r (.say who what)
        ⟨r.members, fun c => if c ∈ r.members ∧ c ≠ who then r.told c ++ what else r.told c⟩
  | leave {r : Room κ β} {who : κ} (present : who ∈ r.members) :
      Step r (.leave who) ⟨r.members.erase who, r.told⟩

end Room

@[simp] theorem present_nil : present ([] : List (Act κ β)) = [] := rfl

theorem present_join (acts : List (Act κ β)) (who : κ) :
    present (acts ++ [.join who]) = present acts ++ [who] := by
  simp [present]

theorem present_say (acts : List (Act κ β)) (who : κ) (what : List β) :
    present (acts ++ [.say who what]) = present acts := by
  simp [present]

theorem present_leave (acts : List (Act κ β)) (who : κ) :
    present (acts ++ [.leave who]) = (present acts).erase who := by
  simp [present]

theorem heard_join_self (acts : List (Act κ β)) (who : κ) :
    heard who (acts ++ [.join who]) = [] := by
  simp [heard, utterances, since, Act.joins]

theorem utterances_concat (acts : List (Act κ β)) {who : κ} {act : Act κ β}
    (stays : act.joins who = false) : utterances who (acts ++ [act]) =
      utterances who acts ++ act.spoken?.toList.filter fun spoken => spoken.1 ≠ who := by
  unfold utterances since
  rw [List.rtakeWhile_concat, if_pos (by simp [stays]), List.filterMap_append, List.filter_append]
  cases words : act.spoken? <;> simp [words]

theorem heard_join_other (acts : List (Act κ β)) {who other : κ} (different : other ≠ who) :
    heard who (acts ++ [.join other]) = heard who acts := by
  rw [heard, utterances_concat _ (by simp [Act.joins, different])]
  simp [heard, Act.spoken?]

theorem heard_say (acts : List (Act κ β)) (who speaker : κ) (what : List β) :
    heard who (acts ++ [.say speaker what]) =
      heard who acts ++ if speaker = who then [] else what := by
  rw [heard, utterances_concat _ rfl, List.flatMap_append]
  by_cases self : speaker = who <;> simp [heard, Act.spoken?, self]

theorem heard_leave (acts : List (Act κ β)) (who other : κ) :
    heard who (acts ++ [.leave other]) = heard who acts := by
  rw [heard, utterances_concat _ rfl]
  simp [heard, Act.spoken?]

/-- The history of a room determines its members, and what each of them was told. -/
theorem Room.run_told {acts : List (Act κ β)} {room : Room κ β}
    (run : Run Room.Step Room.empty acts room) :
    room.members = present acts ∧ ∀ who ∈ room.members, room.told who = heard who acts := by
  refine run.invariant
    (fun acts room => room.members = present acts ∧
      ∀ who ∈ room.members, room.told who = heard who acts) ⟨rfl, by simp [Room.empty]⟩ ?_
  rintro past room act room' _ ⟨members, told⟩ step
  cases step with
  | @join who absent =>
    refine ⟨by rw [present_join, members], fun other member => ?_⟩
    by_cases self : other = who
    · subst self
      rw [heard_join_self]
      exact Function.update_self ..
    · have old : other ∈ room.members := by simpa [self] using member
      rw [heard_join_other _ (Ne.symm self)]
      exact (Function.update_of_ne self ..).trans (told other old)
  | @say who what present =>
    refine ⟨by rw [present_say, members], fun other member => ?_⟩
    rw [heard_say]
    by_cases self : who = other
    · subst self
      simpa using told who member
    · simpa [self, member, Ne.symm self] using told other member
  | @leave who present =>
    refine ⟨by rw [present_leave, members], fun other member => ?_⟩
    rw [heard_leave]
    exact told other (List.mem_of_mem_erase member)

/-- Two members were told the utterances of third parties in one order: after the later of the
two arrivals, both were told the same ones. -/
theorem thirdParty_suffix (acts : List (Act κ β)) (who other : κ) :
    (utterances who acts).filter (fun spoken => spoken.1 ≠ other) <:+
        (utterances other acts).filter (fun spoken => spoken.1 ≠ who) ∨
      (utterances other acts).filter (fun spoken => spoken.1 ≠ who) <:+
        (utterances who acts).filter (fun spoken => spoken.1 ≠ other) := by
  have exchange (third : κ × List β → Bool) (fourth : κ × List β → Bool)
      (spoken : List (κ × List β)) :
      (spoken.filter third).filter fourth = (spoken.filter fourth).filter third := by
    simp only [List.filter_filter, Bool.and_comm]
  simp only [utterances]
  rw [exchange (fun spoken => decide (spoken.1 ≠ other))]
  rcases List.suffix_or_suffix_of_suffix
      (List.rtakeWhile_suffix (fun act => !act.joins who) acts)
      (List.rtakeWhile_suffix (fun act => !act.joins other) acts) with inner | inner
  · exact .inl (((inner.filterMap _).filter _).filter _)
  · exact .inr (((inner.filterMap _).filter _).filter _)

end MerlinC.Math
