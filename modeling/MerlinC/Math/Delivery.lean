import MerlinC.Math.Broadcast

/-! # What is spoken and what is heard

The laws of broadcast from the side of a speaker. Of what a speaker says, a listener misses only
what was said before the listener arrived, and nothing at all where the speaker arrived later.
-/

namespace MerlinC.Math

variable {κ β : Type*} [DecidableEq κ]

/-- The words of one speaker among what was said. -/
def words (speaker : κ) (said : List (κ × List β)) : List β :=
  (said.filter fun part => part.1 = speaker).flatMap (·.2)

/-- Everything a speaker said. -/
def spoken (speaker : κ) (acts : List (Act κ β)) : List β :=
  words speaker (acts.filterMap Act.spoken?)

@[simp] theorem words_nil (speaker : κ) : words speaker ([] : List (κ × List β)) = [] := rfl

theorem words_append (speaker : κ) (said more : List (κ × List β)) :
    words speaker (said ++ more) = words speaker said ++ words speaker more := by
  simp only [words, List.filter_append, List.flatMap_append]

/-- Who is left out does not matter for the words of another. -/
theorem words_filter_ne {speaker who : κ} (other : speaker ≠ who) (said : List (κ × List β)) :
    words speaker (said.filter fun part => part.1 ≠ who) = words speaker said := by
  unfold words
  rw [List.filter_filter]
  congr 1
  apply List.filter_congr
  intro part _
  by_cases same : part.1 = speaker
  · simp [same, other]
  · simp [same]

@[simp] theorem spoken_nil (speaker : κ) : spoken speaker ([] : List (Act κ β)) = [] := rfl

theorem spoken_append (speaker : κ) (acts more : List (Act κ β)) :
    spoken speaker (acts ++ more) = spoken speaker acts ++ spoken speaker more := by
  simp only [spoken, List.filterMap_append, words_append]

theorem spoken_say (speaker who : κ) (what : List β) :
    spoken speaker [.say who what] = if who = speaker then what else [] := by
  by_cases same : who = speaker <;> simp [spoken, words, Act.spoken?, same]

theorem spoken_join (speaker who : κ) : spoken speaker [(.join who : Act κ β)] = [] := rfl

theorem spoken_leave (speaker who : κ) : spoken speaker [(.leave who : Act κ β)] = [] := rfl

/-- Of what a speaker says, a listener hears everything from some point on. -/
theorem words_utterances (acts : List (Act κ β)) {who speaker : κ} (other : speaker ≠ who) :
    ∃ missed, spoken speaker acts = missed ++ words speaker (utterances who acts) := by
  obtain ⟨front, split⟩ := List.rtakeWhile_suffix (fun act => !act.joins who) acts
  refine ⟨spoken speaker front, ?_⟩
  rw [utterances, words_filter_ne other]
  conv => lhs; rw [← split, spoken_append]
  rfl

/-- A speaker that was silent whenever the listener arrived is heard from the first word on. -/
theorem words_utterances_all {acts : List (Act κ β)} {who speaker : κ} (other : speaker ≠ who)
    (silent : ∀ front, front ++ [.join who] <+: acts → spoken speaker front = []) :
    spoken speaker acts = words speaker (utterances who acts) := by
  induction acts using List.reverseRecOn with
  | nil => rfl
  | append_singleton acts act ih =>
    cases joins : act.joins who with
    | true =>
      obtain rfl : act = .join who := by
        cases act <;> simp_all [Act.joins]
      have arrival : utterances who (acts ++ [.join who]) = [] := by
        simp [utterances, since, Act.joins]
      rw [arrival, spoken_append, silent acts List.prefix_rfl]
      rfl
    | false =>
      rw [utterances_concat acts joins, words_append, words_filter_ne other, spoken_append,
        ih fun front earlier => silent front (earlier.trans (List.prefix_append _ _))]
      congr 1

/-- What is heard only grows, except for the one who arrives. -/
theorem heard_grows (acts : List (Act κ β)) {who : κ} {act : Act κ β}
    (stays : act.joins who = false) : heard who acts <+: heard who (acts ++ [act]) := by
  unfold heard
  rw [utterances_concat acts stays, List.flatMap_append]
  exact List.prefix_append _ _

/-- Members numbered in the order of their arrival, of whom so many have arrived. -/
structure Numbered (acts : List (Act ℕ β)) (arrived : ℕ) : Prop where
  silent : ∀ speaker, arrived ≤ speaker → spoken speaker acts = []
  early : ∀ front who, front ++ [.join who] <+: acts →
    ∀ speaker, who < speaker → spoken speaker front = []

theorem Numbered.nil : Numbered ([] : List (Act ℕ β)) 0 where
  silent _ _ := rfl
  early front _ begins := by simp at begins

theorem Numbered.join {acts : List (Act ℕ β)} {arrived : ℕ} (numbered : Numbered acts arrived) :
    Numbered (acts ++ [.join arrived]) (arrived + 1) where
  silent speaker late := by
    rw [spoken_append, numbered.silent speaker (Nat.le_of_succ_le late)]
    rfl
  early front who begins speaker late := by
    rcases List.prefix_concat_iff.mp begins with whole | earlier
    · obtain ⟨rfl, same⟩ := List.append_inj' whole rfl
      obtain rfl : who = arrived := by simpa using same
      exact numbered.silent speaker (Nat.le_of_lt late)
    · exact numbered.early front who earlier speaker late

/-- Acts other than arrivals do not change the numbers. -/
theorem Numbered.concat {acts : List (Act ℕ β)} {arrived : ℕ} {act : Act ℕ β}
    (numbered : Numbered acts arrived) (stays : ∀ who, act.joins who = false)
    (known : ∀ speaker, arrived ≤ speaker → spoken speaker [act] = []) :
    Numbered (acts ++ [act]) arrived where
  silent speaker late := by
    rw [spoken_append, numbered.silent speaker late, known speaker late]
    rfl
  early front who begins speaker late := by
    rcases List.prefix_concat_iff.mp begins with whole | earlier
    · obtain rfl := List.singleton_inj.mp (List.append_inj' whole rfl).2
      simpa [Act.joins] using stays who
    · exact numbered.early front who earlier speaker late

/-- A speaker that arrives after a listener is heard by it from the first word on. -/
theorem Numbered.words_utterances {acts : List (Act ℕ β)} {arrived : ℕ}
    (numbered : Numbered acts arrived) {who speaker : ℕ} (later : who < speaker) :
    spoken speaker acts = words speaker (utterances who acts) :=
  words_utterances_all (Nat.ne_of_gt later)
    fun front begins => numbered.early front who begins speaker later

end MerlinC.Math
