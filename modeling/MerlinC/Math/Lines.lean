import Mathlib.Data.List.Basic
import Mathlib.Data.List.Induction

/-! # Lines and the pieces they arrive in

A stream is cut at a delimiter into finished lines and an unfinished rest, and cutting can be
resumed at the rest when more arrives. Of several speakers who share one stream each line of the
stream is finished by one of them. It is that speaker's own line if the speaker began it while
everybody else was between lines and nobody else spoke before it was finished. This holds for a
listener who comes late, too, of the lines that are begun from then on.
-/

namespace MerlinC.Math

variable {β κ : Type*} [DecidableEq β] [DecidableEq κ]

/-- The finished lines of a stream, without their delimiters, and the unfinished rest. -/
def cut (sep : β) : List β → List (List β) × List β
  | [] => ([], [])
  | b :: bs =>
    if b = sep then ([] :: (cut sep bs).1, (cut sep bs).2)
    else match cut sep bs with
      | ([], rest) => ([], b :: rest)
      | (line :: lines, rest) => ((b :: line) :: lines, rest)

/-- The words of one speaker among those of all. -/
def wordsOf (who : κ) (spoken : List (κ × List β)) : List β :=
  (spoken.filter (·.1 = who)).flatMap (·.2)

/-- The lines of one speaker among those of all. -/
def linesOf (who : κ) (lines : List (κ × List β)) : List (List β) :=
  (lines.filter (·.1 = who)).map (·.2)

/-- What all speakers say together. -/
def chorus (spoken : List (κ × List β)) : List β := spoken.flatMap (·.2)

section Counts

variable (sep : β) (who : κ) (spoken : List (κ × List β))

/-- The speaker is not in the middle of a line. -/
def Between : Prop := (cut sep (wordsOf who spoken)).2 = []

instance : Decidable (Between sep who spoken) := inferInstanceAs (Decidable (_ = _))

/-- How many lines the speaker has finished. -/
def linesEnded : ℕ := (cut sep (wordsOf who spoken)).1.length

/-- How many lines the speaker has begun. -/
def linesBegun : ℕ := linesEnded sep who spoken + if Between sep who spoken then 0 else 1

/-- The speaker begins line `k` while everybody else is between lines, and nobody else speaks
before it is finished. -/
structure Alone (k : ℕ) : Prop where
  first : ∀ past what future, spoken = past ++ (who, what) :: future →
    linesBegun sep who past ≤ k → k < linesBegun sep who (past ++ [(who, what)]) →
    ∀ other, other ≠ who → Between sep other past
  throughout : ∀ past other what future, spoken = past ++ (other, what) :: future →
    other ≠ who → linesBegun sep who past = k + 1 → Between sep who past

end Counts

section Cut

variable (sep : β)

@[simp] theorem cut_nil : cut sep [] = ([], []) := rfl

theorem cut_cons_sep (bs : List β) :
    cut sep (sep :: bs) = ([] :: (cut sep bs).1, (cut sep bs).2) := by
  simp [cut]

/-- Cutting resumes at the unfinished rest. -/
theorem cut_append (front back : List β) :
    cut sep (front ++ back) =
      ((cut sep front).1 ++ (cut sep ((cut sep front).2 ++ back)).1,
        (cut sep ((cut sep front).2 ++ back)).2) := by
  induction front with
  | nil => simp
  | cons b bs ih =>
    rw [List.cons_append, cut, cut]
    by_cases here : b = sep
    · simp only [here, ↓reduceIte, ih, List.cons_append]
    · simp only [here, ↓reduceIte, ih]
      cases lines : cut sep bs with
      | mk finished rest =>
        cases finished with
        | nil => simp [cut, here]
        | cons line finished => simp

/-- A line and its delimiter are cut off as that line. -/
theorem cut_line {line : List β} (plain : sep ∉ line) (bs : List β) :
    cut sep (line ++ sep :: bs) = (line :: (cut sep bs).1, (cut sep bs).2) := by
  induction line with
  | nil => exact cut_cons_sep sep bs
  | cons b line ih =>
    obtain ⟨other, plain⟩ := List.ne_and_not_mem_of_not_mem_cons plain
    rw [List.cons_append, cut, if_neg (Ne.symm other), ih plain]

/-- Whole lines are cut into those lines. -/
theorem cut_lines (lines : List (List β)) (plain : ∀ line ∈ lines, sep ∉ line) :
    cut sep (lines.flatMap (· ++ [sep])) = (lines, []) := by
  induction lines with
  | nil => rfl
  | cons line lines ih =>
    rw [List.flatMap_cons, List.append_assoc, List.singleton_append,
      cut_line sep (plain line List.mem_cons_self),
      ih fun other member => plain other (List.mem_cons_of_mem _ member)]

/-- The lines, their delimiters and the rest make up the stream again. -/
theorem cut_join (bs : List β) :
    (cut sep bs).1.flatMap (· ++ [sep]) ++ (cut sep bs).2 = bs := by
  induction bs with
  | nil => rfl
  | cons b bs ih =>
    rw [cut]
    by_cases here : b = sep
    · simp [here, ih]
    · rw [if_neg here]
      cases lines : cut sep bs with
      | mk finished rest =>
        rw [lines] at ih
        cases finished with
        | nil => simpa using ih
        | cons line finished => simpa using ih

/-- What follows an unfinished line finishes it with its first line, or prolongs it. -/
theorem cut_append_plain {front : List β} (plain : sep ∉ front) (back : List β) :
    cut sep (front ++ back) = match cut sep back with
      | ([], rest) => ([], front ++ rest)
      | (line :: lines, rest) => ((front ++ line) :: lines, rest) := by
  induction front with
  | nil =>
    rw [List.nil_append]
    rcases cut sep back with ⟨_ | ⟨line, lines⟩, rest⟩ <;> rfl
  | cons b front ih =>
    obtain ⟨other, plain⟩ := List.ne_and_not_mem_of_not_mem_cons plain
    rw [List.cons_append, cut, if_neg (Ne.symm other), ih plain]
    rcases cut sep back with ⟨_ | ⟨line, lines⟩, rest⟩ <;> rfl

/-- The rest of a stream holds no delimiter. -/
theorem cut_rest_plain (bs : List β) : sep ∉ (cut sep bs).2 := by
  induction bs with
  | nil => simp
  | cons b bs ih =>
    rw [cut]
    by_cases here : b = sep
    · rwa [if_pos here]
    · rw [if_neg here]
      rcases lines : cut sep bs with ⟨_ | ⟨line, finished⟩, rest⟩
      · rw [lines] at ih
        simpa [Ne.symm here] using ih
      · rwa [lines] at ih

/-- What prolongs one unfinished line prolongs another one, and what finishes one line and then
others finishes another line and then the same ones. -/
theorem cut_exchange {front front' : List β} (plain : sep ∉ front) (plain' : sep ∉ front')
    (back : List β) :
    cut sep (front ++ back) = ([], front ++ back) ∧
        cut sep (front' ++ back) = ([], front' ++ back) ∨
      ∃ line lines rest, cut sep (front ++ back) = ((front ++ line) :: lines, rest) ∧
        cut sep (front' ++ back) = ((front' ++ line) :: lines, rest) := by
  rw [cut_append_plain sep plain, cut_append_plain sep plain']
  have join := cut_join sep back
  rcases pieces : cut sep back with ⟨_ | ⟨line, lines⟩, rest⟩
  · rw [pieces] at join
    obtain rfl : rest = back := join
    exact .inl ⟨rfl, rfl⟩
  · exact .inr ⟨line, lines, rest, rfl, rfl⟩

end Cut

section Speakers

omit [DecidableEq β] in
theorem wordsOf_concat (who speaker : κ) (spoken : List (κ × List β)) (what : List β) :
    wordsOf who (spoken ++ [(speaker, what)]) =
      wordsOf who spoken ++ if speaker = who then what else [] := by
  by_cases same : speaker = who <;> simp [wordsOf, same]

omit [DecidableEq β] in
/-- Lines that one speaker adds are lines of that speaker alone. -/
theorem linesOf_append (who speaker : κ) (lines : List (κ × List β)) (more : List (List β)) :
    linesOf who (lines ++ more.map (speaker, ·)) =
      linesOf who lines ++ if speaker = who then more else [] := by
  by_cases same : speaker = who
  · simp [linesOf, List.filter_map, Function.comp_def, same]
  · simp [linesOf, List.filter_map, Function.comp_def, same]

omit [DecidableEq β] [DecidableEq κ] in
theorem chorus_concat (spoken : List (κ × List β)) (speaker : κ) (what : List β) :
    chorus (spoken ++ [(speaker, what)]) = chorus spoken ++ what := by
  simp [chorus]

variable {sep : β} {spoken : List (κ × List β)} {who : κ}

theorem linesBegun_of_between (between : Between sep who spoken) :
    linesBegun sep who spoken = linesEnded sep who spoken := by
  rw [linesBegun, if_pos between, Nat.add_zero]

theorem linesBegun_of_not_between (middle : ¬ Between sep who spoken) :
    linesBegun sep who spoken = linesEnded sep who spoken + 1 := by
  rw [linesBegun, if_neg middle]

theorem linesEnded_le_linesBegun : linesEnded sep who spoken ≤ linesBegun sep who spoken :=
  Nat.le_add_right _ _

omit [DecidableEq β] in
/-- What one speaker says is nothing that another one does. -/
theorem wordsOf_concat_other {speaker : κ} (other : speaker ≠ who) (what : List β) :
    wordsOf who (spoken ++ [(speaker, what)]) = wordsOf who spoken := by
  rw [wordsOf_concat, if_neg other, List.append_nil]

omit [DecidableEq β] in
theorem wordsOf_concat_self (what : List β) :
    wordsOf who (spoken ++ [(who, what)]) = wordsOf who spoken ++ what := by
  rw [wordsOf_concat, if_pos rfl]

theorem linesEnded_concat_other {speaker : κ} (other : speaker ≠ who) (what : List β) :
    linesEnded sep who (spoken ++ [(speaker, what)]) = linesEnded sep who spoken := by
  rw [linesEnded, wordsOf_concat_other other, linesEnded]

theorem between_concat_other {speaker : κ} (other : speaker ≠ who) {what : List β} :
    Between sep who (spoken ++ [(speaker, what)]) ↔ Between sep who spoken := by
  rw [Between, wordsOf_concat_other other, Between]

theorem Alone.front {piece : κ × List β} {k : ℕ} (alone : Alone sep who (spoken ++ [piece]) k) :
    Alone sep who spoken k where
  first past what future same :=
    alone.first past what (future ++ [piece]) (by rw [same]; simp)
  throughout past other what future same :=
    alone.throughout past other what (future ++ [piece]) (by rw [same]; simp)

/-- What a listener who missed the early words hears of the late ones. -/
structure HeardLate (sep : β) (early late lines : List (κ × List β)) : Prop where
  finished : (cut sep (chorus late)).1 = lines.map (·.2)
  speakers : ∀ line ∈ lines, line.1 ∈ late.map (·.1)
  count : ∀ who, (linesOf who lines).length + linesEnded sep who early =
    linesEnded sep who (early ++ late)
  own : ∀ who k line, (cut sep (wordsOf who (early ++ late))).1[k]? = some line →
    linesBegun sep who early ≤ k → Alone sep who (early ++ late) k →
    (linesOf who lines)[k - linesEnded sep who early]? = some line
  quiet : (∀ who, Between sep who (early ++ late)) → (cut sep (chorus late)).2 = []
  rest : ∀ who, ¬ Between sep who (early ++ late) →
    linesBegun sep who early ≤ linesEnded sep who (early ++ late) →
    Alone sep who (early ++ late) (linesEnded sep who (early ++ late)) →
    (cut sep (chorus late)).2 = (cut sep (wordsOf who (early ++ late))).2

variable {early late lines : List (κ × List β)} {speaker : κ} {what : List β}

/-- The rest that a speaker's next words finish is the speaker's own, if the line is one begun
late and alone. -/
theorem HeardLate.resumes (heard : HeardLate sep early late lines)
    (begun_ : linesBegun sep speaker early ≤ linesEnded sep speaker (early ++ late))
    (more : linesEnded sep speaker (early ++ late) <
      linesBegun sep speaker (early ++ late ++ [(speaker, what)]))
    (alone : Alone sep speaker (early ++ late ++ [(speaker, what)])
      (linesEnded sep speaker (early ++ late))) :
    (cut sep (chorus late)).2 = (cut sep (wordsOf speaker (early ++ late))).2 := by
  by_cases between : Between sep speaker (early ++ late)
  · have begins := Nat.le_of_eq (linesBegun_of_between between)
    have first := alone.first (early ++ late) what [] rfl begins more
    have quiet : (cut sep (chorus late)).2 = [] := heard.quiet fun who => by
      by_cases same : who = speaker
      · exact same ▸ between
      · exact first who same
    rw [quiet, between]
  · exact heard.rest speaker between begun_ alone.front

/-- The next words finish as many lines of the stream as of their speaker. -/
theorem HeardLate.stretch (late : List (κ × List β)) :
    linesEnded sep speaker (early ++ late ++ [(speaker, what)]) =
      linesEnded sep speaker (early ++ late) +
        (cut sep ((cut sep (chorus late)).2 ++ what)).1.length := by
  rw [linesEnded, wordsOf_concat_self, cut_append, List.length_append, linesEnded]
  obtain ⟨shared, own⟩ | ⟨line, more, rest, shared, own⟩ :=
    cut_exchange sep (cut_rest_plain sep (chorus late))
      (cut_rest_plain sep (wordsOf speaker (early ++ late))) what
  · rw [shared, own]
  · rw [shared, own]
    rfl

/-- The lines that a speaker's next words finish are the speaker's own, if begun late and alone. -/
theorem HeardLate.own_concat (heard : HeardLate sep early late lines) {k : ℕ} {line : List β}
    (found : (cut sep (wordsOf speaker (early ++ late ++ [(speaker, what)]))).1[k]? = some line)
    (begun_ : linesBegun sep speaker early ≤ k)
    (alone : Alone sep speaker (early ++ late ++ [(speaker, what)]) k) :
    (linesOf speaker lines ++ (cut sep ((cut sep (chorus late)).2 ++ what)).1)[
      k - linesEnded sep speaker early]? = some line := by
  have before := heard.count speaker
  rw [wordsOf_concat_self, cut_append] at found
  rcases Nat.lt_or_ge k (linesEnded sep speaker (early ++ late)) with old | new
  · rw [List.getElem?_append_left old] at found
    have kept := heard.own speaker k line found begun_ alone.front
    rw [List.getElem?_append_left (List.getElem?_eq_some_iff.mp kept).1, kept]
  · have more : linesEnded sep speaker (early ++ late) <
        linesEnded sep speaker (early ++ late ++ [(speaker, what)]) := by
      have inside := (List.getElem?_eq_some_iff.mp found).1
      rw [linesEnded, linesEnded, wordsOf_concat_self, cut_append]
      exact Nat.lt_of_le_of_lt new inside
    rw [List.getElem?_append_right new] at found
    rw [List.getElem?_append_right (by omega)]
    have place : k - linesEnded sep speaker early - (linesOf speaker lines).length =
        k - linesEnded sep speaker (early ++ late) := by omega
    rw [place]
    obtain ⟨-, own⟩ | ⟨first, others, rest, shared, own⟩ :=
      cut_exchange sep (cut_rest_plain sep (chorus late))
        (cut_rest_plain sep (wordsOf speaker (early ++ late))) what
    · rw [own] at found
      contradiction
    · rw [own, ← linesEnded] at found
      rw [shared]
      rcases Nat.eq_or_lt_of_le new with rfl | later
      · -- The first of them was begun by earlier words or is begun by these.
        rw [heard.resumes begun_ (Nat.lt_of_lt_of_le more linesEnded_le_linesBegun) alone]
        exact found
      · rw [← Nat.sub_add_cancel (Nat.sub_pos_of_lt later)] at found ⊢
        exact found

/-- The next words finish lines of the stream as often as lines of their speaker. -/
theorem HeardLate.concat (heard : HeardLate sep early late lines) :
    HeardLate sep early (late ++ [(speaker, what)])
      (lines ++ (cut sep ((cut sep (chorus late)).2 ++ what)).1.map (speaker, ·)) := by
  have exchange := cut_exchange sep (cut_rest_plain sep (chorus late))
    (cut_rest_plain sep (wordsOf speaker (early ++ late))) what
  constructor
  · rw [chorus_concat, cut_append, heard.finished, List.map_append, List.map_map]
    exact congrArg _ (List.map_id _).symm
  · intro line member
    rw [List.map_append, List.mem_append]
    rcases List.mem_append.mp member with old | new
    · exact .inl (heard.speakers line old)
    · obtain ⟨text, _, rfl⟩ := List.mem_map.mp new
      exact .inr (List.mem_singleton_self _)
  · intro who
    have before := heard.count who
    rw [linesOf_append, List.length_append, ← List.append_assoc]
    by_cases same : speaker = who
    · subst same
      rw [if_pos rfl, HeardLate.stretch]
      omega
    · rw [if_neg same, List.length_nil, linesEnded_concat_other same]
      exact before
  · intro who k line
    rw [linesOf_append, ← List.append_assoc]
    intro found begun_ alone
    by_cases same : speaker = who
    · subst same
      rw [if_pos rfl]
      exact heard.own_concat found begun_ alone
    · rw [if_neg same, List.append_nil]
      rw [wordsOf_concat_other same] at found
      exact heard.own who k line found begun_ alone.front
  · rw [chorus_concat, cut_append, ← List.append_assoc]
    intro quiet
    have own_ := quiet speaker
    rw [Between, wordsOf_concat_self, cut_append] at own_
    obtain ⟨shared, own⟩ | ⟨line, more, rest, shared, own⟩ := exchange
    · rw [own] at own_
      obtain ⟨none_, rfl⟩ := List.append_eq_nil_iff.mp own_
      have before : (cut sep (chorus late)).2 = [] := heard.quiet fun who => by
        by_cases same : speaker = who
        · exact same ▸ none_
        · exact (between_concat_other same).mp (quiet who)
      rw [shared, before]
      rfl
    · rw [own] at own_
      rw [shared]
      exact own_
  · intro who
    rw [chorus_concat, cut_append, ← List.append_assoc]
    intro middle begun_ alone
    by_cases same : speaker = who
    · subst same
      rw [wordsOf_concat_self, cut_append sep (wordsOf speaker (early ++ late))]
      obtain ⟨shared, own⟩ | ⟨line, more, rest, shared, own⟩ := exchange
      · have still : linesEnded sep speaker (early ++ late ++ [(speaker, what)]) =
            linesEnded sep speaker (early ++ late) := by
          rw [HeardLate.stretch, shared]
          rfl
        have begins := linesBegun_of_not_between middle
        rw [still] at begun_ alone begins
        rw [shared, own, heard.resumes begun_ (begins ▸ Nat.lt_succ_self _) alone]
      · rw [shared, own]
    · rw [between_concat_other same] at middle
      rw [linesEnded_concat_other same] at alone
      have begins := linesBegun_of_not_between middle
      exact absurd (alone.throughout _ speaker what [] rfl same begins) middle

/-- What a late listener hears, whatever was missed and whatever follows. -/
theorem exists_heardLate (sep : β) (early late : List (κ × List β)) :
    ∃ lines, HeardLate sep early late lines := by
  induction late using List.reverseRecOn with
  | nil =>
    refine ⟨[], rfl, by simp, fun who => ?_, fun who k line found begun_ _ => ?_, fun _ => rfl, ?_⟩
    · rw [List.append_nil]
      exact Nat.zero_add _
    · rw [List.append_nil] at found
      have inside := (List.getElem?_eq_some_iff.mp found).1
      have early_ := Nat.le_trans linesEnded_le_linesBegun begun_
      exact absurd (Nat.lt_of_le_of_lt early_ inside) (Nat.lt_irrefl _)
    · intro who middle begun_ _
      rw [List.append_nil] at middle begun_
      rw [linesBegun_of_not_between middle] at begun_
      exact absurd begun_ (Nat.not_succ_le_self _)
  | append_singleton late piece ih =>
    obtain ⟨lines, heard⟩ := ih
    exact ⟨_, heard.concat⟩

end Speakers

end MerlinC.Math
