import Mathlib.Data.List.DropRight
import MerlinC.Math.Percent
import MerlinC.Model.CArray

/-! # The shell as the update script uses it

Word splitting with the default separators, command substitution, `echo`, `read -n1`, and the
filters in the script's pipelines, on byte strings without NUL. File names are taken never to
match an unquoted expansion. `echo` does not print the words in front that are its options; the
escapes that `-e` lets it interpret in the others are left as they are here. `read` is used
without `-r`, so it strips blanks, ends at a newline and treats a backslash as an escape.
-/

namespace MerlinC.Model

open Math

/-- The bytes of a literal. -/
def utf8 (text : String) : Bytes := text.toUTF8.toList

namespace Shell

def space : UInt8 := 32
def backslash : UInt8 := 92

/-- The default field separators. -/
def blank (b : UInt8) : Bool := [space, 9, 10].contains b

/-- What is left of an output in `$(…)`. -/
def commandSubst (output : Bytes) : Bytes := output.rdropWhile (· = 10)

/-- Where a scan for words is. -/
inductive Place where
  | start
  | word
  | between
deriving DecidableEq, Repr

/-- The words that an unquoted expansion is split into. -/
def fields (x : Bytes) : List Bytes := (x.splitOnP blank).filter (· ≠ [])

/-- `echo $x`, where no word is an option: the words of `x` with one space between them. -/
def echoWords : Place → Bytes → Bytes
  | _, [] => []
  | place, b :: bs =>
    if blank b then echoWords (if place = .word then .between else place) bs
    else (if place = .between then [space] else []) ++ b :: echoWords .word bs

/-- Words with one space between them. -/
def SingleSpaced (x : Bytes) : Prop := ∃ words : List Bytes,
  (∀ w ∈ words, w ≠ [] ∧ ∀ b ∈ w, blank b = false) ∧ x = [space].intercalate words

/-- `$1` in a function that is called with `$x`. -/
def firstWord (x : Bytes) : Bytes := (x.dropWhile blank).takeWhile fun b => !blank b

/-- `cut -d sep -f n` on one line. A line without the separator is printed whole. -/
def cutField (sep : UInt8) (n : ℕ) (line : Bytes) : Bytes :=
  let fields := line.splitOn sep
  if fields.length = 1 then line else fields.getD (n - 1) []

/-- `echo -n` of one argument, which may be taken for options. -/
def echoN (arg : Bytes) : Bytes :=
  match arg with
  | 45 :: b :: bs => if (b :: bs).all (ascii "neE").contains then [] else arg
  | _ => arg

/-- What is left of `x` without the options in front, of which there are at most so many. -/
def dropOptions : ℕ → Bytes → Bytes
  | 0, x => x
  | n + 1, x =>
    if firstWord x ≠ [] ∧ echoN (firstWord x) = [] then
      dropOptions n ((x.dropWhile blank).dropWhile fun b => !blank b)
    else x

/-- `echo $x` -/
def echo (x : Bytes) : Bytes := echoWords .start (dropOptions x.length x)

/-- An argument that `echo` takes for its options. -/
def IsOptions (arg : Bytes) : Prop :=
  ∃ letters, letters ≠ [] ∧ arg = 45 :: letters ∧ ∀ b ∈ letters, b ∈ ascii "neE"

/-- The values that `read -n1 c` gives until it fails. A blank or the end of a line gives the empty
string, and an escaped newline gives nothing. -/
def readEach : Bytes → List Bytes
  | [] => []
  | [b] => if b = backslash then [] else if blank b then [[]] else [[b]]
  | b :: c :: rest =>
    if b = backslash then
      if c = 10 then readEach rest else [c] :: readEach rest
    else if blank b then [] :: readEach (c :: rest)
    else [b] :: readEach (c :: rest)

/-- `grep text`, for a text without special characters. -/
def grep (text : Bytes) (lines : List Bytes) : List Bytes :=
  lines.filter fun line => line.tails.any text.isPrefixOf

/-- `awk '{print $NF}'` on one line. -/
def lastField (line : Bytes) : Bytes :=
  ((line.splitOnP fun b => b = space || b = 9).filter (· ≠ [])).getLastD []

/-- What `echo $x` prints of a part of `x` that a character other than a separator follows. -/
def squeeze : Place → Bytes → Bytes
  | place, [] => if place = .between then [space] else []
  | place, b :: bs =>
    if blank b then squeeze (if place = .word then .between else place) bs
    else (if place = .between then [space] else []) ++ b :: squeeze .word bs

section Words

theorem echoWords_append_cons {b : UInt8} (solid : blank b = false) (place : Place)
    (s t : Bytes) : echoWords place (s ++ b :: t) = squeeze place s ++ b :: echoWords .word t := by
  induction s generalizing place with
  | nil => simp only [List.nil_append, echoWords, squeeze, solid, Bool.false_eq_true, ↓reduceIte]
  | cons c s ih =>
    rw [List.cons_append, echoWords, squeeze]
    split
    · exact ih _
    · rw [ih, List.append_assoc, List.cons_append]

/-- Text without separators is printed as it is. -/
theorem echoWords_solid {place : Place} (inside : place ≠ .between) {s : Bytes}
    (solid : ∀ b ∈ s, blank b = false) : echoWords place s = s := by
  induction s generalizing place with
  | nil => rfl
  | cons b s ih =>
    have word : Place.word ≠ .between := by decide
    rw [echoWords, solid b List.mem_cons_self, if_neg Bool.false_ne_true, if_neg inside,
      List.nil_append, ih word fun c member => solid c (List.mem_cons_of_mem _ member)]

theorem squeeze_solid {place : Place} (inside : place ≠ .between) {s : Bytes}
    (solid : ∀ b ∈ s, blank b = false) : squeeze place s = s := by
  induction s generalizing place with
  | nil => rw [squeeze, if_neg inside]
  | cons b s ih =>
    have word : Place.word ≠ .between := by decide
    rw [squeeze, solid b List.mem_cons_self, if_neg Bool.false_ne_true, if_neg inside,
      List.nil_append, ih word fun c member => solid c (List.mem_cons_of_mem _ member)]

/-- Nothing but separators is lost or added. -/
theorem filter_echoWords (place : Place) (s : Bytes) :
    (echoWords place s).filter (!blank ·) = s.filter (!blank ·) := by
  have gap (place : Place) :
      (if place = .between then [space] else ([] : Bytes)).filter (!blank ·) = [] := by
    split
    · rfl
    · rfl
  induction s generalizing place with
  | nil => rfl
  | cons b s ih =>
    rw [echoWords]
    split
    · next separator => rw [ih, List.filter_cons_of_neg (by simp [separator])]
    · next solid =>
      rw [List.filter_append, gap, List.nil_append, List.filter_cons_of_pos (by simpa using solid),
        List.filter_cons_of_pos (by simpa using solid), ih]

/-- The words do not become longer. -/
theorem length_echoWords_le (place : Place) (s : Bytes) :
    (echoWords place s).length ≤ s.length + if place = .between then 1 else 0 := by
  induction s generalizing place with
  | nil => exact Nat.zero_le _
  | cons b s ih =>
    rw [echoWords, List.length_cons]
    split
    · have rest := ih (if place = .word then .between else place)
      cases place <;> simp at rest ⊢ <;> omega
    · have rest := ih .word
      rw [List.length_append, List.length_cons]
      simp only [reduceCtorEq, ↓reduceIte] at rest
      cases place <;> simp <;> omega

/-- A character that is no separator stays as often as it was. -/
theorem count_echoWords {c : UInt8} (solid : blank c = false) (place : Place) (s : Bytes) :
    (echoWords place s).count c = s.count c := by
  have kept : (!blank c) = true := by rw [solid]; rfl
  rw [← List.count_filter (p := (!blank ·)) kept, filter_echoWords,
    List.count_filter (p := (!blank ·)) kept]

/-- There is a field more than there are separators. -/
theorem length_splitOn (sep : UInt8) (line : Bytes) :
    (line.splitOn sep).length = line.count sep + 1 := by
  induction line with
  | nil => rfl
  | cons b line ih =>
    rw [List.splitOn_cons_eq_if_modifyHead, List.count_cons]
    split
    · rw [List.length_cons, ih]
    · rw [List.length_modifyHead, ih, Nat.add_zero]

theorem filter_squeeze (place : Place) (s : Bytes) :
    (squeeze place s).filter (!blank ·) = s.filter (!blank ·) := by
  have whole := filter_echoWords place (s ++ [48])
  rw [echoWords_append_cons rfl, List.filter_append, List.filter_append] at whole
  exact List.append_cancel_right whole

/-- A separator becomes at most one space, so an encoder that escapes them finds no more to
escape. -/
theorem length_encode_echoWords {keep : UInt8 → Bool}
    (escapes : ∀ b, blank b = true → keep b = false) (place : Place) (s : Bytes) :
    (percentEncode keep (echoWords place s)).length ≤
      (percentEncode keep s).length + if place = .between then 3 else 0 := by
  have gap (place : Place) :
      (percentEncode keep (if place = .between then [space] else [])).length =
        if place = .between then 3 else 0 := by
    split
    · rw [length_percentEncode_cons, escapes space rfl]
      rfl
    · rfl
  induction s generalizing place with
  | nil => exact Nat.zero_le _
  | cons b s ih =>
    rw [echoWords, length_percentEncode_cons]
    split
    · next separator =>
      have rest := ih (if place = .word then .between else place)
      rw [escapes b separator]
      cases place <;> simp at rest ⊢ <;> omega
    · have rest := ih .word
      rw [percentEncode_append, List.length_append, gap, length_percentEncode_cons]
      simp only [reduceCtorEq, ↓reduceIte] at rest
      omega

theorem length_encode_squeeze {keep : UInt8 → Bool} (escapes : ∀ b, blank b = true → keep b = false)
    (place : Place) (s : Bytes) : (percentEncode keep (squeeze place s)).length ≤
      (percentEncode keep s).length + if place = .between then 3 else 0 := by
  have whole := length_encode_echoWords escapes place (s ++ [48])
  rw [echoWords_append_cons rfl, percentEncode_append, percentEncode_append, List.length_append,
    List.length_append, show echoWords .word [] = [] from rfl] at whole
  omega

theorem firstWord_parts (x : Bytes) :
    x.takeWhile blank ++ (firstWord x ++ (x.dropWhile blank).dropWhile (!blank ·)) = x := by
  rw [firstWord, List.takeWhile_append_dropWhile, List.takeWhile_append_dropWhile]

/-- The first word is a part of the text. -/
theorem length_encode_firstWord (keep : UInt8 → Bool) (x : Bytes) :
    (percentEncode keep (firstWord x)).length ≤ (percentEncode keep x).length := by
  have lengths := congrArg (fun s => (percentEncode keep s).length) (firstWord_parts x)
  simp only [percentEncode_append, List.length_append] at lengths
  omega

theorem firstWord_solid {x : Bytes} (solid : ∀ b ∈ x, blank b = false) : firstWord x = x := by
  have words : x.dropWhile blank = x := by
    cases x with
    | nil => rfl
    | cons b x => rw [List.dropWhile_cons, solid b List.mem_cons_self, if_neg Bool.false_ne_true]
  rw [firstWord, words, List.takeWhile_eq_self_iff]
  exact fun b member => by rw [solid b member]; rfl

/-- A word goes on to the next separator. -/
theorem firstWord_append_solid {s : Bytes} {b : UInt8} (solid : ∀ c ∈ s, blank c = false)
    (solid' : blank b = false) (t : Bytes) :
    firstWord (s ++ b :: t) = s ++ b :: t.takeWhile (!blank ·) := by
  have words : (s ++ b :: t).dropWhile blank = s ++ b :: t := by
    cases s with
    | nil => rw [List.nil_append, List.dropWhile_cons, solid', if_neg Bool.false_ne_true]
    | cons c s =>
      rw [List.cons_append, List.dropWhile_cons, solid c List.mem_cons_self,
        if_neg Bool.false_ne_true]
  have inside : ∀ c ∈ s, (!blank c) = true := fun c member => by rw [solid c member]; rfl
  rw [firstWord, words, List.takeWhile_append_of_pos inside,
    List.takeWhile_cons_of_pos (by rw [solid']; rfl)]

/-- A word ends at the next separator. -/
theorem firstWord_append_cons {x : Bytes} {sep : UInt8} (some_ : x ≠ [])
    (solid : ∀ b ∈ x, blank b = false) (separator : blank sep = true) (rest : Bytes) :
    firstWord (x ++ sep :: rest) = x := by
  have words : (x ++ sep :: rest).dropWhile blank = x ++ sep :: rest := by
    obtain ⟨b, x, rfl⟩ := List.exists_cons_of_ne_nil some_
    rw [List.cons_append, List.dropWhile_cons, solid b List.mem_cons_self,
      if_neg Bool.false_ne_true]
  have inside : ∀ b ∈ x, (!blank b) = true := fun b member => by rw [solid b member]; rfl
  rw [firstWord, words, List.takeWhile_append_of_pos inside, List.takeWhile_cons, separator]
  exact List.append_nil x

/-- The output of `echo` is single-spaced. -/
theorem singleSpaced_echoWords (x : Bytes) : SingleSpaced (echoWords .start x) ∧
    ∀ w, w ≠ [] → (∀ b ∈ w, blank b = false) →
      SingleSpaced (w ++ echoWords .word x) ∧ SingleSpaced (w ++ echoWords .between x) := by
  induction x with
  | nil =>
    refine ⟨⟨[], by simp, rfl⟩, fun w some_ solid => ?_⟩
    have single : SingleSpaced (w ++ []) :=
      ⟨[w], by simpa using ⟨some_, solid⟩, by rw [List.append_nil, List.intercalate_singleton]⟩
    exact ⟨single, single⟩
  | cons b x ih =>
    obtain ⟨start, inside⟩ := ih
    cases separator : blank b with
    | true =>
      simp only [echoWords, separator, ↓reduceIte, reduceCtorEq]
      exact ⟨start, fun w some_ solid => ⟨(inside w some_ solid).2, (inside w some_ solid).2⟩⟩
    | false =>
      have here : ∀ c ∈ [b], blank c = false := List.forall_mem_singleton.mpr separator
      have next := (inside [b] (List.cons_ne_nil b []) here).1
      simp only [echoWords, separator, Bool.false_eq_true, ↓reduceIte, reduceCtorEq,
        List.nil_append]
      refine ⟨next, fun w some_ solid => ⟨?_, ?_⟩⟩
      · have longer := (inside (w ++ [b]) (by simp) (List.forall_mem_append.mpr ⟨solid, here⟩)).1
        rwa [List.append_assoc] at longer
      · obtain ⟨_ | ⟨v, words⟩, each, whole⟩ := next
        · contradiction
        · refine ⟨w :: v :: words, List.forall_mem_cons.mpr ⟨⟨some_, solid⟩, each⟩, ?_⟩
          rw [List.intercalate_cons_cons, ← whole, List.append_assoc]
          rfl

theorem echoWords_append_space {w : Bytes} (some_ : w ≠ []) (solid : ∀ b ∈ w, blank b = false)
    (rest : Bytes) : echoWords .start (w ++ space :: rest) = w ++ echoWords .between rest := by
  obtain ⟨front, b, rfl⟩ := (List.eq_nil_or_concat w).resolve_left some_
  rw [List.concat_eq_append] at solid ⊢
  obtain ⟨begun, last⟩ := List.forall_mem_append.mp solid
  rw [List.append_assoc, List.singleton_append,
    echoWords_append_cons (last b (List.mem_singleton_self b)), squeeze_solid (by decide) begun,
    List.append_assoc]
  rfl

theorem echoWords_between {b : UInt8} (solid : blank b = false) (x : Bytes) :
    echoWords .between (b :: x) = space :: echoWords .start (b :: x) := by
  rw [echoWords, echoWords, solid]
  rfl

/-- `echo` changes nothing exactly if the words have one space between them. -/
theorem echoWords_eq_self_iff {x : Bytes} : echoWords .start x = x ↔ SingleSpaced x := by
  constructor
  · intro same
    rw [← same]
    exact (singleSpaced_echoWords x).1
  · rintro ⟨words, each, rfl⟩
    induction words with
    | nil => rfl
    | cons w words ih =>
      obtain ⟨⟨some_, solid⟩, later⟩ := List.forall_mem_cons.mp each
      cases words with
      | nil =>
        rw [List.intercalate_singleton]
        exact echoWords_solid (by decide) solid
      | cons v words =>
        have rest := ih later
        obtain ⟨some', solid'⟩ := later v List.mem_cons_self
        obtain ⟨c, v, rfl⟩ := List.exists_cons_of_ne_nil some'
        obtain ⟨more, whole⟩ : ∃ more, [space].intercalate ((c :: v) :: words) = c :: more := by
          cases words <;> exact ⟨_, rfl⟩
        rw [whole] at rest
        rw [List.intercalate_cons_cons, whole, List.append_assoc, List.singleton_append,
          echoWords_append_space some_ solid, echoWords_between (solid' c List.mem_cons_self), rest]

end Words

section Output

theorem echoN_of_ne {b : UInt8} (letter : b ≠ 45) (rest : Bytes) :
    echoN (b :: rest) = b :: rest := by
  unfold echoN
  split
  · next first => exact absurd (List.cons.inj first).1 letter
  · rfl

theorem echoN_eq_or (arg : Bytes) : echoN arg = arg ∨ echoN arg = [] := by
  unfold echoN
  split
  · split
    · exact .inr rfl
    · exact .inl rfl
  · exact .inl rfl

theorem echoN_front (arg : Bytes) : echoN arg <+: arg := by
  rcases echoN_eq_or arg with same | empty
  · exact ⟨[], by rw [List.append_nil, same]⟩
  · exact ⟨arg, by rw [empty, List.nil_append]⟩

/-- `echo` prints everything but its options. -/
theorem echoN_eq_self_iff {arg : Bytes} : echoN arg = arg ↔ ¬ IsOptions arg := by
  constructor
  · rintro same ⟨letters, some_, rfl, options⟩
    obtain ⟨b, bs, rfl⟩ := List.exists_cons_of_ne_nil some_
    have taken : echoN (45 :: b :: bs) = [] :=
      if_pos (List.all_eq_true.mpr fun c member => List.contains_iff_mem.mpr (options c member))
    rw [taken] at same
    contradiction
  · intro printed
    unfold echoN
    split
    · next b bs =>
      rw [if_neg]
      intro all
      exact printed ⟨b :: bs, List.cons_ne_nil b bs, rfl,
        fun c member => List.contains_iff_mem.mp (List.all_eq_true.mp all c member)⟩
    · rfl

/-- An argument with a character that is in no option is printed. -/
theorem echoN_eq {arg : Bytes} {b : UInt8} (member : b ∈ arg) (other : b ∉ ascii "-neE") :
    echoN arg = arg := by
  unfold echoN
  split
  · next c cs =>
    split
    · next options =>
      rcases List.mem_cons.mp member with rfl | later
      · exact absurd (by decide) other
      · have option := List.contains_iff_mem.mp (List.all_eq_true.mp options b later)
        exact absurd (List.mem_cons_of_mem 45 option) other
    · rfl
  · rfl

theorem echoN_eq_nil_iff {arg : Bytes} (some_ : arg ≠ []) : echoN arg = [] ↔ IsOptions arg := by
  rw [← not_iff_not, ← echoN_eq_self_iff]
  constructor
  · exact (echoN_eq_or arg).resolve_right
  · rintro same
    rwa [same]

theorem commandSubst_front (output : Bytes) : commandSubst output <+: output :=
  List.rdropWhile_prefix _ _

/-- An output without newlines is taken whole. -/
theorem commandSubst_eq {output : Bytes} (oneLine : 10 ∉ output) :
    commandSubst output = output := by
  rw [commandSubst, List.rdropWhile_eq_self_iff]
  intro some_ newline_
  have last := List.getLast_mem some_
  rw [of_decide_eq_true newline_] at last
  exact oneLine last

/-- Without backslashes and separators, `read` gives one character after another. -/
theorem readEach_eq {s : Bytes} (solid : ∀ b ∈ s, b ≠ backslash ∧ blank b = false) :
    readEach s = s.map ([·]) := by
  induction s with
  | nil => rfl
  | cons b s ih =>
    obtain ⟨plain, solid_⟩ := solid b List.mem_cons_self
    have rest := ih fun c member => solid c (List.mem_cons_of_mem _ member)
    cases s with
    | nil => simp [readEach, plain, solid_]
    | cons c s =>
      rw [readEach, if_neg plain, solid_, if_neg Bool.false_ne_true, rest, List.map_cons,
        List.map_cons, List.map_cons]

end Output

section Options

/-- Options of `echo` have none but these letters. -/
theorem mem_options {arg : Bytes} (options : IsOptions arg) {b : UInt8} (member : b ∈ arg) :
    b ∈ ascii "-neE" := by
  obtain ⟨letters, -, rfl, known⟩ := options
  rcases List.mem_cons.mp member with rfl | letter
  · decide
  · exact List.mem_cons_of_mem 45 (known b letter)

/-- Where the first word is no option, all is printed. -/
theorem dropOptions_eq {x : Bytes} (printed : ¬ IsOptions (firstWord x)) (n : ℕ) :
    dropOptions n x = x := by
  cases n with
  | zero => rfl
  | succ n =>
    rw [dropOptions, if_neg]
    rintro ⟨some_, option⟩
    exact printed ((echoN_eq_nil_iff some_).mp option)

theorem IsOptions.ne_nil {arg : Bytes} (options : IsOptions arg) : arg ≠ [] := by
  obtain ⟨letters, -, rfl, -⟩ := options
  exact List.cons_ne_nil 45 letters

/-- The options are dropped from the front, and they are of options' letters. -/
theorem dropOptions_split (n : ℕ) (x : Bytes) : ∃ dropped, x = dropped ++ dropOptions n x ∧
    (∀ b ∈ dropped, blank b = true ∨ b ∈ ascii "-neE") ∧
      (n ≠ 0 → IsOptions (firstWord x) → 2 ≤ dropped.length) := by
  induction n generalizing x with
  | zero => exact ⟨[], rfl, fun _ member => (List.not_mem_nil member).elim, fun no => (no rfl).elim⟩
  | succ n ih =>
    by_cases options : IsOptions (firstWord x)
    · obtain ⟨dropped, rest, letters, -⟩ :=
        ih ((x.dropWhile blank).dropWhile fun b => !blank b)
      refine ⟨x.takeWhile blank ++ firstWord x ++ dropped, ?_, ?_, fun _ _ => ?_⟩
      · rw [dropOptions, if_pos ⟨options.ne_nil, (echoN_eq_nil_iff options.ne_nil).mpr options⟩,
          List.append_assoc, ← rest, List.append_assoc, firstWord_parts]
      · simp only [List.forall_mem_append]
        exact ⟨⟨fun b member => .inl (List.mem_takeWhile_imp member),
          fun b member => .inr (mem_options options member)⟩, letters⟩
      · obtain ⟨_ | ⟨letter, letters⟩, some_, word, -⟩ := options
        · contradiction
        · simp only [word, List.length_append, List.length_cons]
          omega
    · refine ⟨[], ?_, fun _ member => (List.not_mem_nil member).elim,
        fun _ option => absurd option options⟩
      rw [dropOptions_eq options, List.nil_append]

/-- A character that is neither a separator nor in an option stays as often as it was. -/
theorem count_echo {c : UInt8} (solid : blank c = false) (other : c ∉ ascii "-neE") (x : Bytes) :
    (echo x).count c = x.count c := by
  obtain ⟨dropped, whole, letters, -⟩ := dropOptions_split x.length x
  have none_ : dropped.count c = 0 := List.count_eq_zero.mpr fun member => by
    rcases letters c member with separator | letter
    · rw [solid] at separator
      contradiction
    · exact other letter
  have counts := congrArg (List.count c) whole
  rw [List.count_append, none_, Nat.zero_add] at counts
  rw [echo, count_echoWords solid, counts]

theorem length_echo_le_dropOptions (x : Bytes) :
    (echo x).length ≤ (dropOptions x.length x).length := length_echoWords_le .start _

theorem length_echo_le (x : Bytes) : (echo x).length ≤ x.length := by
  obtain ⟨dropped, whole, -⟩ := dropOptions_split x.length x
  have lengths := congrArg List.length whole
  have printed := length_echo_le_dropOptions x
  rw [List.length_append] at lengths
  omega

/-- `echo` changes nothing exactly if the words have one space between them and the first one is
no option. -/
theorem echo_eq_self_iff {x : Bytes} :
    echo x = x ↔ SingleSpaced x ∧ ¬ IsOptions (firstWord x) := by
  rw [← echoWords_eq_self_iff]
  by_cases options : IsOptions (firstWord x)
  · refine iff_of_false (fun same => ?_) fun both => both.2 options
    obtain ⟨dropped, whole, -, some_⟩ := dropOptions_split x.length x
    have lengths := congrArg List.length whole
    have printed := length_echo_le_dropOptions x
    have word : x.length ≠ 0 := fun none_ => options.ne_nil (by
      rw [List.length_eq_zero_iff.mp none_]
      rfl)
    have two := some_ word options
    rw [same] at printed
    rw [List.length_append] at lengths
    omega
  · rw [echo, dropOptions_eq options]
    exact (and_iff_left options).symm

example : echo (ascii "-n www.example.com") = ascii "www.example.com" := by decide

/-- Options end before a character that is neither a separator nor in an option. -/
theorem dropOptions_append_cons {b : UInt8} (solid : blank b = false) (other : b ∉ ascii "-neE")
    (n : ℕ) (s t : Bytes) : ∃ s', s' <:+ s ∧ dropOptions n (s ++ b :: t) = s' ++ b :: t ∧
      ((∀ c ∈ s, blank c = false) → s' = s) := by
  by_cases options : IsOptions (firstWord (s ++ b :: t))
  · have separated (solid_ : ∀ c ∈ s, blank c = false) : False := by
      have inside : b ∈ firstWord (s ++ b :: t) := by
        rw [firstWord_append_solid solid_ solid]
        simp
      exact other (mem_options options inside)
    obtain ⟨dropped, whole, letters, -⟩ := dropOptions_split n (s ++ b :: t)
    obtain ⟨more, all, rest⟩ | ⟨s', rfl, rest⟩ := List.append_eq_append_iff.mp whole
    · cases more with
      | nil =>
        exact ⟨[], List.nil_suffix, rest.symm, fun solid_ => (separated solid_).elim⟩
      | cons c more =>
        obtain rfl := (List.cons.inj rest).1
        rcases letters b (by rw [all]; simp) with separator | letter
        · rw [solid] at separator
          contradiction
        · exact absurd letter other
    · exact ⟨s', List.suffix_append dropped s', rest, fun solid_ => (separated solid_).elim⟩
  · exact ⟨s, List.suffix_rfl, dropOptions_eq options n, fun _ => rfl⟩

end Options

end Shell

end MerlinC.Model
