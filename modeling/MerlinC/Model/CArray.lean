import MerlinC.Model.EvBuffer

/-! # Character arrays of C

An array has the size it was declared with, and a cell holds a value only once it has been
written. Writing past the end has no result, and neither has reading the array as a string when
no terminating NUL follows the initialised cells.
-/

namespace MerlinC.Model

/-- The bytes of a literal that is plain ASCII. -/
def ascii (text : String) : Bytes := text.toList.map fun c => UInt8.ofNat c.toNat

/-- `char name[size]`. -/
structure CArray (size : ℕ) where
  cells : List (Option UInt8)
  sized : cells.length = size
deriving DecidableEq

namespace CArray

variable {size : ℕ}

/-- An array without an initialiser. -/
def uninit (size : ℕ) : CArray size := ⟨List.replicate size none, List.length_replicate⟩

/-- `char name[size] = {0}`. -/
def zeroed (size : ℕ) : CArray size := ⟨List.replicate size (some 0), List.length_replicate⟩

/-- Store bytes from an index on. -/
def write (a : CArray size) (index : ℕ) (data : Bytes) : Option (CArray size) :=
  if fits : index + data.length ≤ size then
    some {
      cells := a.cells.take index ++ data.map some ++ a.cells.drop (index + data.length)
      sized := by
        simp only [List.length_append, List.length_take, List.length_map, List.length_drop, a.sized]
        omega }
  else none

/-- The initialised bytes before the first NUL. -/
def scan : List (Option UInt8) → Option Bytes
  | [] => none
  | none :: _ => none
  | some c :: rest => if c = 0 then some [] else (scan rest).map (c :: ·)

/-- The array as a function that takes a string finds it. -/
def string? (a : CArray size) : Option Bytes := scan a.cells

def strcpy (a : CArray size) (src : Bytes) : Option (CArray size) := a.write 0 (src ++ [0])

def strcat (a : CArray size) (src : Bytes) : Option (CArray size) := do
  let text ← a.string?
  a.write text.length (src ++ [0])

theorem write_eq {a : CArray size} {index : ℕ} {data : Bytes}
    (fits : index + data.length ≤ size) : ∃ a', a.write index data = some a' ∧
      a'.cells = a.cells.take index ++ data.map some ++ a.cells.drop (index + data.length) :=
  ⟨_, dif_pos fits, rfl⟩

theorem scan_append {text : Bytes} (plain : 0 ∉ text) (rest : List (Option UInt8)) :
    scan (text.map some ++ rest) = (scan rest).map (text ++ ·) := by
  induction text with
  | nil => cases h : scan rest <;> simp [h]
  | cons c text ih =>
    obtain ⟨other, plain⟩ := List.ne_and_not_mem_of_not_mem_cons plain
    rw [List.map_cons, List.cons_append, scan, if_neg (Ne.symm other), ih plain, Option.map_map]
    rfl

/-- A string ends at the first NUL, in what was written or after it. -/
theorem isSome_scan_append (text : Bytes) (rest : List (Option UInt8)) :
    (scan (text.map some ++ rest)).isSome ↔ 0 ∈ text ∨ (scan rest).isSome := by
  induction text with
  | nil => simp
  | cons c text ih =>
    rw [List.map_cons, List.cons_append, scan]
    split
    · next nul => simp [nul]
    · next other => rw [Option.isSome_map, ih, List.mem_cons, or_iff_right (Ne.symm other)]

/-- A terminated text at the front of the array is its string. -/
theorem string?_eq {a : CArray size} {text : Bytes} (rest : List (Option UInt8))
    (cells : a.cells = text.map some ++ some 0 :: rest) (plain : 0 ∉ text) :
    a.string? = some text := by
  rw [string?, cells, scan_append plain, scan, if_pos rfl, Option.map_some, List.append_nil]

/-- Appending to a terminated text appends to its string, if there is room for the terminator. -/
theorem strcat_eq {a : CArray size} {text : Bytes} (src : Bytes) {rest : List (Option UInt8)}
    (cells : a.cells = text.map some ++ some 0 :: rest) (plain : 0 ∉ text)
    (fits : text.length + src.length < size) :
    ∃ a' rest', a.strcat src = some a' ∧
      a'.cells = (text ++ src).map some ++ some 0 :: rest' := by
  have room : text.length + (src ++ [0]).length ≤ size := by simp; omega
  obtain ⟨a', written, cells'⟩ := write_eq (a := a) room
  refine ⟨a', a.cells.drop (text.length + (src ++ [0]).length), ?_, ?_⟩
  · rw [strcat, string?_eq rest cells plain]
    exact written
  · rw [cells', cells]
    simp

/-- Without that room the terminator is written past the end. -/
theorem strcat_eq_none {a : CArray size} {text : Bytes} (src : Bytes) {rest : List (Option UInt8)}
    (cells : a.cells = text.map some ++ some 0 :: rest) (plain : 0 ∉ text)
    (long : size ≤ text.length + src.length) : a.strcat src = none := by
  have past : ¬ text.length + (src ++ [0]).length ≤ size := by simp; omega
  rw [strcat, string?_eq rest cells plain]
  exact dif_neg past

/-- A copied string starts a terminated text. -/
theorem strcpy_eq (a : CArray size) (src : Bytes) (fits : src.length < size) :
    ∃ a' rest, a.strcpy src = some a' ∧ a'.cells = src.map some ++ some 0 :: rest := by
  have room : 0 + (src ++ [0]).length ≤ size := by simp; omega
  obtain ⟨a', written, cells'⟩ := write_eq (a := a) room
  exact ⟨a', a.cells.drop (0 + (src ++ [0]).length), written, by simp [cells']⟩

end CArray

end MerlinC.Model
