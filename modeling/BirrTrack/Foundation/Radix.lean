import BirrTrack.Foundation.Decimal
import Mathlib.Data.List.Chain

/-! # Digits of a base

Runs of digits in a base up to sixteen, with single underscores between them, as the integer
literals of several languages have them. `digitsIn` reads a run and the blanks after it.
-/

namespace Radix

def hexDigit (c : Char) : Option ℕ :=
  if c.isDigit then some (c.toNat - '0'.toNat)
  else if 'a' ≤ c ∧ c ≤ 'f' then some (c.toNat - 'a'.toNat + 10)
  else if 'A' ≤ c ∧ c ≤ 'F' then some (c.toNat - 'A'.toNat + 10)
  else none

/-- An underscore or a digit of the base. -/
def inRun (base : ℕ) (c : Char) : Bool := c = '_' ∨ (hexDigit c).any (· < base)

/-- A text of digits in which a digit follows every underscore. -/
structure IsRun (base : ℕ) (run : List Char) : Prop where
  nonempty : run ≠ []
  all : ∀ c ∈ run, inRun base c = true
  between : run.IsChain fun first second => first = '_' → second ≠ '_'
  ends : run.getLast? ≠ some '_'

instance (base : ℕ) : DecidablePred (IsRun base) := fun run =>
  decidable_of_iff (run ≠ [] ∧ run.all (inRun base) = true ∧
      (run.IsChain fun first second => first = '_' → second ≠ '_') ∧ run.getLast? ≠ some '_') <| by
    constructor
    · intro conditions
      obtain ⟨nonempty, all, between, ends⟩ := conditions
      exact ⟨nonempty, List.all_eq_true.mp all, between, ends⟩
    · intro run
      exact ⟨run.nonempty, List.all_eq_true.mpr run.all, run.between, run.ends⟩

/-- The number that a run denotes. -/
def value (base : ℕ) (run : List Char) : ℕ :=
  (run.filter (· ≠ '_')).foldl (fun n c => base * n + (hexDigit c).getD 0) 0

/-- The number of a run, with nothing but blanks behind it. -/
def digitsIn (isBlank : Char → Bool) (base : ℕ) (text : List Char) : Option ℕ :=
  let run := text.takeWhile (inRun base)
  let rest := text.dropWhile (inRun base)
  if IsRun base run ∧ rest.all isBlank = true then some (value base run) else none

/-- Digits are read up to the blanks at the end, which must be all that is left. -/
theorem digitsIn_eq_some {isBlank : Char → Bool} {base n : ℕ} {text : List Char}
    (apart : ∀ c, isBlank c = true → inRun base c = false) :
    digitsIn isBlank base text = some n ↔
      ∃ run back, text = run ++ back ∧ IsRun base run ∧ back.all isBlank = true ∧
        n = value base run := by
  rw [digitsIn]
  refine ⟨?_, ?_⟩
  · intro read
    split at read
    next conditions =>
      exact ⟨_, _, List.takeWhile_append_dropWhile.symm, conditions.1, conditions.2,
        (Option.some.inj read).symm⟩
    next => cases read
  · rintro ⟨run, back, rfl, digits, blank, rfl⟩
    have stops : back.takeWhile (inRun base) = [] ∧ back.dropWhile (inRun base) = back := by
      cases back with
      | nil => exact ⟨rfl, rfl⟩
      | cons c back =>
          have other := apart c (List.all_eq_true.mp blank c List.mem_cons_self)
          simp only [List.takeWhile_cons, List.dropWhile_cons, other, Bool.false_eq_true,
            ↓reduceIte, and_self]
    rw [List.takeWhile_append_of_pos digits.all, List.dropWhile_append_of_pos digits.all, stops.1,
      stops.2, List.append_nil]
    exact if_pos ⟨digits, blank⟩

/-! ## Decimal digits -/

/-- A decimal digit is the hexadecimal digit of the same value. -/
theorem hexDigit_of_isDigit {c : Char} (digit : c.isDigit = true) :
    hexDigit c = some (c.toNat - '0'.toNat) := if_pos digit

theorem ne_underscore_of_isDigit {c : Char} (digit : c.isDigit = true) : c ≠ '_' := by
  rintro rfl
  cases digit

/-- Decimal digits are a run. -/
theorem isRun_of_digits {run : List Char} (nonempty : run ≠ [])
    (digits : ∀ c ∈ run, c.isDigit = true) : IsRun 10 run where
  nonempty := nonempty
  all := by
    intro c member
    have small : c.toNat - '0'.toNat < 10 := by
      have bounds := (Decimal.toNat_of_isDigit (digits c member)).2
      have zero : '0'.toNat = 48 := rfl
      omega
    simp only [inRun, hexDigit_of_isDigit (digits c member), Option.any_some, small,
      decide_true, or_true]
  between := by
    refine List.isChain_iff_forall_rel_of_append_cons_cons.mpr ?_
    intro first second front back split underscore
    have member : first ∈ run := split ▸ List.mem_append_right _ List.mem_cons_self
    exact absurd underscore (ne_underscore_of_isDigit (digits first member))
  ends := fun last => ne_underscore_of_isDigit (digits _ (List.mem_of_getLast? last)) rfl

/-- In base ten the value of digits is their decimal value. -/
theorem value_of_digits {run : List Char} (digits : ∀ c ∈ run, c.isDigit = true) :
    value 10 run = Decimal.value run := by
  have all : run.filter (· ≠ '_') = run := List.filter_eq_self.mpr fun c member =>
    decide_eq_true (ne_underscore_of_isDigit (digits c member))
  rw [value, all, Decimal.value, Nat.ofDigitChars_eq_foldl]
  refine List.foldl_ext _ _ _ fun n c member => ?_
  rw [hexDigit_of_isDigit (digits c member), Option.getD_some]

end Radix
