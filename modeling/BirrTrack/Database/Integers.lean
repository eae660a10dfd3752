import BirrTrack.Foundation.Radix

/-! # Integers as the database reads them

The texts that PostgreSQL takes for an integer: decimal digits, or hexadecimal, octal or binary
ones after their mark, with single underscores between digits, a sign before them and blanks
around them. `IsInteger` is the grammar and `readInteger` the reader; they agree.
-/

namespace BirrTrack.Database

open Radix

/-- White space as C's `isspace` knows it. -/
def isSpace (c : Char) : Bool := c ∈ [' ', '\t', '\n', '\x0B', '\x0C', '\r']

/-- The base that a letter after a leading zero marks. -/
def markedBase (mark : Char) : Option ℕ :=
  if mark = 'x' ∨ mark = 'X' then some 16
  else if mark = 'o' ∨ mark = 'O' then some 8
  else if mark = 'b' ∨ mark = 'B' then some 2
  else none

/-! ## The grammar -/

/-- Decimal digits, or those of a marked base. Only after a mark an underscore comes first. -/
inductive IsMagnitude : List Char → ℕ → Prop
  | decimal {run : List Char} (digits : IsRun 10 run) (first : run.head? ≠ some '_') :
      IsMagnitude run (value 10 run)
  | marked {mark : Char} {base : ℕ} {run : List Char} (known : markedBase mark = some base)
      (digits : IsRun base run) : IsMagnitude ('0' :: mark :: run) (value base run)

inductive IsSigned : List Char → ℤ → Prop
  | unsigned {text : List Char} {n : ℕ} (magnitude : IsMagnitude text n) : IsSigned text n
  | plus {text : List Char} {n : ℕ} (magnitude : IsMagnitude text n) : IsSigned ('+' :: text) n
  | minus {text : List Char} {n : ℕ} (magnitude : IsMagnitude text n) : IsSigned ('-' :: text) (-n)

/-- A signed integer with blanks around it. -/
def IsInteger (text : List Char) (n : ℤ) : Prop :=
  ∃ front body back, text = front ++ (body ++ back) ∧ front.all isSpace = true ∧
    back.all isSpace = true ∧ IsSigned body n

/-! ## The reader -/

def readDecimal (text : List Char) : Option ℕ :=
  if text.head? = some '_' then none else digitsIn isSpace 10 text

def readMagnitude : List Char → Option ℕ
  | zero :: mark :: run =>
      if zero = '0' then
        (markedBase mark).elim (readDecimal (zero :: mark :: run)) (digitsIn isSpace · run)
      else readDecimal (zero :: mark :: run)
  | text => readDecimal text

def readSigned : List Char → Option ℤ
  | [] => none
  | sign :: text =>
      if sign = '-' then (readMagnitude text).map fun n : ℕ => -(n : ℤ)
      else if sign = '+' then (readMagnitude text).map fun n : ℕ => (n : ℤ)
      else (readMagnitude (sign :: text)).map fun n : ℕ => (n : ℤ)

def readInteger (text : List Char) : Option ℤ := readSigned (text.dropWhile isSpace)

example : readInteger " 0x_2A\t".toList = some 42 ∧ readInteger "1__0".toList = none := by
  decide +kernel

/-! ## They agree -/

variable {text : List Char} {n : ℕ}

theorem not_inRun_of_isSpace {base : ℕ} {c : Char} (space : isSpace c = true) :
    inRun base c = false := by
  have none : hexDigit c = none ∧ c ≠ '_' := by
    simp only [isSpace, List.mem_cons, List.not_mem_nil, or_false, decide_eq_true_eq] at space
    rcases space with rfl | rfl | rfl | rfl | rfl | rfl <;> decide
  simp only [inRun, none.1, none.2, Option.any_none, Bool.false_eq_true, or_self, decide_false]

/-- A mark is no decimal digit, no underscore and no white space. -/
theorem not_inRun_of_markedBase {mark : Char} {base : ℕ} (known : markedBase mark = some base) :
    inRun 10 mark = false ∧ isSpace mark = false := by
  have marks : mark ∈ ['x', 'X', 'o', 'O', 'b', 'B'] := by
    by_contra other
    simp only [List.mem_cons, List.not_mem_nil, or_false, not_or] at other
    simp only [markedBase, other, or_self, ↓reduceIte, reduceCtorEq] at known
  simp only [List.mem_cons, List.not_mem_nil, or_false] at marks
  rcases marks with rfl | rfl | rfl | rfl | rfl | rfl <;> decide

/-- A decimal run is read up to the blanks behind it. -/
theorem readDecimal_eq_some :
    readDecimal text = some n ↔ ∃ run back, text = run ++ back ∧ back.all isSpace = true ∧
      IsRun 10 run ∧ run.head? ≠ some '_' ∧ n = value 10 run := by
  have heads : ∀ run back : List Char, IsRun 10 run → (run ++ back).head? = run.head? :=
    fun run back digits => List.head?_append_of_ne_nil _ digits.nonempty
  rw [readDecimal]
  refine ⟨?_, ?_⟩
  · intro read
    split at read
    next => cases read
    next first =>
      obtain ⟨run, back, rfl, digits, blank, same⟩ :=
        (digitsIn_eq_some fun c space => not_inRun_of_isSpace space).mp read
      rw [heads run back digits] at first
      exact ⟨run, back, rfl, blank, digits, first, same⟩
  · rintro ⟨run, back, rfl, blank, digits, first, same⟩
    rw [heads run back digits, if_neg first]
    exact (digitsIn_eq_some fun c space => not_inRun_of_isSpace space).mpr
      ⟨run, back, rfl, digits, blank, same⟩

/-- So is a magnitude of any base. -/
theorem readMagnitude_eq_some :
    readMagnitude text = some n ↔
      ∃ body back, text = body ++ back ∧ back.all isSpace = true ∧ IsMagnitude body n := by
  refine ⟨?_, ?_⟩
  · intro read
    have plain : ∀ text, readDecimal text = some n →
        ∃ body back, text = body ++ back ∧ back.all isSpace = true ∧ IsMagnitude body n := by
      intro text read
      obtain ⟨run, back, rfl, blank, digits, first, rfl⟩ := readDecimal_eq_some.mp read
      exact ⟨run, back, rfl, blank, .decimal digits first⟩
    unfold readMagnitude at read
    split at read
    next zero mark run =>
      split at read
      next zero =>
        subst zero
        cases known : markedBase mark with
        | none =>
            rw [known] at read
            exact plain _ read
        | some base =>
            rw [known] at read
            obtain ⟨digits, back, rfl, isRun, blank, rfl⟩ :=
              (digitsIn_eq_some fun c space => not_inRun_of_isSpace space).mp read
            exact ⟨'0' :: mark :: digits, back, rfl, blank, .marked known isRun⟩
      next => exact plain _ read
    next => exact plain _ read
  · rintro ⟨body, back, rfl, blank, magnitude⟩
    cases magnitude with
    | @decimal run digits first =>
        have read : readDecimal (body ++ back) = some (value 10 body) :=
          readDecimal_eq_some.mpr ⟨body, back, rfl, blank, digits, first, rfl⟩
        unfold readMagnitude
        split
        next zero mark rest same =>
          rw [← same]
          split
          next zero =>
            -- The second character is one of the run or of the blanks after it, so no mark.
            have unmarked : markedBase mark = none := by
              rw [Option.eq_none_iff_forall_ne_some]
              intro base known
              obtain ⟨noDigit, noSpace⟩ := not_inRun_of_markedBase known
              have member : mark ∈ body ++ back := same ▸ by simp
              rcases List.mem_append.mp member with inside | behind
              · exact absurd ((digits.all mark inside).symm.trans noDigit) (by decide)
              · have isBlank := List.all_eq_true.mp blank mark behind
                exact absurd (isBlank.symm.trans noSpace) (by decide)
            rw [unmarked]
            exact read
          next => exact read
        next => exact read
    | @marked mark base run known digits =>
        have read := (digitsIn_eq_some fun c space => not_inRun_of_isSpace space).mpr
          ⟨run, back, rfl, digits, blank, rfl⟩
        simp only [readMagnitude, List.cons_append, ↓reduceIte, known]
        exact read

/-- A magnitude begins with a decimal digit. -/
theorem IsMagnitude.exists_cons {body : List Char} (magnitude : IsMagnitude body n) :
    ∃ c rest, body = c :: rest ∧ inRun 10 c = true := by
  cases magnitude with
  | decimal digits first =>
      obtain ⟨c, rest, rfl⟩ := List.exists_cons_of_ne_nil digits.nonempty
      exact ⟨c, rest, rfl, digits.all c List.mem_cons_self⟩
  | marked known digits => exact ⟨'0', _, rfl, by decide⟩

/-- So is a magnitude with a sign. -/
theorem readSigned_eq_some {n : ℤ} :
    readSigned text = some n ↔
      ∃ body back, text = body ++ back ∧ back.all isSpace = true ∧ IsSigned body n := by
  refine ⟨?_, ?_⟩
  · intro read
    cases text with
    | nil => cases read
    | cons sign text =>
        rw [readSigned] at read
        split at read
        next minus =>
          obtain ⟨m, magnitude, rfl⟩ := Option.map_eq_some_iff.mp read
          obtain ⟨body, back, rfl, blank, number⟩ := readMagnitude_eq_some.mp magnitude
          exact ⟨'-' :: body, back, minus ▸ rfl, blank, .minus number⟩
        next =>
          split at read
          next plus =>
            obtain ⟨m, magnitude, rfl⟩ := Option.map_eq_some_iff.mp read
            obtain ⟨body, back, rfl, blank, number⟩ := readMagnitude_eq_some.mp magnitude
            exact ⟨'+' :: body, back, plus ▸ rfl, blank, .plus number⟩
          next =>
            obtain ⟨m, magnitude, rfl⟩ := Option.map_eq_some_iff.mp read
            obtain ⟨body, back, split, blank, number⟩ := readMagnitude_eq_some.mp magnitude
            exact ⟨body, back, split, blank, .unsigned number⟩
  · rintro ⟨body, back, rfl, blank, signed⟩
    cases signed with
    | @unsigned text m magnitude =>
        obtain ⟨c, rest, rfl, digit⟩ := magnitude.exists_cons
        have minus : c ≠ '-' := by
          rintro rfl
          cases digit
        have plus : c ≠ '+' := by
          rintro rfl
          cases digit
        have read := readMagnitude_eq_some.mpr ⟨_, back, rfl, blank, magnitude⟩
        rw [List.cons_append] at read ⊢
        rw [readSigned, if_neg minus, if_neg plus, read, Option.map_some]
    | @plus text m magnitude =>
        rw [List.cons_append, readSigned, if_neg (by decide), if_pos rfl,
          readMagnitude_eq_some.mpr ⟨_, back, rfl, blank, magnitude⟩, Option.map_some]
    | @minus text m magnitude =>
        rw [List.cons_append, readSigned, if_pos rfl,
          readMagnitude_eq_some.mpr ⟨_, back, rfl, blank, magnitude⟩, Option.map_some]

theorem IsSigned.exists_cons {body : List Char} {n : ℤ} (signed : IsSigned body n) :
    ∃ c rest, body = c :: rest ∧ isSpace c = false := by
  cases signed with
  | unsigned magnitude =>
      obtain ⟨c, rest, rfl, digit⟩ := magnitude.exists_cons
      refine ⟨c, rest, rfl, ?_⟩
      by_contra space
      rw [Bool.not_eq_false] at space
      exact absurd (digit.symm.trans (not_inRun_of_isSpace space)) (by decide)
  | plus magnitude => exact ⟨'+', _, rfl, by decide⟩
  | minus magnitude => exact ⟨'-', _, rfl, by decide⟩

/-- The reader takes exactly the texts of the grammar, with their value. -/
theorem readInteger_eq_some {n : ℤ} : readInteger text = some n ↔ IsInteger text n := by
  refine ⟨?_, ?_⟩
  · intro read
    obtain ⟨body, back, split, blank, signed⟩ := readSigned_eq_some.mp read
    refine ⟨text.takeWhile isSpace, body, back, ?_, ?_, blank, signed⟩
    · rw [← split, List.takeWhile_append_dropWhile]
    · exact List.all_takeWhile
  · rintro ⟨front, body, back, rfl, blank, blank', signed⟩
    obtain ⟨c, rest, rfl, noSpace⟩ := signed.exists_cons
    rw [readInteger, List.dropWhile_append_of_pos (List.all_eq_true.mp blank), List.cons_append,
      List.dropWhile_cons, noSpace]
    exact readSigned_eq_some.mpr ⟨_, back, rfl, blank', signed⟩

/-- The digits of a natural number. -/
theorem readInteger_toDigits (n : ℕ) : readInteger (Nat.toDigits 10 n) = some (n : ℤ) := by
  have digits : ∀ c ∈ Nat.toDigits 10 n, c.isDigit = true := Decimal.isDigit_of_mem_toDigits
  have first : (Nat.toDigits 10 n).head? ≠ some '_' := fun head =>
    ne_underscore_of_isDigit (digits _ (List.mem_of_mem_head? head)) rfl
  have magnitude := IsMagnitude.decimal (isRun_of_digits Nat.toDigits_ne_nil digits) first
  rw [value_of_digits digits, Decimal.value_toDigits] at magnitude
  exact readInteger_eq_some.mpr ⟨[], _, [], by simp, rfl, rfl, .unsigned magnitude⟩

end BirrTrack.Database
