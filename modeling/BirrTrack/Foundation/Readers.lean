import BirrTrack.Foundation.Decimal

/-! # Readers of texts

A reader takes a text from left to right, and either fails or has a result and the rest of the
text. The readers here take single symbols and numbers of a fixed width, and read back what
`Decimal.padded` writes.
-/

namespace Readers

/-- A reader of a text from left to right. -/
abbrev Reader := StateT (List Char) Option

/-- Skip a symbol if it comes next, and tell whether it did. -/
def skip (symbol : Char) : Reader Bool
  | [] => some (false, [])
  | next :: rest => if next = symbol then some (true, rest) else some (false, next :: rest)

/-- Skip one of several symbols if it comes next, and tell whether it did. -/
def skipAny (symbols : List Char) : Reader Bool
  | [] => some (false, [])
  | next :: rest => if next ∈ symbols then some (true, rest) else some (false, next :: rest)

/-- Tell whether a digit comes next. -/
def digitNext : Reader Bool := fun text => some (text.head?.any Char.isDigit, text)

/-- A number of exactly `width` digits. -/
def number (width : ℕ) : Reader ℕ := fun text =>
  let digits := text.take width
  if digits.length = width ∧ digits.all Char.isDigit = true then
    some (Decimal.value digits, text.drop width)
  else none

def numberIn (low high : ℕ) : Reader ℕ := do
  let n ← number 2
  guard (low ≤ n ∧ n ≤ high)
  return n

/-- All the digits that come next. -/
def digits : Reader (List Char) := fun text =>
  some (text.takeWhile Char.isDigit, text.dropWhile Char.isDigit)

def expect (symbol : Char) : Reader Unit := do guard (← skip symbol)

/-- The result of a reader that takes the whole text. -/
def whole {α : Type} (reader : Reader α) (text : List Char) : Option α :=
  (reader text).bind fun read => if read.2 = [] then some read.1 else none

variable {rest : List Char}

/-- A second reader goes on where the first one stopped. -/
theorem reader_bind {α β : Type} (first : Reader α) (second : α → Reader β) (text : List Char) :
    (first >>= second) text = (first text).bind fun read => second read.1 read.2 := rfl

theorem reader_pure {α : Type} (a : α) (text : List Char) :
    (pure a : Reader α) text = some (a, text) := rfl

/-- A check that holds reads nothing. -/
theorem reader_guard {p : Prop} [Decidable p] (holds : p) (text : List Char) :
    (guard p : Reader Unit) text = some ((), text) := by
  rw [guard, if_pos holds]
  rfl

/-- A reader that stops at the end has read the whole text. -/
theorem whole_eq_some {α : Type} {reader : Reader α} {text : List Char} {a : α}
    (reads : reader text = some (a, [])) : whole reader text = some a := by
  rw [whole, reads, Option.bind_some, if_pos rfl]

/-- A symbol that stands there is skipped. -/
@[simp] theorem skip_self (symbol : Char) : skip symbol (symbol :: rest) = some (true, rest) := by
  simp only [skip, ↓reduceIte]

/-- Before another character nothing is skipped. -/
theorem skip_ne {symbol next : Char} (other : next ≠ symbol) :
    skip symbol (next :: rest) = some (false, next :: rest) := by
  simp only [skip, other, ↓reduceIte]

/-- One of the listed symbols is skipped. -/
theorem skipAny_of_mem {symbols : List Char} {next : Char} (listed : next ∈ symbols) :
    skipAny symbols (next :: rest) = some (true, rest) := by
  simp only [skipAny, listed, ↓reduceIte]

/-- Before a character that is not listed nothing is skipped. -/
theorem skipAny_of_notMem {symbols : List Char} {next : Char} (other : next ∉ symbols) :
    skipAny symbols (next :: rest) = some (false, next :: rest) := by
  simp only [skipAny, other, ↓reduceIte]

/-- A symbol that is asked for and stands there is read. -/
theorem expect_self (symbol : Char) : expect symbol (symbol :: rest) = some ((), rest) := by
  rw [expect, reader_bind, skip_self]
  rfl

/-! ## Numbers of a fixed width -/

/-- A number of at least one digit does not start with a symbol that is none. -/
theorem skip_padded {symbol : Char} (notDigit : symbol.isDigit = false) (width n : ℕ) :
    skip symbol (Decimal.padded (width + 1) n ++ rest) =
      some (false, Decimal.padded (width + 1) n ++ rest) := by
  obtain ⟨next, digits, split⟩ : ∃ next digits, Decimal.padded (width + 1) n = next :: digits :=
    List.exists_cons_of_length_pos (by rw [Decimal.length_padded]; exact Nat.succ_pos width)
  have isDigit : next.isDigit = true :=
    Decimal.isDigit_of_mem_padded (by rw [split]; exact List.mem_cons_self)
  rw [split, List.cons_append]
  apply skip_ne
  rintro rfl
  rw [notDigit] at isDigit
  cases isDigit

/-- A padded number is read back. -/
theorem number_padded {width n : ℕ} (fits : n < 10 ^ width) :
    number width (Decimal.padded width n ++ rest) = some (n, rest) := by
  have front : (Decimal.padded width n ++ rest).take width = Decimal.padded width n := by
    rw [List.take_append_of_le_length (by rw [Decimal.length_padded]),
      List.take_of_length_le (by rw [Decimal.length_padded])]
  have back : (Decimal.padded width n ++ rest).drop width = rest := by
    rw [List.drop_append_of_le_length (by rw [Decimal.length_padded]),
      List.drop_of_length_le (by rw [Decimal.length_padded]), List.nil_append]
  have all : (Decimal.padded width n).all Char.isDigit = true :=
    List.all_eq_true.mpr fun c member => Decimal.isDigit_of_mem_padded member
  simp only [number, front, back, Decimal.length_padded, all, and_self, ↓reduceIte,
    Decimal.value_padded_of_lt fits]

/-- A printed number of two digits within the bounds is read back. -/
theorem numberIn_padded {low high n : ℕ} (above : low ≤ n) (below : n ≤ high) (fits : n < 100) :
    numberIn low high (Decimal.padded 2 n ++ rest) = some (n, rest) := by
  rw [numberIn, reader_bind, number_padded fits, Option.bind_some, reader_bind,
    reader_guard ⟨above, below⟩]
  rfl

/-- All digits of a text, where no digit follows them. -/
theorem digits_append {run : List Char} (all : ∀ c ∈ run, c.isDigit = true)
    (stops : ∀ c ∈ rest.head?, c.isDigit = false) : digits (run ++ rest) = some (run, rest) := by
  obtain ⟨taken, dropped⟩ := Decimal.takeWhile_isDigit_append all stops
  rw [digits, taken, dropped]

/-- The digits of a padded number end where the next symbol is none. -/
theorem digits_padded (width n : ℕ) (stops : ∀ c ∈ rest.head?, c.isDigit = false) :
    digits (Decimal.padded width n ++ rest) = some (Decimal.padded width n, rest) := by
  exact digits_append (fun c member => Decimal.isDigit_of_mem_padded member) stops

/-! ## What was read -/

section Read

variable {α β : Type} {text : List Char} {width low high n : ℕ}

/-- Two readers in a row read what each of them reads. -/
theorem reader_bind_eq_some {first : Reader α} {second : α → Reader β} {b : β} :
    (first >>= second) text = some (b, rest) ↔
      ∃ a middle, first text = some (a, middle) ∧ second a middle = some (b, rest) := by
  rw [reader_bind, Option.bind_eq_some_iff, Prod.exists]

theorem reader_pure_eq_some {a b : α} :
    (pure a : Reader α) text = some (b, rest) ↔ b = a ∧ rest = text := by
  rw [reader_pure, Option.some_inj, Prod.mk.injEq, eq_comm, @eq_comm _ text]

/-- A check that succeeds holds. -/
theorem reader_guard_eq_some {p : Prop} [Decidable p] {nothing : Unit} :
    (guard p : Reader Unit) text = some (nothing, rest) ↔ p ∧ rest = text := by
  by_cases holds : p
  · rw [reader_guard holds, Option.some_inj, Prod.mk.injEq, and_iff_right rfl, and_iff_right holds,
      eq_comm]
  · rw [guard, if_neg holds]
    exact iff_of_false (fun impossible => by cases impossible) fun both => holds both.1

/-- A symbol is skipped exactly if it comes next. -/
theorem skip_eq_some {symbol : Char} {came : Bool} :
    skip symbol text = some (came, rest) ↔
      came = true ∧ text = symbol :: rest ∨
        came = false ∧ text.head? ≠ some symbol ∧ rest = text := by
  cases text with
  | nil => simp [skip, eq_comm]
  | cons next later =>
      by_cases same : next = symbol
      · subst same
        simp [eq_comm]
      · simp [skip_ne same, Ne.symm same, eq_comm]

/-- No other symbol is skipped. -/
theorem skip_of_head {symbol : Char} (other : text.head? ≠ some symbol) :
    skip symbol text = some (false, text) :=
  skip_eq_some.mpr (Or.inr ⟨rfl, other, rfl⟩)

/-- What is expected is there. -/
theorem expect_eq_some {symbol : Char} {nothing : Unit} :
    expect symbol text = some (nothing, rest) ↔ text = symbol :: rest := by
  rw [expect, reader_bind_eq_some]
  simp only [skip_eq_some, reader_guard_eq_some]
  constructor
  · rintro ⟨came, middle, ⟨-, rfl⟩ | ⟨rfl, -⟩, held, rfl⟩
    · rfl
    · cases held
  · rintro rfl
    exact ⟨true, rest, Or.inl ⟨rfl, rfl⟩, rfl, rfl⟩

/-- A number of a width is as many digits. -/
theorem exists_digits_of_number (read : number width text = some (n, rest)) :
    ∃ run, text = run ++ rest ∧ run.length = width ∧ (∀ c ∈ run, c.isDigit = true) ∧
      n = Decimal.value run := by
  simp only [number] at read
  split at read
  next conditions =>
    cases read
    exact ⟨text.take width, (List.take_append_drop width text).symm, conditions.1,
      List.all_eq_true.mp conditions.2, rfl⟩
  next => cases read

/-- A number within bounds is a number of two digits. -/
theorem numberIn_eq_some :
    numberIn low high text = some (n, rest) ↔
      number 2 text = some (n, rest) ∧ low ≤ n ∧ n ≤ high := by
  simp only [numberIn, reader_bind_eq_some, reader_guard_eq_some, reader_pure_eq_some]
  constructor
  · rintro ⟨m, middle, found, _, _, ⟨bounds, rfl⟩, rfl, rfl⟩
    exact ⟨found, bounds⟩
  · rintro ⟨found, bounds⟩
    exact ⟨n, rest, found, (), rest, ⟨bounds, rfl⟩, rfl, rfl⟩

end Read

end Readers
